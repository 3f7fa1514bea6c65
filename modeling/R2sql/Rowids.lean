-- Row ids: SQLite takes two rows with one row id for one row, so the laws
-- here say when the row ids of a table tell its rows apart.
import R2sql.FunctionTables
import R2sql.GrepPattern
import R2sql.Lib.Walks
import R2sql.Xrefs

namespace r2sql

open json_utils walks

/-! ## What SQLite sees -/

/-- A row as SQLite sees it: the row id and the columns. -/
abbrev Report := Option Int × List SqlValue

/-- The constraints that the xrefs table pushes down. -/
inductive XrefConstraint where
  | to_addr (addr : Int64)
  | from_addr (addr : Int64)

/-- The tables whose iterators compute a row id. -/
inductive RowidTable where
  | xrefs
  | blocks
  | instructions
  | grep

namespace RowidTable

/-- What a pushdown is given. -/
@[reducible] def Constraint : RowidTable → Type
  | xrefs => XrefConstraint
  | blocks => Int64
  | instructions => Int64
  | grep => Bytes

section
variable [Nlohmann] (be : Backend)

/-- The rows of a pushdown iterator. -/
def pushdown : (t : RowidTable) → t.Constraint → List Report
  | xrefs, .to_addr a => ((XrefsToIterator a).value be).reported XrefRowsIterator.rowid fun r =>
      (List.range 4).map r.column
  | xrefs, .from_addr a => ((XrefsFromIterator a).value be).reported XrefRowsIterator.rowid fun r =>
      (List.range 4).map r.column
  | blocks, fa => ((BlocksInFuncIterator fa).value be).reported BlocksInFuncIterator.rowid fun r =>
      (List.range 3).map r.column
  | instructions, fa => ((InsnsInFuncIterator fa).value be).reported InsnsInFuncIterator.rowid
      fun r => (List.range 6).map r.column
  | grep, pattern => ((GrepPatternIterator pattern).value be).reported GrepPatternIterator.rowid
      fun r => (List.range 6).map r.column

/-- The rows of the generator. The other two tables have none. -/
def full_scan : RowidTable → List Report
  | blocks =>
    let g := BlocksGen.value be
    (g.drain blocks_for_func be).map fun r => (BlocksGen.rowid { g with cur_ := r }, r.columns)
  | instructions =>
    let g := InsnsGen.value be
    (g.drain insns_for_func be).map fun r => (InsnsGen.rowid { g with cur_ := r }, r.columns)
  | xrefs => []
  | grep => []

/-- Two rows with the same row id have the same columns. -/
def SameRows (xs ys : List Report) : Prop := ∀ x ∈ xs, ∀ y ∈ ys, x.1 = y.1 → x.2 = y.2

/-- The row ids of the table identify its rows, in every pushdown, between any two of them, and in
the generator. -/
def Identifies (t : RowidTable) : Prop :=
  (∀ c c', SameRows (t.pushdown be c) (t.pushdown be c')) ∧
    SameRows (t.full_scan be) (t.full_scan be)

end

end RowidTable

/-! ## Row ids that come from the row -/

theorem sameRows_map_iff {Row : Type} {key : Row → Option Int} {columns : Row → List SqlValue}
    (hinj : Function.Injective columns) {rows rows' : List Row} :
    RowidTable.SameRows (rows.map fun r => (key r, columns r))
        (rows'.map fun r => (key r, columns r)) ↔
      ∀ r ∈ rows, ∀ r' ∈ rows', key r = key r' → r = r' := by
  unfold RowidTable.SameRows
  constructor
  · intro h r hr r' hr' hkey
    exact hinj (h _ (List.mem_map_of_mem hr) _ (List.mem_map_of_mem hr') hkey)
  · intro h x hx y hy hkey
    obtain ⟨r, hr, rfl⟩ := List.mem_map.mp hx
    obtain ⟨r', hr', rfl⟩ := List.mem_map.mp hy
    exact congrArg columns (h r hr r' hr' hkey)

theorem XrefRow.columns_injective : Function.Injective XrefRow.columns := by
  rintro ⟨⟩ ⟨⟩ h
  simpa [XrefRow.columns] using h

theorem BlockRow.columns_injective : Function.Injective BlockRow.columns := by
  rintro ⟨⟩ ⟨⟩ h
  simpa [BlockRow.columns] using h

theorem InsnRow.columns_injective : Function.Injective InsnRow.columns := by
  rintro ⟨⟩ ⟨⟩ h
  simpa [InsnRow.columns] using h

theorem GrepRow.columns_injective : Function.Injective GrepRow.columns := by
  rintro ⟨⟩ ⟨⟩ h
  simpa [GrepRow.columns] using h

theorem toInt_eq_iff {a b : Int64} : (some a.toInt = some b.toInt) ↔ a = b := by
  rw [Option.some.injEq, Int64.toInt_inj]

section
variable [Nlohmann] (be : Backend)

/-! ## blocks and instructions -/

theorem blocks_pushdown (fa : Int64) :
    RowidTable.blocks.pushdown be fa =
      ((blocks_for_func fa).value be).map fun r => (some r.addr.toInt, r.columns) := by
  simp only [RowidTable.pushdown, BlocksInFuncIterator, Dialogue.value_map]
  apply VecIterator.reported_by_row
  intro it r hr
  simp [BlocksInFuncIterator.rowid, hr]

theorem instructions_pushdown (fa : Int64) :
    RowidTable.instructions.pushdown be fa =
      ((insns_for_func fa).value be).map fun r => (some r.addr.toInt, r.columns) := by
  simp only [RowidTable.pushdown, InsnsInFuncIterator, Dialogue.value_map]
  apply VecIterator.reported_by_row
  intro it r hr
  simp [InsnsInFuncIterator.rowid, hr]

theorem full_scan_subset (t : RowidTable) :
    ∀ x ∈ t.full_scan be, ∃ c, x ∈ t.pushdown be c := by
  intro x hx
  cases t with
  | xrefs | grep => cases hx
  | blocks =>
    simp only [RowidTable.full_scan, BlocksGen, FuncGen.drain_make, List.map_flatMap] at hx
    obtain ⟨j, -, hj⟩ := List.mem_flatMap.mp hx
    exact ⟨i64_addr j, by rw [blocks_pushdown]; exact hj⟩
  | instructions =>
    simp only [RowidTable.full_scan, InsnsGen, FuncGen.drain_make, List.map_flatMap] at hx
    obtain ⟨j, -, hj⟩ := List.mem_flatMap.mp hx
    exact ⟨i64_addr j, by rw [instructions_pushdown]; exact hj⟩

/-- So the row ids identify the rows when they do so between pushdowns. -/
theorem identifies_iff (t : RowidTable) :
    t.Identifies be ↔ ∀ c c', RowidTable.SameRows (t.pushdown be c) (t.pushdown be c') := by
  refine ⟨And.left, fun h => ⟨h, fun x hx y hy => ?_⟩⟩
  obtain ⟨c, hc⟩ := full_scan_subset be t x hx
  obtain ⟨c', hc'⟩ := full_scan_subset be t y hy
  exact h c c' x hc y hc'

/-- The blocks that `afbj` lists for a function. -/
def block_records (fa : Int64) : List Json := (json_of_reply (be (at_addr "afbj" fa))).items

/-- The instructions that `pdfj` lists for a function. -/
def insn_records (fa : Int64) : List Json :=
  match (json_of_reply (be (at_addr "pdfj" fa))).find (Bytes.lit "ops") with
  | none => []
  | some ops => ops.items

/-- No address is a block of two functions, or has two sizes. -/
def OneBlockPerAddress : Prop :=
  ∀ fa fa', ∀ b ∈ block_records be fa, ∀ b' ∈ block_records be fa',
    i64 b (Bytes.lit "addr") = i64 b' (Bytes.lit "addr") →
      fa = fa' ∧ i64 b (Bytes.lit "size") = i64 b' (Bytes.lit "size")

/-- No address is an instruction of two functions, or reads in two ways. -/
def OneInsnPerAddress : Prop :=
  ∀ fa fa', ∀ op ∈ insn_records be fa, ∀ op' ∈ insn_records be fa', i64_addr op = i64_addr op' →
    fa = fa' ∧ i64 op (Bytes.lit "size") = i64 op' (Bytes.lit "size") ∧
      mnemonic_from_op op = mnemonic_from_op op' ∧
      str op (Bytes.lit "disasm") = str op' (Bytes.lit "disasm") ∧
      str op (Bytes.lit "bytes") = str op' (Bytes.lit "bytes")

theorem blocks_identify_iff : RowidTable.blocks.Identifies be ↔ OneBlockPerAddress be := by
  rw [identifies_iff]
  apply forall_congr'
  intro fa
  apply forall_congr'
  intro fa'
  rw [blocks_pushdown, blocks_pushdown, sameRows_map_iff BlockRow.columns_injective]
  simp only [blocks_for_func, Dialogue.value_bind, value_cmd_json, Dialogue.value_pure,
    List.forall_mem_map, toInt_eq_iff, BlockRow.mk.injEq]
  constructor
  · intro h b hb b' hb' haddr
    obtain ⟨-, hsize, hfunc⟩ := h b hb b' hb' haddr
    exact ⟨hfunc, hsize⟩
  · intro h b hb b' hb' haddr
    obtain ⟨hfunc, hsize⟩ := h b hb b' hb' haddr
    exact ⟨haddr, hsize, hfunc⟩

theorem insns_for_func_value (fa : Int64) :
    (insns_for_func fa).value be = (insn_records be fa).map fun op =>
      { addr := i64_addr op
        size := i64 op (Bytes.lit "size")
        mnemonic := mnemonic_from_op op
        disasm := str op (Bytes.lit "disasm")
        bytes := str op (Bytes.lit "bytes")
        func_addr := fa } := by
  unfold insns_for_func insn_records
  rw [Dialogue.value_bind, value_cmd_json]
  cases (json_of_reply (be (at_addr "pdfj" fa))).find (Bytes.lit "ops") <;> rfl

theorem instructions_identify_iff :
    RowidTable.instructions.Identifies be ↔ OneInsnPerAddress be := by
  rw [identifies_iff]
  apply forall_congr'
  intro fa
  apply forall_congr'
  intro fa'
  rw [instructions_pushdown, instructions_pushdown, sameRows_map_iff InsnRow.columns_injective]
  simp only [insns_for_func_value, List.forall_mem_map, toInt_eq_iff, InsnRow.mk.injEq]
  constructor
  · intro h op hop op' hop' haddr
    obtain ⟨-, hsize, hmnemonic, hdisasm, hbytes, hfunc⟩ := h op hop op' hop' haddr
    exact ⟨hfunc, hsize, hmnemonic, hdisasm, hbytes⟩
  · intro h op hop op' hop' haddr
    obtain ⟨hfunc, hsize, hmnemonic, hdisasm, hbytes⟩ := h op hop op' hop' haddr
    exact ⟨haddr, hsize, hmnemonic, hdisasm, hbytes, hfunc⟩

/-! ## xrefs -/

/-- The references in the answers to `axtj` and `axfj`, as the pushdown at the constraint reads
them. -/
def references : XrefConstraint → List XrefRow
  | .to_addr a => (json_of_reply (be (at_addr "axtj" a))).items.map fun j =>
      { from_addr := i64 j (Bytes.lit "from")
        to_addr := a
        type := str j (Bytes.lit "type")
        from_func := str j (Bytes.lit "fcn_name") }
  | .from_addr a => (json_of_reply (be (at_addr "axfj" a))).items.map
      (from_row a ((function_name_at a).value be))

/-- There is one reference from each source other than 0, and one from 0 to each target. A target of
a reference from 0 is no source. -/
structure OneReferencePerAddress : Prop where
  source : ∀ c c', ∀ r ∈ references be c, ∀ r' ∈ references be c',
    r.from_addr ≠ 0 → r.from_addr = r'.from_addr → r = r'
  target : ∀ c c', ∀ r ∈ references be c, ∀ r' ∈ references be c',
    r.from_addr = 0 → r'.from_addr = 0 → r.to_addr = r'.to_addr → r = r'
  apart : ∀ c c', ∀ r ∈ references be c, ∀ r' ∈ references be c',
    r.from_addr ≠ 0 → r'.from_addr = 0 → r.from_addr ≠ r'.to_addr

/-- The address that a row id shows. -/
def rowid_addr (r : XrefRow) : Int64 := if r.from_addr ≠ 0 then r.from_addr else r.to_addr

theorem xrefs_pushdown (c : XrefConstraint) :
    RowidTable.xrefs.pushdown be c =
      (references be c).map fun r => (some (rowid_addr r).toInt, r.columns) := by
  have hrowid : ∀ (it : VecIterator XrefRow) r, it.current = some r →
      XrefRowsIterator.rowid it = some (rowid_addr r).toInt := by
    intro it r hr
    simp [XrefRowsIterator.rowid, hr, rowid_addr]
  cases c with
  | to_addr a =>
    simp only [RowidTable.pushdown, XrefsToIterator, Dialogue.value_map]
    exact VecIterator.reported_by_row _ _ _ hrowid _
  | from_addr a =>
    simp only [RowidTable.pushdown, XrefsFromIterator, Dialogue.value_map, xrefs_from_addr_value]
    exact VecIterator.reported_by_row _ _ _ hrowid _

theorem xrefs_identify_iff : RowidTable.xrefs.Identifies be ↔ OneReferencePerAddress be := by
  have hkeys : (∀ c c', RowidTable.SameRows (RowidTable.xrefs.pushdown be c)
      (RowidTable.xrefs.pushdown be c')) ↔
        ∀ c c', ∀ r ∈ references be c, ∀ r' ∈ references be c',
          rowid_addr r = rowid_addr r' → r = r' := by
    apply forall_congr'
    intro c
    apply forall_congr'
    intro c'
    rw [xrefs_pushdown, xrefs_pushdown, sameRows_map_iff XrefRow.columns_injective]
    simp only [toInt_eq_iff]
  rw [identifies_iff, hkeys]
  constructor
  · intro h
    refine ⟨fun c c' r hr r' hr' h0 hsrc => ?_, fun c c' r hr r' hr' h0 h0' hdst => ?_,
      fun c c' r hr r' hr' h0 h0' hdst => ?_⟩
    · exact h c c' r hr r' hr' (by simp [rowid_addr, ← hsrc, h0])
    · exact h c c' r hr r' hr' (by simp [rowid_addr, h0, h0', hdst])
    · have hkey : rowid_addr r = rowid_addr r' := by
        rw [rowid_addr, rowid_addr, if_pos h0, if_neg (not_not.mpr h0'), hdst]
      exact h0 (h c c' r hr r' hr' hkey ▸ h0')
  · intro h c c' r hr r' hr' hkey
    unfold rowid_addr at hkey
    by_cases h0 : r.from_addr = 0
    · by_cases h0' : r'.from_addr = 0
      · exact h.target c c' r hr r' hr' h0 h0' (by simpa [h0, h0'] using hkey)
      · exact absurd (by simpa [h0, h0'] using hkey.symm) (h.apart c' c r' hr' r hr h0' h0)
    · by_cases h0' : r'.from_addr = 0
      · exact absurd (by simpa [h0, h0'] using hkey) (h.apart c c' r hr r' hr' h0 h0')
      · exact h.source c c' r hr r' hr' h0 (by simpa [h0, h0'] using hkey)

end

/-! ## grep -/

/-- More `%` than a text has match it whatever it is. -/
theorem plain_percents (t : Bytes) (m : Nat) (h : t.count '%'.toUInt8 < m) :
    PlainMatches (List.replicate m '%'.toUInt8) t := by
  induction t generalizing m with
  | nil => rw [plain_nil_right]; simp
  | cons c t ih =>
    obtain ⟨k, rfl⟩ := Nat.exists_eq_succ_of_ne_zero (Nat.ne_of_gt (Nat.zero_lt_of_lt h))
    rw [List.replicate_succ]
    by_cases hc : c = '%'.toUInt8
    · rw [plain_cons_taken (Or.inr hc.symm)]
      apply ih
      rw [hc, List.count_cons_self] at h
      omega
    · rw [plain_percent hc]
      exact ⟨[], List.nil_suffix, by rw [plain_nil_right]; simp⟩

/-- The test that keeps a row for a pattern. -/
def keeps (pattern : Bytes) (r : GrepRow) : Bool :=
  like_match r.name (effective_pattern pattern) ||
    like_match r.full_name (effective_pattern pattern)

theorem exists_pattern_for_all (rows : List GrepRow) :
    ∃ pattern, ∀ r ∈ rows, keeps pattern r = true := by
  obtain ⟨m, hm⟩ : ∃ m, ∀ r ∈ rows, (to_lower r.name).count '%'.toUInt8 < m := by
    induction rows with
    | nil => exact ⟨0, nofun⟩
    | cons r rows ih =>
      obtain ⟨m, hm⟩ := ih
      refine ⟨max m ((to_lower r.name).count '%'.toUInt8 + 1), fun r' hr' => ?_⟩
      rcases List.mem_cons.mp hr' with rfl | hr'
      · omega
      · have := hm r' hr'
        omega
  refine ⟨List.replicate (m + 1) '%'.toUInt8, fun r hr => ?_⟩
  have hwild : effective_pattern (List.replicate (m + 1) '%'.toUInt8) =
      List.replicate (m + 1) '%'.toUInt8 := if_pos (by simp [has_wild])
  have hlower : to_lower (List.replicate (m + 1) '%'.toUInt8) =
      List.replicate (m + 1) '%'.toUInt8 := by
    rw [to_lower, List.map_replicate]
    rfl
  rw [keeps, hwild, Bool.or_eq_true, like_match_iff, hlower]
  exact Or.inl (plain_percents _ _ (Nat.lt_succ_of_lt (hm r hr)))

section
variable [Nlohmann] (be : Backend)

/-- Every pattern that matches a row matches all rows before it. -/
def PatternsKeepTheFirstRows : Prop :=
  ∀ pattern, (build_grep_rows.value be).Pairwise fun r r' => keeps pattern r' → keeps pattern r

theorem grep_pushdown (pattern : Bytes) :
    RowidTable.grep.pushdown be pattern =
      ((build_grep_rows.value be).filter (keeps pattern)).zipIdx.map fun p =>
        (some (p.2 : Int), p.1.columns) := by
  simp only [RowidTable.pushdown, GrepPatternIterator, Dialogue.value_bind, Dialogue.value_pure]
  rw [VecIterator.reported_make]
  rfl

theorem mem_grep_pushdown {pattern : Bytes} {x : Report} :
    x ∈ RowidTable.grep.pushdown be pattern ↔
      ∃ (i : Nat) (r : GrepRow), ((build_grep_rows.value be).filter (keeps pattern))[i]? = some r ∧
        x = (some (i : Int), r.columns) := by
  rw [grep_pushdown, List.mem_map]
  constructor
  · rintro ⟨⟨r, i⟩, hmem, rfl⟩
    exact ⟨i, r, List.mem_zipIdx_iff_getElem?.mp hmem, rfl⟩
  · rintro ⟨i, r, hget, rfl⟩
    exact ⟨(r, i), List.mem_zipIdx_iff_getElem?.mpr hget, rfl⟩

theorem grep_identifies_iff : RowidTable.grep.Identifies be ↔ PatternsKeepTheFirstRows be := by
  rw [identifies_iff]
  constructor
  · -- A pattern that keeps every row shows each row at its own index.
    intro h pattern
    obtain ⟨every, hevery⟩ := exists_pattern_for_all (build_grep_rows.value be)
    have hall : (build_grep_rows.value be).filter (keeps every) = build_grep_rows.value be :=
      List.filter_eq_self.mpr hevery
    rw [← filter_prefix_iff, List.prefix_iff_getElem?]
    intro i hi
    have hlen : i < (build_grep_rows.value be).length :=
      lt_of_lt_of_le hi (List.length_filter_le _ _)
    have hget : (build_grep_rows.value be)[i]? = some (build_grep_rows.value be)[i] :=
      List.getElem?_eq_getElem hlen
    have hrow : ((build_grep_rows.value be).filter (keeps pattern))[i].columns =
        (build_grep_rows.value be)[i].columns :=
      h pattern every (some (i : Int), _)
        ((mem_grep_pushdown be).mpr ⟨i, _, List.getElem?_eq_getElem hi, rfl⟩) (some (i : Int), _)
        ((mem_grep_pushdown be).mpr ⟨i, _, by rw [hall]; exact hget, rfl⟩) rfl
    rw [GrepRow.columns_injective hrow]
    exact hget
  · intro h p q x hx y hy hid
    obtain ⟨i, r, hr, rfl⟩ := (mem_grep_pushdown be).mp hx
    obtain ⟨j, r', hr', rfl⟩ := (mem_grep_pushdown be).mp hy
    have hij : i = j := by simpa using hid
    have hrow : ∀ {pattern : Bytes} {r : GrepRow},
        ((build_grep_rows.value be).filter (keeps pattern))[i]? = some r →
          (build_grep_rows.value be)[i]? = some r := by
      intro pattern r hr
      obtain ⟨hi, rfl⟩ := List.getElem?_eq_some_iff.mp hr
      exact List.prefix_iff_getElem?.mp ((filter_prefix_iff _ _).mpr (h pattern)) i hi
    have hsame := (hrow hr).symm.trans (hrow (hij ▸ hr'))
    rw [Option.some.injEq] at hsame
    rw [hsame]

/-! ## The law -/

/-- What the answers must be like for the row ids of a table to identify its rows. -/
def RowidTable.DistinctKeys : RowidTable → Prop
  | .xrefs => OneReferencePerAddress be
  | .blocks => OneBlockPerAddress be
  | .instructions => OneInsnPerAddress be
  | .grep => PatternsKeepTheFirstRows be

/-- The row ids of a table identify its rows exactly when the answers of radare2 repeat no key with
another row: no source address of two references, no address of two blocks or two instructions, and
no pattern that skips a row and keeps a later one. -/
theorem rowids_identify_rows_of_distinct_keys (t : RowidTable) :
    t.Identifies be ↔ t.DistinctKeys be := by
  cases t with
  | xrefs => exact xrefs_identify_iff be
  | blocks => exact blocks_identify_iff be
  | instructions => exact instructions_identify_iff be
  | grep => exact grep_identifies_iff be

end

/-- Two references from 0x20. -/
@[reducible] def twoRefsJson : Nlohmann := .ofTexts
  [("[\x7b\"from\":32,\"to\":16\x7d,\x7b\"from\":32,\"to\":24\x7d]", .array
    [.object [(Bytes.lit "from", .number_unsigned 32), (Bytes.lit "to", .number_unsigned 16)],
      .object [(Bytes.lit "from", .number_unsigned 32), (Bytes.lit "to", .number_unsigned 24)]])]

def twoRefsBackend : Backend := mock_backend
  [("axfj @ 0x20", "[\x7b\"from\":32,\"to\":16\x7d,\x7b\"from\":32,\"to\":24\x7d]")]

/-- Two references from one address have one row id. -/
theorem two_references_share_a_rowid :
    letI := twoRefsJson
    ¬ RowidTable.xrefs.Identifies twoRefsBackend := by
  intro h
  have hsame := h.1 (.from_addr 32) (.from_addr 32)
    (some 32, [.int 32, .int 16, .text [], .text []]) (by decide)
    (some 32, [.int 32, .int 24, .text [], .text []]) (by decide) rfl
  exact absurd hsame (by decide)

end r2sql
