-- The name of the address key in radare2's records: which tables have the same
-- rows when radare2 calls it `offset` in place of `addr`.
import R2sql.TableCommands
import R2sql.XrefsPushdown

namespace r2sql

open json_utils

/-! ## Renamed records -/

namespace Json

/-- The record has its address under `addr`, and nothing under `offset`. -/
def keyed_by_addr (j : Json) : Bool :=
  (j.find (Bytes.lit "addr")).isSome && (j.find (Bytes.lit "offset")).isNone

/-- The record with its key `addr` renamed to `offset`, where it has `addr` and no `offset`. -/
def rename_addr (j : Json) : Json :=
  match j with
  | object fields =>
    if (object fields).keyed_by_addr then object
      ((fields.filter fun f => f.1 ≠ Bytes.lit "addr").orderedInsert (fun f g => f.1 ≤ g.1)
        (Bytes.lit "offset", (fields.lookup (Bytes.lit "addr")).getD null))
    else object fields
  | j => j

/-- The array with all its records renamed. Any other value has no records. -/
def rename_records : Json → Json
  | array xs => array (xs.map rename_addr)
  | j => j

/-- The answer of `pdfj` with the records in its `ops` renamed. -/
def rename_ops : Json → Json
  | object fields => object (fields.map fun f =>
      if f.1 = Bytes.lit "ops" then (f.1, f.2.rename_records) else f)
  | j => j

theorem lookup_cons_ite (f : Bytes × Json) (fields : List (Bytes × Json)) (k : Bytes) :
    (f :: fields).lookup k = if k = f.1 then some f.2 else fields.lookup k := by
  rw [List.lookup_cons]
  by_cases hk : k = f.1
  · rw [if_pos hk, beq_iff_eq.mpr hk]
  · rw [if_neg hk, beq_eq_false_iff_ne.mpr hk]

theorem lookup_orderedInsert {fields : List (Bytes × Json)} {key : Bytes} (v : Json)
    (h : fields.lookup key = none) (k : Bytes) :
    (fields.orderedInsert (fun f g => f.1 ≤ g.1) (key, v)).lookup k =
      if k = key then some v else fields.lookup k := by
  induction fields with
  | nil => rw [List.orderedInsert_nil, lookup_cons_ite]
  | cons f fields ih =>
    rw [lookup_cons_ite] at h
    split at h
    · cases h
    · rename_i hf
      rw [List.orderedInsert_cons]
      split
      · rw [lookup_cons_ite]
      · rw [lookup_cons_ite, lookup_cons_ite, ih h]
        by_cases hk : k = key
        · rw [if_pos hk, if_pos hk, if_neg (hk ▸ hf)]
        · rw [if_neg hk, if_neg hk]

theorem lookup_filter_ne (fields : List (Bytes × Json)) (key k : Bytes) :
    (fields.filter fun f => f.1 ≠ key).lookup k = if k = key then none else fields.lookup k := by
  induction fields with
  | nil => simp
  | cons f fields ih =>
    rw [lookup_cons_ite]
    by_cases hf : f.1 = key
    · rw [List.filter_cons_of_neg (by simpa using hf), ih, hf]
      split <;> rfl
    · rw [List.filter_cons_of_pos (by simpa using hf), lookup_cons_ite, ih]
      by_cases hk : k = key
      · rw [if_pos hk, if_pos hk, if_neg (hk ▸ Ne.symm hf)]
      · rw [if_neg hk, if_neg hk]

theorem find_rename_addr (j : Json) (key : Bytes) :
    j.rename_addr.find key =
      if j.keyed_by_addr then
        if key = Bytes.lit "offset" then j.find (Bytes.lit "addr")
        else if key = Bytes.lit "addr" then none
        else j.find key
      else j.find key := by
  cases j with
  | object fields =>
    rw [rename_addr]
    split
    · rename_i hkeyed
      obtain ⟨haddr, hoffset⟩ := Bool.and_eq_true_iff.mp hkeyed
      obtain ⟨v, haddr⟩ := Option.isSome_iff_exists.mp haddr
      rw [Option.isNone_iff_eq_none] at hoffset
      have hnone : (fields.filter fun f => f.1 ≠ Bytes.lit "addr").lookup (Bytes.lit "offset") =
          none := by
        rw [lookup_filter_ne, if_neg (by decide)]
        exact hoffset
      rw [haddr, show fields.lookup (Bytes.lit "addr") = some v from haddr]
      exact (lookup_orderedInsert v hnone key).trans (by rw [lookup_filter_ne]; rfl)
    · rfl
  | _ => rfl

theorem find_rename_addr_of_ne (j : Json) {key : Bytes} (haddr : key ≠ Bytes.lit "addr")
    (hoffset : key ≠ Bytes.lit "offset") : j.rename_addr.find key = j.find key := by
  rw [find_rename_addr, if_neg hoffset, if_neg haddr, ite_self]

theorem items_rename_records (j : Json) : j.rename_records.items = j.items.map rename_addr := by
  cases j <;> rfl

theorem find_ops_rename_ops (j : Json) :
    j.rename_ops.find (Bytes.lit "ops") = (j.find (Bytes.lit "ops")).map rename_records := by
  cases j with
  | object fields =>
    change List.lookup _ (fields.map _) = Option.map _ (fields.lookup _)
    induction fields with
    | nil => rfl
    | cons f fields ih =>
      rw [List.map_cons, lookup_cons_ite, lookup_cons_ite, ih]
      by_cases hf : f.1 = Bytes.lit "ops"
      · simp [hf]
      · rw [if_neg hf, if_neg (Ne.symm hf), if_neg (Ne.symm hf)]
  | _ => rfl

end Json

/-! ## The accessors on a renamed record -/

section
variable (j : Json)

theorem i64_addr_rename_addr : i64_addr j.rename_addr = i64_addr j := by
  unfold i64_addr i64
  rw [Json.find_rename_addr, Json.find_rename_addr]
  cases hkeyed : j.keyed_by_addr with
  | false => rfl
  | true =>
    obtain ⟨haddr, hoffset⟩ := Bool.and_eq_true_iff.mp hkeyed
    obtain ⟨v, hv⟩ := Option.isSome_iff_exists.mp haddr
    rw [Option.isNone_iff_eq_none] at hoffset
    have hne : Bytes.lit "addr" ≠ Bytes.lit "offset" := by decide
    simp only [if_true, if_neg hne, hv, hoffset]
    cases v <;> rfl

theorem i64_rename_addr {key : Bytes} (haddr : key ≠ Bytes.lit "addr")
    (hoffset : key ≠ Bytes.lit "offset") (dflt : Int64) :
    i64 j.rename_addr key dflt = i64 j key dflt := by
  unfold i64
  rw [Json.find_rename_addr_of_ne j haddr hoffset]

theorem str_rename_addr [Nlohmann] {key : Bytes} (haddr : key ≠ Bytes.lit "addr")
    (hoffset : key ≠ Bytes.lit "offset") (dflt : Bytes) :
    str j.rename_addr key dflt = str j key dflt := by
  unfold str
  rw [Json.find_rename_addr_of_ne j haddr hoffset]

/-- `i64` at `addr` itself misses the address of a renamed record. -/
theorem i64_at_addr_rename_addr :
    i64 j.rename_addr (Bytes.lit "addr") =
      if j.keyed_by_addr then 0 else i64 j (Bytes.lit "addr") := by
  unfold i64
  rw [Json.find_rename_addr]
  have hne : Bytes.lit "addr" ≠ Bytes.lit "offset" := by decide
  cases j.keyed_by_addr <;> simp [hne]

end

/-! ## The tables that read a record's address -/

/-- The ways to read these tables: a full scan, or a pushdown on its argument. -/
inductive AddressTable where
  | funcs
  | flags
  | comments
  | bookmarks
  | grep
  | grep_pattern (pattern : Bytes)
  | blocks
  | blocks_in_func (fa : Int64)
  | instructions
  | instructions_in_func (fa : Int64)
  | pseudocode (dec_cmd : String) (found : dec_cmd ∈ decompilers)
  | pseudocode_at_func (dec_cmd : String) (found : dec_cmd ∈ decompilers) (fa : Int64)
  | xrefs
  | xrefs_to (addr : Int64)
  | xrefs_from (addr : Int64)

namespace AddressTable

/-- The rows of a table. -/
def Row : AddressTable → Type
  | funcs => FuncRow
  | flags => FlagRow
  | comments => CommentRow
  | bookmarks => BookmarkRow
  | grep | grep_pattern _ => GrepRow
  | blocks | blocks_in_func _ => BlockRow
  | instructions | instructions_in_func _ => InsnRow
  | pseudocode _ _ | pseudocode_at_func _ _ _ => PseudoRow
  | xrefs | xrefs_to _ | xrefs_from _ => XrefRow

/-- What a read of the table delivers. -/
def rows [Nlohmann] (be : Backend) : (t : AddressTable) → List t.Row
  | funcs => funcs_cache_builder.value be
  | flags => flags_cache_builder.value be
  | comments => comments_cache_builder.value be
  | bookmarks => bookmarks_cache_builder.value be
  | grep => build_grep_rows.value be
  | grep_pattern pattern => ((GrepPatternIterator pattern).value be).delivered.map Prod.snd
  | blocks => (BlocksGen.value be).drain r2sql.blocks_for_func be
  | blocks_in_func fa => ((BlocksInFuncIterator fa).value be).delivered.map Prod.snd
  | instructions => (InsnsGen.value be).drain r2sql.insns_for_func be
  | instructions_in_func fa => ((InsnsInFuncIterator fa).value be).delivered.map Prod.snd
  | pseudocode dec_cmd _ => ((PseudoGen.make dec_cmd).value be).drain be
  | pseudocode_at_func dec_cmd _ fa =>
    ((PseudoAtFuncIterator.make dec_cmd fa).value be).scan 2
  | xrefs => xrefs_rows be
  | xrefs_to addr => xrefs_where_to be addr
  | xrefs_from addr => xrefs_where_from be addr

end AddressTable

/-- The first bytes of a command at an address. -/
theorem take_at_addr {c : String} (h : 4 ≤ (Bytes.lit c ++ Bytes.lit " @ ").length) (a : Int64) :
    (at_addr c a).take 4 = (Bytes.lit c ++ Bytes.lit " @ ").take 4 :=
  List.take_append_of_le_length h

section
variable [Nlohmann]

/-- `be'` answers like `be`, but with the records of `aflj`, `afbj`, `pdfj`, `fj` and `CCj`
renamed. -/
structure RenamesAddr (be be' : Backend) : Prop where
  records : ∀ c ∈ ["aflj", "fj", "CCj"], json_of_reply (be' (Bytes.lit c)) =
    (json_of_reply (be (Bytes.lit c))).rename_records
  afbj : ∀ fa, json_of_reply (be' (at_addr "afbj" fa)) =
    (json_of_reply (be (at_addr "afbj" fa))).rename_records
  pdfj : ∀ fa, json_of_reply (be' (at_addr "pdfj" fa)) =
    (json_of_reply (be (at_addr "pdfj" fa))).rename_ops
  others : ∀ c, c ∉ ["aflj", "fj", "CCj"].map Bytes.lit →
    (∀ fa, c ≠ at_addr "afbj" fa ∧ c ≠ at_addr "pdfj" fa) → be' c = be c

theorem RenamesAddr.same {be be' : Backend} (h : RenamesAddr be be') {c : Bytes}
    (hc : c.take 4 ∉ ["aflj", "fj", "CCj", "afbj", "pdfj"].map Bytes.lit) : be' c = be c := by
  refine h.others c ?_ fun fa => ⟨?_, ?_⟩
  · have hshort : ∀ d ∈ ["aflj", "fj", "CCj"].map Bytes.lit,
        d.take 4 ∈ ["aflj", "fj", "CCj", "afbj", "pdfj"].map Bytes.lit := by decide
    exact fun hmem => hc (hshort c hmem)
  · rintro rfl
    rw [take_at_addr (by decide)] at hc
    exact hc (by decide)
  · rintro rfl
    rw [take_at_addr (by decide)] at hc
    exact hc (by decide)

theorem RenamesAddr.same_at_addr {be be' : Backend} (h : RenamesAddr be be') {c : String}
    (hc : c ∈ decompilers ++ ["afxj", "axtj", "axfj", "afij"]) (a : Int64) :
    be' (at_addr c a) = be (at_addr c a) := by
  have hall : ∀ c ∈ decompilers ++ ["afxj", "axtj", "axfj", "afij"],
      4 ≤ (Bytes.lit c ++ Bytes.lit " @ ").length ∧ (Bytes.lit c ++ Bytes.lit " @ ").take 4 ∉
        ["aflj", "fj", "CCj", "afbj", "pdfj"].map Bytes.lit := by decide
  apply h.same
  rw [take_at_addr (hall c hc).1]
  exact (hall c hc).2

section
variable {be be' : Backend} (h : RenamesAddr be be')
include h

/-- What is read of the records of one answer, where it does not depend on the key. -/
theorem map_items_eq {c : String} (hc : c ∈ ["aflj", "fj", "CCj"]) {α : Type} {f : Json → α}
    (hf : ∀ j, f j.rename_addr = f j) :
    (json_of_reply (be' (Bytes.lit c))).items.map f =
      (json_of_reply (be (Bytes.lit c))).items.map f := by
  rw [h.records c hc, Json.items_rename_records, List.map_map]
  exact List.map_congr_left fun j _ => hf j

theorem funcs_eq_of_renames : funcs_cache_builder.value be' = funcs_cache_builder.value be := by
  refine map_items_eq h (c := "aflj") (by simp) fun j => ?_
  simp (disch := decide) only [i64_addr_rename_addr, i64_rename_addr, str_rename_addr]

theorem flags_eq_of_renames : flags_cache_builder.value be' = flags_cache_builder.value be := by
  refine map_items_eq h (c := "fj") (by simp) fun j => ?_
  simp (disch := decide) only [i64_addr_rename_addr, i64_rename_addr, str_rename_addr]

theorem comments_eq_of_renames :
    comments_cache_builder.value be' = comments_cache_builder.value be := by
  refine map_items_eq h (c := "CCj") (by simp) fun j => ?_
  simp (disch := decide) only [i64_addr_rename_addr, str_rename_addr]

theorem bookmarks_eq_of_renames :
    bookmarks_cache_builder.value be' = bookmarks_cache_builder.value be := by
  have hrows : ∀ be : Backend, bookmarks_cache_builder.value be =
      (json_of_reply (be (Bytes.lit "fj"))).items.zipIdx.map fun p =>
        { id := Int64.ofNat (p.2 + 1), addr := i64_addr p.1
          name := str p.1 (Bytes.lit "name") } := by
    intro be
    simp [bookmarks_cache_builder]
  rw [hrows, hrows, h.records "fj" (by simp), Json.items_rename_records, List.zipIdx_map,
    List.map_map]
  refine List.map_congr_left fun p _ => ?_
  simp (disch := decide) only [Function.comp_apply, Prod.map_fst, Prod.map_snd, id_eq,
    i64_addr_rename_addr, str_rename_addr]

theorem grep_eq_of_renames : build_grep_rows.value be' = build_grep_rows.value be := by
  have hrecord : ∀ c kind : String, c ∈ ["aflj", "fj", "CCj"] →
      (json_of_reply (be' (Bytes.lit c))).items.map (push_array_row kind none "name" none) =
        (json_of_reply (be (Bytes.lit c))).items.map (push_array_row kind none "name" none) := by
    refine fun c kind hc => map_items_eq h hc fun j => ?_
    simp (disch := decide) only [push_array_row, i64_addr_rename_addr, str_rename_addr]
  have hcomments := map_items_eq h (c := "CCj") (by simp) (f := fun j =>
    let name := str j (Bytes.lit "name")
    ({ kind := Bytes.lit "comment", name := name, full_name := name, parent_name := []
       addr := i64_addr j } : GrepRow)) fun j => by
      simp (disch := decide) only [i64_addr_rename_addr, str_rename_addr]
  have hothers : ∀ c ∈ ["iij", "iEj", "iSj"], be' (Bytes.lit c) = be (Bytes.lit c) := by
    have hall : ∀ c ∈ ["iij", "iEj", "iSj"], (Bytes.lit c).take 4 ∉
        ["aflj", "fj", "CCj", "afbj", "pdfj"].map Bytes.lit := by decide
    exact fun c hc => h.same (hall c hc)
  simp only [build_grep_rows, push_array, Dialogue.value_bind, Dialogue.value_pure, value_cmd_json,
    hrecord "aflj" "func" (by simp), hrecord "fj" "flag" (by simp), hcomments,
    hothers "iij" (by simp), hothers "iEj" (by simp), hothers "iSj" (by simp)]

theorem insns_for_func_eq_of_renames (fa : Int64) :
    (insns_for_func fa).value be' = (insns_for_func fa).value be := by
  unfold insns_for_func
  rw [Dialogue.value_bind, Dialogue.value_bind, value_cmd_json, value_cmd_json, h.pdfj fa,
    Json.find_ops_rename_ops]
  cases (json_of_reply (be (at_addr "pdfj" fa))).find (Bytes.lit "ops") with
  | none => rfl
  | some ops =>
    change List.map _ _ = List.map _ _
    rw [Json.items_rename_records, List.map_map]
    refine List.map_congr_left fun op _ => ?_
    simp (disch := decide) only [Function.comp_apply, mnemonic_from_op, i64_addr_rename_addr,
      i64_rename_addr, str_rename_addr]

theorem pseudo_for_func_eq_of_renames {dec_cmd : String} (hdec : dec_cmd ∈ decompilers)
    (fa : Int64) :
    (pseudo_for_func dec_cmd fa).value be' = (pseudo_for_func dec_cmd fa).value be := by
  have hsame := h.same_at_addr (c := dec_cmd) (by simp [hdec]) fa
  simp only [pseudo_for_func, Dialogue.value_bind, Dialogue.value_pure, value_cmd, hsame]

theorem xrefs_eq_of_renames : xrefs_cache_builder.value be' = xrefs_cache_builder.value be := by
  have hrows : ∀ be : Backend, xrefs_cache_builder.value be =
      ((json_of_reply (be (Bytes.lit "aflj"))).items.map fun f =>
        (json_of_reply (be (at_addr "afxj" (i64_addr f)))).items.map fun j =>
          ({ from_addr := i64 j (Bytes.lit "from"), to_addr := i64 j (Bytes.lit "to")
             type := str j (Bytes.lit "type")
             from_func := str f (Bytes.lit "name") } : XrefRow)).flatten := by
    intro be
    simp [xrefs_cache_builder]
  rw [hrows, hrows]
  have hmap := map_items_eq h (c := "aflj") (by simp) (f := fun f =>
    (json_of_reply (be (at_addr "afxj" (i64_addr f)))).items.map fun j =>
      ({ from_addr := i64 j (Bytes.lit "from"), to_addr := i64 j (Bytes.lit "to")
         type := str j (Bytes.lit "type")
         from_func := str f (Bytes.lit "name") } : XrefRow)) fun f => by
      simp (disch := decide) only [i64_addr_rename_addr, str_rename_addr]
  simp only [h.same_at_addr (c := "afxj") (by simp), hmap]

theorem xrefs_to_eq_of_renames (a : Int64) :
    (xrefs_to_addr a).value be' = (xrefs_to_addr a).value be := by
  have hsame := h.same_at_addr (c := "axtj") (by simp) a
  simp only [xrefs_to_addr, Dialogue.value_bind, Dialogue.value_pure, value_cmd_json, hsame]

theorem xrefs_from_eq_of_renames (a : Int64) :
    (xrefs_from_addr a).value be' = (xrefs_from_addr a).value be := by
  have hrefs := h.same_at_addr (c := "axfj") (by simp) a
  have hname := h.same_at_addr (c := "afij") (by simp) a
  rw [xrefs_from_addr_value, xrefs_from_addr_value]
  simp only [function_name_at, Dialogue.value_bind, Dialogue.value_pure, value_cmd_json, hrefs,
    hname]

/-- The full scan of a per-function table with the same rows for each function. -/
theorem drain_eq_of_renames {Row : Type} {f : Int64 → R2 (List Row)}
    (hf : ∀ fa, (f fa).value be' = (f fa).value be) (cur : Row) :
    ((FuncGen.make cur).value be').drain f be' = ((FuncGen.make cur).value be).drain f be := by
  rw [FuncGen.drain_make, FuncGen.drain_make]
  simp only [hf]
  have hmap := map_items_eq h (c := "aflj") (by simp) (f := fun j => (f (i64_addr j)).value be)
    fun j => by rw [i64_addr_rename_addr]
  rw [List.flatMap, hmap, List.flatMap]

omit h [Nlohmann] in
theorem delivered_eq_of_rows {Row : Type} {rows : R2 (List Row)}
    (hrows : rows.value be' = rows.value be) :
    ((VecIterator.make <$> rows : R2 (VecIterator Row)).value be').delivered.map Prod.snd =
      ((VecIterator.make <$> rows : R2 (VecIterator Row)).value be).delivered.map Prod.snd := by
  rw [Dialogue.value_map, Dialogue.value_map, hrows]

theorem drain_pseudo_eq_of_renames {dec_cmd : String} (hdec : dec_cmd ∈ decompilers) :
    ((PseudoGen.make dec_cmd).value be').drain be' =
      ((PseudoGen.make dec_cmd).value be).drain be := by
  rw [PseudoGen.drain_eq, PseudoGen.drain_eq]
  change (json_of_reply (be' (Bytes.lit "aflj"))).items.map
      (fun f => (pseudo_for_func dec_cmd (i64_addr f)).value be') =
    (json_of_reply (be (Bytes.lit "aflj"))).items.map
      fun f => (pseudo_for_func dec_cmd (i64_addr f)).value be
  simp only [pseudo_for_func_eq_of_renames h hdec]
  exact map_items_eq h (c := "aflj") (by simp) fun j => by rw [i64_addr_rename_addr]

theorem pseudo_at_func_eq_of_renames {dec_cmd : String} (hdec : dec_cmd ∈ decompilers)
    (fa : Int64) : (PseudoAtFuncIterator.make dec_cmd fa).value be' =
      (PseudoAtFuncIterator.make dec_cmd fa).value be := by
  simp only [PseudoAtFuncIterator.make, Dialogue.value_bind, Dialogue.value_pure,
    pseudo_for_func_eq_of_renames h hdec]

/-! ## blocks -/

/-- The blocks of a function keep their rows exactly where no address is lost: `blocks_for_func`
reads the key `addr` itself. -/
theorem blocks_for_func_eq_iff (fa : Int64) :
    (blocks_for_func fa).value be' = (blocks_for_func fa).value be ↔
      ∀ b ∈ (json_of_reply (be (at_addr "afbj" fa))).items, b.keyed_by_addr →
        i64 b (Bytes.lit "addr") = 0 := by
  simp only [blocks_for_func, Dialogue.value_bind, Dialogue.value_pure, value_cmd_json, h.afbj fa,
    Json.items_rename_records, List.map_map]
  rw [List.map_inj_left]
  refine forall₂_congr fun b _ => ?_
  simp (disch := decide) only [Function.comp_apply, i64_rename_addr, i64_at_addr_rename_addr,
    BlockRow.mk.injEq, and_true]
  by_cases hkeyed : b.keyed_by_addr
  · simp [hkeyed, eq_comm]
  · simp [hkeyed]

end

/-! ## The law -/

namespace AddressTable

/-- The tables of blocks. -/
def is_blocks : AddressTable → Bool
  | blocks | blocks_in_func _ => true
  | _ => false

theorem rows_eq_of_renames {be be' : Backend} (h : RenamesAddr be be') {t : AddressTable}
    (ht : t.is_blocks = false) : t.rows be' = t.rows be := by
  cases t with
  | funcs => exact funcs_eq_of_renames h
  | flags => exact flags_eq_of_renames h
  | comments => exact comments_eq_of_renames h
  | bookmarks => exact bookmarks_eq_of_renames h
  | grep => exact grep_eq_of_renames h
  | grep_pattern pattern =>
    have hit :
        (GrepPatternIterator pattern).value be' = (GrepPatternIterator pattern).value be := by
      simp only [GrepPatternIterator, Dialogue.value_bind, Dialogue.value_pure,
        grep_eq_of_renames h]
    exact congrArg (fun it => it.delivered.map Prod.snd) hit
  | blocks => cases ht
  | blocks_in_func fa => cases ht
  | instructions => exact drain_eq_of_renames h (insns_for_func_eq_of_renames h) _
  | instructions_in_func fa => exact delivered_eq_of_rows (insns_for_func_eq_of_renames h fa)
  | pseudocode dec_cmd found => exact drain_pseudo_eq_of_renames h found
  | pseudocode_at_func dec_cmd found fa =>
    exact congrArg (PseudoAtFuncIterator.scan 2) (pseudo_at_func_eq_of_renames h found fa)
  | xrefs => exact xrefs_eq_of_renames h
  | xrefs_to addr => exact delivered_eq_of_rows (xrefs_to_eq_of_renames h addr)
  | xrefs_from addr => exact delivered_eq_of_rows (xrefs_from_eq_of_renames h addr)

theorem rows_blocks_in_func (be : Backend) (fa : Int64) :
    (blocks_in_func fa).rows be = (blocks_for_func fa).value be := by
  have hrows := VecIterator.delivered_rows ((blocks_for_func fa).value be)
  exact hrows

end AddressTable

/-- The tables have the same rows under either name of the address key exactly when every block that
has its address under `addr` alone is at 0. All tables but blocks have the same rows then and
else. -/
theorem tables_keep_their_rows_iff {be be' : Backend} (h : RenamesAddr be be') :
    ((∀ t : AddressTable, t.rows be' = t.rows be) ↔
      ∀ fa, ∀ b ∈ (json_of_reply (be (at_addr "afbj" fa))).items, b.keyed_by_addr →
        i64 b (Bytes.lit "addr") = 0) ∧
    ∀ t : AddressTable, t.is_blocks = false → t.rows be' = t.rows be := by
  refine ⟨⟨fun hall fa => ?_, fun hzero t => ?_⟩, fun t => AddressTable.rows_eq_of_renames h⟩
  · rw [← blocks_for_func_eq_iff h fa, ← AddressTable.rows_blocks_in_func,
      ← AddressTable.rows_blocks_in_func]
    exact hall (.blocks_in_func fa)
  · have hblocks := fun fa => (blocks_for_func_eq_iff h fa).mpr (hzero fa)
    cases ht : t.is_blocks with
    | false => exact AddressTable.rows_eq_of_renames h ht
    | true =>
      cases t with
      | blocks => exact drain_eq_of_renames h hblocks _
      | blocks_in_func fa => exact delivered_eq_of_rows (hblocks fa)
      | _ => cases ht

end

/-- One record with its address under `addr`, and the same record with it under `offset`. -/
@[reducible] def eitherKeyJson : Nlohmann := .ofTexts
  [("[\x7b\"addr\":16,\"size\":4\x7d]", .array [.object
      [(Bytes.lit "addr", .number_unsigned 16), (Bytes.lit "size", .number_unsigned 4)]]),
    ("[\x7b\"offset\":16,\"size\":4\x7d]", .array [.object
      [(Bytes.lit "offset", .number_unsigned 16), (Bytes.lit "size", .number_unsigned 4)]])]

/-- A backend with one function, of one block. -/
def oneBlockBackend (text : String) : Backend := fun c =>
  if c = Bytes.lit "aflj" ∨ c = at_addr "afbj" 16 then Bytes.lit text else []

def addrBackend : Backend := oneBlockBackend "[\x7b\"addr\":16,\"size\":4\x7d]"

def offsetBackend : Backend := oneBlockBackend "[\x7b\"offset\":16,\"size\":4\x7d]"

theorem oneBlockBackend_eq_nil (text : String) {c : Bytes} (haflj : c ≠ Bytes.lit "aflj")
    (hafbj : c ≠ at_addr "afbj" 16) : oneBlockBackend text c = [] :=
  if_neg (not_or.mpr ⟨haflj, hafbj⟩)

theorem renamesAddr_oneBlock : @RenamesAddr eitherKeyJson addrBackend offsetBackend := by
  let := eitherKeyJson
  have hat : ∀ c ∈ ["afbj", "pdfj"], ∀ fa, at_addr c fa ≠ Bytes.lit "aflj" := by
    intro c hc fa heq
    have htake := congrArg (List.take 4) heq
    have hall : ∀ c ∈ ["afbj", "pdfj"], 4 ≤ (Bytes.lit c ++ Bytes.lit " @ ").length ∧
        (Bytes.lit c ++ Bytes.lit " @ ").take 4 ≠ (Bytes.lit "aflj").take 4 := by decide
    rw [take_at_addr (hall c hc).1] at htake
    exact (hall c hc).2 htake
  constructor
  · intro c hc
    fin_cases hc <;> rfl
  · intro fa
    by_cases hfa : fa = 16
    · subst hfa
      rfl
    · have hne : at_addr "afbj" fa ≠ at_addr "afbj" 16 := fun h => hfa (at_addr_inj rfl h).2
      rw [addrBackend, offsetBackend, oneBlockBackend_eq_nil _ (hat _ (by simp) fa) hne,
        oneBlockBackend_eq_nil _ (hat _ (by simp) fa) hne]
      rfl
  · intro fa
    have hne : at_addr "pdfj" fa ≠ at_addr "afbj" 16 :=
      fun h => absurd (at_addr_inj (c := "pdfj") (d := "afbj") rfl h).1 (by decide)
    rw [addrBackend, offsetBackend, oneBlockBackend_eq_nil _ (hat _ (by simp) fa) hne,
      oneBlockBackend_eq_nil _ (hat _ (by simp) fa) hne]
    rfl
  · intro c hc hat
    have haflj : c ≠ Bytes.lit "aflj" := by
      rintro rfl
      exact hc (by decide)
    rw [addrBackend, offsetBackend, oneBlockBackend_eq_nil _ haflj (hat 16).1,
      oneBlockBackend_eq_nil _ haflj (hat 16).1]

/-- The function keeps its row under either key. -/
theorem a_function_keeps_its_row :
    letI := eitherKeyJson
    RenamesAddr addrBackend offsetBackend ∧
      AddressTable.funcs.rows offsetBackend = AddressTable.funcs.rows addrBackend :=
  ⟨renamesAddr_oneBlock, (@tables_keep_their_rows_iff eitherKeyJson _ _ renamesAddr_oneBlock).2
    .funcs rfl⟩

/-- The block loses its address under `offset`. -/
theorem a_block_loses_its_address :
    letI := eitherKeyJson
    RenamesAddr addrBackend offsetBackend ∧
      ¬ ∀ t : AddressTable, t.rows offsetBackend = t.rows addrBackend := by
  let := eitherKeyJson
  refine ⟨renamesAddr_oneBlock, fun hall => ?_⟩
  have hrows := hall (.blocks_in_func 16)
  rw [AddressTable.rows_blocks_in_func, AddressTable.rows_blocks_in_func] at hrows
  have hne : (blocks_for_func 16).value offsetBackend ≠ (blocks_for_func 16).value addrBackend := by
    decide
  exact hne hrows

end r2sql
