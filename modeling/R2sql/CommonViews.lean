-- The tables that read the same commands of radare2: the grep table shows what
-- six tables show, and the welcome table counts the rows of five.
import R2sql.TableExceptions

namespace r2sql

open Raising

/-! ## The tables of one answer, without exceptions -/

/-- The rows of the tables that grep and welcome repeat. -/
structure Tables where
  funcs : List FuncRow
  flags : List FlagRow
  imports : List ImportRow
  exports : List ExportRow
  sections : List SectionRow
  comments : List CommentRow
  strings : List StringRow
  segments : List SegmentRow

section
variable [Nlohmann]

/-- The tables are what their cache builders build. -/
structure Tables.Read [NlohmannErrors] (be : Backend) (t : Tables) : Prop where
  funcs : outcome be checked.funcs_cache_builder = .ok t.funcs
  flags : outcome be checked.flags_cache_builder = .ok t.flags
  imports : outcome be checked.imports_cache_builder = .ok t.imports
  exports : outcome be checked.exports_cache_builder = .ok t.exports
  sections : outcome be checked.sections_cache_builder = .ok t.sections
  comments : outcome be checked.comments_cache_builder = .ok t.comments
  strings : outcome be checked.strings_cache_builder = .ok t.strings
  segments : outcome be checked.segments_cache_builder = .ok t.segments

/-- The rows for each element of an answer. -/
def rows_of {Row : Type} (be : Backend) (command : String) (row : Json → Row) : List Row :=
  (json_of_reply (be (Bytes.lit command))).items.map row

def string_row (with_text : Bool) (j : Json) : StringRow where
  addr := json_utils.i64 j (Bytes.lit "vaddr")
  length := json_utils.i64 j (Bytes.lit "length")
  section_ := json_utils.str j (Bytes.lit "section")
  type := json_utils.str j (Bytes.lit "type")
  text := if with_text then json_utils.str j (Bytes.lit "string") else []

def import_row (j : Json) : ImportRow where
  addr := json_utils.i64 j (Bytes.lit "plt")
  ordinal := json_utils.i64 j (Bytes.lit "ordinal")
  bind := json_utils.str j (Bytes.lit "bind")
  type := json_utils.str j (Bytes.lit "type")
  name := json_utils.str j (Bytes.lit "name")
  libname := json_utils.str j (Bytes.lit "libname")

def export_row (j : Json) : ExportRow where
  addr := json_utils.i64 j (Bytes.lit "vaddr")
  size := json_utils.i64 j (Bytes.lit "size")
  type := json_utils.str j (Bytes.lit "type")
  bind := json_utils.str j (Bytes.lit "bind")
  name := json_utils.str j (Bytes.lit "name")

/-- A row of sections or of segments. -/
def section_row (j : Json) : SectionRow where
  addr := json_utils.i64 j (Bytes.lit "vaddr")
  vsize := json_utils.i64 j (Bytes.lit "vsize")
  paddr := json_utils.i64 j (Bytes.lit "paddr")
  size := json_utils.i64 j (Bytes.lit "size")
  name := json_utils.str j (Bytes.lit "name")
  perm := json_utils.str j (Bytes.lit "perm")

/-- The rows of the tables for a backend. -/
def tables_of (be : Backend) : Tables where
  funcs := funcs_cache_builder.value be
  flags := flags_cache_builder.value be
  imports := rows_of be "iij" import_row
  exports := rows_of be "iEj" export_row
  sections := rows_of be "iSj" section_row
  comments := comments_cache_builder.value be
  strings := rows_of be "izj" (string_row true)
  segments := rows_of be "iSSj" section_row

section
variable [NlohmannErrors] (be : Backend) (hparse : ParsesUtf8)
include hparse

theorem strings_eq (with_text : Bool) :
    outcome be (checked.build_strings with_text) =
      .ok (rows_of be "izj" (string_row with_text)) := by
  refine checked.outcome_array_rows be hparse fun j hj => ?_
  cases with_text <;> simp [checked.string_row, string_row, checked.str_eq hj]

theorem imports_eq :
    outcome be checked.imports_cache_builder = .ok (rows_of be "iij" import_row) := by
  refine checked.outcome_array_rows be hparse fun j hj => ?_
  simp [checked.import_row, import_row, checked.str_eq hj]

theorem exports_eq :
    outcome be checked.exports_cache_builder = .ok (rows_of be "iEj" export_row) := by
  refine checked.outcome_array_rows be hparse fun j hj => ?_
  simp [checked.export_row, export_row, checked.str_eq hj]

theorem sections_eq (command : String) :
    outcome be (checked.array_rows command checked.section_row) =
      .ok (rows_of be command section_row) := by
  refine checked.outcome_array_rows be hparse fun j hj => ?_
  simp [checked.section_row, section_row, checked.str_eq hj]

theorem read_tables_of : (tables_of be).Read be where
  funcs := checked.funcs_eq be hparse
  flags := checked.flags_eq be hparse
  imports := imports_eq be hparse
  exports := exports_eq be hparse
  sections := sections_eq be hparse "iSj"
  comments := checked.comments_eq be hparse
  strings := strings_eq be hparse true
  segments := sections_eq be hparse "iSSj"

end

end

/-! ## grep -/

/-- The row of grep for an entity of another table. -/
def grep_view (kind : String) (parent_name name : Bytes) (addr : Int64) : GrepRow where
  kind := Bytes.lit kind
  name := name
  full_name := if parent_name = [] then name else parent_name ++ Bytes.lit "!" ++ name
  parent_name := parent_name
  addr := addr

/-- The six tables, one after another. -/
def Tables.grep (t : Tables) : List GrepRow :=
  t.funcs.map (fun r => grep_view "func" [] r.name r.addr) ++
    t.flags.map (fun r => grep_view "flag" [] r.name r.addr) ++
    t.imports.map (fun r => grep_view "import" r.libname r.name r.addr) ++
    t.exports.map (fun r => grep_view "export" [] r.name r.addr) ++
    t.sections.map (fun r => grep_view "section" [] r.name r.addr) ++
    t.comments.map (fun r => grep_view "comment" [] r.text r.addr)

theorem full_name_grep_view_iff (kind : String) (parent_name name : Bytes) (addr : Int64) :
    (grep_view kind parent_name name addr).full_name = parent_name ++ Bytes.lit "!" ++ name ↔
      parent_name ≠ [] := by
  unfold grep_view
  dsimp only
  by_cases h : parent_name = []
  · rw [if_pos h]
    refine iff_of_false (fun hname => ?_) (not_not_intro h)
    have hlen := congrArg List.length hname
    rw [List.length_append, List.length_append, show (Bytes.lit "!").length = 1 from rfl] at hlen
    omega
  · simp [h]

theorem mem_grep {t : Tables} {r : GrepRow} (h : r ∈ t.grep) :
    ∃ kind parent_name name addr, r = grep_view kind parent_name name addr := by
  simp only [Tables.grep, List.mem_append, List.mem_map] at h
  rcases h with ((((⟨x, -, rfl⟩ | ⟨x, -, rfl⟩) | ⟨x, -, rfl⟩) | ⟨x, -, rfl⟩) | ⟨x, -, rfl⟩) |
    ⟨x, -, rfl⟩
  all_goals exact ⟨_, _, _, _, rfl⟩

/-- Both ways to build the row of an entity read the same keys. -/
theorem build_grep_rows_value [Nlohmann] (be : Backend) :
    build_grep_rows.value be = (tables_of be).grep := by
  simp only [build_grep_rows, push_array, Dialogue.value_bind, Dialogue.value_pure, value_cmd_json,
    List.nil_append, Tables.grep, tables_of, rows_of, funcs_cache_builder, flags_cache_builder,
    comments_cache_builder, List.map_map]
  rfl

/-! ## welcome -/

def Json.members : Json → List (Bytes × Json)
  | .object fields => fields
  | _ => []

/-- The row of a member in the welcome table. -/
def copied_row [Nlohmann] (f : Bytes × Json) : WelcomeRow where
  key := f.1
  value :=
    match f.2 with
    | .string text => text
    | .boolean b => if b then Bytes.lit "true" else Bytes.lit "false"
    | v => Nlohmann.dump v

/-- The keys of the welcome table that count rows, and the rows of their tables. -/
def Tables.counts (t : Tables) : List (String × Nat) :=
  [("func_count", t.funcs.length), ("string_count", t.strings.length),
    ("import_count", t.imports.length), ("section_count", t.sections.length),
    ("segment_count", t.segments.length)]

/-- The rows of the welcome table with a key. -/
def with_key (key : String) (rows : List WelcomeRow) : List WelcomeRow :=
  rows.filter fun r => r.key = Bytes.lit key

section
variable [Nlohmann] [NlohmannErrors]

theorem copied_of_info_row {f : Bytes × Json} {row : WelcomeRow}
    (h : checked.info_row f = .ok row) : row = copied_row f := by
  obtain ⟨name, v⟩ := f
  unfold checked.info_row at h
  obtain ⟨value, hvalue, hrow⟩ := bind_eq_ok_iff.mp h
  cases hrow
  unfold checked.info_value at hvalue
  cases v with
  | string text =>
    cases hvalue
    rfl
  | boolean b =>
    cases hvalue
    rfl
  | null | number_integer | number_unsigned | number_float | array | object =>
    rw [if_neg (by simp [Json.is_string]), if_neg (by simp [Json.is_boolean])] at hvalue
    obtain ⟨-, rfl⟩ := Json.try_dump_eq_ok_iff.mp hvalue
    rfl

theorem copied_of_info_rows {fields : List (Bytes × Json)} {rows : List WelcomeRow}
    (h : fields.mapM checked.info_row = .ok rows) : rows = fields.map copied_row := by
  induction fields generalizing rows with
  | nil =>
    cases h
    rfl
  | cons f fields ih =>
    rw [List.mapM_cons] at h
    obtain ⟨row, hrow, h⟩ := bind_eq_ok_iff.mp h
    obtain ⟨rest, hrest, h⟩ := bind_eq_ok_iff.mp h
    cases h
    rw [List.map_cons, copied_of_info_row hrow, ih hrest]

/-- The first rows of the welcome table are the members of the `iIj` answer. -/
theorem copied_of_welcome_info {info : Json} {rows : List WelcomeRow} {arch bits : Bytes}
    (h : checked.welcome_info info = .ok (rows, arch, bits)) :
    rows = info.members.map copied_row := by
  unfold checked.welcome_info at h
  cases info with
  | object fields =>
    obtain ⟨rows', hrows, h⟩ := bind_eq_ok_iff.mp h
    obtain ⟨arch', -, h⟩ := bind_eq_ok_iff.mp h
    obtain ⟨bits', -, h⟩ := bind_eq_ok_iff.mp h
    cases h
    exact copied_of_info_rows hrows
  | _ =>
    cases h
    rfl

omit [Nlohmann] in
theorem key_of_welcome_file {j : Json} {rows : List WelcomeRow}
    (h : checked.welcome_file j = .ok rows) : ∀ r ∈ rows, r.key = Bytes.lit "file" := by
  have hcore : ∀ {core : Json} {rows : List WelcomeRow}, checked.core_file core = .ok rows →
      ∀ r ∈ rows, r.key = Bytes.lit "file" := by
    intro core rows h
    unfold checked.core_file at h
    split at h
    · obtain ⟨file, -, h⟩ := bind_eq_ok_iff.mp h
      split at h
      · obtain ⟨value, -, h⟩ := bind_eq_ok_iff.mp h
        cases h
        simp
      · cases h
        simp
    · cases h
      simp
  unfold checked.welcome_file at h
  split at h
  · obtain ⟨core, -, h⟩ := bind_eq_ok_iff.mp h
    exact hcore h
  · cases h
    simp

omit [NlohmannErrors] in
theorem value_add_count (be : Backend) (command : String) :
    (checked.add_count command).value be =
      to_string (json_of_reply (be (Bytes.lit command))).items.length := by
  simp [checked.add_count]

omit [NlohmannErrors] in
theorem counts_tables_of (be : Backend) :
    (tables_of be).counts =
      [("func_count", "aflj"), ("string_count", "izj"), ("import_count", "iij"),
        ("section_count", "iSj"), ("segment_count", "iSSj")].map fun p =>
          (p.1, (json_of_reply (be (Bytes.lit p.2))).items.length) := by
  simp [Tables.counts, tables_of, rows_of, funcs_cache_builder]

/-- The rows of the welcome table: the members of the `iIj` answer, rows with other keys than those
of the counts, the counts, and two last rows. -/
theorem rows_of_welcome {be : Backend} {rows : List WelcomeRow}
    (h : outcome be checked.welcome_cache_builder = .ok rows) :
    ∃ info others symbol_count summary,
      info = (json_of_reply (be (Bytes.lit "iIj"))).members.map copied_row ∧
      (∀ r ∈ others, r.key ∈ ["r2sql_version", "file", "entry", "entry_name"].map Bytes.lit) ∧
      rows = info ++ (others ++
        (tables_of be).counts.map (fun p => ⟨Bytes.lit p.1, to_string p.2⟩) ++
        [⟨Bytes.lit "symbol_count", symbol_count⟩, ⟨Bytes.lit "summary", summary⟩]) := by
  unfold checked.welcome_cache_builder at h
  rw [outcome_lift_bind, value_cmd_json] at h
  obtain ⟨⟨info, arch, bits⟩, hinfo, h⟩ := (outcome_bind_eq_ok_iff be).mp h
  rw [outcome_lift_bind, value_cmd_json] at h
  obtain ⟨file, hfile, h⟩ := (outcome_bind_eq_ok_iff be).mp h
  rw [outcome_lift_bind, value_cmd_json] at h
  obtain ⟨entry, -, h⟩ := (outcome_bind_eq_ok_iff be).mp h
  have hothers : ∀ entry_name entry_hex : Bytes,
      ∀ r ∈ [(⟨Bytes.lit "r2sql_version", version⟩ : WelcomeRow)] ++ file ++
          (if entry.isSome then [⟨Bytes.lit "entry", entry_hex⟩] else []) ++
          (if entry_name ≠ [] then [⟨Bytes.lit "entry_name", entry_name⟩] else []),
        r.key ∈ ["r2sql_version", "file", "entry", "entry_name"].map Bytes.lit := by
    intro entry_name entry_hex r hr
    simp only [List.mem_append, List.mem_ite_nil_right, List.mem_singleton] at hr
    rcases hr with ((rfl | hfile') | ⟨-, rfl⟩) | ⟨-, rfl⟩
    · simp
    · rw [key_of_welcome_file hfile r hfile']
      simp
    · simp
    · simp
  have hrows : ∃ entry_name symbol_count summary, rows =
      info ++ [⟨Bytes.lit "r2sql_version", version⟩] ++ file ++
        (if entry.isSome then [⟨Bytes.lit "entry", entry.getD []⟩] else []) ++
        (if entry_name ≠ [] then [⟨Bytes.lit "entry_name", entry_name⟩] else []) ++
        ((tables_of be).counts.map (fun p => ⟨Bytes.lit p.1, to_string p.2⟩) ++
          [⟨Bytes.lit "symbol_count", symbol_count⟩, ⟨Bytes.lit "summary", summary⟩]) := by
    rw [counts_tables_of]
    cases entry with
    | none =>
      dsimp only at h
      simp only [outcome_lift_bind, value_add_count, pure_bind, outcome_pure, Except.ok.injEq] at h
      exact ⟨_, _, _, h.symm⟩
    | some at_entry =>
      dsimp only at h
      obtain ⟨entry_name, -, h⟩ := (outcome_bind_eq_ok_iff be).mp h
      simp only [outcome_lift_bind, value_add_count, outcome_pure, Except.ok.injEq] at h
      exact ⟨entry_name, _, _, h.symm⟩
  obtain ⟨entry_name, symbol_count, summary, rfl⟩ := hrows
  refine ⟨info, _, symbol_count, summary, copied_of_welcome_info hinfo,
    hothers entry_name (entry.getD []), ?_⟩
  simp only [List.append_assoc]

end

theorem with_key_append (key : String) (xs ys : List WelcomeRow) :
    with_key key (xs ++ ys) = with_key key xs ++ with_key key ys := List.filter_append ..

theorem with_key_eq_nil {key : String} {rows : List WelcomeRow}
    (h : ∀ r ∈ rows, r.key ≠ Bytes.lit key) : with_key key rows = [] :=
  List.filter_eq_nil_iff.mpr fun r hr => by simpa using h r hr

/-- Among rows with different keys, a row is the only one with its key. -/
theorem with_key_of_nodup {rows : List WelcomeRow} (h : (rows.map WelcomeRow.key).Nodup)
    {key : String} {r : WelcomeRow} (hr : r ∈ rows) (hkey : r.key = Bytes.lit key) :
    with_key key rows = [r] := by
  induction rows with
  | nil => cases hr
  | cons row rows ih =>
    rw [List.map_cons, List.nodup_cons] at h
    rcases List.mem_cons.mp hr with rfl | hr
    · have hrest : with_key key rows = [] := with_key_eq_nil fun r' hr' hkey' =>
        h.1 (hkey.trans hkey'.symm ▸ List.mem_map_of_mem hr')
      rw [with_key, List.filter_cons_of_pos (by simpa using hkey)]
      exact congrArg (r :: ·) hrest
    · have hne : row.key ≠ Bytes.lit key :=
        fun hrow => h.1 (hrow.trans hkey.symm ▸ List.mem_map_of_mem hr)
      rw [with_key, List.filter_cons_of_neg (by simpa using hne)]
      exact ih h.2 hr

/-- The keys of the counts. -/
def count_keys : List String :=
  ["func_count", "string_count", "import_count", "section_count", "segment_count"]

theorem map_fst_counts (t : Tables) : t.counts.map Prod.fst = count_keys := rfl

theorem with_key_counts (t : Tables) : ∀ p ∈ t.counts,
    with_key p.1 (t.counts.map fun p => ⟨Bytes.lit p.1, to_string p.2⟩) =
      [⟨Bytes.lit p.1, to_string p.2⟩] := by
  intro p hp
  have hkeys : (t.counts.map fun p => ⟨Bytes.lit p.1, to_string p.2⟩).map WelcomeRow.key =
      count_keys.map Bytes.lit := by
    rw [← map_fst_counts t, List.map_map, List.map_map]
    rfl
  refine with_key_of_nodup ?_ (List.mem_map.mpr ⟨p, hp, rfl⟩) rfl
  rw [hkeys]
  decide

theorem counts_keys (t : Tables) : ∀ p ∈ t.counts, Bytes.lit p.1 ∉
    ["r2sql_version", "file", "entry", "entry_name", "symbol_count", "summary"].map Bytes.lit := by
  have hall : ∀ key ∈ count_keys, Bytes.lit key ∉
      ["r2sql_version", "file", "entry", "entry_name", "symbol_count", "summary"].map
        Bytes.lit := by decide
  exact fun p hp => hall p.1 (map_fst_counts t ▸ List.mem_map_of_mem hp)

/-! ## The law -/

/-- The grep table is what six other tables show, in order, and the welcome table counts the rows of
five. A row of the welcome table with the key of a count is that count, or a copy of a member of the
`iIj` answer. -/
theorem views_of_one_command_agree [Nlohmann] [NlohmannErrors] (hparse : ParsesUtf8)
    (be : Backend) :
    ∃ t : Tables, t.Read be ∧
      outcome be checked.build_grep_rows = .ok t.grep ∧
      (∀ r ∈ t.grep, r.full_name = r.parent_name ++ Bytes.lit "!" ++ r.name ↔
        r.parent_name ≠ []) ∧
      (∀ colUsed, ∃ strings, outcome be (checked.strings_projection_cache_builder colUsed) =
        .ok strings ∧ strings.length = t.strings.length) ∧
      ∀ rows, outcome be checked.welcome_cache_builder = .ok rows →
        ∃ copies own, rows = copies ++ own ∧
          copies = (json_of_reply (be (Bytes.lit "iIj"))).members.map copied_row ∧
          ∀ p ∈ t.counts, with_key p.1 own = [⟨Bytes.lit p.1, to_string p.2⟩] := by
  refine ⟨tables_of be, read_tables_of be hparse, ?_, ?_, ?_, ?_⟩
  · rw [checked.build_grep_rows_eq be hparse, build_grep_rows_value]
  · intro r hr
    obtain ⟨kind, parent_name, name, addr, rfl⟩ := mem_grep hr
    exact full_name_grep_view_iff kind parent_name name addr
  · exact fun colUsed => ⟨_, strings_eq be hparse _, by simp [tables_of, rows_of]⟩
  · intro rows hrows
    obtain ⟨info, others, symbol_count, summary, hinfo, hothers, rfl⟩ := rows_of_welcome hrows
    refine ⟨info, _, rfl, hinfo, fun p hp => ?_⟩
    have hkey := counts_keys (tables_of be) p hp
    have hbefore : with_key p.1 others = [] :=
      with_key_eq_nil fun r hr h => hkey (List.map_subset _ (by simp) (h ▸ hothers r hr))
    have hafter : with_key p.1 [⟨Bytes.lit "symbol_count", symbol_count⟩,
        ⟨Bytes.lit "summary", summary⟩] = [] := by
      refine with_key_eq_nil fun r hr h => hkey ?_
      simp only [List.mem_cons, List.not_mem_nil, or_false] at hr
      rcases hr with rfl | rfl <;> simp [← h]
    rw [with_key_append, with_key_append, with_key_counts _ p hp, hbefore, hafter]
    rfl

/-- An `iIj` answer with a member named like a count, and one function. -/
def counted_texts : List (String × Json) :=
  [("\x7b\"func_count\":\"x\"\x7d", .object [(Bytes.lit "func_count", .string (Bytes.lit "x"))]),
    ("[\x7b\"name\":\"main\",\"addr\":16\x7d]", .array [.object
      [(Bytes.lit "addr", .number_unsigned 16), (Bytes.lit "name", .string (Bytes.lit "main"))]])]

/-- grep repeats the table of one function. -/
theorem grep_repeats_main :
    letI := Nlohmann.ofTexts counted_texts
    letI := NlohmannErrors.silent
    ParsesUtf8 ∧ ∃ t : Tables,
      t.Read (mock_backend [("aflj", "[\x7b\"name\":\"main\",\"addr\":16\x7d]")]) ∧
        outcome (mock_backend [("aflj", "[\x7b\"name\":\"main\",\"addr\":16\x7d]")])
          checked.build_grep_rows = .ok t.grep := by
  let := Nlohmann.ofTexts counted_texts
  let := NlohmannErrors.silent
  have htexts : ∀ p ∈ counted_texts, p.2.utf8 = true := by decide
  have hparse : ParsesUtf8 := parsesUtf8_ofTexts htexts
  obtain ⟨t, hread, hgrep, -⟩ := views_of_one_command_agree hparse
    (mock_backend [("aflj", "[\x7b\"name\":\"main\",\"addr\":16\x7d]")])
  exact ⟨hparse, t, hread, hgrep⟩

/-- A member of the `iIj` answer with the name of a count is a second row with that key. -/
theorem a_member_named_like_a_count :
    letI := Nlohmann.ofTexts counted_texts
    letI := NlohmannErrors.silent
    ParsesUtf8 ∧ ¬ ∀ rows funcs,
      outcome (mock_backend [("iIj", "\x7b\"func_count\":\"x\"\x7d")])
          checked.welcome_cache_builder = .ok rows →
        outcome (mock_backend [("iIj", "\x7b\"func_count\":\"x\"\x7d")])
          checked.funcs_cache_builder = .ok funcs →
        ∀ r ∈ rows, r.key = Bytes.lit "func_count" → r.value = to_string funcs.length := by
  let := Nlohmann.ofTexts counted_texts
  let := NlohmannErrors.silent
  have htexts : ∀ p ∈ counted_texts, p.2.utf8 = true := by decide
  refine ⟨parsesUtf8_ofTexts htexts, fun h => ?_⟩
  have hvalue : Bytes.lit "x" = to_string (([] : List FuncRow).length : Nat) :=
    h _ [] rfl rfl ⟨Bytes.lit "func_count", Bytes.lit "x"⟩ (List.mem_cons_self ..) rfl
  exact absurd hvalue (by decide)

end r2sql
