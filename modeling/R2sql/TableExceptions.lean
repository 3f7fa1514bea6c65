-- Which tables can throw: the accessors never do on what the parser gives, and
-- one typed read of the welcome table does.
import R2sql.CheckedTables

namespace r2sql

open Raising

/-- The parser gives no string that is not UTF-8. -/
def ParsesUtf8 [Nlohmann] : Prop := ∀ text j, Nlohmann.parse text = some j → j.utf8 = true

theorem utf8_json_of_reply [Nlohmann] (hparse : ParsesUtf8) (text : Bytes) :
    (json_of_reply text).utf8 = true := by
  unfold json_of_reply
  split
  · rfl
  · dsimp only
    split
    · rfl
    · cases hj : Nlohmann.parse (text.rdropWhile trailing) with
      | none => rfl
      | some j => exact hparse _ j hj

namespace checked

variable [Nlohmann] (be : Backend)

/-! ## Tables of one answer -/

/-- One answer, and a row for each element of an array. -/
theorem outcome_rows (hparse : ParsesUtf8) {Row : Type} {command : Bytes}
    {row : Json → Except Thrown Row} {g : Json → Row}
    (hrow : ∀ j, j.utf8 = true → row j = .ok (g j)) :
    outcome be ((liftM (cmd_json command) : Raises Json) >>= fun arr =>
      liftM (arr.items.mapM row)) = .ok ((json_of_reply (be command)).items.map g) := by
  rw [outcome_lift_bind, value_cmd_json, outcome_ofExcept]
  exact mapM_ok fun j hj => hrow j (Json.utf8_of_mem_items (utf8_json_of_reply hparse _) hj)

theorem outcome_array_rows (hparse : ParsesUtf8) {Row : Type} {command : String}
    {row : Json → Except Thrown Row} {g : Json → Row}
    (hrow : ∀ j, j.utf8 = true → row j = .ok (g j)) :
    outcome be (array_rows command row) =
      .ok ((json_of_reply (be (Bytes.lit command))).items.map g) := by
  unfold array_rows
  exact outcome_rows be hparse hrow

theorem array_rows_complete (hparse : ParsesUtf8) {Row : Type} (command : String)
    {row : Json → Except Thrown Row} (hrow : ∀ j, j.utf8 = true → ∃ r, row j = .ok r) :
    ∃ rows, outcome be (array_rows command row) = .ok rows := by
  obtain ⟨rows, hrows⟩ : ∃ rows, (json_of_reply (be (Bytes.lit command))).items.mapM row =
      .ok rows :=
    exists_mapM_ok fun j hj => hrow j (Json.utf8_of_mem_items (utf8_json_of_reply hparse _) hj)
  refine ⟨rows, ?_⟩
  unfold array_rows
  rw [outcome_lift_bind, value_cmd_json, hrows]
  rfl

variable [NlohmannErrors]

theorem funcs_eq (hparse : ParsesUtf8) :
    outcome be funcs_cache_builder = .ok (r2sql.funcs_cache_builder.value be) := by
  refine outcome_array_rows be hparse fun j hj => ?_
  simp [func_row, str_eq hj]

theorem flags_eq (hparse : ParsesUtf8) :
    outcome be flags_cache_builder = .ok (r2sql.flags_cache_builder.value be) := by
  refine outcome_array_rows be hparse fun j hj => ?_
  simp [flag_row, str_eq hj]

theorem comments_eq (hparse : ParsesUtf8) :
    outcome be comments_cache_builder = .ok (r2sql.comments_cache_builder.value be) := by
  refine outcome_array_rows be hparse fun j hj => ?_
  simp [comment_row, str_eq hj]

theorem bookmarks_eq (hparse : ParsesUtf8) :
    outcome be bookmarks_cache_builder = .ok (r2sql.bookmarks_cache_builder.value be) := by
  have hrows : ∀ text, (json_of_reply text).items.zipIdx.mapM bookmark_row =
      .ok ((json_of_reply text).items.zipIdx.map fun p =>
        { id := Int64.ofNat (p.2 + 1), addr := json_utils.i64_addr p.1
          name := json_utils.str p.1 (Bytes.lit "name") }) := by
    refine fun text => mapM_ok fun p hp => ?_
    have hmem : p.1 ∈ (json_of_reply text).items :=
      List.fst_mem_of_mem_zipIdx hp
    have hj := Json.utf8_of_mem_items (utf8_json_of_reply hparse text) hmem
    simp [bookmark_row, str_eq hj]
  unfold bookmarks_cache_builder
  rw [outcome_lift_bind, outcome_lift_bind, outcome_lift_bind, value_cmd_json, hrows]
  rfl

theorem strings_complete (hparse : ParsesUtf8) (with_text : Bool) :
    ∃ rows, outcome be (build_strings with_text) = .ok rows := by
  refine array_rows_complete be hparse "izj" fun j hj => ?_
  cases with_text <;> simp [string_row, str_eq hj]

theorem imports_complete (hparse : ParsesUtf8) :
    ∃ rows, outcome be imports_cache_builder = .ok rows := by
  refine array_rows_complete be hparse "iij" fun j hj => ?_
  simp [import_row, str_eq hj]

theorem exports_complete (hparse : ParsesUtf8) :
    ∃ rows, outcome be exports_cache_builder = .ok rows := by
  refine array_rows_complete be hparse "iEj" fun j hj => ?_
  simp [export_row, str_eq hj]

theorem sections_complete (hparse : ParsesUtf8) (command : String) :
    ∃ rows, outcome be (array_rows command section_row) = .ok rows := by
  refine array_rows_complete be hparse command fun j hj => ?_
  simp [section_row, str_eq hj]

theorem project_name_of_ok {j : Json} (hj : j.utf8 = true) :
    ∃ name, project_name_of j = .ok name := by
  unfold project_name_of
  cases j with
  | string s => exact ⟨s, rfl⟩
  | object fields => exact ⟨_, str_eq hj _ _⟩
  | _ => exact ⟨[], rfl⟩

theorem projects_complete (hparse : ParsesUtf8) :
    ∃ rows, outcome be projects_cache_builder = .ok rows := by
  obtain ⟨names, hnames⟩ := array_rows_complete be hparse "Plj" fun _ => project_name_of_ok
  refine ⟨(names.filter (· ≠ [])).map ProjectRow.mk, ?_⟩
  unfold projects_cache_builder
  rw [outcome_bind_ok be hnames]
  rfl

/-! ## blocks, instructions and pseudocode -/

theorem blocks_for_func_eq (hparse : ParsesUtf8) (fa : Int64) :
    outcome be (blocks_for_func fa) = .ok ((r2sql.blocks_for_func fa).value be) := by
  have hrow : ∀ j, j.utf8 = true → block_row fa j = .ok
      { addr := json_utils.i64 j (Bytes.lit "addr"), size := json_utils.i64 j (Bytes.lit "size")
        func_addr := fa } := by
    intro j hj
    simp [block_row]
  unfold blocks_for_func
  exact outcome_rows be hparse hrow

theorem mnemonic_from_op_eq {op : Json} (h : op.utf8 = true) :
    mnemonic_from_op op = .ok (r2sql.mnemonic_from_op op) := by
  unfold mnemonic_from_op r2sql.mnemonic_from_op
  rw [str_eq h, ok_bind]
  by_cases hopcode : json_utils.str op (Bytes.lit "opcode") = []
  · simp only [hopcode, if_true, str_eq h, ok_bind]
    split <;> rfl
  · simp only [hopcode, if_false, except_pure, ok_bind]

theorem insns_for_func_eq (hparse : ParsesUtf8) (fa : Int64) :
    outcome be (insns_for_func fa) = .ok ((r2sql.insns_for_func fa).value be) := by
  unfold insns_for_func r2sql.insns_for_func
  rw [outcome_lift_bind, Dialogue.value_bind]
  cases hops : ((cmd_json (at_addr "pdfj" fa)).value be).find (Bytes.lit "ops") with
  | none => rfl
  | some ops =>
    have hutf8 : ops.utf8 = true := Json.utf8_of_find (utf8_json_of_reply hparse _) hops
    have hrows : ops.items.mapM (insn_row fa) = .ok (ops.items.map fun op =>
        { addr := json_utils.i64_addr op
          size := json_utils.i64 op (Bytes.lit "size")
          mnemonic := r2sql.mnemonic_from_op op
          disasm := json_utils.str op (Bytes.lit "disasm")
          bytes := json_utils.str op (Bytes.lit "bytes")
          func_addr := fa }) := by
      refine mapM_ok fun op hop => ?_
      have hj := Json.utf8_of_mem_items hutf8 hop
      simp [insn_row, str_eq hj, mnemonic_from_op_eq hj]
    simp only [hrows]
    rfl

omit [Nlohmann] in
theorem FuncGen.next_eq {Row : Type} {f : Int64 → Raises (List Row)}
    {f' : Int64 → R2 (List Row)} (hf : ∀ fa, outcome be (f fa) = .ok ((f' fa).value be))
    (g : FuncGen Row) : outcome be (FuncGen.next f g) = .ok ((g.next f').value be) := by
  fun_induction r2sql.FuncGen.next f' g with
  | case1 g hb =>
    rw [FuncGen.next, dif_pos hb]
    rfl
  | case2 g hb hfi ih =>
    rw [FuncGen.next, dif_neg hb, dif_pos hfi, i64_addr_eq, outcome_ofExcept_bind]
    dsimp only
    rw [outcome_bind_ok be (hf _), ih, Dialogue.value_bind]
  | case3 g hb hfi =>
    rw [FuncGen.next, dif_neg hb, dif_neg hfi]
    rfl

omit [Nlohmann] in
theorem PseudoGen.next_eq (g : PseudoGen) :
    outcome be (PseudoGen.next g) = .ok (g.next.value be) := by
  unfold PseudoGen.next r2sql.PseudoGen.next
  split
  · rw [i64_addr_eq, outcome_ofExcept_bind]
    dsimp only
    rw [outcome_lift_bind]
    rfl
  · rfl

/-! ## xrefs -/

theorem name_in_info_eq {info : Json} (h : info.utf8 = true) :
    name_in_info info = .ok (r2sql.name_in_info info) := by
  cases info with
  | array xs =>
    cases xs with
    | nil => rfl
    | cons j js =>
      cases j with
      | object fields => exact str_eq (Json.utf8_of_mem_array h (by simp)) _ _
      | _ => rfl
  | object fields => exact str_eq h _ _
  | _ => rfl

theorem function_name_at_eq (hparse : ParsesUtf8) (addr : Int64) :
    outcome be (function_name_at addr) = .ok ((r2sql.function_name_at addr).value be) := by
  unfold function_name_at
  rw [outcome_lift_bind, value_cmd_json, name_in_info_eq (utf8_json_of_reply hparse _)]
  rfl

theorem xrefs_to_addr_eq (hparse : ParsesUtf8) (to_addr : Int64) :
    outcome be (xrefs_to_addr to_addr) = .ok ((r2sql.xrefs_to_addr to_addr).value be) := by
  have hrow : ∀ j, j.utf8 = true → xref_to_row to_addr j = .ok
      { from_addr := json_utils.i64 j (Bytes.lit "from")
        to_addr := to_addr
        type := json_utils.str j (Bytes.lit "type")
        from_func := json_utils.str j (Bytes.lit "fcn_name") } := by
    intro j hj
    simp [xref_to_row, str_eq hj]
  unfold xrefs_to_addr
  exact outcome_rows be hparse hrow

/-- The loop throws nothing: each reference is read, and the name is asked for where the total loop
asks for it. -/
theorem from_rows_eq (hparse : ParsesUtf8) (from_addr : Int64) (kept : Bytes) {js : List Json}
    (hjs : ∀ j ∈ js, j.utf8 = true) :
    outcome be (from_rows from_addr kept js) =
      .ok ((r2sql.from_rows from_addr kept js).value be) := by
  induction js generalizing kept with
  | nil => rfl
  | cons j js ih =>
    have hj := hjs j (by simp)
    have hrest : ∀ name, outcome be (from_rows from_addr name js) =
        .ok ((r2sql.from_rows from_addr name js).value be) :=
      fun name => ih name fun j' hj' => hjs j' (by simp [hj'])
    have hrow : xref_from_row from_addr j = .ok
        { from_addr := json_utils.i64 j (Bytes.lit "from") from_addr
          to_addr := json_utils.i64 j (Bytes.lit "to")
          type := json_utils.str j (Bytes.lit "type")
          from_func := json_utils.str j (Bytes.lit "fcn_name") } := by
      simp [xref_from_row, str_eq hj]
    rw [from_rows, r2sql.from_rows, hrow, outcome_ofExcept_bind]
    by_cases hfcn : json_utils.str j (Bytes.lit "fcn_name") = []
    · simp only [hfcn, if_true]
      by_cases hkept : kept = []
      · simp only [hkept, if_true]
        rw [outcome_bind_ok be (function_name_at_eq be hparse from_addr),
          outcome_bind_ok be (hrest _), Dialogue.value_bind, Dialogue.value_bind]
        rfl
      · simp only [hkept, if_false]
        rw [outcome_bind_ok be (outcome_pure be kept), outcome_bind_ok be (hrest _),
          Dialogue.value_bind, Dialogue.value_bind]
        rfl
    · simp only [hfcn, if_false]
      rw [outcome_bind_ok be (hrest _), Dialogue.value_bind]
      rfl

theorem xrefs_from_addr_eq (hparse : ParsesUtf8) (from_addr : Int64) :
    outcome be (xrefs_from_addr from_addr) = .ok ((r2sql.xrefs_from_addr from_addr).value be) := by
  unfold xrefs_from_addr
  rw [outcome_lift_bind]
  exact from_rows_eq be hparse from_addr []
    fun j hj => Json.utf8_of_mem_items (utf8_json_of_reply hparse _) hj

theorem xrefs_eq (hparse : ParsesUtf8) :
    outcome be xrefs_cache_builder = .ok (r2sql.xrefs_cache_builder.value be) := by
  have hfunc : ∀ f, f.utf8 = true → outcome be (xrefs_of_func f) = .ok
      ((json_of_reply (be (at_addr "afxj" (json_utils.i64_addr f)))).items.map fun j =>
        ({ from_addr := json_utils.i64 j (Bytes.lit "from")
           to_addr := json_utils.i64 j (Bytes.lit "to")
           type := json_utils.str j (Bytes.lit "type")
           from_func := json_utils.str f (Bytes.lit "name") } : XrefRow)) := by
    intro f hf
    have hrow : ∀ j, j.utf8 = true → xref_row (json_utils.str f (Bytes.lit "name")) j = .ok
        { from_addr := json_utils.i64 j (Bytes.lit "from")
          to_addr := json_utils.i64 j (Bytes.lit "to")
          type := json_utils.str j (Bytes.lit "type")
          from_func := json_utils.str f (Bytes.lit "name") } := by
      intro j hj
      simp [xref_row, str_eq hj]
    unfold xrefs_of_func
    rw [i64_addr_eq, str_eq hf, outcome_ofExcept_bind]
    dsimp only
    rw [outcome_ofExcept_bind]
    dsimp only
    exact outcome_rows be hparse hrow
  unfold xrefs_cache_builder r2sql.xrefs_cache_builder
  rw [outcome_lift_bind, value_cmd_json, outcome_bind_ok be (outcome_mapM be fun f hf =>
    hfunc f (Json.utf8_of_mem_items (utf8_json_of_reply hparse _) hf)), Dialogue.value_bind,
    Dialogue.value_bind, Dialogue.value_mapM]
  rfl

/-! ## grep -/

theorem push_array_row_eq (kind : String) (addr_key : Option String) (name_key : String)
    (parent_key : Option String) {j : Json} (hj : j.utf8 = true) :
    push_array_row kind addr_key name_key parent_key j =
      .ok (r2sql.push_array_row kind addr_key name_key parent_key j) := by
  unfold push_array_row r2sql.push_array_row
  cases addr_key <;> cases parent_key <;> simp [str_eq hj]

theorem build_grep_rows_eq (hparse : ParsesUtf8) :
    outcome be build_grep_rows = .ok (r2sql.build_grep_rows.value be) := by
  have harray : ∀ (command kind : String) addr_key name_key parent_key,
      outcome be (array_rows command (push_array_row kind addr_key name_key parent_key)) =
        .ok ((json_of_reply (be (Bytes.lit command))).items.map
          (r2sql.push_array_row kind addr_key name_key parent_key)) :=
    fun command kind addr_key name_key parent_key =>
      outcome_array_rows be hparse fun j => push_array_row_eq kind addr_key name_key parent_key
  have hcomments : outcome be (array_rows "CCj" grep_comment_row) =
      .ok ((json_of_reply (be (Bytes.lit "CCj"))).items.map fun j =>
        { kind := Bytes.lit "comment", name := json_utils.str j (Bytes.lit "name")
          full_name := json_utils.str j (Bytes.lit "name"), parent_name := []
          addr := json_utils.i64_addr j }) :=
    outcome_array_rows be hparse fun j hj => by simp [grep_comment_row, str_eq hj]
  unfold build_grep_rows
  rw [outcome_bind_ok be (harray ..), outcome_bind_ok be (harray ..),
    outcome_bind_ok be (harray ..), outcome_bind_ok be (harray ..),
    outcome_bind_ok be (harray ..), outcome_bind_ok be hcomments]
  rfl

theorem GrepPatternIterator_eq (hparse : ParsesUtf8) (pattern : Bytes) :
    outcome be (GrepPatternIterator pattern) =
      .ok ((r2sql.GrepPatternIterator pattern).value be) := by
  unfold GrepPatternIterator r2sql.GrepPatternIterator
  dsimp only
  rw [outcome_bind_ok be (build_grep_rows_eq be hparse), Dialogue.value_bind]
  rfl

/-! ## types and types_members -/

theorem atomic_info_eq {tj : Json} (h : tj.utf8 = true) :
    atomic_info tj = .ok (r2sql.atomic_info tj) := by
  have hloop : ∀ arr : Json, arr.utf8 = true → arr.elements.mapM atomic_entry =
      .ok (arr.elements.map fun j => (json_utils.str j (Bytes.lit "type"),
        json_utils.i64 j (Bytes.lit "size") (-1), json_utils.str j (Bytes.lit "format"))) := by
    refine fun arr harr => mapM_ok fun j hj => ?_
    simp [atomic_entry, str_eq (Json.utf8_of_mem_elements harr hj)]
  cases tj with
  | object fields =>
    unfold atomic_info r2sql.atomic_info
    cases hfind : fields.lookup (Bytes.lit "types") with
    | none => simp [Json.is_object, Json.contains, Json.find, hfind, hloop (.array []) rfl]
    | some arr =>
      have harr := Json.utf8_of_lookup h hfind
      simp [Json.is_object, Json.contains, Json.find, Json.at_key, hfind, hloop arr harr]
  | _ => rfl

omit [Nlohmann] in
theorem fields_of_eq (j : Json) : fields_of j = .ok (r2sql.fields_of j) := by
  cases j with
  | object fields =>
    unfold fields_of r2sql.fields_of
    cases hfind : fields.lookup (Bytes.lit "fields") with
    | none => simp [Json.is_object, Json.contains, Json.find, Json.items, hfind]
    | some v => simp [Json.is_object, Json.contains, Json.find, Json.at_key, hfind]
  | _ => rfl

omit [Nlohmann] [NlohmannErrors] in
theorem utf8_of_mem_fields {j f : Json} (h : j.utf8 = true) (hf : f ∈ r2sql.fields_of j) :
    f.utf8 = true := by
  unfold r2sql.fields_of at hf
  cases hfind : j.find (Bytes.lit "fields") with
  | none =>
    rw [hfind] at hf
    cases hf
  | some v =>
    rw [hfind] at hf
    exact Json.utf8_of_mem_items (Json.utf8_of_find h hfind) hf

omit [Nlohmann] in
theorem record_size_eq (kind : Bytes) (fields : List Json) :
    record_size kind fields = .ok (r2sql.record_size kind fields) := by
  have hsizes : fields.mapM field_size = .ok (fields.map r2sql.field_size) :=
    mapM_ok fun f _ => by simp [field_size, r2sql.field_size]
  unfold record_size r2sql.record_size
  rw [hsizes, ok_bind, List.foldl_map, List.foldl_map]
  split <;> rfl

theorem type_row_eq (hparse : ParsesUtf8) (info : List (Bytes × Int64 × Bytes))
    (name kind : Bytes) :
    outcome be (type_row info name kind) = .ok ((r2sql.type_row info name kind).value be) := by
  unfold type_row r2sql.type_row
  dsimp only
  split
  · cases info.lookup name <;> rfl
  · split
    · rw [outcome_lift_bind, Dialogue.value_bind, value_cmd_json]
      split
      · rw [str_eq (utf8_json_of_reply hparse _), fields_of_eq, outcome_ofExcept_bind]
        dsimp only
        rw [outcome_ofExcept_bind]
        dsimp only
        rw [record_size_eq, outcome_ofExcept_bind]
        rfl
      · rfl
    · rfl

theorem types_eq [CppLibrary] (hparse : ParsesUtf8) :
    outcome be types_cache_builder = .ok (r2sql.types_cache_builder.value be) := by
  unfold types_cache_builder r2sql.types_cache_builder
  rw [outcome_lift_bind, Dialogue.value_bind, value_cmd]
  dsimp only
  split
  · rfl
  · rw [outcome_lift_bind, Dialogue.value_bind, value_cmd_json,
      atomic_info_eq (utf8_json_of_reply hparse _), outcome_ofExcept_bind]
    dsimp only
    rw [outcome_bind_ok be (outcome_mapM be fun p _ => type_row_eq be hparse _ p.1 p.2),
      Dialogue.value_bind, Dialogue.value_mapM]
    rfl

omit [Nlohmann] in
theorem enum_rows_eq (name : Bytes) (j : Json) :
    enum_rows name j = .ok (r2sql.enum_rows name j) := by
  cases j with
  | object fields =>
    unfold enum_rows r2sql.enum_rows
    cases hfind : fields.lookup (Bytes.lit "values") with
    | none => simp [Json.is_object, Json.contains, Json.find, hfind]
    | some v =>
      cases v with
      | object members =>
        have hrows : members.mapM (enum_row name) = .ok (members.map fun p =>
            { type_name := name, parent_kind := Bytes.lit "enum", member_name := p.1
              member_type := [], offset := 0, size := 0, array_size := 0
              value := r2sql.enum_value p.2 }) := by
          refine mapM_ok fun p _ => ?_
          have hvalue : enum_value p.2 = .ok (r2sql.enum_value p.2) := by
            cases p.2 <;> rfl
          simp [enum_row, hvalue]
        simp [Json.is_object, Json.contains, Json.find, Json.at_key, hfind, hrows]
      | _ => simp [Json.is_object, Json.contains, Json.find, Json.at_key, hfind]
  | _ => rfl

theorem field_rows_eq (name kind : Bytes) {j : Json} (h : j.utf8 = true) :
    field_rows name kind j = .ok (r2sql.field_rows name kind j) := by
  unfold field_rows r2sql.field_rows
  rw [fields_of_eq, ok_bind]
  refine mapM_ok fun f hf => ?_
  simp [field_row, str_eq (utf8_of_mem_fields h hf)]

theorem member_rows_eq (hparse : ParsesUtf8) (name kind : Bytes) :
    outcome be (member_rows name kind) = .ok ((r2sql.member_rows name kind).value be) := by
  unfold member_rows r2sql.member_rows
  split
  · rfl
  · split
    · rw [outcome_lift_bind, enum_rows_eq, Dialogue.value_bind]
      rfl
    · rw [outcome_lift_bind, value_cmd_json, field_rows_eq name kind (utf8_json_of_reply hparse _),
        Dialogue.value_bind]
      rfl

theorem types_members_eq [CppLibrary] (hparse : ParsesUtf8) :
    outcome be types_members_cache_builder =
      .ok (r2sql.types_members_cache_builder.value be) := by
  unfold types_members_cache_builder r2sql.types_members_cache_builder
  rw [outcome_lift_bind, Dialogue.value_bind, value_cmd]
  dsimp only
  split
  · rfl
  · rw [outcome_bind_ok be (outcome_mapM be fun p _ => member_rows_eq be hparse p.1 p.2),
      Dialogue.value_bind, Dialogue.value_mapM]
    rfl

/-! ## welcome -/

theorem info_row_ok {f : Bytes × Json} (h : f.2.utf8 = true) : ∃ row, info_row f = .ok row := by
  have hvalue : ∃ value, info_value f.2 = .ok value := by
    have hdump := Json.try_dump_of_utf8 h
    unfold info_value
    cases hv : f.2 with
    | string s => exact ⟨s, rfl⟩
    | boolean b => exact ⟨_, rfl⟩
    | _ =>
      rw [hv] at hdump
      exact ⟨_, hdump⟩
  obtain ⟨value, hvalue⟩ := hvalue
  refine ⟨{ key := f.1, value := value }, ?_⟩
  unfold info_row
  rw [hvalue]
  rfl

theorem info_bits_ok {fields : List (Bytes × Json)} (h : (Json.object fields).utf8 = true) :
    ∃ bits, info_bits (.object fields) = .ok bits := by
  unfold info_bits
  cases hfind : fields.lookup (Bytes.lit "bits") with
  | none => exact ⟨[], by simp [Json.contains, Json.find, hfind]⟩
  | some v =>
    have hdump := Json.try_dump_of_utf8 (Json.utf8_of_lookup h hfind)
    simp only [Json.contains, Json.find, Json.at_key, hfind, Option.isSome_some, if_true, ok_bind,
      Option.getD_some]
    cases v with
    | number_integer | number_unsigned | number_float => exact ⟨_, rfl⟩
    | _ => exact ⟨_, hdump⟩

/-- The `arch` member of the `iIj` answer is a text, where there is one. -/
def ArchIsText (info : Json) : Prop :=
  ∀ arch, info.find (Bytes.lit "arch") = some arch → arch.is_string = true

omit [Nlohmann] in
/-- The one typed read with no test before it. -/
theorem value_arch_ok_iff (fields : List (Bytes × Json)) :
    (∃ arch, (Json.object fields).value_string (Bytes.lit "arch") [] = .ok arch) ↔
      ArchIsText (.object fields) := by
  unfold Json.value_string ArchIsText Json.find
  dsimp only
  cases fields.lookup (Bytes.lit "arch") with
  | none => simp
  | some v => cases v <;> simp [Json.get_string, Json.mistyped, Json.is_string]

theorem welcome_info_ok_iff {info : Json} (h : info.utf8 = true) :
    (∃ r, welcome_info info = .ok r) ↔ ArchIsText info := by
  cases info with
  | object fields =>
    obtain ⟨rows, hrows⟩ : ∃ rows, fields.mapM info_row = .ok rows := by
      refine exists_mapM_ok fun f hf => info_row_ok ?_
      rw [Json.utf8, Json.utf8_fields_eq, List.all_eq_true] at h
      have hpair := h f hf
      rw [Bool.and_eq_true] at hpair
      exact hpair.2
    obtain ⟨bits, hbits⟩ := info_bits_ok h
    rw [← value_arch_ok_iff]
    unfold welcome_info
    simp only [hrows, hbits, ok_bind]
    cases (Json.object fields).value_string (Bytes.lit "arch") [] with
    | error e => simp [bind, Except.bind]
    | ok arch => simp
  | _ =>
    refine iff_of_true ⟨_, rfl⟩ fun arch harch => ?_
    cases harch

omit [Nlohmann] in
theorem core_file_ok (core : Json) : ∃ rows, core_file core = .ok rows := by
  unfold core_file
  cases core with
  | object fields =>
    split
    · rw [Json.at_key, ok_bind]
      cases (fields.lookup (Bytes.lit "file")).getD .null <;> exact ⟨_, rfl⟩
    · exact ⟨_, rfl⟩
  | _ => exact ⟨_, rfl⟩

omit [Nlohmann] in
theorem welcome_file_ok (j : Json) : ∃ rows, welcome_file j = .ok rows := by
  unfold welcome_file
  cases j with
  | object fields =>
    split
    · exact core_file_ok _
    · exact ⟨_, rfl⟩
  | _ => exact ⟨_, rfl⟩

omit [Nlohmann] in
theorem welcome_entry_ok (j : Json) : ∃ entry, welcome_entry j = .ok entry := by
  unfold welcome_entry
  split
  · rename_i first rest
    cases first with
    | object fields =>
      split
      · rw [Json.at_key, ok_bind]
        cases (fields.lookup (Bytes.lit "vaddr")).getD .null <;> exact ⟨_, rfl⟩
      · exact ⟨_, rfl⟩
    | _ => exact ⟨_, rfl⟩
  · exact ⟨_, rfl⟩

theorem welcome_complete_iff (hparse : ParsesUtf8) :
    (∃ rows, outcome be welcome_cache_builder = .ok rows) ↔
      ArchIsText (json_of_reply (be (Bytes.lit "iIj"))) := by
  rw [← welcome_info_ok_iff (utf8_json_of_reply hparse _)]
  unfold welcome_cache_builder
  rw [outcome_lift_bind, value_cmd_json, outcome_ofExcept_bind]
  cases welcome_info (json_of_reply (be (Bytes.lit "iIj"))) with
  | error e => simp
  | ok r =>
    obtain ⟨info, arch, bits⟩ := r
    obtain ⟨file, hfile⟩ := welcome_file_ok (json_of_reply (be (Bytes.lit "ij")))
    obtain ⟨entry, hentry⟩ := welcome_entry_ok (json_of_reply (be (Bytes.lit "iej")))
    refine iff_of_true ?_ ⟨_, rfl⟩
    dsimp only
    rw [outcome_lift_bind, value_cmd_json, hfile, outcome_ofExcept_bind]
    dsimp only
    rw [outcome_lift_bind, value_cmd_json, hentry, outcome_ofExcept_bind]
    cases entry with
    | none => exact ⟨_, rfl⟩
    | some at_entry => exact ⟨_, rfl⟩

end checked

/-! ## Full scans -/

/-- A full scan: `next` answers true with a row until it answers false, and throws nothing. -/
inductive Scans {G Row : Type} (next : G → Except Thrown (Bool × G)) (current : G → Row) :
    G → List Row → Prop
  | stop {g g'} (h : next g = .ok (false, g')) : Scans next current g []
  | row {g g' rows} (h : next g = .ok (true, g')) (hrest : Scans next current g' rows) :
    Scans next current g (current g' :: rows)

section
variable [NlohmannErrors] (be : Backend)

theorem FuncGen.scans {Row : Type} {f : Int64 → Raises (List Row)}
    {f' : Int64 → R2 (List Row)} (hf : ∀ fa, outcome be (f fa) = .ok ((f' fa).value be))
    (g : FuncGen Row) :
    Scans (fun g => outcome be (checked.FuncGen.next f g)) FuncGen.cur_ g (g.drain f' be) := by
  fun_induction FuncGen.drain f' be g with
  | case1 g g' h ih => exact .row (by rw [checked.FuncGen.next_eq be hf, h]) ih
  | case2 g g' h => exact .stop (by rw [checked.FuncGen.next_eq be hf, h])

theorem PseudoGen.scans (g : PseudoGen) :
    Scans (fun g => outcome be (checked.PseudoGen.next g)) PseudoGen.cur_ g (g.drain be) := by
  fun_induction PseudoGen.drain be g with
  | case1 g g' h ih => exact .row (by rw [checked.PseudoGen.next_eq, h]) ih
  | case2 g g' h => exact .stop (by rw [checked.PseudoGen.next_eq, h])

end

/-! ## All tables -/

/-- The ways to read a table: a cache builder, a generator that is read to its end, or a pushdown
iterator on its argument. -/
inductive TableRun where
  | welcome
  | funcs
  | blocks
  | blocks_in_func (fa : Int64)
  | instructions
  | instructions_in_func (fa : Int64)
  | xrefs
  | xrefs_to (addr : Int64)
  | xrefs_from (addr : Int64)
  | strings
  | strings_projection (colUsed : UInt64)
  | imports
  | exports
  | sections
  | segments
  | flags
  | comments
  | bookmarks
  | grep
  | grep_pattern (pattern : Bytes)
  | types
  | types_members
  | projects
  | pseudocode (dec_cmd : String)
  | pseudocode_at_func (dec_cmd : String) (fa : Int64)

section
variable [Nlohmann] [NlohmannErrors] [CppLibrary] (be : Backend)

/-- The code of a table ends with a value. The calls of `next` of an iterator over a vector have
nothing to throw. -/
def Ends {α : Type} (m : Raises α) : Prop := ∃ a, outcome be m = .ok a

/-- The run ends without an exception, when the backend gives the answers. -/
def TableRun.Completes : TableRun → Prop
  | welcome => Ends be checked.welcome_cache_builder
  | funcs => Ends be checked.funcs_cache_builder
  | blocks => ∃ rows, Scans (fun g => outcome be (checked.FuncGen.next checked.blocks_for_func g))
      FuncGen.cur_ (BlocksGen.value be) rows
  | blocks_in_func fa => Ends be (checked.BlocksInFuncIterator fa)
  | instructions => ∃ rows, Scans
      (fun g => outcome be (checked.FuncGen.next checked.insns_for_func g)) FuncGen.cur_
      (InsnsGen.value be) rows
  | instructions_in_func fa => Ends be (checked.InsnsInFuncIterator fa)
  | xrefs => Ends be checked.xrefs_cache_builder
  | xrefs_to addr => Ends be (checked.XrefsToIterator addr)
  | xrefs_from addr => Ends be (checked.XrefsFromIterator addr)
  | strings => Ends be checked.strings_cache_builder
  | strings_projection colUsed => Ends be (checked.strings_projection_cache_builder colUsed)
  | imports => Ends be checked.imports_cache_builder
  | exports => Ends be checked.exports_cache_builder
  | sections => Ends be checked.sections_cache_builder
  | segments => Ends be checked.segments_cache_builder
  | flags => Ends be checked.flags_cache_builder
  | comments => Ends be checked.comments_cache_builder
  | bookmarks => Ends be checked.bookmarks_cache_builder
  | grep => Ends be checked.build_grep_rows
  | grep_pattern pattern => Ends be (checked.GrepPatternIterator pattern)
  | types => Ends be checked.types_cache_builder
  | types_members => Ends be checked.types_members_cache_builder
  | projects => Ends be checked.projects_cache_builder
  | pseudocode dec_cmd => ∃ rows, Scans (fun g => outcome be (checked.PseudoGen.next g))
      PseudoGen.cur_ ((PseudoGen.make dec_cmd).value be) rows
  | pseudocode_at_func dec_cmd fa => Ends be (liftM (PseudoAtFuncIterator.make dec_cmd fa))

omit [Nlohmann] [NlohmannErrors] [CppLibrary] in
/-- An iterator over the rows that ends where its rows do. -/
theorem ends_make {Row : Type} {rows : Raises (List Row)} {l : List Row}
    (h : outcome be rows = .ok l) :
    Ends be (do let rows ← rows; return VecIterator.make rows : Raises (VecIterator Row)) :=
  ⟨.make l, by rw [outcome_bind_ok be h]; rfl⟩

theorem completes_of_ne_welcome (hparse : ParsesUtf8) {t : TableRun} (ht : t ≠ .welcome) :
    t.Completes be := by
  cases t with
  | welcome => exact absurd rfl ht
  | funcs => exact ⟨_, checked.funcs_eq be hparse⟩
  | blocks => exact ⟨_, FuncGen.scans be (checked.blocks_for_func_eq be hparse) _⟩
  | blocks_in_func fa => exact ends_make be (checked.blocks_for_func_eq be hparse fa)
  | instructions => exact ⟨_, FuncGen.scans be (checked.insns_for_func_eq be hparse) _⟩
  | instructions_in_func fa => exact ends_make be (checked.insns_for_func_eq be hparse fa)
  | xrefs => exact ⟨_, checked.xrefs_eq be hparse⟩
  | xrefs_to addr => exact ends_make be (checked.xrefs_to_addr_eq be hparse addr)
  | xrefs_from addr => exact ends_make be (checked.xrefs_from_addr_eq be hparse addr)
  | strings => exact checked.strings_complete be hparse true
  | strings_projection colUsed => exact checked.strings_complete be hparse _
  | imports => exact checked.imports_complete be hparse
  | exports => exact checked.exports_complete be hparse
  | sections => exact checked.sections_complete be hparse "iSj"
  | segments => exact checked.sections_complete be hparse "iSSj"
  | flags => exact ⟨_, checked.flags_eq be hparse⟩
  | comments => exact ⟨_, checked.comments_eq be hparse⟩
  | bookmarks => exact ⟨_, checked.bookmarks_eq be hparse⟩
  | grep => exact ⟨_, checked.build_grep_rows_eq be hparse⟩
  | grep_pattern pattern => exact ⟨_, checked.GrepPatternIterator_eq be hparse pattern⟩
  | types => exact ⟨_, checked.types_eq be hparse⟩
  | types_members => exact ⟨_, checked.types_members_eq be hparse⟩
  | projects => exact checked.projects_complete be hparse
  | pseudocode dec_cmd => exact ⟨_, PseudoGen.scans be _⟩
  | pseudocode_at_func dec_cmd fa => exact ⟨_, outcome_lift be _⟩

/-- The tables throw nothing exactly where the `arch` member of the `iIj` answer is a text or is not
there. -/
theorem tables_throw_at_arch_alone (hparse : ParsesUtf8) :
    (∀ t : TableRun, t.Completes be) ↔
      checked.ArchIsText (json_of_reply (be (Bytes.lit "iIj"))) := by
  rw [← checked.welcome_complete_iff be hparse]
  refine ⟨fun h => h .welcome, fun h t => ?_⟩
  by_cases ht : t = .welcome
  · rw [ht]
    exact h
  · exact completes_of_ne_welcome be hparse ht

end

/-- The `iIj` answers `{"arch":"x86"}` and `{"arch":null}`. -/
def arch_texts : List (String × Json) :=
  [("\x7b\"arch\":\"x86\"\x7d", .object [(Bytes.lit "arch", .string (Bytes.lit "x86"))]),
    ("\x7b\"arch\":null\x7d", .object [(Bytes.lit "arch", .null)])]

/-- The values of a table of texts are all that its library parses. -/
theorem parsesUtf8_ofTexts {texts : List (String × Json)} (h : ∀ p ∈ texts, p.2.utf8 = true) :
    @ParsesUtf8 (.ofTexts texts) := by
  intro text j hj
  change (texts.map fun p => (Bytes.lit p.1, p.2)).lookup text = some j at hj
  obtain ⟨before, after, hsplit, -⟩ := List.lookup_eq_some_iff.mp hj
  have hmem : (text, j) ∈ texts.map fun p => (Bytes.lit p.1, p.2) := by
    rw [hsplit]
    simp
  obtain ⟨p, hp, heq⟩ := List.mem_map.mp hmem
  cases heq
  exact h p hp

theorem parsesUtf8_arch_texts : @ParsesUtf8 (.ofTexts arch_texts) :=
  parsesUtf8_ofTexts (by decide)

/-- A binary with a name for its architecture can be read. -/
theorem a_named_arch_can_be_read :
    letI := Nlohmann.ofTexts arch_texts
    letI := NlohmannErrors.silent
    letI := CppLibrary.stable
    ParsesUtf8 ∧
      ∀ t : TableRun, t.Completes (mock_backend [("iIj", "\x7b\"arch\":\"x86\"\x7d")]) := by
  let := Nlohmann.ofTexts arch_texts
  let := NlohmannErrors.silent
  let := CppLibrary.stable
  refine ⟨parsesUtf8_arch_texts, ?_⟩
  refine (tables_throw_at_arch_alone _ parsesUtf8_arch_texts).mpr ?_
  have hinfo : json_of_reply (mock_backend [("iIj", "\x7b\"arch\":\"x86\"\x7d")]
      (Bytes.lit "iIj")) = .object [(Bytes.lit "arch", .string (Bytes.lit "x86"))] := rfl
  rw [hinfo]
  intro arch harch
  cases harch
  rfl

/-- The welcome table throws where `arch` is null. -/
theorem a_null_arch_throws :
    letI := Nlohmann.ofTexts arch_texts
    letI := NlohmannErrors.silent
    letI := CppLibrary.stable
    ¬ ∀ t : TableRun, t.Completes (mock_backend [("iIj", "\x7b\"arch\":null\x7d")]) := by
  let := Nlohmann.ofTexts arch_texts
  let := NlohmannErrors.silent
  let := CppLibrary.stable
  intro h
  obtain ⟨rows, hrows⟩ := h .welcome
  cases hrows

end r2sql
