-- Names that radare2 supplies: which names the `tk*` parser gives, and when
-- the commands with a name from radare2 keep it inside its operand.
import R2sql.TypeTables
import R2sql.WritableTables

namespace r2sql

open json_utils

/-! ## The names that the parser gives -/

/-- The record `*NAME=KIND` of a type, with the markers in front and the carriage returns at the end
that the parser strips. -/
structure Declares (record name kind : Bytes) : Prop where
  split : ∃ markers returns : Bytes, record = markers ++ (name ++ '='.toUInt8 :: kind) ++ returns ∧
    (∀ c ∈ markers, c = '*'.toUInt8 ∨ c = '\r'.toUInt8) ∧ ∀ c ∈ returns, c = '\r'.toUInt8
  first : ∀ c ∈ name.head?, c ∉ Bytes.lit "*\r#"
  plain : ∀ c ∈ name, c ∉ Bytes.lit "=."
  known : kind ∈ tk_kinds

theorem Declares.bare {name kind : Bytes} (hfirst : ∀ c ∈ name.head?, c ∉ Bytes.lit "*\r#")
    (hplain : ∀ c ∈ name, c ∉ Bytes.lit "=.") (hknown : kind ∈ tk_kinds) :
    Declares (name ++ '='.toUInt8 :: kind) name kind := by
  refine ⟨⟨[], [], ?_, by simp, by simp⟩, hfirst, hplain, hknown⟩
  rw [List.nil_append, List.append_nil]

theorem strip_around {p q : UInt8 → Bool} {front s back : Bytes} (hs : s ≠ [])
    (hfront : ∀ c ∈ front, p c) (hback : ∀ c ∈ back, q c) (hhead : ∀ c ∈ s.head?, ¬ p c)
    (hlast : ∀ c ∈ s.getLast?, ¬ q c) :
    ((front ++ s ++ back).dropWhile p).rdropWhile q = s := by
  have hdrop : (front ++ s ++ back).dropWhile p = s ++ back := by
    rw [List.append_assoc, List.dropWhile_append_of_pos hfront]
    cases s with
    | nil => exact absurd rfl hs
    | cons c s => exact List.dropWhile_cons_of_neg (hhead c rfl)
  rw [hdrop, List.rdropWhile, List.reverse_append,
    List.dropWhile_append_of_pos (by simpa using hback)]
  have hkeep : s.reverse.dropWhile q = s.reverse := by
    rw [List.getLast?_eq_head?_reverse] at hlast
    cases h : s.reverse with
    | nil => rfl
    | cons c t => exact List.dropWhile_cons_of_neg (hlast c (by rw [h]; rfl))
  rw [hkeep, List.reverse_reverse]

theorem split_at_first {a : UInt8} {s : Bytes} (h : a ∈ s) :
    s = s.takeWhile (· ≠ a) ++ a :: s.drop ((s.takeWhile (· ≠ a)).length + 1) := by
  induction s with
  | nil => cases h
  | cons c s ih =>
    by_cases hc : c = a
    · simp [hc]
    · have hmem : a ∈ s := (List.mem_cons.mp h).resolve_left fun e => hc e.symm
      simpa [hc] using ih hmem

theorem last_of_kind : ∀ kind ∈ tk_kinds, ∃ k c, kind = k ++ [c] ∧ c ≠ '\r'.toUInt8 := by
  have h : ∀ kind ∈ tk_kinds, kind = kind.dropLast ++ [kind.getLast?.getD 0] ∧
      kind.getLast?.getD 0 ≠ '\r'.toUInt8 := by decide +kernel
  intro kind hk
  exact ⟨_, _, h kind hk⟩

/-- A record does not begin with a marker, nor as a comment, once it is stripped. -/
theorem head_of_declares {record name kind : Bytes} (h : Declares record name kind) :
    ∃ c rest, name ++ '='.toUInt8 :: kind = c :: rest ∧ c ∉ Bytes.lit "*\r#" := by
  cases hname : name with
  | nil => exact ⟨'='.toUInt8, kind, rfl, by decide⟩
  | cons c rest => exact ⟨c, _, rfl, h.first c (by rw [hname]; rfl)⟩

theorem tk_strip_of_declares {record name kind : Bytes} (h : Declares record name kind) :
    tk_strip record = name ++ '='.toUInt8 :: kind := by
  obtain ⟨markers, returns, rfl, hmarkers, hreturns⟩ := h.split
  obtain ⟨k, last, hkind, hlast⟩ := last_of_kind kind h.known
  obtain ⟨c, rest, hhead, hc⟩ := head_of_declares h
  unfold tk_strip
  apply strip_around
  · simp
  · simpa using hmarkers
  · simpa using hreturns
  · simp [Bytes.lit] at hc
    rw [hhead]
    simp [hc]
  · rw [hkind, ← List.cons_append, ← List.append_assoc, List.getLast?_concat]
    simp [hlast]

theorem tk_entry_of_declares {record name kind : Bytes} (h : Declares record name kind) :
    tk_entry record = some (name, kind) := by
  have hplain : ∀ c ∈ name, c ≠ '='.toUInt8 ∧ c ≠ '.'.toUInt8 := by
    intro c hc
    simpa [Bytes.lit] using h.plain c hc
  have htake : (name ++ '='.toUInt8 :: kind).takeWhile (· ≠ '='.toUInt8) = name := by
    rw [List.takeWhile_append_of_pos (by simpa using fun c hc => (hplain c hc).1)]
    simp
  have hhead : (name ++ '='.toUInt8 :: kind).head? ≠ some '#'.toUInt8 := by
    obtain ⟨c, rest, hhead, hc⟩ := head_of_declares h
    simp [Bytes.lit] at hc
    rw [hhead]
    simp [hc]
  have hdot : '.'.toUInt8 ∉ name := fun hc => (hplain _ hc).2 rfl
  unfold tk_entry
  rw [tk_strip_of_declares h, if_neg (by simp only [hhead]; simp), if_neg (by simp)]
  simp only [htake]
  simp [hdot, h.known]

/-- What stripping leaves does not begin with a marker, and the rest is markers and carriage
returns. -/
theorem tk_strip_spec (record : Bytes) :
    ∃ markers returns : Bytes, record = markers ++ tk_strip record ++ returns ∧
      (∀ c ∈ markers, c = '*'.toUInt8 ∨ c = '\r'.toUInt8) ∧ (∀ c ∈ returns, c = '\r'.toUInt8) ∧
      ∀ c ∈ (tk_strip record).head?, c ≠ '*'.toUInt8 ∧ c ≠ '\r'.toUInt8 := by
  let p : UInt8 → Bool := fun c => c == '*'.toUInt8 || c == '\r'.toUInt8
  let q : UInt8 → Bool := (· == '\r'.toUInt8)
  have hstrip : tk_strip record = (record.dropWhile p).rdropWhile q := rfl
  refine ⟨record.takeWhile p, (record.dropWhile p).rtakeWhile q, ?_, ?_, ?_, ?_⟩
  · rw [hstrip, List.append_assoc, List.rdropWhile_append_rtakeWhile,
      List.takeWhile_append_dropWhile]
  · intro c hc
    simpa [p] using List.mem_takeWhile_imp hc
  · intro c hc
    simpa [q] using List.mem_rtakeWhile_imp hc
  · intro c hc
    obtain ⟨t, ht⟩ := List.rdropWhile_prefix q (record.dropWhile p)
    have hhead : (record.dropWhile p).head? = some c := by
      rw [← ht, List.head?_append, ← hstrip, hc, Option.some_or]
    have hnot := List.head?_dropWhile_not p record
    rw [hhead] at hnot
    simpa [p] using hnot

theorem declares_of_tk_entry {record name kind : Bytes} (h : tk_entry record = some (name, kind)) :
    Declares record name kind := by
  obtain ⟨markers, returns, hsplit, hmarkers, hreturns, hhead⟩ := tk_strip_spec record
  simp only [tk_entry, Option.ite_none_left_eq_some, not_or, not_not, Option.some.injEq,
    Prod.mk.injEq] at h
  obtain ⟨⟨-, hcomment⟩, hequals, hdot, hknown, hname, hkind⟩ := h
  have hs := split_at_first hequals
  rw [hname] at hs hdot hkind hknown
  rw [hkind] at hs hknown
  refine ⟨⟨markers, returns, ?_, hmarkers, hreturns⟩, ?_, ?_, hknown⟩
  · rw [← hs]
    exact hsplit
  · intro c hc
    have hc' : (tk_strip record).head? = some c := by rw [hs, List.head?_append, hc, Option.some_or]
    have hmarker := hhead c hc'
    have hsharp : c ≠ '#'.toUInt8 := fun e => hcomment (e ▸ hc')
    simp [Bytes.lit, hmarker.1, hmarker.2, hsharp]
  · intro c hc
    have hne : c ≠ '='.toUInt8 := by
      rw [← hname] at hc
      simpa using List.mem_takeWhile_imp hc
    have hne' : c ≠ '.'.toUInt8 := fun e => hdot (e ▸ hc)
    simp [Bytes.lit, hne, hne']

/-- The names and kinds that the parser takes from a record are those that the record declares. -/
theorem tk_entry_iff {record name kind : Bytes} :
    tk_entry record = some (name, kind) ↔ Declares record name kind :=
  ⟨declares_of_tk_entry, tk_entry_of_declares⟩

theorem no_separator_in_record {tk record : Bytes} (h : record ∈ tk_records tk) :
    ∀ c ∈ record, c ≠ '\n'.toUInt8 ∧ c ≠ ' '.toUInt8 := by
  fun_induction tk_records tk generalizing record with
  | case1 => cases h
  | case2 c rest hsep ih =>
    rcases List.mem_cons.mp h with rfl | h
    · intro c hc
      cases hc
    · exact ih h
  | case3 c rest hsep hrest ih =>
    rw [List.mem_singleton.mp h]
    simpa using hsep
  | case4 c rest hsep head tail hrest ih =>
    rcases List.mem_cons.mp h with rfl | h
    · intro d hd
      rcases List.mem_cons.mp hd with rfl | hd
      · simpa using hsep
      · exact ih (hrest ▸ List.mem_cons_self) d hd
    · exact ih (hrest ▸ List.mem_cons_of_mem _ h)

/-- The dump declares the type with this kind, and no record before declares the type. -/
def FirstDeclares (tk name kind : Bytes) : Prop :=
  ∃ before record after, tk_records tk = before ++ record :: after ∧ Declares record name kind ∧
    ∀ r ∈ before, ∀ k, ¬ Declares r name k

theorem mem_parse_tk_dump {tk name kind : Bytes} :
    ⟨name, kind⟩ ∈ (parse_tk_dump tk).entries ↔ FirstDeclares tk name kind := by
  unfold parse_tk_dump
  rw [first_wins.mem_ofEntries_filterMap]
  simp only [ne_eq, tk_entry_iff]
  rfl

/-! ## The commands with a name of a type -/

/-- The command that asks for a type with members. -/
def type_command (name kind : Bytes) : Bytes :=
  if kind = Bytes.lit "enum" then Bytes.lit "tej " ++ name else record_command name kind

section
variable [Nlohmann] (be : Backend)

theorem asked_type_row (info : List (Bytes × Int64 × Bytes)) (name kind : Bytes) :
    (type_row info name kind).asked be =
      if kind = Bytes.lit "struct" ∨ kind = Bytes.lit "union" then [record_command name kind]
      else [] := by
  have hatomic : kind = Bytes.lit "atomic" ∨ kind = Bytes.lit "type" →
      ¬ (kind = Bytes.lit "struct" ∨ kind = Bytes.lit "union") := by
    rintro (rfl | rfl) <;> decide
  unfold type_row
  by_cases hrecord : kind = Bytes.lit "struct" ∨ kind = Bytes.lit "union"
  · simp only [mt hatomic (not_not.mpr hrecord), hrecord, if_true, if_false]
    simp only [Dialogue.asked_bind, asked_cmd_json, Dialogue.asked_ite, Dialogue.asked_pure,
      ite_self]
    rfl
  · by_cases hk : kind = Bytes.lit "atomic" ∨ kind = Bytes.lit "type"
    · simp only [hk, hrecord, if_true, if_false]
      split <;> rfl
    · simp only [hk, hrecord, if_false]
      rfl

theorem asked_member_rows (name kind : Bytes) :
    (member_rows name kind).asked be =
      if kind ∈ member_kinds then [type_command name kind] else [] := by
  unfold member_rows
  by_cases hk : kind ∈ member_kinds
  · rw [if_neg (not_not.mpr hk), if_pos hk, type_command]
    by_cases he : kind = Bytes.lit "enum"
    · simp [he]
    · simp [he]
  · rw [if_pos hk, if_neg hk]
    rfl

variable [CppLibrary]

theorem asked_types :
    types_cache_builder.asked be = Bytes.lit "tk*" ::
      if (parse_tk_dump (be (Bytes.lit "tk*"))).entries = [] then [] else
        Bytes.lit "tj" ::
          (CppLibrary.iterate (parse_tk_dump (be (Bytes.lit "tk*"))).entries).flatMap fun p =>
            if p.2 = Bytes.lit "struct" ∨ p.2 = Bytes.lit "union" then [record_command p.1 p.2]
            else [] := by
  by_cases hnone : (parse_tk_dump (be (Bytes.lit "tk*"))).entries = [] <;>
    simp [types_cache_builder, hnone, asked_type_row]

theorem asked_types_members :
    types_members_cache_builder.asked be = Bytes.lit "tk*" ::
      if (parse_tk_dump (be (Bytes.lit "tk*"))).entries = [] then [] else
        (CppLibrary.iterate (parse_tk_dump (be (Bytes.lit "tk*"))).entries).flatMap
          fun p => if p.2 ∈ member_kinds then [type_command p.1 p.2] else [] := by
  by_cases hnone : (parse_tk_dump (be (Bytes.lit "tk*"))).entries = [] <;>
    simp [types_members_cache_builder, hnone, asked_member_rows]

omit [Nlohmann] in
theorem mem_iterate {tk name kind : Bytes} :
    ⟨name, kind⟩ ∈ CppLibrary.iterate (parse_tk_dump tk).entries ↔ FirstDeclares tk name kind := by
  rw [(CppLibrary.iterate_perm _).mem_iff]
  exact mem_parse_tk_dump

/-- The commands of the two builders: `tk*`, `tj`, and one for each struct, union and enum of the
dump. -/
theorem mem_type_commands {command : Bytes}
    (h : command ∈ types_cache_builder.asked be ++ types_members_cache_builder.asked be) :
    command = Bytes.lit "tk*" ∨ command = Bytes.lit "tj" ∨ ∃ name kind, kind ∈ member_kinds ∧
      FirstDeclares (be (Bytes.lit "tk*")) name kind ∧ command = type_command name kind := by
  rw [asked_types, asked_types_members] at h
  rcases List.mem_append.mp h with h | h
  · rcases List.mem_cons.mp h with h | h
    · exact Or.inl h
    · split at h
      · cases h
      · rcases List.mem_cons.mp h with h | h
        · exact Or.inr (Or.inl h)
        · obtain ⟨⟨name, kind⟩, hmem, h⟩ := List.mem_flatMap.mp h
          split at h
          · rename_i hkind
            rw [List.mem_singleton.mp h]
            refine Or.inr (Or.inr ⟨name, kind, ?_, mem_iterate.mp hmem, ?_⟩)
            · rcases hkind with rfl | rfl <;> decide
            · have henum : kind ≠ Bytes.lit "enum" := by
                rcases hkind with rfl | rfl <;> decide
              rw [type_command, if_neg henum]
          · cases h
  · rcases List.mem_cons.mp h with h | h
    · exact Or.inl h
    · split at h
      · cases h
      · obtain ⟨⟨name, kind⟩, hmem, h⟩ := List.mem_flatMap.mp h
        split at h
        · rename_i hkind
          exact Or.inr (Or.inr ⟨name, kind, hkind, mem_iterate.mp hmem, List.mem_singleton.mp h⟩)
        · cases h

theorem type_command_mem {name kind : Bytes} (hkind : kind ∈ member_kinds)
    (h : FirstDeclares (be (Bytes.lit "tk*")) name kind) :
    type_command name kind ∈ types_members_cache_builder.asked be := by
  have hmem := mem_iterate.mpr h
  have hsome : (parse_tk_dump (be (Bytes.lit "tk*"))).entries ≠ [] := by
    rintro hnone
    rw [(CppLibrary.iterate_perm _).mem_iff, hnone] at hmem
    cases hmem
  rw [asked_types_members, if_neg hsome]
  apply List.mem_cons_of_mem
  exact List.mem_flatMap.mpr ⟨⟨name, kind⟩, hmem, by simp [hkind]⟩

end

/-! ## Names that stay operands -/

/-- A name that radare2 reads as one operand: not empty, and with no byte that ends it or that has a
meaning of its own. -/
def SafeName (name : Bytes) : Prop := name ≠ [] ∧ ∀ c ∈ name, c ∉ reserved

instance (name : Bytes) : Decidable (SafeName name) := inferInstanceAs (Decidable (_ ∧ _))

/-- The commands that ask for one type, up to its name. -/
def type_verbs : List String := ["tsj ", "tuj ", "tej "]

theorem type_command_eq (name : Bytes) {kind : Bytes} (h : kind ∈ member_kinds) :
    ∃ verb ∈ type_verbs, type_command name kind = Bytes.lit verb ++ name := by
  simp only [member_kinds, List.map_cons, List.map_nil, List.mem_cons, List.not_mem_nil,
    or_false] at h
  rcases h with rfl | rfl | rfl
  · exact ⟨"tsj ", by decide, rfl⟩
  · exact ⟨"tuj ", by decide, rfl⟩
  · exact ⟨"tej ", by decide, rfl⟩

theorem verb_length : ∀ verb ∈ type_verbs, (Bytes.lit verb).length = 4 := by decide

theorem type_command_inj {name n kind : Bytes} {verb : String} (hverb : verb ∈ type_verbs)
    (hkind : kind ∈ member_kinds) (h : type_command n kind = Bytes.lit verb ++ name) :
    n = name := by
  obtain ⟨verb', hverb', heq⟩ := type_command_eq n hkind
  rw [heq] at h
  exact (List.append_inj h (by rw [verb_length verb' hverb', verb_length verb hverb])).2

/-- What the commands with a name from radare2 have to satisfy, for a backend that answers each
command with a fixed text. -/
structure NamesStayOperands [Nlohmann] [CppLibrary] (be : Backend) : Prop where
  types : ∀ command ∈ types_cache_builder.asked be ++ types_members_cache_builder.asked be,
    ∀ verb ∈ type_verbs, ∀ name, command = Bytes.lit verb ++ name → SafeName name
  flags : ∀ r ∈ flags_cache_builder.value be, ∀ name, valid_flag_name name →
    ∀ command ∈ (flags_name_setter r (some name)).asked be, ∀ old, command = fr old name →
      SafeName old
  bookmarks : ∀ r ∈ bookmarks_cache_builder.value be, ∀ name, valid_flag_name name →
    ∀ command ∈ (bookmarks_name_setter r (some name)).asked be, ∀ old, command = fr old name →
      SafeName old

/-- The name of a type that the parser lets through with nothing for radare2 to run. The parser
itself keeps spaces and newlines out. -/
def HarmlessTypes (tk : Bytes) : Prop :=
  ∀ name kind, kind ∈ member_kinds → FirstDeclares tk name kind →
    name ≠ [] ∧ ∀ c ∈ name, c ∉ Bytes.lit ";|@~>\"#`"

/-- A declared name is safe as soon as it is not empty and has none of the bytes that the parser
does not keep out. -/
theorem safe_of_declared {tk name kind : Bytes} (h : FirstDeclares tk name kind) :
    SafeName name ↔ name ≠ [] ∧ ∀ c ∈ name, c ∉ Bytes.lit ";|@~>\"#`" := by
  obtain ⟨before, record, after, hsplit, hdeclares, -⟩ := h
  obtain ⟨markers, returns, hrecord, -, -⟩ := hdeclares.split
  have hmem : record ∈ tk_records tk := by simp [hsplit]
  have hseparator : ∀ c ∈ name, c ≠ '\n'.toUInt8 ∧ c ≠ ' '.toUInt8 := by
    intro c hc
    exact no_separator_in_record hmem c (by simp [hrecord, hc])
  have hreserved : ∀ c : UInt8, c ∉ reserved ↔
      (c ≠ '\n'.toUInt8 ∧ c ≠ ' '.toUInt8) ∧ c ∉ Bytes.lit ";|@~>\"#`" := by
    apply Bytes.forall_byte
    decide +kernel
  constructor
  · rintro ⟨hsome, hsafe⟩
    exact ⟨hsome, fun c hc => ((hreserved c).mp (hsafe c hc)).2⟩
  · rintro ⟨hsome, hsafe⟩
    exact ⟨hsome, fun c hc => (hreserved c).mpr ⟨hseparator c hc, hsafe c hc⟩⟩

theorem fr_inj {old old' name : Bytes} (h : fr old name = fr old' name) : old = old' := by
  unfold fr at h
  exact List.append_cancel_left (List.append_cancel_right (List.append_cancel_right h))

section
variable (be : Backend)

theorem fr_mem_flags {r : FlagRow} {name : Bytes} (hname : valid_flag_name name) (old : Bytes) :
    fr old name ∈ (flags_name_setter r (some name)).asked be ↔ old = r.name := by
  have haccepted : accepted (some name) = some name := by simp [accepted, hname]
  have hafn : fr old name ≠ afn name r.addr := by
    intro h
    have hfirst : some 'f'.toUInt8 = some 'a'.toUInt8 := congrArg List.head? h
    exact absurd hfirst (by decide)
  unfold flags_name_setter
  rw [asked_name_setter, haccepted]
  simp only [Option.map_some, Option.getD_some, List.mem_cons, List.not_mem_nil, or_false, hafn,
    false_or]
  exact ⟨fr_inj, fun h => by rw [h]⟩

theorem fr_mem_bookmarks {r : BookmarkRow} {name : Bytes} (hname : valid_flag_name name)
    (old : Bytes) :
    fr old name ∈ (bookmarks_name_setter r (some name)).asked be ↔ old = r.name := by
  have haccepted : accepted (some name) = some name := by simp [accepted, hname]
  have hspace : ∀ s ∈ ["fss*", "fs bookmarks", "fsr-"], fr old name ≠ Bytes.lit s := by
    intro s hs h
    have hsecond : ∀ s ∈ ["fss*", "fs bookmarks", "fsr-"],
        (Bytes.lit s)[1]? = some 's'.toUInt8 := by decide
    have hr : some 'r'.toUInt8 = (Bytes.lit s)[1]? := congrArg (·[1]?) h
    rw [hsecond s hs] at hr
    exact absurd hr (by decide)
  unfold bookmarks_name_setter
  rw [asked_name_setter, haccepted]
  simp only [Option.map_some, Option.getD_some, in_bookmarks, List.cons_append, List.nil_append,
    List.mem_cons, List.not_mem_nil, or_false, hspace "fss*" (by simp),
    hspace "fs bookmarks" (by simp), hspace "fsr-" (by simp), false_or]
  exact ⟨fr_inj, fun h => by rw [h]⟩

variable [Nlohmann]

theorem flag_names : (flags_cache_builder.value be).map FlagRow.name =
    (json_of_reply (be (Bytes.lit "fj"))).items.map fun j => str j (Bytes.lit "name") := by
  simp [flags_cache_builder]

theorem bookmark_names : (bookmarks_cache_builder.value be).map BookmarkRow.name =
    (json_of_reply (be (Bytes.lit "fj"))).items.map fun j => str j (Bytes.lit "name") := by
  let items := (json_of_reply (be (Bytes.lit "fj"))).items
  calc (bookmarks_cache_builder.value be).map BookmarkRow.name
      = items.zipIdx.map ((fun j => str j (Bytes.lit "name")) ∘ Prod.fst) := by
        simp [bookmarks_cache_builder, items]
    _ = items.map fun j => str j (Bytes.lit "name") := by
        rw [← List.map_map, List.zipIdx_map_fst]

end

/-- Every command with a name from radare2 keeps it inside its operand, exactly when the texts that
radare2 answers with give only harmless names. -/
theorem backend_names_stay_operands [Nlohmann] [CppLibrary] (be : Backend) :
    NamesStayOperands be ↔ HarmlessTypes (be (Bytes.lit "tk*")) ∧
      ∀ j ∈ (json_of_reply (be (Bytes.lit "fj"))).items, SafeName (str j (Bytes.lit "name")) := by
  constructor
  · intro h
    constructor
    · intro name kind hkind hfirst
      obtain ⟨verb, hverb, heq⟩ := type_command_eq name hkind
      have hmember := type_command_mem be hkind hfirst
      have hasked := List.mem_append_right (types_cache_builder.asked be) hmember
      exact (safe_of_declared hfirst).mp (h.types _ hasked verb hverb name heq)
    · intro j hj
      have hmem : str j (Bytes.lit "name") ∈ (flags_cache_builder.value be).map FlagRow.name := by
        rw [flag_names]
        exact List.mem_map_of_mem hj
      obtain ⟨r, hr, hname⟩ := List.mem_map.mp hmem
      have hvalid : valid_flag_name (Bytes.lit "a") := by decide
      have hasked := (fr_mem_flags be (r := r) hvalid r.name).mpr rfl
      exact hname ▸ h.flags r hr _ hvalid _ hasked r.name rfl
  · rintro ⟨htypes, hflags⟩
    refine ⟨?_, ?_, ?_⟩
    · intro command hcommand verb hverb name heq
      have hlen : 4 ≤ command.length := by simp [heq, verb_length verb hverb]
      rcases mem_type_commands be hcommand with rfl | rfl | ⟨n, kind, hkind, hfirst, rfl⟩
      · exact absurd hlen (by decide)
      · exact absurd hlen (by decide)
      · rw [← type_command_inj hverb hkind heq]
        exact (safe_of_declared hfirst).mpr (htypes n kind hkind hfirst)
    · intro r hr name hvalid command hcommand old heq
      subst heq
      rw [(fr_mem_flags be hvalid old).mp hcommand]
      have hmem := List.mem_map_of_mem (f := FlagRow.name) hr
      rw [flag_names] at hmem
      obtain ⟨j, hj, hname⟩ := List.mem_map.mp hmem
      exact hname ▸ hflags j hj
    · intro r hr name hvalid command hcommand old heq
      subst heq
      rw [(fr_mem_bookmarks be hvalid old).mp hcommand]
      have hmem := List.mem_map_of_mem (f := BookmarkRow.name) hr
      rw [bookmark_names] at hmem
      obtain ⟨j, hj, hname⟩ := List.mem_map.mp hmem
      exact hname ▸ hflags j hj

/-- A struct with a `;` in its name: `tsj x;!id` is two commands for radare2, and the second one
runs a program. -/
theorem a_type_name_runs_a_program :
    letI := Nlohmann.ofTexts []
    letI := CppLibrary.stable
    let be := mock_backend [("tk*", "x;!id=struct")]
    Bytes.lit "tsj x;!id" ∈ types_cache_builder.asked be ∧ ¬ NamesStayOperands be := by
  let _ := Nlohmann.ofTexts []
  let _ := CppLibrary.stable
  intro be
  have hasked : Bytes.lit "tsj x;!id" ∈ types_cache_builder.asked be := by decide +kernel
  refine ⟨hasked, ?_⟩
  intro h
  have hsafe := h.types _ (List.mem_append_left _ hasked) "tsj " (by decide) (Bytes.lit "x;!id") rfl
  exact absurd hsafe (by decide)

end r2sql
