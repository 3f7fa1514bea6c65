-- What the `tk*` parser makes of a whole dump: the framing of its records does
-- not count, and a space in a name ends the record.
import R2sql.BackendNames

namespace r2sql.json_utils

/-! ## The types in a text -/

/-- The types of a dump, before the first record of each is chosen. -/
def tk_entries (tk : Bytes) : List (Bytes × Bytes) := (tk_records tk).filterMap tk_entry

theorem parse_tk_dump_eq (tk : Bytes) : parse_tk_dump tk = first_wins.ofEntries (tk_entries tk) :=
  rfl

def is_sep (c : UInt8) : Bool := c == '\n'.toUInt8 || c == ' '.toUInt8

/-- The records are the pieces between the separators. The scan leaves out the piece at the end of
the text where it is empty. -/
theorem splitOnP_eq (tk : Bytes) :
    tk.splitOnP is_sep = tk_records tk ∨ tk.splitOnP is_sep = tk_records tk ++ [[]] := by
  induction tk with
  | nil => exact Or.inr rfl
  | cons c rest ih =>
    rw [List.splitOnP_cons_eq_if_modifyHead, tk_records]
    change (if is_sep c then _ else _) = (if is_sep c then _ else _) ∨
      (if is_sep c then _ else _) = (if is_sep c then _ else _) ++ _
    split
    · rcases ih with ih | ih
      · exact Or.inl (by rw [ih])
      · exact Or.inr (by rw [ih, List.cons_append])
    · rcases ih with ih | ih
      · cases hrecords : tk_records rest with
        | nil => exact absurd (ih.trans hrecords) (List.splitOnP_ne_nil _ _)
        | cons record records => exact Or.inl (by rw [ih, hrecords]; rfl)
      · cases hrecords : tk_records rest with
        | nil => exact Or.inl (by rw [ih, hrecords]; rfl)
        | cons record records => exact Or.inr (by rw [ih, hrecords]; rfl)

theorem tk_entries_eq (tk : Bytes) : tk_entries tk = (tk.splitOnP is_sep).filterMap tk_entry := by
  rcases splitOnP_eq tk with h | h
  · rw [h, tk_entries]
  · have hnone : tk_entry [] = none := rfl
    rw [h, List.filterMap_append, List.filterMap_cons_none hnone, List.filterMap_nil,
      List.append_nil, tk_entries]

theorem tk_entries_append {c : UInt8} (hc : is_sep c) (a b : Bytes) :
    tk_entries (a ++ c :: b) = tk_entries a ++ tk_entries b := by
  rw [tk_entries_eq, tk_entries_eq, tk_entries_eq, List.splitOnP_append_cons a b hc,
    List.filterMap_append]

theorem tk_entries_record {record : Bytes} (h : ∀ c ∈ record, is_sep c = false) :
    tk_entries record = (tk_entry record).toList := by
  rw [tk_entries_eq, List.splitOnP_eq_singleton h, List.filterMap_eq_flatMap_toList,
    List.flatMap_singleton]

theorem mem_of_mem_record {tk record : Bytes} {c : UInt8} (h : record ∈ tk_records tk)
    (hc : c ∈ record) : c ∈ tk := by
  fun_induction tk_records tk generalizing record with
  | case1 => cases h
  | case2 x rest hsep ih =>
    rcases List.mem_cons.mp h with rfl | h
    · cases hc
    · exact List.mem_cons_of_mem x (ih h hc)
  | case3 x rest hsep hrest ih =>
    rw [List.mem_singleton.mp h, List.mem_singleton] at hc
    rw [hc]
    exact List.mem_cons_self
  | case4 x rest hsep head tail hrest ih =>
    rcases List.mem_cons.mp h with rfl | h
    · rcases List.mem_cons.mp hc with rfl | hc
      · exact List.mem_cons_self
      · exact List.mem_cons_of_mem x (ih (hrest ▸ List.mem_cons_self) hc)
    · exact List.mem_cons_of_mem x (ih (hrest ▸ List.mem_cons_of_mem _ h) hc)

theorem tk_entries_eq_nil {tk : Bytes} (h : '='.toUInt8 ∉ tk) : tk_entries tk = [] := by
  rw [tk_entries, List.filterMap_eq_nil_iff]
  intro record hrecord
  cases hentry : tk_entry record with
  | none => rfl
  | some entry =>
    obtain ⟨markers, returns, hsplit, -, -⟩ := (tk_entry_iff.mp hentry).split
    exact absurd (mem_of_mem_record hrecord (by simp [hsplit])) h

/-! ## Markers and separators -/

theorem tk_entry_congr {a b : Bytes} (h : tk_strip a = tk_strip b) : tk_entry a = tk_entry b := by
  rw [tk_entry, tk_entry, h]

/-- The markers of sdb, which the parser strips from the front of a record. -/
def IsMarker (c : UInt8) : Prop := c = '*'.toUInt8 ∨ c = '\r'.toUInt8

theorem tk_entry_marker {c : UInt8} (hc : IsMarker c) (record : Bytes) :
    tk_entry (c :: record) = tk_entry record := by
  apply tk_entry_congr
  rw [tk_strip, List.dropWhile_cons_of_pos (by simpa [IsMarker] using hc), tk_strip]

theorem tk_entry_return (record : Bytes) :
    tk_entry (record ++ ['\r'.toUInt8]) = tk_entry record := by
  apply tk_entry_congr
  rw [tk_strip, tk_strip, List.dropWhile_append]
  split
  · rename_i h
    rw [List.isEmpty_iff.mp h]
    rfl
  · exact List.rdropWhile_concat_pos _ _ _ (by decide)

theorem tk_entries_marker {c : UInt8} (hc : IsMarker c) (tk : Bytes) :
    tk_entries (c :: tk) = tk_entries tk := by
  have hsep : (c == '\n'.toUInt8 || c == ' '.toUInt8) = false := by
    rcases hc with rfl | rfl <;> rfl
  rw [tk_entries, tk_entries, tk_records, hsep]
  cases hrecords : tk_records tk with
  | nil =>
    have hnone : tk_entry [c] = none := tk_entry_marker hc []
    exact List.filterMap_cons_none hnone
  | cons record records =>
    have hrecord := tk_entry_marker hc record
    change List.filterMap tk_entry ((c :: record) :: records) = _
    rw [List.filterMap_cons, List.filterMap_cons, hrecord]

/-- The line ends and the space that may stand between two records. -/
def separators : List Bytes := ["\n", "\r\n", " "].map Bytes.lit

/-- A mixture of separators. -/
inductive Mixture : Bytes → Prop
  | nil : Mixture []
  | cons {piece s : Bytes} (hpiece : piece ∈ separators) (hs : Mixture s) : Mixture (piece ++ s)

theorem tk_entries_sep {record : Bytes} (hrecord : ∀ c ∈ record, is_sep c = false) {c : UInt8}
    (hc : is_sep c) (rest : Bytes) :
    tk_entries (record ++ c :: rest) = (tk_entry record).toList ++ tk_entries rest := by
  rw [tk_entries_append hc, tk_entries_record hrecord]

theorem tk_entries_piece {record piece : Bytes} (hrecord : ∀ c ∈ record, is_sep c = false)
    (hpiece : piece ∈ separators) (rest : Bytes) :
    tk_entries (record ++ piece ++ rest) = (tk_entry record).toList ++ tk_entries rest := by
  simp only [separators, List.map_cons, List.map_nil, List.mem_cons, List.not_mem_nil,
    or_false] at hpiece
  rw [List.append_assoc]
  rcases hpiece with rfl | rfl | rfl
  · exact tk_entries_sep hrecord rfl rest
  · -- the carriage return belongs to the record, which the parser strips of it
    have hreturn : ∀ c ∈ record ++ ['\r'.toUInt8], is_sep c = false := by
      intro c hc
      rcases List.mem_append.mp hc with hc | hc
      · exact hrecord c hc
      · rw [List.mem_singleton.mp hc]
        rfl
    have htext : record ++ (Bytes.lit "\r\n" ++ rest) =
        (record ++ ['\r'.toUInt8]) ++ '\n'.toUInt8 :: rest := by
      rw [List.append_assoc]
      rfl
    rw [htext, tk_entries_sep hreturn rfl, tk_entry_return]
  · exact tk_entries_sep hrecord rfl rest

theorem tk_entries_mixture {s : Bytes} (h : Mixture s) (rest : Bytes) :
    tk_entries (s ++ rest) = tk_entries rest := by
  induction h with
  | nil => rfl
  | cons hpiece hs ih =>
    have hnone : (tk_entry []).toList = [] := rfl
    rw [List.append_assoc, ← List.nil_append (_ ++ _), ← List.append_assoc,
      tk_entries_piece (by simp) hpiece, hnone, List.nil_append, ih]

theorem tk_entries_between {record between : Bytes} (hrecord : ∀ c ∈ record, is_sep c = false)
    (h : Mixture between) (hne : between ≠ []) (rest : Bytes) :
    tk_entries (record ++ between ++ rest) = (tk_entry record).toList ++ tk_entries rest := by
  cases h with
  | nil => exact absurd rfl hne
  | cons hpiece hs =>
    rw [← List.append_assoc, List.append_assoc _ _ rest, tk_entries_piece hrecord hpiece,
      tk_entries_mixture hs]

/-! ## The framings of a sequence of records -/

/-- The records with separators between them. -/
inductive Joined : List Bytes → Bytes → Prop
  | nil : Joined [] []
  | last (record : Bytes) : Joined [record] record
  | cons (record : Bytes) {between : Bytes} {records : List Bytes} {text : Bytes}
      (hbetween : Mixture between) (hne : between ≠ []) (hrest : Joined records text) :
      Joined (record :: records) (record ++ between ++ text)

/-- A dump of the records: separators in front of them, and perhaps a marker. -/
def Framed (records : List Bytes) (text : Bytes) : Prop :=
  ∃ leading marker gap body : Bytes, Mixture leading ∧ marker ∈ ["", "*"].map Bytes.lit ∧
    Mixture gap ∧ Joined records body ∧ text = leading ++ marker ++ gap ++ body

/-- The record KEY=VALUE. -/
structure KeyValue (record key value : Bytes) : Prop where
  split : record = key ++ '='.toUInt8 :: value
  plain : '='.toUInt8 ∉ key
  first : ∀ c ∈ key.head?, c ≠ '*'.toUInt8 ∧ c ≠ '#'.toUInt8

/-- A record of a dump: one with a key and a value, a comment, or a token without `=`. -/
structure IsRecord (record : Bytes) : Prop where
  whole : ∀ c ∈ record, c ∉ Bytes.lit " \r\n"
  form : (∃ key value, KeyValue record key value) ∨ record.head? = some '#'.toUInt8 ∨
    '='.toUInt8 ∉ record

/-- The record of a type at the top level. -/
structure IsType (record key kind : Bytes) : Prop where
  key_value : KeyValue record key kind
  top_level : '.'.toUInt8 ∉ key
  known : kind ∈ tk_kinds

/-- The key has the kind of its first record. -/
def FirstType (records : List Bytes) (key kind : Bytes) : Prop :=
  ∃ before record after, records = before ++ record :: after ∧ IsType record key kind ∧
    ∀ r ∈ before, ∀ k, ¬IsType r key k

theorem no_sep_of_record {record : Bytes} (h : IsRecord record) :
    ∀ c ∈ record, is_sep c = false := by
  intro c hc
  have hwhole := h.whole c hc
  simp [Bytes.lit] at hwhole
  simp [is_sep, hwhole]

theorem tk_entries_joined {records : List Bytes} {text : Bytes} (h : Joined records text)
    (hrecords : ∀ r ∈ records, IsRecord r) : tk_entries text = records.filterMap tk_entry := by
  induction h with
  | nil => rfl
  | last record =>
    have hrecord := hrecords record List.mem_cons_self
    rw [tk_entries_record (no_sep_of_record hrecord), List.filterMap_eq_flatMap_toList,
      List.flatMap_singleton]
  | cons record hbetween hne hrest ih =>
    obtain ⟨hrecord, hrecords⟩ := List.forall_mem_cons.mp hrecords
    rw [tk_entries_between (no_sep_of_record hrecord) hbetween hne, ih hrecords,
      List.filterMap_eq_flatMap_toList, List.filterMap_eq_flatMap_toList, List.flatMap_cons]

theorem tk_entries_framed {records : List Bytes} {text : Bytes} (h : Framed records text)
    (hrecords : ∀ r ∈ records, IsRecord r) : tk_entries text = records.filterMap tk_entry := by
  obtain ⟨leading, marker, gap, body, hleading, hmarker, hgap, hbody, rfl⟩ := h
  have hmarked : ∀ rest, tk_entries (marker ++ rest) = tk_entries rest := by
    intro rest
    simp only [List.map_cons, List.map_nil, List.mem_cons, List.not_mem_nil, or_false] at hmarker
    rcases hmarker with rfl | rfl
    · rfl
    · exact tk_entries_marker (Or.inl rfl) rest
  rw [List.append_assoc, List.append_assoc, tk_entries_mixture hleading, hmarked,
    tk_entries_mixture hgap, tk_entries_joined hbody hrecords]

theorem head_of_record {record : Bytes} (h : IsRecord record) (hequals : '='.toUInt8 ∈ record) :
    ∀ c ∈ record.head?, ¬IsMarker c := by
  rintro c hc (rfl | rfl)
  · rcases h.form with ⟨key, value, hkv⟩ | hcomment | htoken
    · rw [hkv.split, List.head?_append] at hc
      cases hkey : key.head? with
      | none =>
        rw [hkey, Option.none_or] at hc
        exact absurd (Option.some.inj hc) (by decide)
      | some d =>
        rw [hkey, Option.some_or] at hc
        exact (hkv.first d hkey).1 (Option.some.inj hc)
    · rw [hcomment] at hc
      exact absurd hc (by decide)
    · exact htoken hequals
  · exact absurd (h.whole _ (List.mem_of_mem_head? hc)) (by decide)

/-- So the parser strips nothing from it. -/
theorem isType_of_declares {record key kind : Bytes} (h : IsRecord record)
    (hdeclares : Declares record key kind) : IsType record key kind := by
  obtain ⟨markers, returns, hsplit, hmarkers, hreturns⟩ := hdeclares.split
  have hplain : '='.toUInt8 ∉ key ∧ '.'.toUInt8 ∉ key := by
    constructor <;> intro hc <;> exact absurd (hdeclares.plain _ hc) (by decide)
  have hfirst : ∀ c ∈ key.head?, c ≠ '*'.toUInt8 ∧ c ≠ '#'.toUInt8 := by
    intro c hc
    have hplain := hdeclares.first c hc
    simp [Bytes.lit] at hplain
    exact ⟨hplain.1, hplain.2.2⟩
  have hno_return : '\r'.toUInt8 ∉ record := by
    intro hc
    exact absurd (h.whole _ hc) (by decide)
  have hreturns' : returns = [] := by
    rw [List.eq_nil_iff_forall_not_mem]
    intro c hc
    rw [hreturns c hc] at hc
    exact hno_return (by simp [hsplit, hc])
  have hmarkers' : markers = [] := by
    cases markers with
    | nil => rfl
    | cons c markers =>
      have hhead : record.head? = some c := by rw [hsplit]; rfl
      have hmarker := head_of_record h (by simp [hsplit]) c hhead
      exact absurd (hmarkers c List.mem_cons_self) hmarker
  refine ⟨⟨?_, hplain.1, hfirst⟩, hplain.2, hdeclares.known⟩
  rw [hsplit, hmarkers', hreturns', List.nil_append, List.append_nil]

theorem declares_of_isType {record key kind : Bytes} (h : IsRecord record)
    (htype : IsType record key kind) : Declares record key kind := by
  rw [htype.key_value.split]
  refine Declares.bare ?_ ?_ htype.known
  · intro c hc
    have hfirst := htype.key_value.first c hc
    have hmem : c ∈ record := by
      rw [htype.key_value.split]
      exact List.mem_append_left _ (List.mem_of_mem_head? hc)
    have hwhole := h.whole c hmem
    simp [Bytes.lit] at hwhole ⊢
    exact ⟨hfirst.1, hwhole.2.1, hfirst.2⟩
  · intro c hc
    have hequals : c ≠ '='.toUInt8 := fun e => htype.key_value.plain (e ▸ hc)
    have hdot : c ≠ '.'.toUInt8 := fun e => htype.top_level (e ▸ hc)
    simp [Bytes.lit, hequals, hdot]

theorem tk_entry_of_record {record : Bytes} (h : IsRecord record) (key kind : Bytes) :
    tk_entry record = some (key, kind) ↔ IsType record key kind := by
  rw [tk_entry_iff]
  exact ⟨isType_of_declares h, declares_of_isType h⟩

/-- The framing of a dump does not count, nor a marker in front of it: the parser gives each key the
kind of the first record of a type that has it. -/
theorem parse_reads_every_framing {records : List Bytes} (hrecords : ∀ r ∈ records, IsRecord r)
    {text : Bytes} (h : Framed records text) :
    (∀ text', Framed records text' → parse_tk_dump text' = parse_tk_dump text) ∧
      ∀ key kind, ⟨key, kind⟩ ∈ (parse_tk_dump text).entries ↔ FirstType records key kind := by
  have hentries := tk_entries_framed h hrecords
  constructor
  · intro text' h'
    rw [parse_tk_dump_eq, parse_tk_dump_eq, hentries, tk_entries_framed h' hrecords]
  · intro key kind
    rw [parse_tk_dump_eq, hentries, first_wins.mem_ofEntries_filterMap]
    constructor
    · rintro ⟨before, record, after, rfl, hrecord, hfirst⟩
      refine ⟨before, record, after, rfl, ?_, ?_⟩
      · exact (tk_entry_of_record (hrecords record (by simp)) key kind).mp hrecord
      · intro r hr k htype
        exact hfirst r hr k ((tk_entry_of_record (hrecords r (by simp [hr])) key k).mpr htype)
    · rintro ⟨before, record, after, rfl, hrecord, hfirst⟩
      refine ⟨before, record, after, rfl, ?_, ?_⟩
      · exact (tk_entry_of_record (hrecords record (by simp)) key kind).mpr hrecord
      · intro r hr k hentry
        exact hfirst r hr k ((tk_entry_of_record (hrecords r (by simp [hr])) key k).mp hentry)

/-- A comment and a second record of `a`, in two framings: lines after a marker, and a mixture. -/
theorem a_dump_in_two_framings :
    parse_tk_dump (Bytes.lit " a=struct \r\n#x a=union") =
      parse_tk_dump (Bytes.lit "*a=struct\n#x\na=union\n") := by
  let a := Bytes.lit "a"
  let struct := Bytes.lit "struct"
  let union := Bytes.lit "union"
  have hkey : '='.toUInt8 ∉ a ∧ ∀ c ∈ a.head?, c ≠ '*'.toUInt8 ∧ c ≠ '#'.toUInt8 := by
    decide +kernel
  have hrecords : ∀ r ∈ ["a=struct", "#x", "a=union"].map Bytes.lit, IsRecord r := by
    simp only [List.map_cons, List.map_nil, List.forall_mem_cons]
    exact ⟨⟨by decide +kernel, Or.inl ⟨a, struct, rfl, hkey.1, hkey.2⟩⟩,
      ⟨by decide +kernel, Or.inr (Or.inl rfl)⟩,
      ⟨by decide +kernel, Or.inl ⟨a, union, rfl, hkey.1, hkey.2⟩⟩, by simp⟩
  have hpiece : ∀ p ∈ separators, Mixture p := fun p hp => by
    rw [← List.append_nil p]
    exact .cons hp .nil
  have hspace := hpiece (Bytes.lit " ") (by decide)
  have hline := hpiece (Bytes.lit "\n") (by decide)
  have hmixed : Mixture (Bytes.lit " \r\n") :=
    @Mixture.cons (Bytes.lit " ") _ (by decide) (hpiece (Bytes.lit "\r\n") (by decide))
  have hlines : Framed (["a=struct", "#x", "a=union"].map Bytes.lit)
      (Bytes.lit "*a=struct\n#x\na=union\n") :=
    ⟨[], Bytes.lit "*", [], _, .nil, by decide, .nil, .cons _ hline (by decide)
      (.cons _ hline (by decide) (.cons _ hline (by decide) .nil)), rfl⟩
  have hspaces : Framed (["a=struct", "#x", "a=union"].map Bytes.lit)
      (Bytes.lit " a=struct \r\n#x a=union") :=
    ⟨Bytes.lit " ", [], [], _, hspace, by decide, .nil, .cons _ hmixed (by decide)
      (.cons _ hspace (by decide) (.last _)), rfl⟩
  exact (parse_reads_every_framing hrecords hlines).1 _ hspaces

/-! ## A dump of one record on each line -/

/-- What is after the last space of a name. -/
def last_word (name : Bytes) : Bytes := name.rtakeWhile (· ≠ ' '.toUInt8)

def line_ends : List Bytes := ["\n", "\r\n"].map Bytes.lit

/-- The record NAME=KIND. -/
def type_line (name kind : Bytes) : Bytes := name ++ '='.toUInt8 :: kind

/-- The types on a line each. The last line may go without its end. -/
inductive Rendered : List (Bytes × Bytes) → Bytes → Prop
  | nil : Rendered [] []
  | last (name kind : Bytes) : Rendered [(name, kind)] (type_line name kind)
  | line (name kind : Bytes) {eol : Bytes} {types : List (Bytes × Bytes)} {text : Bytes}
      (heol : eol ∈ line_ends) (hrest : Rendered types text) :
      Rendered ((name, kind) :: types) (type_line name kind ++ eol ++ text)

/-- The names of types at the top level, with their kinds. -/
structure TypeMap (types : List (Bytes × Bytes)) : Prop where
  keys : (types.map Prod.fst).Nodup
  named : ∀ p ∈ types, p.1 ≠ []
  plain : ∀ p ∈ types, ∀ c ∈ p.1, c ∉ Bytes.lit ".=\n\r"
  first : ∀ p ∈ types, ∀ c ∈ p.1.head?, c ≠ '*'.toUInt8 ∧ c ≠ '#'.toUInt8
  known : ∀ p ∈ types, p.2 ∈ tk_kinds

theorem tk_entries_words {name : Bytes} (hequals : '='.toUInt8 ∉ name) (rest : Bytes) :
    tk_entries (name ++ rest) = tk_entries (last_word name ++ rest) := by
  let front := name.rdropWhile (· ≠ ' '.toUInt8)
  have hsplit : front ++ last_word name = name := List.rdropWhile_append_rtakeWhile
  by_cases hfront : front = []
  · rw [hfront, List.nil_append] at hsplit
    rw [hsplit]
  · have hlast : front.getLast hfront = ' '.toUInt8 := by
      by_contra h
      exact List.rdropWhile_last_not _ name hfront (decide_eq_true h)
    have hwords : front.dropLast ++ [' '.toUInt8] = front := by
      rw [← hlast, List.dropLast_append_getLast]
    have hnone : '='.toUInt8 ∉ front.dropLast := by
      intro hc
      apply hequals
      rw [← hsplit]
      exact List.mem_append_left _ (List.mem_of_mem_dropLast hc)
    calc tk_entries (name ++ rest)
        = tk_entries (front.dropLast ++ ' '.toUInt8 :: (last_word name ++ rest)) := by
          rw [← List.singleton_append, ← List.append_assoc, hwords, ← List.append_assoc, hsplit]
      _ = tk_entries (last_word name ++ rest) := by
          rw [tk_entries_append rfl, tk_entries_eq_nil hnone, List.nil_append]

theorem mem_last_word {name : Bytes} {c : UInt8} (h : c ∈ last_word name) :
    c ∈ name ∧ c ≠ ' '.toUInt8 := by
  refine ⟨(List.rtakeWhile_suffix _ name).subset h, ?_⟩
  simpa using List.mem_rtakeWhile_imp h

theorem last_word_eq {name : Bytes} (h : ' '.toUInt8 ∉ name) : last_word name = name := by
  rw [last_word, List.rtakeWhile_eq_self_iff]
  intro c hc
  simpa using fun e : c = ' '.toUInt8 => h (e ▸ hc)

theorem kind_plain : ∀ kind ∈ tk_kinds, ∀ c ∈ kind, is_sep c = false := by
  have hall : (tk_kinds.all fun kind => kind.all fun c => !is_sep c) = true := by decide
  simpa using hall

/-- One line: the parser sees the record of the last word. -/
theorem no_sep_of_line {name kind : Bytes} (hplain : ∀ c ∈ name, c ∉ Bytes.lit ".=\n\r")
    (hkind : kind ∈ tk_kinds) : ∀ c ∈ type_line (last_word name) kind, is_sep c = false := by
  intro c hc
  rcases List.mem_append.mp hc with hc | hc
  · obtain ⟨hname, hspace⟩ := mem_last_word hc
    have hline := hplain c hname
    simp [Bytes.lit] at hline
    simp [is_sep, hspace, hline]
  · rcases List.mem_cons.mp hc with rfl | hc
    · rfl
    · exact kind_plain kind hkind c hc

theorem tk_entries_rendered {types : List (Bytes × Bytes)} {text : Bytes} (h : Rendered types text)
    (hplain : ∀ p ∈ types, ∀ c ∈ p.1, c ∉ Bytes.lit ".=\n\r")
    (hknown : ∀ p ∈ types, p.2 ∈ tk_kinds) :
    tk_entries text = types.filterMap fun p => tk_entry (type_line (last_word p.1) p.2) := by
  have hwords : ∀ p ∈ types, ∀ rest, tk_entries (type_line p.1 p.2 ++ rest) =
      tk_entries (type_line (last_word p.1) p.2 ++ rest) := by
    intro p hp rest
    have hequals : '='.toUInt8 ∉ p.1 := fun hc => absurd (hplain p hp _ hc) (by decide)
    rw [type_line, List.append_assoc, tk_entries_words hequals, type_line, List.append_assoc]
  induction h with
  | nil => rfl
  | last name kind =>
    have hword := hwords _ List.mem_cons_self []
    rw [List.append_nil, List.append_nil] at hword
    rw [hword, tk_entries_record (no_sep_of_line (hplain _ List.mem_cons_self)
      (hknown _ List.mem_cons_self)), List.filterMap_eq_flatMap_toList, List.flatMap_singleton]
  | line name kind heol hrest ih =>
    have hword := hwords _ List.mem_cons_self
    obtain ⟨hname, hplain⟩ := List.forall_mem_cons.mp hplain
    obtain ⟨hkind, hknown⟩ := List.forall_mem_cons.mp hknown
    have hpiece : _ ∈ separators := (by decide : ∀ p ∈ line_ends, p ∈ separators) _ heol
    rw [List.append_assoc, hword, ← List.append_assoc,
      tk_entries_piece (no_sep_of_line hname hkind) hpiece,
      ih hplain hknown (List.forall_mem_cons.mp hwords).2, List.filterMap_eq_flatMap_toList,
      List.filterMap_eq_flatMap_toList, List.flatMap_cons]

/-- A record of a line, where no space cuts its name. -/
theorem tk_entry_of_line {types : List (Bytes × Bytes)} (htypes : TypeMap types)
    {p : Bytes × Bytes} (hp : p ∈ types) : tk_entry (type_line p.1 p.2) = some p := by
  apply tk_entry_of_declares
  refine Declares.bare ?_ ?_ (htypes.known p hp)
  · intro c hc
    have hfirst := htypes.first p hp c hc
    have hplain := htypes.plain p hp c (List.mem_of_mem_head? hc)
    simp [Bytes.lit] at hplain ⊢
    exact ⟨hfirst.1, hplain.2.2.2, hfirst.2⟩
  · intro c hc
    have hplain := htypes.plain p hp c hc
    simp [Bytes.lit] at hplain ⊢
    exact ⟨hplain.2.1, hplain.1⟩

/-- In a dump of lines, the parser reads the last word of each name. So it gives exactly the types
that were written where no name has a space, and only there. -/
theorem parse_reads_lines_iff {types : List (Bytes × Bytes)} (htypes : TypeMap types) {text : Bytes}
    (h : Rendered types text) :
    parse_tk_dump text = first_wins.ofEntries
        (types.filterMap fun p => tk_entry (type_line (last_word p.1) p.2)) ∧
      ((∀ name kind, ⟨name, kind⟩ ∈ (parse_tk_dump text).entries ↔ (name, kind) ∈ types) ↔
        ∀ p ∈ types, ' '.toUInt8 ∉ p.1) := by
  have hentries := tk_entries_rendered h htypes.plain htypes.known
  refine ⟨by rw [parse_tk_dump_eq, hentries], ?_, ?_⟩
  · rintro hexact ⟨name, kind⟩ hp hspace
    obtain ⟨before, record, after, hsplit, hdeclares, -⟩ :=
      mem_parse_tk_dump.mp ((hexact name kind).mpr hp)
    obtain ⟨markers, returns, hrecord, -, -⟩ := hdeclares.split
    have hmem : record ∈ tk_records text := by simp [hsplit]
    exact (no_separator_in_record hmem _ (by simp [hrecord, hspace])).2 rfl
  · intro hspaces name kind
    have hall : (types.filterMap fun p => tk_entry (type_line (last_word p.1) p.2)) = types := by
      calc (types.filterMap fun p => tk_entry (type_line (last_word p.1) p.2))
          = types.filterMap some := by
            apply List.filterMap_congr
            intro p hp
            rw [last_word_eq (hspaces p hp), tk_entry_of_line htypes hp]
        _ = types := List.filterMap_some
    rw [parse_tk_dump_eq, hentries, hall, first_wins.mem_ofEntries_of_nodup htypes.keys]

/-- Two lines with different ends. -/
theorem two_lines_are_read :
    ⟨Bytes.lit "b", Bytes.lit "enum"⟩ ∈
      (parse_tk_dump (Bytes.lit "a=struct\r\nb=enum")).entries := by
  let types := [("a", "struct"), ("b", "enum")].map fun p => (Bytes.lit p.1, Bytes.lit p.2)
  have htypes : TypeMap types :=
    ⟨by decide +kernel, by decide +kernel, by decide +kernel, by decide +kernel, by decide +kernel⟩
  have heol : Bytes.lit "\r\n" ∈ line_ends := by decide
  have htext : Rendered types (Bytes.lit "a=struct\r\nb=enum") :=
    .line (Bytes.lit "a") (Bytes.lit "struct") heol (.last (Bytes.lit "b") (Bytes.lit "enum"))
  have hread := (parse_reads_lines_iff htypes htext).2.mpr (by decide +kernel)
  exact (hread _ _).mpr (by decide +kernel)

/-- Three C types. The word `int` of the first hides the second, and the star of the third leaves an
empty name. -/
theorem a_space_cuts_a_name :
    let types := [("unsigned int", "atomic"), ("int", "typedef"), ("char *", "type")].map
      fun p => (Bytes.lit p.1, Bytes.lit p.2)
    let text := Bytes.lit "unsigned int=atomic\nint=typedef\nchar *=type\n"
    TypeMap types ∧ Rendered types text ∧
      (¬∀ name kind, ⟨name, kind⟩ ∈ (parse_tk_dump text).entries ↔ (name, kind) ∈ types) ∧
      ⟨Bytes.lit "int", Bytes.lit "atomic"⟩ ∈ (parse_tk_dump text).entries ∧
      ⟨[], Bytes.lit "type"⟩ ∈ (parse_tk_dump text).entries := by
  intro types text
  have hline : Bytes.lit "\n" ∈ line_ends := by decide
  have hint : ⟨Bytes.lit "int", Bytes.lit "atomic"⟩ ∈ (parse_tk_dump text).entries := by
    decide +kernel
  refine ⟨⟨by decide +kernel, by decide +kernel, by decide +kernel, by decide +kernel,
    by decide +kernel⟩, .line _ _ hline (.line _ _ hline (.line _ _ hline .nil)), ?_, hint,
    by decide +kernel⟩
  intro h
  exact absurd ((h _ _).mp hint) (by decide +kernel)

end r2sql.json_utils
