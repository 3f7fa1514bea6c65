-- The layouts that types and types_members show of the structs and unions of
-- radare2: the rows of the members against the size of the type.
import R2sql.TypeTables
import R2sql.Lib.Layout

namespace r2sql

open json_utils layout

/-! ## Fields as they are shown -/

/-- The elements of a field: 1 where it is no array. -/
def element_count (f : Json) : Int64 :=
  let ar := i64 f (Bytes.lit "array_size") 1
  if ar ≤ 0 then 1 else ar

def field_offset (f : Json) : ℤ := (i64 f (Bytes.lit "offset")).toInt

/-- The bytes of a field, all its elements together. -/
def field_extent (f : Json) : ℤ := (i64 f (Bytes.lit "size")).toInt * (element_count f).toInt

/-- Where the bytes of a member end. -/
def MemberRow.end_offset (m : MemberRow) : ℤ := m.offset.toInt + m.size.toInt * m.array_size.toInt

/-- Fields with offsets, sizes and element counts that are not negative, of a type with a size that
a signed number of 64 bits can hold. -/
structure Bounded (kind : Bytes) (fs : List Json) : Prop where
  offset : ∀ f ∈ fs, 0 ≤ (i64 f (Bytes.lit "offset")).toInt
  size : ∀ f ∈ fs, 0 ≤ (i64 f (Bytes.lit "size")).toInt
  array_size : ∀ f ∈ fs, 0 ≤ (i64 f (Bytes.lit "array_size") 1).toInt
  extent : ∀ f ∈ fs, field_extent f < 2 ^ 63
  total : kind = Bytes.lit "struct" → total field_extent fs < 2 ^ 63

/-! ## The arithmetic of the builder -/

/-- A number that a signed word of 64 bits can hold. -/
def InInt64 (x : ℤ) : Prop := -2 ^ 63 ≤ x ∧ x < 2 ^ 63

instance (x : ℤ) : Decidable (InInt64 x) := inferInstanceAs (Decidable (_ ∧ _))

theorem toInt_mul_of_in {a b : Int64} (h : InInt64 (a.toInt * b.toInt)) :
    (a * b).toInt = a.toInt * b.toInt := by
  obtain ⟨hlo, hhi⟩ := h
  rw [Int64.toInt_mul]
  apply Int.bmod_eq_of_le <;> omega

theorem toInt_add_of_in {a b : Int64} (h : InInt64 (a.toInt + b.toInt)) :
    (a + b).toInt = a.toInt + b.toInt := by
  obtain ⟨hlo, hhi⟩ := h
  rw [Int64.toInt_add]
  apply Int.bmod_eq_of_le <;> omega

theorem toInt_element_count (f : Json) :
    (element_count f).toInt = max (i64 f (Bytes.lit "array_size") 1).toInt 1 := by
  have hone : (1 : Int64).toInt = 1 := rfl
  have hzero : (0 : Int64).toInt = 0 := rfl
  unfold element_count
  dsimp only
  split
  · rename_i h
    rw [Int64.le_iff_toInt_le, hzero] at h
    rw [hone, max_eq_right (by omega)]
  · rename_i h
    rw [Int64.le_iff_toInt_le, hzero] at h
    rw [max_eq_left (by omega)]

theorem extent_nonneg {f : Json} (h : 0 ≤ (i64 f (Bytes.lit "size")).toInt) :
    0 ≤ field_extent f := by
  rw [field_extent, toInt_element_count]
  exact mul_nonneg h (le_max_of_le_right zero_le_one)

theorem toInt_field_size {f : Json} (h : InInt64 (field_extent f)) :
    (field_size f).toInt = field_extent f :=
  toInt_mul_of_in h

/-- No multiplication of the builder leaves the range, and no addition either, where the sums are
the exact ones. -/
structure SizesFit (kind : Bytes) (fs : List Json) : Prop where
  products : ∀ f ∈ fs, InInt64 (field_extent f)
  sums : kind = Bytes.lit "struct" → StaysIn InInt64 0 (fs.map field_extent)

theorem toInt_foldl_add {fs : List Json} (hsize : ∀ f ∈ fs, (field_size f).toInt = field_extent f)
    (b : Int64) (h : StaysIn InInt64 b.toInt (fs.map field_extent)) :
    (fs.foldl (fun t f => t + field_size f) b).toInt = b.toInt + total field_extent fs := by
  induction fs generalizing b with
  | nil => simp [total]
  | cons f fs ih =>
    obtain ⟨hf, hfs⟩ := List.forall_mem_cons.mp hsize
    rw [List.map_cons, staysIn_cons] at h
    have hadd : (b + field_size f).toInt = b.toInt + field_extent f := by
      have hsum := h.2.start
      rw [← hf] at hsum ⊢
      exact toInt_add_of_in hsum
    have htotal : total field_extent (f :: fs) = field_extent f + total field_extent fs := rfl
    rw [List.foldl_cons, ih hfs _ (hadd ▸ h.2), hadd, htotal, add_assoc]

theorem toInt_foldl_largest {fs : List Json}
    (hsize : ∀ f ∈ fs, (field_size f).toInt = field_extent f) (b : Int64) :
    (fs.foldl (fun m f => if field_size f > m then field_size f else m) b).toInt =
      fs.foldl (fun m f => if field_extent f > m then field_extent f else m) b.toInt := by
  induction fs generalizing b with
  | nil => rfl
  | cons f fs ih =>
    obtain ⟨hf, hfs⟩ := List.forall_mem_cons.mp hsize
    rw [List.foldl_cons, List.foldl_cons, ih hfs, ← hf]
    simp only [gt_iff_lt, Int64.lt_iff_toInt_lt, apply_ite Int64.toInt]

theorem toInt_record_size {kind : Bytes} {fs : List Json} (h : SizesFit kind fs) :
    (record_size kind fs).toInt =
      if kind = Bytes.lit "struct" then total field_extent fs else largest field_extent fs := by
  have hsize : ∀ f ∈ fs, (field_size f).toInt = field_extent f :=
    fun f hf => toInt_field_size (h.products f hf)
  unfold record_size
  split
  · rename_i hstruct
    rw [toInt_foldl_add hsize 0 (h.sums hstruct)]
    exact zero_add _
  · exact toInt_foldl_largest hsize 0

theorem sizesFit_of_bounded {kind : Bytes} {fs : List Json} (h : Bounded kind fs) :
    SizesFit kind fs := by
  have hextent : ∀ f ∈ fs, 0 ≤ field_extent f := fun f hf => extent_nonneg (h.size f hf)
  constructor
  · intro f hf
    have hle := hextent f hf
    exact ⟨by omega, h.extent f hf⟩
  · intro hstruct
    refine (staysIn_iff_of_nonneg (by decide) (by simpa using hextent)).mpr ?_
    rw [zero_add]
    exact h.total hstruct

/-! ## The rows of one type -/

section
variable [Nlohmann] [CppLibrary] (be : Backend)

/-- The types of the `tk*` answer, with their kinds. -/
def listed_types : List (Sigma fun _ : Bytes => Bytes) :=
  (parse_tk_dump (be (Bytes.lit "tk*"))).entries

/-- The `tsj` or `tuj` answer for a type. -/
def type_record (name kind : Bytes) : Json := json_of_reply (be (record_command name kind))

theorem mem_types_iff {r : TypeRow} :
    r ∈ types_cache_builder.value be ↔
      ∃ name kind, ⟨name, kind⟩ ∈ listed_types be ∧
        r = (type_row (atomic_info (json_of_reply (be (Bytes.lit "tj")))) name kind).value be := by
  have hvalue : types_cache_builder.value be =
      if listed_types be = [] then []
      else CppLibrary.sort (fun a b => a.name < b.name) ((CppLibrary.iterate (listed_types be)).map
        fun p =>
          (type_row (atomic_info (json_of_reply (be (Bytes.lit "tj")))) p.1 p.2).value be) := by
    unfold types_cache_builder
    rw [Dialogue.value_bind, value_cmd]
    by_cases hnone : listed_types be = []
    · rw [if_pos hnone]
      simp only [show (parse_tk_dump (be (Bytes.lit "tk*"))).entries = [] from hnone, if_true]
      rfl
    · rw [if_neg hnone]
      simp only [show (parse_tk_dump (be (Bytes.lit "tk*"))).entries ≠ [] from hnone, if_false,
        Dialogue.value_bind, value_cmd_json, Dialogue.value_mapM, Dialogue.value_pure]
      rfl
  rw [hvalue]
  by_cases hnone : listed_types be = []
  · simp [hnone]
  · rw [if_neg hnone, (CppLibrary.sort_perm _ _).mem_iff, List.mem_map]
    simp only [(CppLibrary.iterate_perm _).mem_iff]
    constructor
    · rintro ⟨⟨name, kind⟩, hmem, rfl⟩
      exact ⟨name, kind, hmem, rfl⟩
    · rintro ⟨name, kind, hmem, rfl⟩
      exact ⟨⟨name, kind⟩, hmem, rfl⟩

theorem mem_types_of_record {name kind : Bytes} (hlisted : ⟨name, kind⟩ ∈ listed_types be)
    (hkind : kind = Bytes.lit "struct" ∨ kind = Bytes.lit "union")
    (hrecord : (type_record be name kind).is_object) {r : TypeRow} :
    r ∈ types_cache_builder.value be ∧ r.name = name ↔
      r = { name := name
            kind := kind
            size := record_size kind (fields_of (type_record be name kind))
            format := str (type_record be name kind) (Bytes.lit "format") } := by
  have hatomic : ¬ (kind = Bytes.lit "atomic" ∨ kind = Bytes.lit "type") := by
    rcases hkind with rfl | rfl <;> decide
  have hrow : ∀ info, (type_row info name kind).value be =
      { name := name
        kind := kind
        size := record_size kind (fields_of (type_record be name kind))
        format := str (type_record be name kind) (Bytes.lit "format") } := by
    intro info
    unfold type_row
    rw [if_neg hatomic, if_pos hkind, Dialogue.value_bind, value_cmd_json]
    change (if (type_record be name kind).is_object then _ else _ : R2 TypeRow).value be = _
    rw [if_pos hrecord]
    rfl
  have hname : ∀ info n k, ((type_row info n k).value be).name = n := by
    intro info n k
    unfold type_row
    split
    · split <;> rfl
    · split
      · simp only [Dialogue.value_bind]
        split <;> rfl
      · rfl
  rw [mem_types_iff]
  constructor
  · rintro ⟨⟨n, k, hmem, rfl⟩, hn⟩
    rw [hname] at hn
    subst hn
    have hk : k = kind := (parse_tk_dump (be (Bytes.lit "tk*"))).nodupKeys.eq_of_mk_mem hmem hlisted
    rw [hk, hrow]
  · rintro rfl
    exact ⟨⟨name, kind, hlisted, (hrow _).symm⟩, rfl⟩

theorem mem_members_iff {m : MemberRow} :
    m ∈ types_members_cache_builder.value be ↔
      ∃ name kind, ⟨name, kind⟩ ∈ listed_types be ∧ m ∈ (member_rows name kind).value be := by
  have hvalue : types_members_cache_builder.value be =
      if listed_types be = [] then []
      else CppLibrary.sort (fun a b =>
          if a.type_name ≠ b.type_name then a.type_name < b.type_name else a.offset < b.offset)
        ((CppLibrary.iterate (listed_types be)).map
          fun p => (member_rows p.1 p.2).value be).flatten := by
    unfold types_members_cache_builder
    rw [Dialogue.value_bind, value_cmd]
    by_cases hnone : listed_types be = []
    · rw [if_pos hnone]
      simp only [show (parse_tk_dump (be (Bytes.lit "tk*"))).entries = [] from hnone, if_true]
      rfl
    · rw [if_neg hnone]
      simp only [show (parse_tk_dump (be (Bytes.lit "tk*"))).entries ≠ [] from hnone, if_false,
        Dialogue.value_bind, Dialogue.value_mapM, Dialogue.value_pure]
      rfl
  rw [hvalue]
  by_cases hnone : listed_types be = []
  · simp [hnone]
  · rw [if_neg hnone, (CppLibrary.sort_perm _ _).mem_iff, List.mem_flatten]
    simp only [List.mem_map, (CppLibrary.iterate_perm _).mem_iff]
    constructor
    · rintro ⟨_, ⟨⟨name, kind⟩, hmem, rfl⟩, hm⟩
      exact ⟨name, kind, hmem, hm⟩
    · rintro ⟨name, kind, hmem, hm⟩
      exact ⟨_, ⟨⟨name, kind⟩, hmem, rfl⟩, hm⟩

omit [CppLibrary] in
theorem type_name_of_mem {name kind : Bytes} {m : MemberRow}
    (h : m ∈ (member_rows name kind).value be) : m.type_name = name := by
  unfold member_rows at h
  split at h
  · cases h
  · split at h
    · simp only [Dialogue.value_bind, Dialogue.value_pure, enum_rows] at h
      split at h
      · obtain ⟨p, -, rfl⟩ := List.mem_map.mp h
        rfl
      · cases h
    · simp only [Dialogue.value_bind, Dialogue.value_pure, field_rows] at h
      obtain ⟨f, -, rfl⟩ := List.mem_map.mp h
      rfl

theorem mem_members_of_record {name kind : Bytes} (hlisted : ⟨name, kind⟩ ∈ listed_types be)
    (hkind : kind = Bytes.lit "struct" ∨ kind = Bytes.lit "union") {m : MemberRow} :
    m ∈ types_members_cache_builder.value be ∧ m.type_name = name ↔
      m ∈ field_rows name kind (type_record be name kind) := by
  have hmember : kind ∈ member_kinds := by
    rcases hkind with rfl | rfl <;> decide
  have henum : kind ≠ Bytes.lit "enum" := by
    rcases hkind with rfl | rfl <;> decide
  have hrows : (member_rows name kind).value be =
      field_rows name kind (type_record be name kind) := by
    unfold member_rows
    rw [if_neg (not_not.mpr hmember), if_neg henum]
    rfl
  rw [mem_members_iff, ← hrows]
  constructor
  · rintro ⟨⟨n, k, hmem, hm⟩, hn⟩
    rw [type_name_of_mem be hm] at hn
    subst hn
    have hk : k = kind := (parse_tk_dump (be (Bytes.lit "tk*"))).nodupKeys.eq_of_mk_mem hmem hlisted
    rwa [hk] at hm
  · intro hm
    exact ⟨⟨name, kind, hlisted, hm⟩, type_name_of_mem be hm⟩

/-! ## The law -/

/-- The two tables agree on a type: types lists it with its kind, the members have that kind and end
within its size, and the size of a union is the end of a member (0 where there is none). -/
structure AgreeOnLayout (name kind : Bytes) : Prop where
  listed : ∃ r ∈ types_cache_builder.value be, r.name = name ∧ r.kind = kind
  kinds : ∀ r ∈ types_cache_builder.value be, ∀ m ∈ types_members_cache_builder.value be,
    r.name = name → m.type_name = name → r.kind = m.parent_kind
  fits : ∀ r ∈ types_cache_builder.value be, ∀ m ∈ types_members_cache_builder.value be,
    r.name = name → m.type_name = name → m.end_offset ≤ r.size.toInt
  largest : kind = Bytes.lit "union" → ∀ r ∈ types_cache_builder.value be, r.name = name →
    (∃ m ∈ types_members_cache_builder.value be, m.type_name = name ∧
      r.size.toInt = m.end_offset) ∨
    r.size.toInt = 0 ∧ ∀ m ∈ types_members_cache_builder.value be, m.type_name ≠ name

/-- What the two tables agree on, in the fields of the record. -/
theorem agree_iff {name kind : Bytes} (hlisted : ⟨name, kind⟩ ∈ listed_types be)
    (hkind : kind = Bytes.lit "struct" ∨ kind = Bytes.lit "union")
    (hrecord : (type_record be name kind).is_object) :
    let fs := fields_of (type_record be name kind)
    let size := (record_size kind fs).toInt
    AgreeOnLayout be name kind ↔
      (∀ f ∈ fs, field_offset f + field_extent f ≤ size) ∧
        (kind = Bytes.lit "union" →
          (∃ f ∈ fs, size = field_offset f + field_extent f) ∨ size = 0 ∧ fs = []) := by
  intro fs size
  let row : TypeRow :=
    { name := name, kind := kind, size := record_size kind fs
      format := str (type_record be name kind) (Bytes.lit "format") }
  let member : Json → MemberRow := fun f =>
    { type_name := name, parent_kind := kind, member_name := str f (Bytes.lit "name")
      member_type := str f (Bytes.lit "type"), offset := i64 f (Bytes.lit "offset")
      size := i64 f (Bytes.lit "size"), array_size := element_count f, value := 0 }
  have hrow : ∀ r, r ∈ types_cache_builder.value be ∧ r.name = name ↔ r = row :=
    fun r => mem_types_of_record be hlisted hkind hrecord
  have hmember : ∀ m, m ∈ types_members_cache_builder.value be ∧ m.type_name = name ↔
      ∃ f ∈ fs, member f = m := by
    intro m
    rw [mem_members_of_record be hlisted hkind]
    exact List.mem_map
  obtain ⟨htypes, -⟩ := (hrow row).mpr rfl
  constructor
  · intro h
    constructor
    · intro f hf
      obtain ⟨hmem, hname⟩ := (hmember (member f)).mpr ⟨f, hf, rfl⟩
      exact h.fits row htypes (member f) hmem rfl hname
    · intro hunion
      rcases h.largest hunion row htypes rfl with ⟨m, hm, hname, hsize⟩ | ⟨hzero, hnone⟩
      · obtain ⟨f, hf, rfl⟩ := (hmember m).mp ⟨hm, hname⟩
        exact Or.inl ⟨f, hf, hsize⟩
      · refine Or.inr ⟨hzero, List.eq_nil_iff_forall_not_mem.mpr fun f hf => ?_⟩
        obtain ⟨hmem, hname⟩ := (hmember (member f)).mpr ⟨f, hf, rfl⟩
        exact hnone (member f) hmem hname
  · rintro ⟨hfits, hlargest⟩
    constructor
    · exact ⟨row, htypes, rfl, rfl⟩
    · intro r hr m hm hname hm_name
      obtain rfl := (hrow r).mp ⟨hr, hname⟩
      obtain ⟨f, -, rfl⟩ := (hmember m).mp ⟨hm, hm_name⟩
      rfl
    · intro r hr m hm hname hm_name
      obtain rfl := (hrow r).mp ⟨hr, hname⟩
      obtain ⟨f, hf, rfl⟩ := (hmember m).mp ⟨hm, hm_name⟩
      exact hfits f hf
    · intro hunion r hr hname
      obtain rfl := (hrow r).mp ⟨hr, hname⟩
      rcases hlargest hunion with ⟨f, hf, hsize⟩ | ⟨hzero, hnone⟩
      · obtain ⟨hmem, hm_name⟩ := (hmember (member f)).mpr ⟨f, hf, rfl⟩
        exact Or.inl ⟨member f, hmem, hm_name, hsize⟩
      · refine Or.inr ⟨hzero, fun m hm hm_name => ?_⟩
        obtain ⟨f, hf, -⟩ := (hmember m).mp ⟨hm, hm_name⟩
        rw [hnone] at hf
        cases hf

/-- No field of a struct begins behind the extents of the others, and each field of a union ends
within the extent of some field. -/
def Packed (kind : Bytes) (fs : List Json) : Prop :=
  if kind = Bytes.lit "struct" then
    ∀ before f after, fs = before ++ f :: after →
      field_offset f ≤ total field_extent before + total field_extent after
  else ∀ f ∈ fs, ∃ g ∈ fs, field_offset f + field_extent f ≤ field_extent g

/-- Types and types_members agree on a struct or union exactly when its fields are packed. -/
theorem types_agree_on_layout {name kind : Bytes} (hlisted : ⟨name, kind⟩ ∈ listed_types be)
    (hkind : kind = Bytes.lit "struct" ∨ kind = Bytes.lit "union")
    (hrecord : (type_record be name kind).is_object)
    (hbounded : Bounded kind (fields_of (type_record be name kind))) :
    AgreeOnLayout be name kind ↔ Packed kind (fields_of (type_record be name kind)) := by
  refine (agree_iff be hlisted hkind hrecord).trans ?_
  rw [toInt_record_size (sizesFit_of_bounded hbounded), Packed]
  generalize fields_of (type_record be name kind) = fs at hbounded
  rcases hkind with rfl | rfl
  · simp only [if_true]
    rw [fits_total_iff, and_iff_left]
    intro hunion
    exact absurd hunion (by decide)
  · have hstruct : Bytes.lit "union" ≠ Bytes.lit "struct" := by decide
    have hextent : ∀ f ∈ fs, 0 ≤ field_extent f := fun f hf => extent_nonneg (hbounded.size f hf)
    simp only [if_neg hstruct]
    rw [← fits_largest_iff field_offset field_extent hextent, and_iff_left_iff_imp]
    intro hfits _
    by_cases hnone : fs = []
    · subst hnone
      exact Or.inr ⟨rfl, rfl⟩
    · -- a largest field fits, so it begins at 0
      obtain ⟨f, hf, hlargest⟩ := exists_largest hnone hextent
      have hzero : 0 ≤ field_offset f := hbounded.offset f hf
      have hend := hfits f hf
      exact Or.inl ⟨f, hf, by omega⟩

end

/-- A struct laid out in order is packed exactly when there is no gap before its last field. -/
theorem ordered_struct_packed_iff {before : List Json} {f : Json}
    (hordered : (before ++ [f]).Pairwise fun f g =>
      field_offset f + field_extent f ≤ field_offset g)
    (hbounded : Bounded (Bytes.lit "struct") (before ++ [f])) :
    Packed (Bytes.lit "struct") (before ++ [f]) ↔ field_offset f = total field_extent before := by
  rw [Packed, if_pos rfl, ← fits_total_iff]
  exact ordered_fits_total_iff hordered hbounded.offset
    fun g hg => extent_nonneg (hbounded.size g hg)

/-- A field of a record, by its offset and its size. -/
def plain_field (offset size : UInt64) : Json :=
  .object [(Bytes.lit "offset", .number_unsigned offset), (Bytes.lit "size", .number_unsigned size)]

/-- A library that reads a struct of two fields of four bytes, and one with a byte and a gap before
the second. -/
@[reducible] def pairJson : Nlohmann := .ofTexts
  [("two words", .object [(Bytes.lit "fields", .array [plain_field 0 4, plain_field 4 4])]),
    ("byte and word", .object [(Bytes.lit "fields", .array [plain_field 0 1, plain_field 4 4])])]

def pair_backend (record : String) : Backend :=
  mock_backend [("tk*", "pair=struct"), ("tsj pair", record)]

/-- The tables agree on two words. -/
theorem two_words_agree :
    letI := pairJson
    letI := CppLibrary.stable
    AgreeOnLayout (pair_backend "two words") (Bytes.lit "pair") (Bytes.lit "struct") := by
  let _ := pairJson
  let _ := CppLibrary.stable
  have hbounded : Bounded (Bytes.lit "struct") [plain_field 0 4, plain_field 4 4] := by
    constructor <;> decide +kernel
  have hfields : fields_of (type_record (pair_backend "two words") (Bytes.lit "pair")
      (Bytes.lit "struct")) = [plain_field 0 4, plain_field 4 4] := by rfl
  apply (types_agree_on_layout (pair_backend "two words") (by decide +kernel) (Or.inl rfl)
    (by decide +kernel) (hfields ▸ hbounded)).mpr
  rw [hfields]
  have hiff : Packed (Bytes.lit "struct") ([plain_field 0 4] ++ [plain_field 4 4]) ↔ _ :=
    ordered_struct_packed_iff (by decide +kernel) hbounded
  exact hiff.mpr (by decide +kernel)

/-- The second field of `struct { char c; int i; }` ends behind the size of the struct. -/
theorem a_padded_struct_is_too_small :
    letI := pairJson
    letI := CppLibrary.stable
    let be := pair_backend "byte and word"
    ⟨Bytes.lit "pair", Bytes.lit "struct"⟩ ∈ listed_types be ∧
      Bounded (Bytes.lit "struct")
        (fields_of (type_record be (Bytes.lit "pair") (Bytes.lit "struct"))) ∧
      ¬ AgreeOnLayout be (Bytes.lit "pair") (Bytes.lit "struct") := by
  let _ := pairJson
  let _ := CppLibrary.stable
  refine ⟨by decide +kernel, by constructor <;> decide +kernel, fun h => ?_⟩
  have hfits := ((agree_iff (pair_backend "byte and word") (by decide +kernel) (Or.inl rfl)
    (by decide +kernel)).mp h).1
  revert hfits
  decide +kernel

end r2sql
