-- The sizes that types shows of structs and unions: when they are exact, for
-- any sizes and element counts that radare2 gives.
import R2sql.TypeLayout

namespace r2sql

open json_utils layout

/-! ## The exact size -/

/-- The size of a field times the elements of its array, at least one. -/
def exact_product (f : Json) : ℤ :=
  (i64 f (Bytes.lit "size")).toInt * max (i64 f (Bytes.lit "array_size") 1).toInt 1

/-- The sum of the products in a struct, and the largest of them in a union, or 0. -/
def exact_size (kind : Bytes) (fs : List Json) : ℤ :=
  if kind = Bytes.lit "struct" then (fs.map exact_product).sum
  else (fs.map exact_product).foldl max 0

theorem exact_product_eq (f : Json) : exact_product f = field_extent f := by
  rw [exact_product, field_extent, toInt_element_count]

theorem largest_eq_foldl_max (fs : List Json) :
    largest field_extent fs = (fs.map field_extent).foldl max 0 := by
  rw [largest, List.foldl_map]
  congr 1
  funext m f
  split <;> omega

theorem exact_size_eq (kind : Bytes) (fs : List Json) :
    exact_size kind fs =
      if kind = Bytes.lit "struct" then total field_extent fs else largest field_extent fs := by
  have hproduct : exact_product = field_extent := funext exact_product_eq
  rw [exact_size, hproduct, largest_eq_foldl_max, total]

/-! ## The additions of the loop -/

/-- What each addition to the total of a struct gives before it is put into 64 bits. -/
def additions : Int64 → List Json → List ℤ
  | _, [] => []
  | total, f :: fs => (total.toInt + (field_size f).toInt) :: additions (total + field_size f) fs

theorem additions_in_iff {fs : List Json} (hsize : ∀ f ∈ fs, (field_size f).toInt = field_extent f)
    (b : Int64) : (∀ x ∈ additions b fs, InInt64 x) ↔
      StaysIn InInt64 b.toInt (fs.map field_extent) := by
  have hstart : InInt64 b.toInt := ⟨Int64.le_toInt b, Int64.toInt_lt b⟩
  induction fs generalizing b with
  | nil =>
    refine iff_of_true (by simp [additions]) ?_
    intro p hp
    rw [List.prefix_nil.mp hp, List.sum_nil, add_zero]
    exact hstart
  | cons f fs ih =>
    obtain ⟨hf, hfs⟩ := List.forall_mem_cons.mp hsize
    rw [additions, List.forall_mem_cons, List.map_cons, staysIn_cons, and_iff_right hstart, hf]
    constructor
    · rintro ⟨hsum, hrest⟩
      have hadd := toInt_add_of_in (hf.symm ▸ hsum)
      rw [← hf, ← hadd]
      exact (ih hfs _ (hadd ▸ hf.symm ▸ hsum)).mp hrest
    · intro h
      have hsum := h.start
      have hadd := toInt_add_of_in (hf.symm ▸ hsum)
      refine ⟨hsum, (ih hfs _ (hadd ▸ hf.symm ▸ hsum)).mpr ?_⟩
      rw [hadd, hf]
      exact h

/-- With no negative size, everything fits where the exact size does. -/
theorem sizesFit_iff_of_nonneg {kind : Bytes} {fs : List Json}
    (hsize : ∀ f ∈ fs, 0 ≤ (i64 f (Bytes.lit "size")).toInt) :
    SizesFit kind fs ↔ exact_size kind fs < 2 ^ 63 := by
  have hextent : ∀ f ∈ fs, 0 ≤ field_extent f := fun f hf => extent_nonneg (hsize f hf)
  rw [exact_size_eq]
  split
  · rename_i hstruct
    have hfits : StaysIn InInt64 0 (fs.map field_extent) ↔ 0 + total field_extent fs < 2 ^ 63 :=
      staysIn_iff_of_nonneg (by decide) (by simpa using hextent)
    rw [zero_add] at hfits
    rw [← hfits]
    constructor
    · intro h
      exact h.sums hstruct
    · intro h
      refine ⟨fun f hf => ?_, fun _ => h⟩
      have hle : field_extent f ≤ total field_extent fs :=
        List.single_le_sum (by simpa using hextent) _ (List.mem_map_of_mem hf)
      have hlt := hfits.mp h
      have hzero := hextent f hf
      exact ⟨by omega, by omega⟩
  · rename_i hunion
    constructor
    · intro h
      have hle : largest field_extent fs ≤ 2 ^ 63 - 1 := by
        rw [largest_le_iff]
        refine ⟨by decide, fun f hf => ?_⟩
        have hlt := (h.products f hf).2
        omega
      omega
    · intro h
      refine ⟨fun f hf => ?_, fun hstruct => absurd hstruct hunion⟩
      have hle : field_extent f ≤ largest field_extent fs := le_largest hf
      have hzero := hextent f hf
      exact ⟨by omega, by omega⟩

section
variable [Nlohmann] [CppLibrary] (be : Backend)

/-- The size of a struct or union in types is the exact one, and the builder reached it without
leaving the range of a signed word of 64 bits. -/
structure SizeIsExact (name kind : Bytes) : Prop where
  listed : ∃ r ∈ types_cache_builder.value be, r.name = name
  size : ∀ r ∈ types_cache_builder.value be, r.name = name →
    r.size.toInt = exact_size kind (fields_of (type_record be name kind))
  products : ∀ f ∈ fields_of (type_record be name kind), InInt64 (field_extent f)
  additions : kind = Bytes.lit "struct" →
    ∀ x ∈ additions 0 (fields_of (type_record be name kind)), InInt64 x

/-- The size of a type is exact exactly when each product and, in a struct, each sum of the first
products fits. With no negative size, that is where the exact size fits. -/
theorem sizes_are_exact_iff {name kind : Bytes} (hlisted : ⟨name, kind⟩ ∈ listed_types be)
    (hkind : kind = Bytes.lit "struct" ∨ kind = Bytes.lit "union")
    (hrecord : (type_record be name kind).is_object) :
    let fs := fields_of (type_record be name kind)
    (SizeIsExact be name kind ↔ SizesFit kind fs) ∧
      ((∀ f ∈ fs, 0 ≤ (i64 f (Bytes.lit "size")).toInt) →
        (SizesFit kind fs ↔ exact_size kind fs < 2 ^ 63)) := by
  intro fs
  refine ⟨?_, sizesFit_iff_of_nonneg⟩
  have hrow := fun r => mem_types_of_record be hlisted hkind hrecord (r := r)
  constructor
  · intro h
    refine ⟨h.products, fun hstruct => ?_⟩
    have hsize : ∀ f ∈ fs, (field_size f).toInt = field_extent f :=
      fun f hf => toInt_field_size (h.products f hf)
    exact (additions_in_iff hsize 0).mp (h.additions hstruct)
  · intro h
    have hsize : ∀ f ∈ fs, (field_size f).toInt = field_extent f :=
      fun f hf => toInt_field_size (h.products f hf)
    constructor
    · obtain ⟨hmem, hname⟩ := (hrow _).mpr rfl
      exact ⟨_, hmem, hname⟩
    · intro r hr hname
      rw [(hrow r).mp ⟨hr, hname⟩, exact_size_eq]
      exact toInt_record_size h
    · exact h.products
    · intro hstruct
      exact (additions_in_iff hsize 0).mpr (h.sums hstruct)

end

/-- A field of a record, by its size and the elements of its array. -/
def array_field (size elements : UInt64) : Json :=
  .object [(Bytes.lit "size", .number_unsigned size),
    (Bytes.lit "array_size", .number_unsigned elements)]

/-- A library that reads a struct of twelve bytes, and one with two elements of 2^62 bytes. -/
@[reducible] def arrayJson : Nlohmann := .ofTexts
  [("small", .object [(Bytes.lit "fields", .array [array_field 4 2, array_field 4 0])]),
    ("large", .object [(Bytes.lit "fields", .array [array_field 0x4000000000000000 2])])]

/-- An array of two words, and one word. -/
theorem twelve_bytes_are_exact :
    letI := arrayJson
    letI := CppLibrary.stable
    SizeIsExact (pair_backend "small") (Bytes.lit "pair") (Bytes.lit "struct") := by
  let _ := arrayJson
  let _ := CppLibrary.stable
  have hlisted : ⟨Bytes.lit "pair", Bytes.lit "struct"⟩ ∈ listed_types (pair_backend "small") := by
    decide +kernel
  obtain ⟨hexact, hfits⟩ := sizes_are_exact_iff (pair_backend "small") hlisted (Or.inl rfl)
    (by decide +kernel)
  exact hexact.mpr ((hfits (by decide +kernel)).mpr (by decide +kernel))

/-- The product of the size and the elements is 2^63, one more than a signed number can be: the type
is shown with the size -2^63. -/
theorem a_large_array_overflows :
    letI := arrayJson
    letI := CppLibrary.stable
    let be := pair_backend "large"
    let fs := fields_of (type_record be (Bytes.lit "pair") (Bytes.lit "struct"))
    ⟨Bytes.lit "pair", Bytes.lit "struct"⟩ ∈ listed_types be ∧
      ¬SizeIsExact be (Bytes.lit "pair") (Bytes.lit "struct") ∧
      exact_size (Bytes.lit "struct") fs = 2 ^ 63 ∧
      (types_cache_builder.value be).map TypeRow.size = [-9223372036854775808] := by
  let _ := arrayJson
  let _ := CppLibrary.stable
  refine ⟨by decide +kernel, fun h => ?_, by decide +kernel, by decide +kernel⟩
  have hin : ∀ f ∈ fields_of (type_record (pair_backend "large") (Bytes.lit "pair")
      (Bytes.lit "struct")), InInt64 (field_extent f) := h.products
  revert hin
  decide +kernel

end r2sql
