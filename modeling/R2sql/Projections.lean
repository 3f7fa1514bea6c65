-- The projection of the strings table: for a query that does not read the text
-- the rows are built without it, and the query cannot tell.
import R2sql.TableExceptions

namespace r2sql

open Raising

/-! ## The columns -/

/-- The values of a row, in the order of the columns. -/
def StringRow.columns (r : StringRow) : List SqlValue :=
  [.int r.addr, .int r.length, .text r.section_, .text r.type, .text r.text]

/-- A column of the table, if the table has so many. -/
def string_column (rows : List StringRow) (i : Nat) : List (Option SqlValue) :=
  rows.map fun r => r.columns[i]?

/-- SQLite's mask of the columns that a query reads: a bit for each of the first 63 columns, and the
last bit for all after them. -/
def Uses (colUsed : UInt64) (i : Nat) : Prop := colUsed.toBitVec.getLsbD (min i 63) = true

instance (colUsed : UInt64) (i : Nat) : Decidable (Uses colUsed i) :=
  inferInstanceAs (Decidable (_ = _))

theorem and_ne_zero_of_bit {x y : UInt64} {i : Nat} (hx : x.toBitVec.getLsbD i = true)
    (hy : y.toBitVec.getLsbD i = true) : x &&& y ≠ 0 := by
  intro h
  have hbit : (x &&& y).toBitVec.getLsbD i = true := by
    rw [UInt64.toBitVec_and, BitVec.getLsbD_and, hx, hy]
    rfl
  rw [h, UInt64.toBitVec_zero, BitVec.getLsbD_zero] at hbit
  cases hbit

/-- The projection builds the text for every mask that has its column, the fifth one. -/
theorem with_text_of_uses {colUsed : UInt64} (h : Uses colUsed 4) :
    (colUsed &&& checked.kColUsedAll != 0 || colUsed &&& checked.kTextColBit != 0) = true := by
  have hbit : checked.kTextColBit.toBitVec.getLsbD 4 = true := by decide
  have hne : colUsed &&& checked.kTextColBit ≠ 0 := and_ne_zero_of_bit h hbit
  rw [Bool.or_eq_true, bne_iff_ne, bne_iff_ne]
  exact Or.inr hne

/-- A row as the projection builds it. -/
def StringRow.projected (with_text : Bool) (r : StringRow) : StringRow :=
  { r with text := if with_text then r.text else [] }

theorem string_column_projected {with_text : Bool} (rows : List StringRow) {i : Nat}
    (h : i = 4 → with_text = true) :
    string_column (rows.map (StringRow.projected with_text)) i = string_column rows i := by
  unfold string_column
  rw [List.map_map]
  apply List.map_congr_left
  intro r _
  match i, h with
  | 0, _ | 1, _ | 2, _ | 3, _ | _ + 5, _ => rfl
  | 4, h =>
    rw [h rfl]
    rfl

/-! ## The two builds -/

namespace checked

variable [Nlohmann] [NlohmannErrors]

/-- Where the row with its text can be built, the row without it can be. -/
theorem string_row_projected {j : Json} {r : StringRow} (with_text : Bool)
    (h : string_row true j = .ok r) : string_row with_text j = .ok (r.projected with_text) := by
  cases with_text with
  | true => exact h
  | false =>
    unfold string_row at h ⊢
    simp only [i64_eq, ok_bind, if_true] at h
    obtain ⟨section_, hsection, h⟩ := bind_eq_ok_iff.mp h
    obtain ⟨type, htype, h⟩ := bind_eq_ok_iff.mp h
    obtain ⟨text, -, h⟩ := bind_eq_ok_iff.mp h
    cases h
    simp only [i64_eq, ok_bind, hsection, htype]
    rfl

theorem build_strings_projected {be : Backend} {rows : List StringRow} (with_text : Bool)
    (h : outcome be (build_strings true) = .ok rows) :
    outcome be (build_strings with_text) = .ok (rows.map (StringRow.projected with_text)) := by
  unfold build_strings array_rows at h ⊢
  rw [outcome_lift_bind, outcome_ofExcept] at h ⊢
  exact mapM_ok_map (fun j r => string_row_projected with_text) h

end checked

/-- What a query can see of the projection: the columns that it reads, as the whole table has
them. -/
structure Unseen [Nlohmann] [NlohmannErrors] (be : Backend) (colUsed : UInt64) : Prop where
  columns : ∀ rows, outcome be checked.strings_cache_builder = .ok rows →
    ∃ rows', outcome be (checked.strings_projection_cache_builder colUsed) = .ok rows' ∧
      ∀ i, Uses colUsed i → string_column rows' i = string_column rows i
  whole : Uses colUsed 4 → outcome be (checked.strings_projection_cache_builder colUsed) =
    outcome be checked.strings_cache_builder

theorem a_projection_goes_unseen [Nlohmann] [NlohmannErrors] (be : Backend) (colUsed : UInt64) :
    Unseen be colUsed where
  columns rows h := by
    refine ⟨_, checked.build_strings_projected _ h, fun i hi => ?_⟩
    apply string_column_projected
    rintro rfl
    exact with_text_of_uses hi
  whole h := by
    unfold checked.strings_projection_cache_builder
    rw [with_text_of_uses h]
    rfl

end r2sql
