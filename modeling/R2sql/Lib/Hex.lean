-- Hexadecimal numerals in lower case, as `printf("%llx")` prints them, and
-- the number that such a numeral stands for.
import R2sql.Lib.Bytes

namespace hex

/-- The digit of a value below 16. -/
def digit (d : Nat) : UInt8 :=
  if d < 10 then UInt8.ofNat ('0'.toNat + d) else UInt8.ofNat ('a'.toNat + (d - 10))

/-- The value of a lower-case digit. -/
def digitValue (c : UInt8) : Nat :=
  if c.toNat < 'a'.toNat then c.toNat - '0'.toNat else c.toNat - 'a'.toNat + 10

/-- A lower-case hexadecimal digit. -/
def IsDigit (c : UInt8) : Prop :=
  ('0'.toUInt8 ≤ c ∧ c ≤ '9'.toUInt8) ∨ ('a'.toUInt8 ≤ c ∧ c ≤ 'f'.toUInt8)

instance (c : UInt8) : Decidable (IsDigit c) := inferInstanceAs (Decidable (_ ∨ _))

/-- The numeral of a number, most significant digit first. -/
def print (n : Nat) : Bytes :=
  if n = 0 then ['0'.toUInt8] else ((Nat.digits 16 n).map digit).reverse

/-- The number of a numeral. -/
def read (s : Bytes) : Nat := Nat.ofDigits 16 (s.reverse.map digitValue)

theorem digitValue_digit : ∀ d < 16, digitValue (digit d) = d := by decide

theorem isDigit_digit : ∀ d < 16, IsDigit (digit d) := by decide

theorem read_print (n : Nat) : read (print n) = n := by
  unfold print
  split
  · rename_i h
    subst h
    decide
  · have hd : ((Nat.digits 16 n).map digit).map digitValue = Nat.digits 16 n := by
      rw [List.map_map]
      conv => rhs; rw [← List.map_id (Nat.digits 16 n)]
      apply List.map_congr_left
      intro d hd
      exact digitValue_digit d (Nat.digits_lt_base (by decide) hd)
    unfold read
    rw [List.reverse_reverse, hd, Nat.ofDigits_digits]

theorem print_injective {m n : Nat} (h : print m = print n) : m = n := by
  rw [← read_print m, h, read_print]

theorem isDigit_of_mem_print {n : Nat} {c : UInt8} (h : c ∈ print n) : IsDigit c := by
  unfold print at h
  split at h
  · simp only [List.mem_singleton] at h
    subst h
    decide
  · simp only [List.mem_reverse, List.mem_map] at h
    obtain ⟨d, hd, rfl⟩ := h
    exact isDigit_digit d (Nat.digits_lt_base (by decide) hd)

theorem print_ne_nil (n : Nat) : print n ≠ [] := by
  unfold print
  split
  · simp
  · rename_i h
    simp only [ne_eq, List.reverse_eq_nil_iff, List.map_eq_nil_iff]
    exact Nat.digits_ne_nil_iff_ne_zero.mpr h

end hex
