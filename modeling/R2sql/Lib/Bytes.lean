-- Byte strings. A `std::string` holds any bytes, so it is a list of bytes
-- here, and a text of the source is the list of its ASCII codes.
import Mathlib

/-- A string of bytes, of any value and any length. -/
abbrev Bytes := List UInt8

instance : LawfulBEq Bytes := inferInstance

namespace Bytes

/-- The bytes of an ASCII text. -/
def lit (s : String) : Bytes := s.toList.map Char.toUInt8

/-- What holds of the 256 bytes of the table holds of every byte. -/
theorem forall_byte {p : UInt8 → Prop} (h : ∀ n : Fin 256, p (UInt8.ofNat n)) (c : UInt8) :
    p c := by
  have hc := h ⟨c.toNat, c.toNat_lt⟩
  simpa using hc

end Bytes
