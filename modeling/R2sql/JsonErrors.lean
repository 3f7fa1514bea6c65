-- What the JSON library throws: `dump` on a string that is not UTF-8, and the
-- typed readers on a value of another type.
import R2sql.Json

namespace r2sql

/-- An exception, as far as the handlers tell exceptions apart: a `std::exception` with its
`what()`, or another. -/
inductive Thrown where
  | exception (what : Bytes)
  | unknown
  deriving DecidableEq

/-- The texts of the exceptions of the JSON library: of `dump` on a string that is not UTF-8, and of
a reader on a value of another type than it reads. -/
class NlohmannErrors where
  invalid_utf8 : Json → Bytes
  wrong_type : Json → Bytes

/-- A library whose exceptions have empty texts. -/
@[reducible] def NlohmannErrors.silent : NlohmannErrors where
  invalid_utf8 _ := []
  wrong_type _ := []

def valid_utf8 (s : Bytes) : Bool := (ByteArray.mk s.toArray).validateUTF8

namespace Json

mutual

/-- All strings of the value are UTF-8, and the keys of its objects too. -/
def utf8 : Json → Bool
  | string s => valid_utf8 s
  | array xs => utf8_items xs
  | object fields => utf8_fields fields
  | _ => true

def utf8_items : List Json → Bool
  | [] => true
  | j :: js => j.utf8 && utf8_items js

def utf8_fields : List (Bytes × Json) → Bool
  | [] => true
  | (key, j) :: fields => valid_utf8 key && j.utf8 && utf8_fields fields

end

theorem utf8_items_eq (xs : List Json) : utf8_items xs = xs.all utf8 := by
  induction xs with
  | nil => rw [utf8_items, List.all_nil]
  | cons j xs ih => rw [utf8_items, List.all_cons, ih]

theorem utf8_fields_eq (fields : List (Bytes × Json)) :
    utf8_fields fields = fields.all fun f => valid_utf8 f.1 && f.2.utf8 := by
  induction fields with
  | nil => rw [utf8_fields, List.all_nil]
  | cons f fields ih => rw [utf8_fields, List.all_cons, ih]

/-- `dump`, with its strict treatment of strings that are not UTF-8. -/
def try_dump [Nlohmann] [NlohmannErrors] (j : Json) : Except Thrown Bytes :=
  if j.utf8 then .ok (Nlohmann.dump j) else .error (.exception (NlohmannErrors.invalid_utf8 j))

theorem try_dump_eq_ok_iff [Nlohmann] [NlohmannErrors] {j : Json} {text : Bytes} :
    j.try_dump = .ok text ↔ j.utf8 = true ∧ text = Nlohmann.dump j := by
  unfold try_dump
  split <;> simp [*, eq_comm]

end Json

end r2sql
