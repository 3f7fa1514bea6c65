-- The JSON values that radare2 answers with, and the two functions of the
-- JSON library that the code leans on: `parse` and `dump`.
import R2sql.Lib.Bytes

namespace r2sql

/-- A `nlohmann::json` value. A number that the library parses is finite, so a float is a
rational number here. The members of an object are in the order of its keys. -/
inductive Json where
  | null
  | boolean (b : Bool)
  | number_integer (i : Int64)
  | number_unsigned (u : UInt64)
  | number_float (x : Rat)
  | string (s : Bytes)
  | array (xs : List Json)
  | object (fields : List (Bytes × Json))

/-- The JSON library, which is not part of the repository: `parse` gives a value or throws
(`none`), and `dump` prints a value. -/
class Nlohmann where
  parse : Bytes → Option Json
  dump : Json → Bytes

/-- A library that parses the given texts and prints no value: enough to run the code on a few
replies. -/
@[reducible] def Nlohmann.ofTexts (texts : List (String × Json)) : Nlohmann where
  parse s := (texts.map fun p => (Bytes.lit p.1, p.2)).lookup s
  dump _ := []

namespace Json

def is_array : Json → Bool
  | array _ => true
  | _ => false

def is_object : Json → Bool
  | object _ => true
  | _ => false

/-- `obj.find(key)` on an object. There is no member to find on any other value. -/
def find (key : Bytes) : Json → Option Json
  | object fields => fields.lookup key
  | _ => none

/-- What a loop `for (auto& j : arr)` sees of a value: the elements of an array, the member
values of an object, nothing of null, and any other value as its own only element. -/
def elements : Json → List Json
  | array xs => xs
  | object fields => fields.map Prod.snd
  | null => []
  | j => [j]

/-- The elements of an array, and none of any other value: `if (!arr.is_array()) return;`. -/
def items : Json → List Json
  | array xs => xs
  | _ => []

end Json

end r2sql
