-- The calls of the JSON library that can throw, and the accessors of
-- json_utils.cpp written with them.
import R2sql.JsonErrors
import R2sql.JsonUtils
import R2sql.Backend
import R2sql.Lib.Raising

namespace r2sql

/-- Code that sends commands to a backend and can throw. -/
abbrev Raises := Raising Bytes Bytes Thrown

namespace Json

/-! ## Shapes -/

def is_null : Json → Bool
  | null => true
  | _ => false

def is_string : Json → Bool
  | string _ => true
  | _ => false

def is_boolean : Json → Bool
  | boolean _ => true
  | _ => false

/-- True of the unsigned integers too. -/
def is_number_integer : Json → Bool
  | number_integer _ | number_unsigned _ => true
  | _ => false

def is_number_unsigned : Json → Bool
  | number_unsigned _ => true
  | _ => false

def is_number_float : Json → Bool
  | number_float _ => true
  | _ => false

def is_number (j : Json) : Bool := j.is_number_integer || j.is_number_float

def contains (key : Bytes) (j : Json) : Bool := (j.find key).isSome

/-! ## Readers that throw -/

section
variable [NlohmannErrors]

def mistyped {α : Type} (j : Json) : Except Thrown α :=
  .error (.exception (NlohmannErrors.wrong_type j))

/-- `get<std::string>()`. -/
def get_string : Json → Except Thrown Bytes
  | string s => .ok s
  | j => mistyped j

/-- `get<bool>()`. -/
def get_bool : Json → Except Thrown Bool
  | boolean b => .ok b
  | j => mistyped j

/-- `get<int64_t>()`. -/
def get_int64 : Json → Except Thrown Int64
  | number_integer i => .ok i
  | number_unsigned u => .ok u.toInt64
  | number_float x => .ok (json_utils.trunc_int64 x)
  | j => mistyped j

/-- `get<uint64_t>()`. For a float below zero or from 2^64 on, where C++ leaves the value open, it
is the value modulo 2^64. -/
def get_uint64 : Json → Except Thrown UInt64
  | number_integer i => .ok i.toUInt64
  | number_unsigned u => .ok u
  | number_float x => .ok (UInt64.ofInt (x.num.tdiv x.den))
  | j => mistyped j

/-- `get<double>()` of a float. -/
def get_float : Json → Except Thrown Rat
  | number_float x => .ok x
  | j => mistyped j

/-- `value(key, dflt)` with a text as its default: a member of another type throws, null too. -/
def value_string (j : Json) (key dflt : Bytes) : Except Thrown Bytes :=
  match j with
  | object fields =>
    match fields.lookup key with
    | some v => v.get_string
    | none => .ok dflt
  | j => mistyped j

/-- `j[key]` of a member that is there. On a value that is no object it throws. -/
def at_key (j : Json) (key : Bytes) : Except Thrown Json :=
  match j with
  | object fields => .ok ((fields.lookup key).getD null)
  | j => mistyped j

end

/-! ## UTF-8 in the parts of a value -/

theorem utf8_of_lookup {fields : List (Bytes × Json)} {key : Bytes} {v : Json}
    (h : (object fields).utf8 = true) (hv : fields.lookup key = some v) : v.utf8 = true := by
  rw [utf8, utf8_fields_eq, List.all_eq_true] at h
  induction fields with
  | nil => cases hv
  | cons f fields ih =>
    rw [List.lookup_cons] at hv
    split at hv
    · cases hv
      have hf := h f (by simp)
      rw [Bool.and_eq_true] at hf
      exact hf.2
    · exact ih (fun g hg => h g (by simp [hg])) hv

theorem utf8_of_find {j v : Json} {key : Bytes} (h : j.utf8 = true) (hv : j.find key = some v) :
    v.utf8 = true := by
  cases j with
  | object fields => exact utf8_of_lookup h hv
  | _ => cases hv

theorem utf8_of_mem_array {xs : List Json} {j : Json} (h : (array xs).utf8 = true) (hj : j ∈ xs) :
    j.utf8 = true := by
  rw [utf8, utf8_items_eq, List.all_eq_true] at h
  exact h j hj

theorem utf8_of_mem_items {arr j : Json} (h : arr.utf8 = true) (hj : j ∈ arr.items) :
    j.utf8 = true := by
  cases arr with
  | array xs => exact utf8_of_mem_array h hj
  | _ => cases hj

theorem utf8_of_mem_elements {arr j : Json} (h : arr.utf8 = true) (hj : j ∈ arr.elements) :
    j.utf8 = true := by
  cases arr with
  | array xs => exact utf8_of_mem_array h hj
  | object fields =>
    obtain ⟨f, hf, rfl⟩ := List.mem_map.mp hj
    rw [utf8, utf8_fields_eq, List.all_eq_true] at h
    have hpair := h f hf
    rw [Bool.and_eq_true] at hpair
    exact hpair.2
  | null => cases hj
  | _ =>
    rw [List.mem_singleton.mp hj]
    exact h

theorem try_dump_of_utf8 [Nlohmann] [NlohmannErrors] {j : Json} (h : j.utf8 = true) :
    j.try_dump = .ok (Nlohmann.dump j) := try_dump_eq_ok_iff.mpr ⟨h, rfl⟩

end Json

/-! ## The accessors -/

namespace checked

variable [NlohmannErrors]

def str [Nlohmann] (obj : Json) (key : Bytes) (dflt : Bytes := []) : Except Thrown Bytes :=
  match obj.find key with
  | none => .ok dflt
  | some v =>
    if v.is_null then .ok dflt
    else if v.is_string then v.get_string
    else v.try_dump

def i64 (obj : Json) (key : Bytes) (dflt : Int64 := 0) : Except Thrown Int64 :=
  match obj.find key with
  | none => .ok dflt
  | some v =>
    if v.is_null then .ok dflt
    else if v.is_number_integer then v.get_int64
    else if v.is_number_unsigned then UInt64.toInt64 <$> v.get_uint64
    else if v.is_number_float then json_utils.trunc_int64 <$> v.get_float
    else if v.is_string then
      -- what `get` and `stoll` throw is caught
      match v.get_string with
      | .ok s => .ok ((json_utils.stoll s).getD dflt)
      | .error _ => .ok dflt
    else .ok dflt

def i64_addr (obj : Json) (dflt : Int64 := 0) : Except Thrown Int64 :=
  match obj.find (Bytes.lit "addr") with
  | none => i64 obj (Bytes.lit "offset") dflt
  | some v =>
    if v.is_null then i64 obj (Bytes.lit "offset") dflt else i64 obj (Bytes.lit "addr") dflt

theorem str_eq [Nlohmann] {obj : Json} (h : obj.utf8 = true) (key dflt : Bytes) :
    str obj key dflt = .ok (json_utils.str obj key dflt) := by
  unfold str json_utils.str
  cases hv : obj.find key with
  | none => rfl
  | some v =>
    have hdump := Json.try_dump_of_utf8 (Json.utf8_of_find h hv)
    cases v <;> first | rfl | exact hdump

@[simp] theorem i64_eq (obj : Json) (key : Bytes) (dflt : Int64) :
    i64 obj key dflt = .ok (json_utils.i64 obj key dflt) := by
  unfold i64 json_utils.i64
  cases obj.find key with
  | none => rfl
  | some v => cases v <;> rfl

@[simp] theorem i64_addr_eq (obj : Json) (dflt : Int64) :
    i64_addr obj dflt = .ok (json_utils.i64_addr obj dflt) := by
  unfold i64_addr json_utils.i64_addr
  cases obj.find (Bytes.lit "addr") with
  | none => exact i64_eq obj _ dflt
  | some v => cases v <;> exact i64_eq obj _ dflt

end checked

end r2sql
