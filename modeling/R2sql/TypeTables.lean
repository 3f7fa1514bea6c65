-- The types and types_members tables: the parser of the `tk*` dump, and the
-- builders that ask for each struct, union and enum by its name.
import R2sql.Backend
import R2sql.JsonUtils
import R2sql.Lib.Emplace

namespace r2sql

open json_utils

/-- The C++ library, where it leaves something open: the order in which a loop sees an unordered
map, and the order of the rows that `std::sort` takes for equal. -/
class CppLibrary where
  iterate {α : Type} : List α → List α
  iterate_perm {α : Type} : ∀ l : List α, (iterate l).Perm l
  sort {α : Type} (lt : α → α → Bool) : List α → List α
  sort_perm {α : Type} (lt : α → α → Bool) : ∀ l : List α, (sort lt l).Perm l
  sort_sorted {α : Type} (lt : α → α → Bool) (asymm : ∀ a b, lt a b → lt b a = false)
    (trans : ∀ a b c, lt a b = false → lt b c = false → lt a c = false) :
    ∀ l : List α, (sort lt l).Pairwise fun a b => lt b a = false

/-- A library that keeps the order of insertion and sorts without moving equal rows. -/
@[reducible] def CppLibrary.stable : CppLibrary where
  iterate l := l
  iterate_perm l := List.Perm.refl l
  sort lt l := l.mergeSort fun a b => !lt b a
  sort_perm _ l := List.mergeSort_perm l _
  sort_sorted lt asymm trans l := by
    let le := fun a b => !lt b a
    have htrans : ∀ a b c, le a b → le b c → le a c := by
      intro a b c hab hbc
      simp only [le, Bool.not_eq_true'] at *
      exact trans c b a hbc hab
    have htotal : ∀ a b, le a b || le b a := by
      intro a b
      cases h : lt b a with
      | false => simp [le, h]
      | true => simp [le, asymm b a h]
    simpa [le] using List.pairwise_mergeSort htrans htotal l

/-! ## `parse_tk_dump` -/

/-- The records of a dump: a newline or a space ends each of them. -/
def tk_records : Bytes → List Bytes
  | [] => []
  | c :: rest =>
    if c == '\n'.toUInt8 || c == ' '.toUInt8 then [] :: tk_records rest
    else
      match tk_records rest with
      | [] => [[c]]
      | record :: records => (c :: record) :: records

/-- The record without the markers of sdb in front and without carriage returns at the end. -/
def tk_strip (record : Bytes) : Bytes :=
  (record.dropWhile fun c => c == '*'.toUInt8 || c == '\r'.toUInt8).rdropWhile (· == '\r'.toUInt8)

def tk_kinds : List Bytes :=
  ["atomic", "struct", "union", "enum", "typedef", "func", "type"].map Bytes.lit

/-- The name and the kind in a record, where it is the record of a type. -/
def tk_entry (record : Bytes) : Option (Bytes × Bytes) :=
  let rec' := tk_strip record
  if rec' = [] ∨ rec'.head? = some '#'.toUInt8 then none
  else if '='.toUInt8 ∉ rec' then none
  else
    let name := rec'.takeWhile (· ≠ '='.toUInt8)
    let kind := rec'.drop (name.length + 1)
    -- a member row looks like NAME.field=...
    if '.'.toUInt8 ∈ name then none
    else if kind ∉ tk_kinds then none
    else some (name, kind)

/-- `json_utils::parse_tk_dump`: the map has the first record of each type. -/
def parse_tk_dump (tk : Bytes) : first_wins.Map Bytes Bytes :=
  first_wins.ofEntries ((tk_records tk).filterMap tk_entry)

/-! ## types -/

structure TypeRow where
  name : Bytes
  kind : Bytes
  size : Int64
  format : Bytes

/-- The size and the format of each atomic type in a `tj` answer. A later record of a type replaces
an earlier one. -/
def atomic_info [Nlohmann] (tj : Json) : List (Bytes × Int64 × Bytes) :=
  let arr := ((tj.find (Bytes.lit "types")).getD (.array [])).elements
  (arr.map fun j =>
    (str j (Bytes.lit "type"), i64 j (Bytes.lit "size") (-1), str j (Bytes.lit "format"))).reverse

/-- `tsj NAME` or `tuj NAME`. -/
def record_command (name kind : Bytes) : Bytes :=
  (if kind = Bytes.lit "struct" then Bytes.lit "tsj " else Bytes.lit "tuj ") ++ name

/-- The bytes of a field: its size, times the elements of its array. -/
def field_size (f : Json) : Int64 :=
  let ar := i64 f (Bytes.lit "array_size") 1
  i64 f (Bytes.lit "size") * (if ar ≤ 0 then 1 else ar)

/-- The fields of a `tsj` or `tuj` answer. -/
def fields_of (j : Json) : List Json := ((j.find (Bytes.lit "fields")).getD .null).items

/-- The size of a struct is the sum of its fields, and the size of a union is its largest field. -/
def record_size (kind : Bytes) (fields : List Json) : Int64 :=
  if kind = Bytes.lit "struct" then fields.foldl (fun total f => total + field_size f) 0
  else fields.foldl (fun largest f => if field_size f > largest then field_size f else largest) 0

/-- The row of one type. -/
def type_row [Nlohmann] (info : List (Bytes × Int64 × Bytes)) (name kind : Bytes) : R2 TypeRow :=
  let r : TypeRow := { name := name, kind := kind, size := -1, format := [] }
  if kind = Bytes.lit "atomic" ∨ kind = Bytes.lit "type" then
    match info.lookup name with
    | some (size, format) => return { r with size := size, format := format }
    | none => return r
  else if kind = Bytes.lit "struct" ∨ kind = Bytes.lit "union" then do
    let j ← cmd_json (record_command name kind)
    if j.is_object then
      return { r with size := record_size kind (fields_of j), format := str j (Bytes.lit "format") }
    else return r
  else return r

def types_cache_builder [Nlohmann] [CppLibrary] : R2 (List TypeRow) := do
  let tk ← cmd (Bytes.lit "tk*")
  let kinds := (parse_tk_dump tk).entries
  if kinds = [] then return []
  else
    let tj ← cmd_json (Bytes.lit "tj")
    let rows ← (CppLibrary.iterate kinds).mapM fun p => type_row (atomic_info tj) p.1 p.2
    return CppLibrary.sort (fun a b => a.name < b.name) rows

/-! ## types_members -/

structure MemberRow where
  type_name : Bytes
  parent_kind : Bytes
  member_name : Bytes
  member_type : Bytes
  offset : Int64
  size : Int64
  array_size : Int64
  value : Int64

/-- The value of an enum constant: 0 for all that is not an integer. -/
def enum_value : Json → Int64
  | .number_integer i => i
  | .number_unsigned u => u.toInt64
  | _ => 0

/-- The constants of a `tej` answer. -/
def enum_rows (name : Bytes) (j : Json) : List MemberRow :=
  match j.find (Bytes.lit "values") with
  | some (.object values) => values.map fun p =>
    { type_name := name, parent_kind := Bytes.lit "enum", member_name := p.1, member_type := []
      offset := 0, size := 0, array_size := 0, value := enum_value p.2 }
  | _ => []

/-- The fields of a `tsj` or `tuj` answer. -/
def field_rows [Nlohmann] (name kind : Bytes) (j : Json) : List MemberRow :=
  (fields_of j).map fun f =>
    let array_size := i64 f (Bytes.lit "array_size") 1
    { type_name := name
      parent_kind := kind
      member_name := str f (Bytes.lit "name")
      member_type := str f (Bytes.lit "type")
      offset := i64 f (Bytes.lit "offset")
      size := i64 f (Bytes.lit "size")
      array_size := if array_size ≤ 0 then 1 else array_size
      value := 0 }

/-- The kinds of types with members. -/
def member_kinds : List Bytes := ["struct", "union", "enum"].map Bytes.lit

/-- The rows of one type. -/
def member_rows [Nlohmann] (name kind : Bytes) : R2 (List MemberRow) :=
  if kind ∉ member_kinds then return []
  else if kind = Bytes.lit "enum" then do
    let j ← cmd_json (Bytes.lit "tej " ++ name)
    return enum_rows name j
  else do
    let j ← cmd_json (record_command name kind)
    return field_rows name kind j

def types_members_cache_builder [Nlohmann] [CppLibrary] : R2 (List MemberRow) := do
  let tk ← cmd (Bytes.lit "tk*")
  let kinds := (parse_tk_dump tk).entries
  if kinds = [] then return []
  else
    let rows ← (CppLibrary.iterate kinds).mapM fun p => member_rows p.1 p.2
    return CppLibrary.sort (fun a b =>
      if a.type_name ≠ b.type_name then a.type_name < b.type_name
      else a.offset < b.offset) rows.flatten

end r2sql
