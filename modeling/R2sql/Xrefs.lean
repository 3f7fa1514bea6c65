-- The xrefs table: a full scan that asks for the references of each
-- function, and the two pushdowns that ask at one address.
import R2sql.FunctionTables

namespace r2sql

open json_utils

structure XrefRow where
  from_addr : Int64
  to_addr : Int64
  type : Bytes
  from_func : Bytes
  deriving DecidableEq

namespace XrefRow

def columns (r : XrefRow) : List SqlValue :=
  [.int r.from_addr, .int r.to_addr, .text r.type, .text r.from_func]

/-- `XrefRowsIterator::column`. -/
def column (r : XrefRow) : Nat → SqlValue
  | 0 => .int r.from_addr
  | 1 => .int r.to_addr
  | 2 => .text r.type
  | 3 => .text r.from_func
  | _ => .null

end XrefRow

section
variable [Nlohmann]

/-- The name in the first object of an `afij` answer, or in the answer itself. -/
def name_in_info (info : Json) : Bytes :=
  match info with
  | .array (.object fields :: _) => str (.object fields) (Bytes.lit "name")
  | .object fields => str (.object fields) (Bytes.lit "name")
  | _ => []

def function_name_at (addr : Int64) : R2 Bytes := do
  let info ← cmd_json (at_addr "afij" addr)
  return name_in_info info

def xrefs_to_addr (to_addr : Int64) : R2 (List XrefRow) := do
  let refs ← cmd_json (at_addr "axtj" to_addr)
  return refs.items.map fun j =>
    { from_addr := i64 j (Bytes.lit "from")
      to_addr := to_addr
      type := str j (Bytes.lit "type")
      from_func := str j (Bytes.lit "fcn_name") }

/-- The loop of `xrefs_from_addr`. The name of the function at `from_addr` is asked for at the first
reference with no name, and kept for the next ones unless it is empty. -/
def from_rows (from_addr : Int64) : Bytes → List Json → R2 (List XrefRow)
  | _, [] => return []
  | from_func, j :: js => do
    let r : XrefRow :=
      { from_addr := i64 j (Bytes.lit "from") from_addr
        to_addr := i64 j (Bytes.lit "to")
        type := str j (Bytes.lit "type")
        from_func := str j (Bytes.lit "fcn_name") }
    if r.from_func = [] then
      let name ← if from_func = [] then function_name_at from_addr else pure from_func
      let rows ← from_rows from_addr name js
      return { r with from_func := name } :: rows
    else
      let rows ← from_rows from_addr from_func js
      return r :: rows

def xrefs_from_addr (from_addr : Int64) : R2 (List XrefRow) := do
  let refs ← cmd_json (at_addr "axfj" from_addr)
  from_rows from_addr [] refs.items

/-- The cache builder of the full scan. -/
def xrefs_cache_builder : R2 (List XrefRow) := do
  let funcs ← cmd_json (Bytes.lit "aflj")
  let rows ← funcs.items.mapM fun f => do
    let fname := str f (Bytes.lit "name")
    let refs ← cmd_json (at_addr "afxj" (i64_addr f))
    return refs.items.map fun j =>
      ({ from_addr := i64 j (Bytes.lit "from")
         to_addr := i64 j (Bytes.lit "to")
         type := str j (Bytes.lit "type")
         from_func := fname } : XrefRow)
  return rows.flatten

/-! ## The rows of the pushdown from an address -/

/-- One row of `xrefs_from_addr`, where `name` is the answer of `function_name_at`. -/
def from_row (from_addr : Int64) (name : Bytes) (j : Json) : XrefRow :=
  { from_addr := i64 j (Bytes.lit "from") from_addr
    to_addr := i64 j (Bytes.lit "to")
    type := str j (Bytes.lit "type")
    from_func :=
      let fcn := str j (Bytes.lit "fcn_name")
      if fcn = [] then name else fcn }

/-- The kept name is empty or the one that `function_name_at` answers, so each row stands alone. -/
theorem from_rows_value (be : Backend) (from_addr : Int64) (kept : Bytes) (js : List Json)
    (hk : kept = [] ∨ kept = (function_name_at from_addr).value be) :
    (from_rows from_addr kept js).value be =
      js.map (from_row from_addr ((function_name_at from_addr).value be)) := by
  induction js generalizing kept with
  | nil => rfl
  | cons j js ih =>
    rw [from_rows, List.map_cons]
    by_cases hf : str j (Bytes.lit "fcn_name") = []
    · by_cases h0 : kept = []
      · simp [hf, h0, ih _ (Or.inr rfl), from_row]
      · have hname := hk.resolve_left h0
        simp [hf, h0, ih kept hk, from_row, ← hname]
    · simp only [hf, if_false, Dialogue.value_bind, Dialogue.value_pure, ih kept hk]
      simp [from_row, hf]

theorem xrefs_from_addr_value (be : Backend) (from_addr : Int64) :
    (xrefs_from_addr from_addr).value be =
      (json_of_reply (be (at_addr "axfj" from_addr))).items.map
        (from_row from_addr ((function_name_at from_addr).value be)) := by
  unfold xrefs_from_addr
  rw [Dialogue.value_bind, from_rows_value _ _ _ _ (Or.inl rfl)]
  rfl

end

/-! ## The iterators -/

/-- `XrefRowsIterator::rowid`: the source of the reference, or its target where the source is 0. -/
def XrefRowsIterator.rowid (it : VecIterator XrefRow) : Option Int :=
  match it.current with
  | none => some 0
  | some r => some (if r.from_addr ≠ 0 then r.from_addr else r.to_addr).toInt

/-- The `to_addr = addr` iterator. -/
def XrefsToIterator [Nlohmann] (addr : Int64) : R2 (VecIterator XrefRow) :=
  VecIterator.make <$> xrefs_to_addr addr

/-- The `from_addr = addr` iterator. -/
def XrefsFromIterator [Nlohmann] (addr : Int64) : R2 (VecIterator XrefRow) :=
  VecIterator.make <$> xrefs_from_addr addr

end r2sql
