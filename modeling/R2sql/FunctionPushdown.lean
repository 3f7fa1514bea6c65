-- The laws of the pushdown on blocks, instructions and pseudocode: what
-- `WHERE func_addr = X` gives by the full scan and by the iterator.
import R2sql.FunctionTables
import R2sql.Lib.Walks

namespace r2sql

open json_utils walks

/-! ## The two ways to read a per-function table -/

/-- The tables with a `func_addr` filter. -/
inductive FuncTable where
  | blocks
  | instructions
  | pseudocode (dec_cmd : String)

namespace FuncTable

/-- The position of the `func_addr` column. -/
def func_addr_col : FuncTable → Nat
  | blocks => 2
  | instructions => 5
  | pseudocode _ => 0

/-- The rows of the unfiltered generator, as the declared columns show them. -/
def full_rows [Nlohmann] (be : Backend) : FuncTable → List (List SqlValue)
  | blocks => ((BlocksGen.value be).drain blocks_for_func be).map BlockRow.columns
  | instructions => ((InsnsGen.value be).drain insns_for_func be).map InsnRow.columns
  | pseudocode dec_cmd => (((PseudoGen.make dec_cmd).value be).drain be).map PseudoRow.columns

/-- The rows of the `func_addr = fa` iterator, as its `column` shows them. -/
def pushdown_rows [Nlohmann] (be : Backend) (fa : Int64) : FuncTable → List (List SqlValue)
  | blocks => ((BlocksInFuncIterator fa).value be).delivered.map fun p =>
      (List.range 3).map p.2.column
  | instructions => ((InsnsInFuncIterator fa).value be).delivered.map fun p =>
      (List.range 6).map p.2.column
  | pseudocode dec_cmd => (((PseudoAtFuncIterator.make dec_cmd fa).value be).scan 2).map fun r =>
      (List.range 2).map r.column

/-- The `func_addr` column of a row. -/
def func_addr_of (t : FuncTable) (row : List SqlValue) : SqlValue :=
  row[t.func_addr_col]?.getD .null

/-- The rows whose `func_addr` column equals `fa`. -/
def where_func_addr (t : FuncTable) (fa : Int64) (rows : List (List SqlValue)) :
    List (List SqlValue) :=
  rows.filter fun row => t.func_addr_of row = .int fa

end FuncTable

/-- How often `aflj` lists a function at `fa`. -/
def listings [Nlohmann] (be : Backend) (fa : Int64) : Nat :=
  (json_of_reply (be (Bytes.lit "aflj"))).items.countP fun f => i64_addr f = fa

theorem delivered_map {Row β : Type} (rows : List Row) (g : Row → β) :
    ((VecIterator.make rows).delivered.map fun p => g p.2) = rows.map g := by
  conv => rhs; rw [← VecIterator.delivered_rows rows]
  rw [List.map_map]
  rfl

section
variable [Nlohmann] (be : Backend)

theorem full_rows_eq (t : FuncTable) :
    t.full_rows be = (json_of_reply (be (Bytes.lit "aflj"))).items.flatMap fun f =>
      t.pushdown_rows be (i64_addr f) := by
  cases t with
  | blocks =>
    simp only [FuncTable.full_rows, BlocksGen, FuncGen.drain_make, List.map_flatMap,
      FuncTable.pushdown_rows, BlocksInFuncIterator, Dialogue.value_map]
    congr 1
    funext f
    exact (delivered_map _ fun r : BlockRow => (List.range 3).map r.column).symm
  | instructions =>
    simp only [FuncTable.full_rows, InsnsGen, FuncGen.drain_make, List.map_flatMap,
      FuncTable.pushdown_rows, InsnsInFuncIterator, Dialogue.value_map]
    congr 1
    funext f
    exact (delivered_map _ fun r : InsnRow => (List.range 6).map r.column).symm
  | pseudocode dec_cmd =>
    simp only [FuncTable.full_rows, PseudoGen.drain_eq, FuncTable.pushdown_rows,
      PseudoAtFuncIterator.scan_make, List.map_cons, List.map_nil, List.map_map]
    rw [List.map_eq_flatMap]
    rfl

theorem func_addr_of_pushdown (t : FuncTable) (fa : Int64) :
    ∀ row ∈ t.pushdown_rows be fa, t.func_addr_of row = .int fa := by
  intro row hrow
  cases t with
  | blocks =>
    simp only [FuncTable.pushdown_rows, BlocksInFuncIterator, Dialogue.value_map] at hrow
    rw [delivered_map _ fun r : BlockRow => (List.range 3).map r.column] at hrow
    simp only [blocks_for_func, Dialogue.value_bind, Dialogue.value_pure, List.map_map,
      List.mem_map] at hrow
    obtain ⟨b, -, rfl⟩ := hrow
    rfl
  | instructions =>
    simp only [FuncTable.pushdown_rows, InsnsInFuncIterator, Dialogue.value_map] at hrow
    rw [delivered_map _ fun r : InsnRow => (List.range 6).map r.column] at hrow
    simp only [insns_for_func, Dialogue.value_bind] at hrow
    split at hrow
    · simp at hrow
    · simp only [Dialogue.value_pure, List.map_map, List.mem_map] at hrow
      obtain ⟨op, -, rfl⟩ := hrow
      rfl
  | pseudocode dec_cmd =>
    simp only [FuncTable.pushdown_rows, PseudoAtFuncIterator.scan_make, List.map_cons, List.map_nil,
      List.mem_singleton] at hrow
    subst hrow
    rfl

/-! ## The laws -/

/-- The rows of a full scan with `func_addr = fa` are the rows of the pushdown, once for each time
that `aflj` lists a function at `fa`. So the two ways agree when `aflj` lists `fa` once, or when the
pushdown has no row, and never else. -/
theorem a_full_scan_repeats_the_pushdown (t : FuncTable) (fa : Int64) :
    t.where_func_addr fa (t.full_rows be) =
        (List.replicate (listings be fa) (t.pushdown_rows be fa)).flatten ∧
      ((t.where_func_addr fa (t.full_rows be)).Perm (t.pushdown_rows be fa) ↔
        listings be fa = 1 ∨ t.pushdown_rows be fa = []) := by
  have hwalk : t.where_func_addr fa (t.full_rows be) =
      (List.replicate (listings be fa) (t.pushdown_rows be fa)).flatten := by
    rw [full_rows_eq]
    apply filter_walk (fun a => t.pushdown_rows be a)
    intro a row hrow
    rw [func_addr_of_pushdown be t a row hrow]
    simp
  refine ⟨hwalk, ?_⟩
  rw [hwalk]
  exact copies_perm_iff _ _

end

/-- One block at 0x10, and no function at all. -/
@[reducible] def loneBlockJson : Nlohmann := .ofTexts
  [("[]", .array []),
    ("[\x7b\"addr\":16,\"size\":4\x7d]", .array [.object
      [(Bytes.lit "addr", .number_unsigned 16), (Bytes.lit "size", .number_unsigned 4)]])]

def loneBlockBackend : Backend := mock_backend
  [("aflj", "[]"), ("afbj @ 0x10", "[\x7b\"addr\":16,\"size\":4\x7d]")]

/-- The pushdown at an address that `aflj` does not list can have rows, and the full scan has
none. -/
theorem the_pushdown_finds_a_block_of_no_function :
    letI := loneBlockJson
    ¬ (FuncTable.blocks.where_func_addr 16 (FuncTable.blocks.full_rows loneBlockBackend)).Perm
      (FuncTable.blocks.pushdown_rows loneBlockBackend 16) := by
  intro h
  rw [@full_rows_eq loneBlockJson] at h
  exact absurd h.length_eq (by decide)

end r2sql
