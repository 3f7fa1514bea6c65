-- The per-function tables: blocks, instructions and pseudocode. Each has a
-- generator that walks `aflj` for a full scan, and an iterator that asks for
-- one function when SQLite pushes `func_addr = X` down.
import R2sql.Iterators
import R2sql.JsonUtils

namespace r2sql

open json_utils

/-- A command of radare2 at an address: `CMD @ 0xADDR`. -/
def at_addr (command : String) (addr : Int64) : Bytes :=
  Bytes.lit command ++ Bytes.lit " @ " ++ hex_addr addr

/-- Two commands of the same length differ at two addresses, or in their names. -/
theorem at_addr_inj {c d : String} {a b : Int64}
    (hlen : (Bytes.lit c).length = (Bytes.lit d).length)
    (h : at_addr c a = at_addr d b) : Bytes.lit c = Bytes.lit d ∧ a = b := by
  unfold at_addr at h
  rw [List.append_assoc, List.append_assoc] at h
  obtain ⟨hname, htail⟩ := List.append_inj h hlen
  exact ⟨hname, hex_addr_injective (List.append_cancel_left htail)⟩

/-! ## The generator of blocks and instructions -/

/-- The members of `BlocksGen` and `InsnsGen`. -/
structure FuncGen (Row : Type) where
  funcs_ : Json
  fi_ : Nat
  buf_ : List Row
  bi_ : Nat
  cur_ : Row

namespace FuncGen

variable {Row : Type}

/-- The constructor: one `aflj`. -/
def make [Nlohmann] (cur : Row) : R2 (FuncGen Row) := do
  let funcs ← cmd_json (Bytes.lit "aflj")
  return { funcs_ := funcs, fi_ := 0, buf_ := [], bi_ := 0, cur_ := cur }

/-- `next()`. The loop asks for one function after another until one has rows. -/
def next (rows_for_func : Int64 → R2 (List Row)) (g : FuncGen Row) : R2 (Bool × FuncGen Row) :=
  if hb : g.bi_ < g.buf_.length then
    pure (true, { g with cur_ := g.buf_[g.bi_], bi_ := g.bi_ + 1 })
  else if hf : g.fi_ < g.funcs_.items.length then do
    let buf ← rows_for_func (i64_addr g.funcs_.items[g.fi_])
    next rows_for_func { g with fi_ := g.fi_ + 1, buf_ := buf, bi_ := 0 }
  else pure (false, g)
termination_by g.funcs_.items.length - g.fi_

/-- The functions that are left, then the rows of the buffer that are left. -/
def left (g : FuncGen Row) : Nat ×ₗ Nat :=
  toLex (g.funcs_.items.length - g.fi_, g.buf_.length - g.bi_)

/-- The rows that `g` still has to deliver: the rest of the buffer, then each function's rows. -/
def pending (rows : Int64 → List Row) (g : FuncGen Row) : List Row :=
  g.buf_.drop g.bi_ ++ (g.funcs_.items.drop g.fi_).flatMap fun f => rows (i64_addr f)

section
variable (rows : Int64 → List Row) {g : FuncGen Row}

/-- The first row that is left is that of the buffer. -/
theorem pending_row (hb : g.bi_ < g.buf_.length) :
    g.pending rows = g.buf_[g.bi_] ::
      pending rows { g with cur_ := g.buf_[g.bi_], bi_ := g.bi_ + 1 } := by
  simp only [pending]
  rw [List.drop_eq_getElem_cons hb, List.cons_append]

theorem pending_refill (hb : ¬g.bi_ < g.buf_.length) (hf : g.fi_ < g.funcs_.items.length) :
    g.pending rows = pending rows { g with
      fi_ := g.fi_ + 1, buf_ := rows (i64_addr g.funcs_.items[g.fi_]), bi_ := 0 } := by
  simp only [pending]
  rw [List.drop_of_length_le (by omega : g.buf_.length ≤ g.bi_), List.drop_eq_getElem_cons hf]
  rfl

theorem pending_eq_nil (hb : ¬g.bi_ < g.buf_.length) (hf : ¬g.fi_ < g.funcs_.items.length) :
    g.pending rows = [] := by
  rw [pending, List.drop_of_length_le (by omega : g.buf_.length ≤ g.bi_),
    List.drop_of_length_le (by omega : g.funcs_.items.length ≤ g.fi_)]
  rfl

end

section
variable (f : Int64 → R2 (List Row)) (be : Backend)

/-- A call of `next` answers false when nothing is left. Else it answers true, and its row is the
first one that was left. -/
theorem next_value (g : FuncGen Row) :
    (((g.next f).value be).1 = false ∧ (g.pending fun a => (f a).value be) = []) ∨
    ∃ g', (g.next f).value be = (true, g') ∧ g'.left < g.left ∧
      (g.pending fun a => (f a).value be) = g'.cur_ :: g'.pending fun a => (f a).value be := by
  fun_induction next f g with
  | case1 g hb =>
    refine Or.inr ⟨_, rfl, Prod.Lex.toLex_lt_toLex.mpr (Or.inr ⟨rfl, by simp only; omega⟩), ?_⟩
    exact pending_row _ hb
  | case2 g hb hf ih =>
    let buf := (f (i64_addr g.funcs_.items[g.fi_])).value be
    let g' : FuncGen Row := { g with fi_ := g.fi_ + 1, buf_ := buf, bi_ := 0 }
    have hl : g'.left < g.left := Prod.Lex.toLex_lt_toLex.mpr (Or.inl (by simp only [g']; omega))
    rw [Dialogue.value_bind, pending_refill _ hb hf]
    rcases ih buf with ⟨hstop, hnone⟩ | ⟨g'', hgo, hlt, hrow⟩
    · exact Or.inl ⟨hstop, hnone⟩
    · exact Or.inr ⟨g'', hgo, hlt.trans hl, hrow⟩
  | case3 g hb hf => exact Or.inl ⟨rfl, pending_eq_nil _ hb hf⟩

theorem next_left (g g' : FuncGen Row) (h : (g.next f).value be = (true, g')) :
    g'.left < g.left := by
  rcases next_value f be g with ⟨hstop, -⟩ | ⟨g'', hgo, hlt, -⟩
  · rw [h] at hstop
    cases hstop
  · rw [h] at hgo
    cases hgo
    exact hlt

/-- The rows of a full scan: `current()` after each call of `next` that answers true. -/
def drain (g : FuncGen Row) : List Row :=
  match _h : (g.next f).value be with
  | (true, g') => g'.cur_ :: drain g'
  | (false, _) => []
termination_by g.left
decreasing_by exact next_left f be g g' ‹_›

theorem drain_eq (g : FuncGen Row) : g.drain f be = g.pending fun a => (f a).value be := by
  fun_induction drain f be g with
  | case1 g g' h ih =>
    rcases next_value f be g with ⟨hstop, -⟩ | ⟨g'', hgo, -, hrow⟩
    · rw [h] at hstop
      cases hstop
    · rw [h] at hgo
      cases hgo
      rw [ih, hrow]
  | case2 g g' h =>
    rcases next_value f be g with ⟨-, hnone⟩ | ⟨g'', hgo, -, -⟩
    · exact hnone.symm
    · rw [h] at hgo
      cases hgo

theorem drain_make [Nlohmann] (cur : Row) :
    ((make cur).value be).drain f be =
      (json_of_reply (be (Bytes.lit "aflj"))).items.flatMap fun j => (f (i64_addr j)).value be := by
  rw [drain_eq]
  rfl

end

end FuncGen

/-! ## blocks -/

structure BlockRow where
  addr : Int64
  size : Int64
  func_addr : Int64
  deriving DecidableEq

namespace BlockRow

def columns (r : BlockRow) : List SqlValue := [.int r.addr, .int r.size, .int r.func_addr]

/-- `BlocksInFuncIterator::column`. -/
def column (r : BlockRow) : Nat → SqlValue
  | 0 => .int r.addr
  | 1 => .int r.size
  | 2 => .int r.func_addr
  | _ => .null

end BlockRow

def blocks_for_func [Nlohmann] (fa : Int64) : R2 (List BlockRow) := do
  let bbs ← cmd_json (at_addr "afbj" fa)
  return bbs.items.map fun b =>
    { addr := i64 b (Bytes.lit "addr"), size := i64 b (Bytes.lit "size"), func_addr := fa }

def BlocksGen [Nlohmann] : R2 (FuncGen BlockRow) :=
  FuncGen.make { addr := 0, size := 0, func_addr := 0 }

/-- `BlocksGen::rowid`. -/
def BlocksGen.rowid (g : FuncGen BlockRow) : Option Int := some g.cur_.addr.toInt

def BlocksInFuncIterator [Nlohmann] (fa : Int64) : R2 (VecIterator BlockRow) :=
  VecIterator.make <$> blocks_for_func fa

/-- `BlocksInFuncIterator::rowid`, where there is a row. -/
def BlocksInFuncIterator.rowid (it : VecIterator BlockRow) : Option Int :=
  it.current.map fun r => r.addr.toInt

/-! ## instructions -/

structure InsnRow where
  addr : Int64
  size : Int64
  mnemonic : Bytes
  disasm : Bytes
  bytes : Bytes
  func_addr : Int64
  deriving DecidableEq

namespace InsnRow

def columns (r : InsnRow) : List SqlValue :=
  [.int r.addr, .int r.size, .text r.mnemonic, .text r.disasm, .text r.bytes, .int r.func_addr]

/-- `InsnsInFuncIterator::column`. -/
def column (r : InsnRow) : Nat → SqlValue
  | 0 => .int r.addr
  | 1 => .int r.size
  | 2 => .text r.mnemonic
  | 3 => .text r.disasm
  | 4 => .text r.bytes
  | 5 => .int r.func_addr
  | _ => .null

end InsnRow

/-- The first word of the opcode, or of the disassembly, or else the type. -/
def mnemonic_from_op [Nlohmann] (op : Json) : Bytes :=
  let opcode := str op (Bytes.lit "opcode")
  let text := if opcode = [] then str op (Bytes.lit "disasm") else opcode
  if text = [] then str op (Bytes.lit "type")
  else text.takeWhile fun c => c ∉ Bytes.lit " \t\r\n"

def insns_for_func [Nlohmann] (fa : Int64) : R2 (List InsnRow) := do
  let pdf ← cmd_json (at_addr "pdfj" fa)
  match pdf.find (Bytes.lit "ops") with
  | none => return []
  | some ops => return ops.items.map fun op =>
      { addr := i64_addr op
        size := i64 op (Bytes.lit "size")
        mnemonic := mnemonic_from_op op
        disasm := str op (Bytes.lit "disasm")
        bytes := str op (Bytes.lit "bytes")
        func_addr := fa }

def InsnsGen [Nlohmann] : R2 (FuncGen InsnRow) :=
  FuncGen.make { addr := 0, size := 0, mnemonic := [], disasm := [], bytes := [], func_addr := 0 }

/-- `InsnsGen::rowid`. -/
def InsnsGen.rowid (g : FuncGen InsnRow) : Option Int := some g.cur_.addr.toInt

def InsnsInFuncIterator [Nlohmann] (fa : Int64) : R2 (VecIterator InsnRow) :=
  VecIterator.make <$> insns_for_func fa

/-- `InsnsInFuncIterator::rowid`, where there is a row. -/
def InsnsInFuncIterator.rowid (it : VecIterator InsnRow) : Option Int :=
  it.current.map fun r => r.addr.toInt

/-! ## pseudocode -/

structure PseudoRow where
  func_addr : Int64
  text : Bytes
  deriving DecidableEq

namespace PseudoRow

def columns (r : PseudoRow) : List SqlValue := [.int r.func_addr, .text r.text]

/-- `PseudoAtFuncIterator::column`. -/
def column (r : PseudoRow) : Nat → SqlValue
  | 0 => .int r.func_addr
  | 1 => .text r.text
  | _ => .null

end PseudoRow

def pseudo_for_func (dec_cmd : String) (fa : Int64) : R2 PseudoRow := do
  let text ← cmd (at_addr dec_cmd fa)
  return { func_addr := fa, text := text }

/-- The members of `PseudoGen`. -/
structure PseudoGen where
  dec_cmd_ : String
  funcs_ : Json
  fi_ : Nat
  cur_ : PseudoRow

namespace PseudoGen

def make [Nlohmann] (dec_cmd : String) : R2 PseudoGen := do
  let funcs ← cmd_json (Bytes.lit "aflj")
  return { dec_cmd_ := dec_cmd, funcs_ := funcs, fi_ := 0, cur_ := { func_addr := 0, text := [] } }

def next (g : PseudoGen) : R2 (Bool × PseudoGen) :=
  if hf : g.fi_ < g.funcs_.items.length then do
    let row ← pseudo_for_func g.dec_cmd_ (i64_addr g.funcs_.items[g.fi_])
    return (true, { g with fi_ := g.fi_ + 1, cur_ := row })
  else return (false, g)

section
variable (be : Backend)

theorem next_left (g g' : PseudoGen) (h : g.next.value be = (true, g')) :
    g'.funcs_.items.length - g'.fi_ < g.funcs_.items.length - g.fi_ := by
  unfold next at h
  split at h
  · cases h
    simp only
    omega
  · cases h

/-- The rows of a full scan: `current()` after each call of `next` that answers true. -/
def drain (g : PseudoGen) : List PseudoRow :=
  match _h : g.next.value be with
  | (true, g') => g'.cur_ :: drain g'
  | (false, _) => []
termination_by g.funcs_.items.length - g.fi_
decreasing_by exact next_left be g g' ‹_›

theorem drain_eq (g : PseudoGen) :
    g.drain be = (g.funcs_.items.drop g.fi_).map fun f =>
      (pseudo_for_func g.dec_cmd_ (i64_addr f)).value be := by
  fun_induction drain be g with
  | case1 g g' h ih =>
    unfold next at h
    split at h
    · rename_i hf
      cases h
      rw [ih, List.drop_eq_getElem_cons hf]
      rfl
    · cases h
  | case2 g g' h =>
    unfold next at h
    split at h
    · cases h
    · rw [List.drop_of_length_le (by omega)]
      rfl

end

end PseudoGen

/-- The members of `PseudoAtFuncIterator`. -/
structure PseudoAtFuncIterator where
  row_ : PseudoRow
  started_ : Bool
  done_ : Bool

namespace PseudoAtFuncIterator

def make (dec_cmd : String) (fa : Int64) : R2 PseudoAtFuncIterator := do
  let row ← pseudo_for_func dec_cmd fa
  return { row_ := row, started_ := false, done_ := false }

def next (it : PseudoAtFuncIterator) : Bool × PseudoAtFuncIterator :=
  if it.started_ then (false, { it with done_ := true }) else (true, { it with started_ := true })

/-- The row of every call of `next` that answers true, with `n` calls at most. -/
def scan : Nat → PseudoAtFuncIterator → List PseudoRow
  | 0, _ => []
  | n + 1, it =>
    let (more, it') := it.next
    if more then it'.row_ :: scan n it' else []

theorem scan_make (dec_cmd : String) (fa : Int64) (be : Backend) (n : Nat) :
    scan (n + 1) ((make dec_cmd fa).value be) = [(pseudo_for_func dec_cmd fa).value be] := by
  cases n <;> rfl

end PseudoAtFuncIterator

end r2sql
