-- The generators of blocks and instructions call by call: what `next` answers,
-- which row is there after it, and which commands it sends, however often
-- SQLite goes on calling.
import R2sql.FunctionTables

namespace r2sql

open json_utils

namespace FuncGen

variable {Row : Type}

/-- `n` calls of `next`: `current()` after each one that answers true, and nothing after each one
that answers false. -/
def calls (rows_for_func : Int64 → R2 (List Row)) : Nat → FuncGen Row → R2 (List (Option Row))
  | 0, _ => return []
  | n + 1, g => do
    let (more, g') ← next rows_for_func g
    let rest ← calls rows_for_func n g'
    return (if more then some g'.cur_ else none) :: rest

section
variable (f : Int64 → R2 (List Row)) (be : Backend)

/-- The commands that `g` still has to send: those of each function that is left. -/
def unsent (g : FuncGen Row) : List Bytes :=
  (g.funcs_.items.drop g.fi_).flatMap fun j => (f (i64_addr j)).asked be

/-- What one call of `next` does, besides the commands that it sends. -/
inductive Step (g : FuncGen Row) : Bool × FuncGen Row → Prop
  | row (g' : FuncGen Row)
      (hrow : (g.pending fun a => (f a).value be) = g'.cur_ :: g'.pending fun a => (f a).value be) :
      Step g (true, g')
  | finished (g' : FuncGen Row) (hnone : (g.pending fun a => (f a).value be) = [])
      (hstill : (g'.pending fun a => (f a).value be) = []) (hsent : g'.unsent f be = []) :
      Step g (false, g')

variable {f be} in
theorem Step.of_pending_eq {g h : FuncGen Row} {r : Bool × FuncGen Row}
    (heq : (g.pending fun a => (f a).value be) = h.pending fun a => (f a).value be)
    (hstep : Step f be h r) : Step f be g r := by
  cases hstep with
  | row g' hrow => exact .row g' (heq.trans hrow)
  | finished g' hnone hstill hsent => exact .finished g' (heq.trans hnone) hstill hsent

/-- A call of `next` delivers the first row that is left, or nothing for ever where none is left.
The commands that it sends are the first of those that were left. -/
theorem next_step (g : FuncGen Row) :
    Step f be g ((g.next f).value be) ∧
      g.unsent f be = (g.next f).asked be ++ ((g.next f).value be).2.unsent f be := by
  fun_induction next f g with
  | case1 g hb => exact ⟨.row _ (pending_row _ hb), rfl⟩
  | case2 g hb hf ih =>
    let buf := (f (i64_addr g.funcs_.items[g.fi_])).value be
    let g' : FuncGen Row := { g with fi_ := g.fi_ + 1, buf_ := buf, bi_ := 0 }
    have hs : g.unsent f be =
        (f (i64_addr g.funcs_.items[g.fi_])).asked be ++ g'.unsent f be := by
      rw [unsent, List.drop_eq_getElem_cons hf]
      rfl
    obtain ⟨hstep, hsent⟩ := ih buf
    rw [Dialogue.value_bind, Dialogue.asked_bind, hs, List.append_assoc, hsent]
    exact ⟨hstep.of_pending_eq (pending_refill _ hb hf), rfl⟩
  | case3 g hb hf =>
    have hnone := pending_eq_nil (fun a => (f a).value be) hb hf
    refine ⟨.finished g hnone hnone ?_, rfl⟩
    rw [unsent, List.drop_of_length_le (by omega : g.funcs_.items.length ≤ g.fi_)]
    rfl

theorem value_calls_succ (n : Nat) (g : FuncGen Row) :
    (g.calls f (n + 1)).value be =
      (if ((g.next f).value be).1 then some ((g.next f).value be).2.cur_ else none) ::
        (((g.next f).value be).2.calls f n).value be := by
  simp [calls]

theorem asked_calls_succ (n : Nat) (g : FuncGen Row) :
    (g.calls f (n + 1)).asked be =
      (g.next f).asked be ++ (((g.next f).value be).2.calls f n).asked be := by
  simp [calls]

theorem calls_of_finished {g : FuncGen Row} (hnone : (g.pending fun a => (f a).value be) = [])
    (n : Nat) : (g.calls f n).value be = List.replicate n none ∧
      (g.calls f (n + 1)).asked be = g.unsent f be := by
  induction n generalizing g with
  | zero =>
    obtain ⟨hstep, hsent⟩ := next_step f be g
    rw [asked_calls_succ, hsent]
    generalize (g.next f).value be = r at hstep
    cases hstep with
    | row g' hrow =>
      rw [hnone] at hrow
      cases hrow
    | finished g' _ _ hnothing => exact ⟨rfl, by rw [hnothing]; rfl⟩
  | succ n ih =>
    obtain ⟨hstep, hsent⟩ := next_step f be g
    rw [value_calls_succ, asked_calls_succ, hsent]
    generalize (g.next f).value be = r at hstep
    cases hstep with
    | row g' hrow =>
      rw [hnone] at hrow
      cases hrow
    | finished g' _ hstill _ =>
      obtain ⟨hvalue, hasked⟩ := ih hstill
      exact ⟨by rw [hvalue]; rfl, by rw [hasked]⟩

/-- Calls to the end and after it: each row that is left once, in order, and each command once. -/
theorem calls_eq (g : FuncGen Row) {rows : List Row}
    (hrows : (g.pending fun a => (f a).value be) = rows) (n : Nat) :
    (g.calls f (rows.length + n)).value be = rows.map some ++ List.replicate n none ∧
      (g.calls f (rows.length + (n + 1))).asked be = g.unsent f be := by
  induction rows generalizing g with
  | nil =>
    rw [List.length_nil, Nat.zero_add, Nat.zero_add]
    exact calls_of_finished f be hrows n
  | cons row rows ih =>
    obtain ⟨hstep, hsent⟩ := next_step f be g
    rw [List.length_cons, Nat.add_right_comm rows.length 1 n,
      Nat.add_right_comm rows.length 1 (n + 1), value_calls_succ, asked_calls_succ, hsent]
    generalize (g.next f).value be = r at hstep
    cases hstep with
    | row g' hrow =>
      rw [hrows, List.cons.injEq] at hrow
      obtain ⟨hvalue, hasked⟩ := ih g' hrow.2.symm
      exact ⟨by rw [hvalue, hrow.1]; rfl, by rw [hasked]⟩
    | finished g' hnone =>
      rw [hrows] at hnone
      cases hnone

end

end FuncGen

/-- The generator delivers the rows of each function of `aflj` once and in order, goes on to answer
false, and sends `aflj` and then one command for each function. -/
def StreamsEachFunction [Nlohmann] {Row : Type} (generator : R2 (FuncGen Row))
    (rows_for_func : Int64 → R2 (List Row)) (command : String) (be : Backend) : Prop :=
  let funcs := (json_of_reply (be (Bytes.lit "aflj"))).items
  let rows := funcs.flatMap fun j => (rows_for_func (i64_addr j)).value be
  ∀ n, (generator >>= FuncGen.calls rows_for_func (rows.length + n)).value be =
        rows.map some ++ List.replicate n none ∧
      (generator >>= FuncGen.calls rows_for_func (rows.length + (n + 1))).asked be =
        Bytes.lit "aflj" :: funcs.map fun j => at_addr command (i64_addr j)

section
variable [Nlohmann] (be : Backend)

theorem make_streams {Row : Type} (cur : Row) {f : Int64 → R2 (List Row)} {command : String}
    (hasked : ∀ a, (f a).asked be = [at_addr command a]) :
    StreamsEachFunction (FuncGen.make cur) f command be := by
  intro n
  let funcs := (json_of_reply (be (Bytes.lit "aflj"))).items
  let rows := funcs.flatMap fun j => (f (i64_addr j)).value be
  let g := (FuncGen.make cur).value be
  have hrows : (g.pending fun a => (f a).value be) = rows := rfl
  have hunsent : g.unsent f be = funcs.map fun j => at_addr command (i64_addr j) := by
    rw [FuncGen.unsent, List.map_eq_flatMap]
    simp only [hasked]
    rfl
  obtain ⟨hvalue, hsent⟩ := FuncGen.calls_eq f be g hrows n
  rw [Dialogue.value_bind, Dialogue.asked_bind, hvalue, hsent, hunsent]
  exact ⟨rfl, rfl⟩

theorem asked_blocks_for_func (a : Int64) :
    (blocks_for_func a).asked be = [at_addr "afbj" a] := by
  simp [blocks_for_func]

theorem asked_insns_for_func (a : Int64) :
    (insns_for_func a).asked be = [at_addr "pdfj" a] := by
  unfold insns_for_func
  rw [Dialogue.asked_bind, asked_cmd_json]
  split <;> rfl

/-- Both generators stream the rows of each function, whatever radare2 answers. -/
theorem generators_stream_each_function :
    StreamsEachFunction BlocksGen blocks_for_func "afbj" be ∧
      StreamsEachFunction InsnsGen insns_for_func "pdfj" be :=
  ⟨make_streams be _ (asked_blocks_for_func be), make_streams be _ (asked_insns_for_func be)⟩

end

end r2sql
