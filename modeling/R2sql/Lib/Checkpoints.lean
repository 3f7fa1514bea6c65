-- Sessions over checkpoints: a session begins with the state that the checkpoint
-- under its key restores, or with a fresh one, and may save the state that it ends
-- with. A checkpoint need not have all of a state.
import Mathlib

namespace checkpoints

/-- A session on states of type `A`, with checkpoints of type `C` and a result of type `R`. Without
a key it saves nothing. -/
structure Session (κ C A R : Type) where
  key : Option κ
  fresh : A
  load : C → A
  work : A → R × A
  save : A → C
  saves : Bool

abbrev Store (κ C : Type) := κ → Option C

variable {κ C A R : Type} [DecidableEq κ]

namespace Session

/-- The state that a session begins with, by the checkpoint that is there for it. -/
def restore (s : Session κ C A R) (kept : Option C) : A := (kept.map s.load).getD s.fresh

def start (s : Session κ C A R) (m : Store κ C) : A := s.restore (s.key.bind m)

/-- What is kept after a session that ends with the state. -/
def kept (s : Session κ C A R) (m : Store κ C) (state : A) : Store κ C :=
  match s.key with
  | some k => if s.saves then Function.update m k (some (s.save state)) else m
  | none => m

/-- The result of a session, and what is kept after it. -/
def run (m : Store κ C) (s : Session κ C A R) : R × Store κ C :=
  let (result, state) := s.work (s.start m)
  (result, s.kept m state)

/-- The session saves its last state under the key. -/
def Writes (k : κ) (s : Session κ C A R) : Prop := s.key = some k ∧ s.saves = true

instance (k : κ) (s : Session κ C A R) : Decidable (s.Writes k) :=
  inferInstanceAs (Decidable (_ ∧ _))

theorem run_store (m : Store κ C) (s : Session κ C A R) (k : κ) :
    (s.run m).2 k = if s.Writes k then some (s.save (s.work (s.restore (m k))).2) else m k := by
  obtain ⟨key, fresh, load, work, save, saves⟩ := s
  cases key with
  | none => simp [run, kept, Writes]
  | some k' =>
    cases saves with
    | false => simp [run, kept, Writes]
    | true =>
      by_cases hk : k' = k
      · subst hk
        simp [run, kept, start, Writes]
      · simp [run, kept, Writes, hk, Function.update_of_ne (Ne.symm hk)]

end Session

/-- The results of sessions one after another, and what is kept at their end. -/
def runs : Store κ C → List (Session κ C A R) → List R × Store κ C
  | m, [] => ([], m)
  | m, s :: ss =>
    let (result, m) := s.run m
    let (results, m) := runs m ss
    (result :: results, m)

theorem runs_cons (m : Store κ C) (s : Session κ C A R) (ss : List (Session κ C A R)) :
    runs m (s :: ss) =
      ((s.run m).1 :: (runs (s.run m).2 ss).1, (runs (s.run m).2 ss).2) := rfl

/-- What is kept under one key: the work of the sessions that write it, each on what the one before
has left. -/
def history (k : κ) : Option C → List (Session κ C A R) → Option C
  | kept, [] => kept
  | kept, s :: ss =>
    history k (if s.Writes k then some (s.save (s.work (s.restore kept)).2) else kept) ss

theorem runs_store (m : Store κ C) (ss : List (Session κ C A R)) (k : κ) :
    (runs m ss).2 k = history k (m k) ss := by
  induction ss generalizing m with
  | nil => rfl
  | cons s ss ih => rw [history, ← s.run_store, ← ih, runs_cons]

end checkpoints
