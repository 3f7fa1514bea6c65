-- Threads that share mutexes. A thread takes and gives back locks, reads and
-- writes the shared state, and runs commands of a host that can call the
-- program back on the same thread.
import R2sql.Lib.Dialogue
import R2sql.Lib.Runs

namespace locking

/-- One operation of a thread, over locks `L`, a shared state `S` and commands `C` of the host. -/
inductive Op (L S C : Type) where
  | lock (l : L)
  | unlock (l : L)
  | look
  | store (s : S)
  | run (c : C)

/-- The code of a thread. After each operation it sees the shared state, and a value of `W` that
comes from outside. -/
abbrev Locking (L S C W : Type) := Dialogue (Op L S C) (S × W)

variable {L S C W α β : Type}

/-- `std::lock_guard`: the code runs with the lock. -/
def holding (l : L) (m : Locking L S C W α) : Locking L S C W α :=
  .ask (.lock l) fun _ => m.bind fun a => .ask (.unlock l) fun _ => .done a

def load : Locking L S C W S := .ask .look fun a => .done a.1

/-- What comes from outside. -/
def world : Locking L S C W W := .ask .look fun a => .done a.2

def store (s : S) : Locking L S C W Unit := .ask (.store s) fun _ => .done ()

/-- The host runs a command, and the thread goes on with what comes from outside. -/
def run_command (c : C) : Locking L S C W W := .ask (.run c) fun a => .done a.2

/-! ## Code that locks nothing twice -/

/-- With the locks `held`, the code takes no lock that it holds, runs only commands that are allowed
with the locks that it holds then, and ends with locks and a value that meet `Q`. What comes from
outside meets `Given`. -/
def Clean (Allowed : C → Set L → Prop) (Given : W → Prop) :
    Set L → Locking L S C W α → (Set L → α → Prop) → Prop
  | held, .done a, Q => Q held a
  | held, .ask (.lock l) k, Q =>
    l ∉ held ∧ ∀ a, Given a.2 → Clean Allowed Given (insert l held) (k a) Q
  | held, .ask (.unlock l) k, Q => ∀ a, Given a.2 → Clean Allowed Given (held \ {l}) (k a) Q
  | held, .ask .look k, Q => ∀ a, Given a.2 → Clean Allowed Given held (k a) Q
  | held, .ask (.store _) k, Q => ∀ a, Given a.2 → Clean Allowed Given held (k a) Q
  | held, .ask (.run c) k, Q => Allowed c held ∧ ∀ a, Given a.2 → Clean Allowed Given held (k a) Q

/-- The code locks nothing twice, and ends with the locks that it began with and a value that meets
`R`. -/
def Balanced (Allowed : C → Set L → Prop) (Given : W → Prop) (held : Set L)
    (m : Locking L S C W α) (R : α → Prop) : Prop :=
  Clean Allowed Given held m fun held' a => held' = held ∧ R a

section
variable {Allowed : C → Set L → Prop} {Given : W → Prop} {held : Set L} {R : α → Prop}
  {R' : β → Prop}

theorem clean_bind {m : Locking L S C W α} {f : α → Locking L S C W β} {Q : Set L → α → Prop}
    {Q' : Set L → β → Prop} (hm : Clean Allowed Given held m Q)
    (hf : ∀ held a, Q held a → Clean Allowed Given held (f a) Q') :
    Clean Allowed Given held (m.bind f) Q' := by
  induction m generalizing held with
  | done a => exact hf held a hm
  | ask op k ih =>
    cases op with
    | lock | run => exact ⟨hm.1, fun a ha => ih a (hm.2 a ha)⟩
    | unlock | look | store => exact fun a ha => ih a (hm a ha)

theorem clean_mono {m : Locking L S C W α} {Q Q' : Set L → α → Prop}
    (hm : Clean Allowed Given held m Q) (h : ∀ held a, Q held a → Q' held a) :
    Clean Allowed Given held m Q' := by
  have hbind := clean_bind (f := Dialogue.done) hm h
  rwa [Dialogue.bind_done] at hbind

theorem balanced_pure {a : α} (ha : R a) :
    Balanced Allowed Given held (pure a : Locking L S C W α) R := ⟨rfl, ha⟩

theorem balanced_bind {m : Locking L S C W α} {f : α → Locking L S C W β}
    (hm : Balanced Allowed Given held m R)
    (hf : ∀ a, R a → Balanced Allowed Given held (f a) R') :
    Balanced Allowed Given held (m >>= f) R' := by
  refine clean_bind hm fun held' a h => ?_
  rw [h.1]
  exact hf a h.2

theorem balanced_holding {l : L} {m : Locking L S C W α} (hl : l ∉ held)
    (hm : Balanced Allowed Given (insert l held) m R) :
    Balanced Allowed Given held (holding l m) R := by
  refine ⟨hl, fun _ _ => clean_bind hm fun held' a h => ?_⟩
  intro _ _
  rw [h.1, Set.insert_sdiff_self_of_notMem hl]
  exact ⟨rfl, h.2⟩

theorem balanced_load :
    Balanced Allowed Given held (load : Locking L S C W S) fun _ => True :=
  fun _ _ => ⟨rfl, trivial⟩

/-- A critical section that begins with a look at the shared state. -/
theorem balanced_holding_load {l : L} {f : S → Locking L S C W α} (hl : l ∉ held)
    (hf : ∀ s, Balanced Allowed Given (insert l held) (f s) R) :
    Balanced Allowed Given held (holding l (load >>= f)) R :=
  balanced_holding hl (balanced_bind balanced_load fun s _ => hf s)

theorem balanced_world : Balanced Allowed Given held (world : Locking L S C W W) Given :=
  fun _ ha => ⟨rfl, ha⟩

theorem balanced_store (s : S) :
    Balanced Allowed Given held (store s : Locking L S C W Unit) fun _ => True :=
  fun _ _ => ⟨rfl, trivial⟩

theorem balanced_run_command {c : C} (hc : Allowed c held) :
    Balanced Allowed Given held (run_command c : Locking L S C W W) Given :=
  ⟨hc, fun _ ha => ⟨rfl, ha⟩⟩

theorem balanced_forM {ι : Type} {f : ι → Locking L S C W Unit} {l : List ι}
    (hf : ∀ x ∈ l, Balanced Allowed Given held (f x) fun _ => True) :
    Balanced Allowed Given held (l.forM f) fun _ => True := by
  induction l with
  | nil => exact balanced_pure trivial
  | cons x xs ih =>
    exact balanced_bind (hf x (by simp)) fun _ _ => ih fun y hy => hf y (by simp [hy])

/-- Code that asks a backend, with each question answered by code that locks. -/
def serve {Q A : Type} (answer : Q → Locking L S C W A) : Dialogue Q A α → Locking L S C W α
  | .done a => .done a
  | .ask q k => (answer q).bind fun a => serve answer (k a)

theorem balanced_serve {Q A : Type} {answer : Q → Locking L S C W A} {P : Q → Prop}
    {G : Q → A → Prop} (hanswer : ∀ q, P q → Balanced Allowed Given held (answer q) (G q))
    {m : Dialogue Q A α} (hm : m.AsksGiven G P) :
    Balanced Allowed Given held (serve answer m) fun _ => True := by
  induction m with
  | done a => exact ⟨rfl, trivial⟩
  | ask q k ih => exact balanced_bind (hanswer q hm.1) fun a ha => ih a (hm.2 a ha)

end

/-! ## The threads -/

/-- Who has each lock, the shared state, and what each thread has left to do. -/
structure Machine (L S C W : Type) where
  owner : L → Option Nat
  shared : S
  threads : Nat → Locking L S C W Unit

namespace Machine

variable [DecidableEq L]

/-- A thread goes on with `m`. -/
def go (s : Machine L S C W) (t : Nat) (m : Locking L S C W Unit) : Machine L S C W :=
  { s with threads := Function.update s.threads t m }

/-- The next operation of a thread. A lock that somebody has blocks it. Where the host runs a
command that calls the program back, `invoke` gives the code that the thread runs first. -/
def step (invoke : C → Locking L S C W Unit) (s : Machine L S C W) (t : Nat) (w : W) :
    Option (Machine L S C W) :=
  match s.threads t with
  | .done _ => none
  | .ask (.lock l) k =>
    if s.owner l = none then
      some ({ s with owner := Function.update s.owner l (some t) }.go t (k (s.shared, w)))
    else none
  | .ask (.unlock l) k =>
    if s.owner l = some t then
      some ({ s with owner := Function.update s.owner l none }.go t (k (s.shared, w)))
    else none
  | .ask .look k => some (s.go t (k (s.shared, w)))
  | .ask (.store x) k => some ({ s with shared := x }.go t (k (x, w)))
  | .ask (.run c) k => some (s.go t ((invoke c).bind fun _ => .ask .look k))

/-- The locks that a thread has. -/
def held (s : Machine L S C W) (t : Nat) : Set L := {l | s.owner l = some t}

/-- The thread is about to take a lock that it has. -/
def LocksTwice (s : Machine L S C W) (t : Nat) : Prop :=
  ∃ l k, s.threads t = .ask (.lock l) k ∧ s.owner l = some t

/-- Every thread locks nothing twice in what it has left to do, and gives all locks back. -/
def AllClean (Allowed : C → Set L → Prop) (Given : W → Prop) (s : Machine L S C W) : Prop :=
  ∀ t, Clean Allowed Given (s.held t) (s.threads t) fun held _ => held = ∅

variable {Allowed : C → Set L → Prop} {Given : W → Prop} {s s' : Machine L S C W} {t : Nat}

omit [DecidableEq L] in
theorem AllClean.not_locksTwice (h : AllClean Allowed Given s) (t : Nat) : ¬ s.LocksTwice t := by
  rintro ⟨l, k, hthread, howner⟩
  have hclean := h t
  rw [hthread] at hclean
  exact hclean.1 howner

omit [DecidableEq L] in
theorem AllClean.held_of_done (h : AllClean Allowed Given s) (hdone : s.threads t = .done ()) :
    s.held t = ∅ := by
  have hclean := h t
  rwa [hdone] at hclean

omit [DecidableEq L] in
/-- A change of one thread, with its own locks, keeps the other threads as they are. -/
theorem AllClean.change (h : AllClean Allowed Given s) {m : Locking L S C W Unit}
    (hothers : ∀ t', t' ≠ t → s'.held t' = s.held t') (hthreads : s'.threads = s.threads)
    (hm : Clean Allowed Given (s'.held t) m fun held _ => held = ∅) :
    AllClean Allowed Given (s'.go t m) := by
  intro t'
  change Clean Allowed Given (s'.held t') (Function.update s'.threads t m t')
    fun held _ => held = ∅
  by_cases ht : t' = t
  · subst ht
    rw [Function.update_self]
    exact hm
  · rw [Function.update_of_ne ht, hothers t' ht, hthreads]
    exact h t'

theorem held_lock (s : Machine L S C W) {l : L} (hfree : s.owner l = none) (t' : Nat) :
    held { s with owner := Function.update s.owner l (some t) } t' =
      if t' = t then insert l (s.held t') else s.held t' := by
  ext l'
  by_cases hl : l' = l
  · subst hl
    by_cases ht : t' = t
    · simp [held, ht]
    · simp [held, ht, Ne.symm ht, hfree]
  · split <;> simp [held, hl]

theorem held_unlock (s : Machine L S C W) {l : L} (hown : s.owner l = some t) (t' : Nat) :
    held { s with owner := Function.update s.owner l none } t' =
      if t' = t then s.held t' \ {l} else s.held t' := by
  ext l'
  by_cases hl : l' = l
  · subst hl
    by_cases ht : t' = t
    · simp [held, ht]
    · simp [held, ht, Ne.symm ht, hown]
  · split <;> simp [held, hl]

/-- One step keeps it, where the commands that are allowed call back code that locks nothing twice
either. -/
theorem allClean_step {invoke : C → Locking L S C W Unit}
    (hinvoke : ∀ c held, Allowed c held → Balanced Allowed Given held (invoke c) fun _ => True)
    {w : W} (hw : Given w) (h : AllClean Allowed Given s) (hstep : step invoke s t w = some s') :
    AllClean Allowed Given s' := by
  have hclean := h t
  unfold step at hstep
  split at hstep
  · cases hstep
  · rename_i l k hthread
    rw [hthread] at hclean
    split at hstep
    · rename_i hfree
      cases hstep
      refine h.change (fun t' ht => ?_) rfl ?_
      · rw [held_lock s hfree, if_neg ht]
      · rw [held_lock s hfree, if_pos rfl]
        exact hclean.2 _ hw
    · cases hstep
  · rename_i l k hthread
    rw [hthread] at hclean
    split at hstep
    · rename_i hown
      cases hstep
      refine h.change (fun t' ht => ?_) rfl ?_
      · rw [held_unlock s hown, if_neg ht]
      · rw [held_unlock s hown, if_pos rfl]
        exact hclean _ hw
    · cases hstep
  · rename_i k hthread
    rw [hthread] at hclean
    cases hstep
    exact h.change (fun _ _ => rfl) rfl (hclean _ hw)
  · rename_i x k hthread
    rw [hthread] at hclean
    cases hstep
    exact h.change (fun _ _ => rfl) rfl (hclean _ hw)
  · rename_i c k hthread
    rw [hthread] at hclean
    cases hstep
    refine h.change (fun _ _ => rfl) rfl (clean_bind (hinvoke c _ hclean.1) fun held' _ h => ?_)
    rw [h.1]
    exact hclean.2

/-! ## One thread alone -/

variable {invoke : C → Locking L S C W Unit} {owner : L → Option Nat} {x x' x'' : S}
  {threads : Nat → Locking L S C W Unit} {w : W}

/-- The machine with the thread `t` at `m`. -/
def running (owner : L → Option Nat) (x : S) (threads : Nat → Locking L S C W Unit) (t : Nat)
    (m : Locking L S C W Unit) : Machine L S C W :=
  { owner := owner, shared := x, threads := Function.update threads t m }

theorem step_lock {l : L} {k : S × W → Locking L S C W Unit} (hfree : owner l = none) :
    step invoke (running owner x threads t (.ask (.lock l) k)) t w =
      some (running (Function.update owner l (some t)) x threads t (k (x, w))) := by
  simp [step, running, go, hfree]

theorem step_unlock {l : L} {k : S × W → Locking L S C W Unit} (hown : owner l = some t) :
    step invoke (running owner x threads t (.ask (.unlock l) k)) t w =
      some (running (Function.update owner l none) x threads t (k (x, w))) := by
  simp [step, running, go, hown]

theorem step_look {k : S × W → Locking L S C W Unit} :
    step invoke (running owner x threads t (.ask .look k)) t w =
      some (running owner x threads t (k (x, w))) := by
  simp [step, running, go]

theorem step_store {k : S × W → Locking L S C W Unit} :
    step invoke (running owner x threads t (.ask (.store x') k)) t w =
      some (running owner x' threads t (k (x', w))) := by
  simp [step, running, go]

theorem step_run {c : C} {k : S × W → Locking L S C W Unit} :
    step invoke (running owner x threads t (.ask (.run c) k)) t w =
      some (running owner x threads t ((invoke c).bind fun _ => .ask .look k)) := by
  simp [step, running, go]

/-- The thread gets through `m` when it runs alone and `w` comes from outside: the shared state goes
from `x` to `x'`, `m` gives `a`, and the locks are as before. -/
def Finishes (invoke : C → Locking L S C W Unit) (t : Nat) (w : W) (owner : L → Option Nat) (x : S)
    (m : Locking L S C W α) (x' : S) (a : α) : Prop :=
  ∀ threads (k : α → Locking L S C W Unit), ∃ n,
    runs.run (fun s w => step invoke s t w) (running owner x threads t (m.bind k))
      (List.replicate n w) = some (running owner x' threads t (k a))

theorem finishes_pure (a : α) : Finishes invoke t w owner x (pure a) x a :=
  fun _ _ => ⟨0, rfl⟩

theorem finishes_bind {m : Locking L S C W α} {f : α → Locking L S C W β} {a : α} {b : β}
    (hm : Finishes invoke t w owner x m x' a) (hf : Finishes invoke t w owner x' (f a) x'' b) :
    Finishes invoke t w owner x (m >>= f) x'' b := by
  intro threads k
  obtain ⟨n, hn⟩ := hm threads fun a => (f a).bind k
  obtain ⟨n', hn'⟩ := hf threads k
  refine ⟨n + n', ?_⟩
  change runs.run _ (running owner x threads t ((m.bind f).bind k)) _ = _
  rw [Dialogue.bind_assoc, ← List.replicate_append_replicate]
  exact runs.run_append_iff.mpr ⟨_, hn, hn'⟩

theorem finishes_load : Finishes invoke t w owner x load x x :=
  fun _ _ => ⟨1, runs.run_cons_iff.mpr ⟨_, step_look, rfl⟩⟩

theorem finishes_world : Finishes invoke t w owner x world x w :=
  fun _ _ => ⟨1, runs.run_cons_iff.mpr ⟨_, step_look, rfl⟩⟩

theorem finishes_store : Finishes invoke t w owner x (store x') x' () :=
  fun _ _ => ⟨1, runs.run_cons_iff.mpr ⟨_, step_store, rfl⟩⟩

theorem finishes_holding {l : L} {m : Locking L S C W α} {a : α} (hfree : owner l = none)
    (hm : Finishes invoke t w (Function.update owner l (some t)) x m x' a) :
    Finishes invoke t w owner x (holding l m) x' a := by
  intro threads k
  obtain ⟨n, hn⟩ := hm threads fun a => .ask (.unlock l) fun _ => k a
  have hown : Function.update owner l (some t) l = some t := Function.update_self ..
  have hback : Function.update (Function.update owner l (some t)) l none = owner := by
    rw [Function.update_idem, ← hfree, Function.update_eq_self]
  have hunlock : step invoke (running (Function.update owner l (some t)) x' threads t
      (.ask (.unlock l) fun _ => k a)) t w = some (running owner x' threads t (k a)) := by
    rw [step_unlock hown, hback]
  refine ⟨n + 1 + 1, runs.run_cons_iff.mpr ⟨_, step_lock hfree, ?_⟩⟩
  rw [List.replicate_succ', Dialogue.bind_assoc]
  exact runs.run_append_iff.mpr ⟨_, hn, runs.run_cons_iff.mpr ⟨_, hunlock, rfl⟩⟩

theorem finishes_run_command {c : C} (hc : Finishes invoke t w owner x (invoke c) x' ()) :
    Finishes invoke t w owner x (run_command c) x' w := by
  intro threads k
  obtain ⟨n, hn⟩ := hc threads fun _ => .ask .look fun a => k a.2
  refine ⟨n + 1 + 1, runs.run_cons_iff.mpr ⟨_, step_run, ?_⟩⟩
  rw [List.replicate_succ']
  exact runs.run_append_iff.mpr ⟨_, hn, runs.run_cons_iff.mpr ⟨_, step_look, rfl⟩⟩

theorem finishes_forM {ι : Type} {f : ι → Locking L S C W Unit} {l : List ι}
    (hf : ∀ i ∈ l, Finishes invoke t w owner x (f i) x ()) :
    Finishes invoke t w owner x (l.forM f) x () := by
  induction l with
  | nil => exact finishes_pure ()
  | cons i l ih =>
    exact finishes_bind (hf i (by simp)) (ih fun j hj => hf j (by simp [hj]))

/-- Where each question is answered by `answered`, so is the whole dialogue. -/
theorem finishes_serve {Q A : Type} {answer : Q → Locking L S C W A} {answered : Q → A}
    {m : Dialogue Q A α}
    (h : ∀ q ∈ m.asked answered, Finishes invoke t w owner x (answer q) x (answered q)) :
    Finishes invoke t w owner x (serve answer m) x (m.value answered) := by
  induction m with
  | done a => exact finishes_pure a
  | ask q k ih =>
    rw [Dialogue.asked_ask, List.forall_mem_cons] at h
    exact finishes_bind h.1 (ih _ h.2)

/-! ## One thread alone that locks twice -/

/-- The thread gets to a lock that it has when it runs `m` alone and `w` comes from outside. -/
def Sticks (invoke : C → Locking L S C W Unit) (t : Nat) (w : W) (owner : L → Option Nat) (x : S)
    (m : Locking L S C W α) : Prop :=
  ∀ threads (k : α → Locking L S C W Unit), ∃ n s',
    runs.run (fun s w => step invoke s t w) (running owner x threads t (m.bind k))
      (List.replicate n w) = some s' ∧ s'.LocksTwice t

theorem sticks_lock {l : L} {m : S × W → Locking L S C W α} (hown : owner l = some t) :
    Sticks invoke t w owner x (.ask (.lock l) m) := by
  intro threads k
  have hthread : (running owner x threads t ((Dialogue.ask (.lock l) m).bind k)).threads t =
      .ask (.lock l) fun a => (m a).bind k := Function.update_self ..
  exact ⟨0, _, rfl, l, _, hthread, hown⟩

theorem sticks_bind {m : Locking L S C W α} {f : α → Locking L S C W β}
    (hm : Sticks invoke t w owner x m) : Sticks invoke t w owner x (m >>= f) := by
  intro threads k
  obtain ⟨n, s', hn, htwice⟩ := hm threads fun a => (f a).bind k
  refine ⟨n, s', ?_, htwice⟩
  rw [← hn]
  exact congrArg (fun m => runs.run _ (running owner x threads t m) _) (Dialogue.bind_assoc m f k)

theorem sticks_bind_of_finishes {m : Locking L S C W α} {f : α → Locking L S C W β} {a : α}
    (hm : Finishes invoke t w owner x m x' a) (hf : Sticks invoke t w owner x' (f a)) :
    Sticks invoke t w owner x (m >>= f) := by
  intro threads k
  obtain ⟨n, hn⟩ := hm threads fun a => (f a).bind k
  obtain ⟨n', s', hn', htwice⟩ := hf threads k
  refine ⟨n + n', s', ?_, htwice⟩
  change runs.run _ (running owner x threads t ((m.bind f).bind k)) _ = _
  rw [Dialogue.bind_assoc, ← List.replicate_append_replicate]
  exact runs.run_append_iff.mpr ⟨_, hn, hn'⟩

theorem sticks_holding {l : L} {m : Locking L S C W α} (hfree : owner l = none)
    (hm : Sticks invoke t w (Function.update owner l (some t)) x m) :
    Sticks invoke t w owner x (holding l m) := by
  intro threads k
  obtain ⟨n, s', hn, htwice⟩ := hm threads fun a => .ask (.unlock l) fun _ => k a
  refine ⟨n + 1, s', runs.run_cons_iff.mpr ⟨_, step_lock hfree, ?_⟩, htwice⟩
  rw [← hn]
  exact congrArg (fun m => runs.run _ (running _ x threads t m) _) (Dialogue.bind_assoc m _ k)

theorem sticks_holding_load {l : L} {f : S → Locking L S C W α} (hfree : owner l = none)
    (hf : Sticks invoke t w (Function.update owner l (some t)) x (f x)) :
    Sticks invoke t w owner x (holding l (load >>= f)) :=
  sticks_holding hfree (sticks_bind_of_finishes finishes_load hf)

theorem sticks_run_command {c : C} (hc : Sticks invoke t w owner x (invoke c)) :
    Sticks invoke t w owner x (run_command c) := by
  intro threads k
  obtain ⟨n, s', hn, htwice⟩ := hc threads fun _ => .ask .look fun a => k a.2
  exact ⟨n + 1, s', runs.run_cons_iff.mpr ⟨_, step_run, hn⟩, htwice⟩

/-- The first item that sticks comes after items that finish. -/
theorem sticks_forM {ι : Type} {f : ι → Locking L S C W Unit} {l : List ι} {P : ι → Prop}
    (hgood : ∀ i ∈ l, ¬ P i → Finishes invoke t w owner x (f i) x ())
    (hbad : ∀ i ∈ l, P i → Sticks invoke t w owner x (f i)) (h : ∃ i ∈ l, P i) :
    Sticks invoke t w owner x (l.forM f) := by
  induction l with
  | nil => simp at h
  | cons i l ih =>
    by_cases hi : P i
    · exact sticks_bind (hbad i (by simp) hi)
    · have hrest : ∃ j ∈ l, P j := by simpa [hi] using h
      exact sticks_bind_of_finishes (hgood i (by simp) hi)
        (ih (fun j hj => hgood j (by simp [hj])) (fun j hj => hbad j (by simp [hj])) hrest)

/-- The first question that sticks comes after questions that are answered. -/
theorem sticks_serve {Q A : Type} {answer : Q → Locking L S C W A} {answered : Q → A} {P : Q → Prop}
    (hgood : ∀ q, ¬ P q → Finishes invoke t w owner x (answer q) x (answered q))
    (hbad : ∀ q, P q → Sticks invoke t w owner x (answer q)) {m : Dialogue Q A α}
    (h : ∃ q ∈ m.asked answered, P q) : Sticks invoke t w owner x (serve answer m) := by
  induction m with
  | done a =>
    obtain ⟨q, hq, -⟩ := h
    cases hq
  | ask q k ih =>
    by_cases hq : P q
    · exact sticks_bind (hbad q hq)
    · have hrest : ∃ r ∈ (k (answered q)).asked answered, P r := by simpa [hq] using h
      exact sticks_bind_of_finishes (hgood q hq) (ih _ hrest)

end Machine

end locking
