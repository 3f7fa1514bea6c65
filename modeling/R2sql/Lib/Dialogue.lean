-- Dialogues: programs that ask questions and go on with the answers. A
-- dialogue has no state of its own, so it can be run against a fixed table
-- of answers or against a machine that changes with each question.
import Mathlib

/-- A program that asks questions of type `Q`, gets answers of type `A`, and ends with an `α`. -/
inductive Dialogue (Q A α : Type) where
  | done : α → Dialogue Q A α
  | ask : Q → (A → Dialogue Q A α) → Dialogue Q A α

namespace Dialogue

variable {Q A α β σ : Type}

def bind : Dialogue Q A α → (α → Dialogue Q A β) → Dialogue Q A β
  | done a, f => f a
  | ask q k, f => ask q fun a => (k a).bind f

instance : Monad (Dialogue Q A) where
  pure := done
  bind := bind

theorem bind_done (m : Dialogue Q A α) : m.bind done = m := by
  induction m with
  | done a => rfl
  | ask q k ih => simp [bind, ih]

theorem bind_assoc {γ : Type} (m : Dialogue Q A α) (f : α → Dialogue Q A β)
    (g : β → Dialogue Q A γ) : (m.bind f).bind g = m.bind fun a => (f a).bind g := by
  induction m with
  | done a => rfl
  | ask q k ih => simp [bind, ih]

instance : LawfulMonad (Dialogue Q A) :=
  LawfulMonad.mk' _ (fun m => bind_done m) (fun _ _ => rfl) bind_assoc

/-! ## Against a fixed table of answers -/

/-- The value that the dialogue ends with when `o` gives the answers. -/
def value (o : Q → A) : Dialogue Q A α → α
  | done a => a
  | ask q k => (k (o q)).value o

/-- The questions that the dialogue asks when `o` gives the answers, oldest first. -/
def asked (o : Q → A) : Dialogue Q A α → List Q
  | done _ => []
  | ask q k => q :: (k (o q)).asked o

section
variable (o : Q → A)

@[simp] theorem value_pure (a : α) : (pure a : Dialogue Q A α).value o = a := rfl

@[simp] theorem asked_pure (a : α) : (pure a : Dialogue Q A α).asked o = [] := rfl

@[simp] theorem value_ask (q : Q) (k : A → Dialogue Q A α) :
    (ask q k).value o = (k (o q)).value o := rfl

@[simp] theorem asked_ask (q : Q) (k : A → Dialogue Q A α) :
    (ask q k).asked o = q :: (k (o q)).asked o := rfl

@[simp] theorem value_bind (m : Dialogue Q A α) (f : α → Dialogue Q A β) :
    (m >>= f).value o = (f (m.value o)).value o := by
  change (m.bind f).value o = _
  induction m with
  | done a => rfl
  | ask q k ih => exact ih (o q)

@[simp] theorem asked_bind (m : Dialogue Q A α) (f : α → Dialogue Q A β) :
    (m >>= f).asked o = m.asked o ++ (f (m.value o)).asked o := by
  change (m.bind f).asked o = _
  induction m with
  | done a => rfl
  | ask q k ih =>
    simp only [bind, asked_ask, value_ask, List.cons_append]
    rw [ih (o q)]

@[simp] theorem value_map (f : α → β) (m : Dialogue Q A α) :
    (f <$> m).value o = f (m.value o) := value_bind o m _

@[simp] theorem asked_map (f : α → β) (m : Dialogue Q A α) :
    (f <$> m).asked o = m.asked o := by
  have h : (f <$> m).asked o = m.asked o ++ [] := asked_bind o m _
  simpa using h

@[simp] theorem asked_discard (m : Dialogue Q A α) : (discard m).asked o = m.asked o :=
  asked_map o _ m

@[simp] theorem asked_ite (c : Prop) [Decidable c] (m n : Dialogue Q A α) :
    (if c then m else n).asked o = if c then m.asked o else n.asked o := by
  split <;> rfl

@[simp] theorem value_mapM (f : α → Dialogue Q A β) (l : List α) :
    (l.mapM f).value o = l.map fun x => (f x).value o := by
  induction l with
  | nil => rfl
  | cons x xs ih => simp [ih]

@[simp] theorem asked_mapM (f : α → Dialogue Q A β) (l : List α) :
    (l.mapM f).asked o = l.flatMap fun x => (f x).asked o := by
  induction l with
  | nil => rfl
  | cons x xs ih => simp [ih]

end

/-! ## Against a machine -/

/-- The value that the dialogue ends with and the state that it leaves, when a machine gives the
answers and each question can change its state. -/
def play (step : σ → Q → A × σ) : σ → Dialogue Q A α → α × σ
  | s, done a => (a, s)
  | s, ask q k => play step (step s q).2 (k (step s q).1)

section
variable (step : σ → Q → A × σ) (s : σ)

@[simp] theorem play_pure (a : α) : play step s (pure a : Dialogue Q A α) = (a, s) := rfl

@[simp] theorem play_ask (q : Q) (k : A → Dialogue Q A α) :
    play step s (ask q k) = play step (step s q).2 (k (step s q).1) := rfl

@[simp] theorem play_bind (m : Dialogue Q A α) (f : α → Dialogue Q A β) :
    play step s (m >>= f) = play step (play step s m).2 (f (play step s m).1) := by
  change play step s (m.bind f) = _
  induction m generalizing s with
  | done a => rfl
  | ask q k ih => exact ih (step s q).1 (step s q).2

@[simp] theorem play_map (f : α → β) (m : Dialogue Q A α) :
    play step s (f <$> m) = (f (play step s m).1, (play step s m).2) := play_bind step s m _

end

/-- Questions that leave the machine as it is get the answers of a fixed table. -/
theorem play_eq_of_asked (step : σ → Q → A × σ) (s : σ) {m : Dialogue Q A α}
    (h : ∀ q ∈ m.asked fun q => (step s q).1, (step s q).2 = s) :
    play step s m = (m.value fun q => (step s q).1, s) := by
  induction m with
  | done a => rfl
  | ask q k ih =>
    rw [asked_ask, List.forall_mem_cons] at h
    rw [play_ask, value_ask, h.1]
    exact ih _ h.2

/-! ## What a dialogue can ask -/

/-- Whatever the answers are, every question of the dialogue meets `P`. -/
def Asks (P : Q → Prop) : Dialogue Q A α → Prop
  | done _ => True
  | ask q k => P q ∧ ∀ a, (k a).Asks P

section
variable {P : Q → Prop}

theorem asks_pure (a : α) : (pure a : Dialogue Q A α).Asks P := trivial

theorem asks_bind {m : Dialogue Q A α} {f : α → Dialogue Q A β} (hm : m.Asks P)
    (hf : ∀ a, (f a).Asks P) : (m >>= f).Asks P := by
  change (m.bind f).Asks P
  induction m with
  | done a => exact hf a
  | ask q k ih => exact ⟨hm.1, fun a => ih a (hm.2 a)⟩

theorem asks_map {m : Dialogue Q A α} (f : α → β) (hm : m.Asks P) : (f <$> m).Asks P :=
  asks_bind hm fun _ => trivial

theorem asks_mono {R : Q → Prop} (h : ∀ q, P q → R q) {m : Dialogue Q A α} (hm : m.Asks P) :
    m.Asks R := by
  induction m with
  | done a => exact trivial
  | ask q k ih => exact ⟨h q hm.1, fun a => ih a (hm.2 a)⟩

theorem of_mem_asked {m : Dialogue Q A α} (hm : m.Asks P) (o : Q → A) : ∀ q ∈ m.asked o, P q := by
  induction m with
  | done a =>
    intro q hq
    cases hq
  | ask q k ih => exact List.forall_mem_cons.mpr ⟨hm.1, ih (o q) (hm.2 (o q))⟩

end

/-- The same where every answer to a question meets `G`. -/
def AsksGiven (G : Q → A → Prop) (P : Q → Prop) : Dialogue Q A α → Prop
  | done _ => True
  | ask q k => P q ∧ ∀ a, G q a → (k a).AsksGiven G P

section
variable {G : Q → A → Prop} {P : Q → Prop}

theorem asksGiven_of_asks {m : Dialogue Q A α} (h : m.Asks P) : m.AsksGiven G P := by
  induction m with
  | done a => exact trivial
  | ask q k ih => exact ⟨h.1, fun a _ => ih a (h.2 a)⟩

theorem asksGiven_mono {R : Q → Prop} (h : ∀ q, P q → R q) {m : Dialogue Q A α}
    (hm : m.AsksGiven G P) : m.AsksGiven G R := by
  induction m with
  | done a => exact trivial
  | ask q k ih => exact ⟨h q hm.1, fun a ha => ih a (hm.2 a ha)⟩

theorem asks_of_asksGiven {m : Dialogue Q A α} (h : m.AsksGiven (fun _ _ => True) P) :
    m.Asks P := by
  induction m with
  | done a => exact trivial
  | ask q k ih => exact ⟨h.1, fun a => ih a (h.2 a trivial)⟩

theorem asksGiven_bind {m : Dialogue Q A α} {f : α → Dialogue Q A β} (hm : m.AsksGiven G P)
    (hf : ∀ a, (f a).AsksGiven G P) : (m >>= f).AsksGiven G P := by
  change (m.bind f).AsksGiven G P
  induction m with
  | done a => exact hf a
  | ask q k ih => exact ⟨hm.1, fun a ha => ih a (hm.2 a ha)⟩

end

/-! ## Over a channel -/

section
variable {τ C : Type}

/-- The value that the dialogue ends with and the state that it leaves, when each question goes over
a channel. What the channel does with a question is chosen from outside, one choice for each
question. -/
def relay (call : τ → Q → C → Option (A × τ)) : τ → Dialogue Q A α → List C → Option (α × τ)
  | t, done a, [] => some (a, t)
  | _, done _, _ :: _ => none
  | _, ask _ _, [] => none
  | t, ask q k, c :: cs => (call t q c).bind fun p => relay call p.2 (k p.1) cs

variable {call : τ → Q → C → Option (A × τ)} {step : σ → Q → A × σ} {R : τ → σ → Prop}
  {P : Q → Prop} {G : C → Prop}

/-- A channel that answers each question as the machine does answers the whole dialogue so. -/
theorem relay_refines
    (hstep : ∀ {t s q c a u}, R t s → P q → G c → call t q c = some (a, u) →
      a = (step s q).1 ∧ R u (step s q).2)
    {m : Dialogue Q A α} (hm : m.Asks P) {t : τ} {s : σ} (ht : R t s) {cs : List C}
    (hcs : ∀ c ∈ cs, G c) {a : α} {u : τ} (h : relay call t m cs = some (a, u)) :
    a = (play step s m).1 ∧ R u (play step s m).2 := by
  induction m generalizing t s cs with
  | done b =>
    cases cs with
    | nil =>
      cases h
      exact ⟨rfl, ht⟩
    | cons c cs => cases h
  | ask q k ih =>
    cases cs with
    | nil => cases h
    | cons c cs =>
      rw [List.forall_mem_cons] at hcs
      obtain ⟨⟨b, v⟩, hcall, hrest⟩ := Option.bind_eq_some_iff.mp h
      obtain ⟨rfl, hv⟩ := hstep ht hm.1 hcs.1 hcall
      exact ih _ (hm.2 _) hv hcs.2 hrest

/-- A channel that can answer each question can answer the whole dialogue. -/
theorem exists_relay
    (hlive : ∀ {t s q}, R t s → P q → ∃ c u, G c ∧ call t q c = some ((step s q).1, u) ∧
      R u (step s q).2)
    {m : Dialogue Q A α} (hm : m.Asks P) {t : τ} {s : σ} (ht : R t s) :
    ∃ cs u, (∀ c ∈ cs, G c) ∧ relay call t m cs = some ((play step s m).1, u) ∧
      R u (play step s m).2 := by
  induction m generalizing t s with
  | done b => exact ⟨[], t, by simp, rfl, ht⟩
  | ask q k ih =>
    obtain ⟨c, v, hc, hcall, hv⟩ := hlive ht hm.1
    obtain ⟨cs, u, hcs, hrest, hu⟩ := ih _ (hm.2 _) hv
    refine ⟨c :: cs, u, List.forall_mem_cons.mpr ⟨hc, hcs⟩, ?_, hu⟩
    rw [relay, hcall]
    exact hrest

/-- The questions of a dialogue do not depend on what is done with its value. -/
theorem asks_map_iff {f : α → β} {m : Dialogue Q A α} : (f <$> m).Asks P ↔ m.Asks P := by
  refine ⟨fun h => ?_, asks_map f⟩
  induction m with
  | done a => exact trivial
  | ask q k ih => exact ⟨h.1, fun a => ih a (h.2 a)⟩

end

end Dialogue
