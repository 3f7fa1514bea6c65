-- Dialogues that can throw: code that asks its questions until it ends with a
-- value or with an exception.
import R2sql.Lib.Dialogue

/-- A dialogue that ends with a value or throws an `ε`. -/
abbrev Raising (Q A ε : Type) := ExceptT ε (Dialogue Q A)

namespace Raising

variable {Q A ε α β : Type}

/-- A computation that asks nothing. -/
def ofExcept (e : Except ε α) : Raising Q A ε α := ExceptT.mk (Dialogue.done e)

instance : MonadLift (Except ε) (Raising Q A ε) := ⟨ofExcept⟩

/-- What the dialogue ends with when `o` gives the answers. -/
def outcome (o : Q → A) (m : Raising Q A ε α) : Except ε α := Dialogue.value o m.run

section
variable (o : Q → A)

@[simp] theorem outcome_pure (a : α) : outcome o (pure a : Raising Q A ε α) = .ok a := rfl

@[simp] theorem outcome_ofExcept (e : Except ε α) :
    outcome o (liftM e : Raising Q A ε α) = e := rfl

@[simp] theorem outcome_lift (m : Dialogue Q A α) :
    outcome o (liftM m : Raising Q A ε α) = .ok (m.value o) := by
  change Dialogue.value o (Except.ok <$> m) = _
  rw [Dialogue.value_map]

theorem outcome_bind (m : Raising Q A ε α) (f : α → Raising Q A ε β) :
    outcome o (m >>= f) =
      match outcome o m with
      | .ok a => outcome o (f a)
      | .error e => .error e := by
  change Dialogue.value o (m.run >>= ExceptT.bindCont f) = _
  rw [Dialogue.value_bind]
  change (ExceptT.bindCont f (outcome o m)).value o = _
  cases outcome o m <;> rfl

theorem outcome_bind_ok {m : Raising Q A ε α} {a : α} (h : outcome o m = .ok a)
    (f : α → Raising Q A ε β) : outcome o (m >>= f) = outcome o (f a) := by
  rw [outcome_bind, h]

theorem outcome_bind_eq_ok_iff {m : Raising Q A ε α} {f : α → Raising Q A ε β} {b : β} :
    outcome o (m >>= f) = .ok b ↔ ∃ a, outcome o m = .ok a ∧ outcome o (f a) = .ok b := by
  rw [outcome_bind]
  cases outcome o m with
  | error e => simp
  | ok a => simp

@[simp] theorem outcome_lift_bind (m : Dialogue Q A α) (f : α → Raising Q A ε β) :
    outcome o (liftM m >>= f) = outcome o (f (m.value o)) := outcome_bind_ok o (outcome_lift o m) f

theorem outcome_ofExcept_bind (e : Except ε α) (f : α → Raising Q A ε β) :
    outcome o (liftM e >>= f) =
      match e with
      | .ok a => outcome o (f a)
      | .error e => .error e := outcome_bind o (liftM e) f

/-- A loop throws nothing where no turn does. -/
theorem outcome_mapM {f : α → Raising Q A ε β} {g : α → β} {l : List α}
    (h : ∀ x ∈ l, outcome o (f x) = .ok (g x)) : outcome o (l.mapM f) = .ok (l.map g) := by
  induction l with
  | nil => rfl
  | cons x xs ih =>
    rw [List.mapM_cons, outcome_bind_ok o (h x (by simp)),
      outcome_bind_ok o (ih fun y hy => h y (by simp [hy]))]
    rfl

end

@[simp] theorem ok_bind (a : α) (f : α → Except ε β) : ((.ok a : Except ε α) >>= f) = f a := rfl

@[simp] theorem except_pure (a : α) : (pure a : Except ε α) = .ok a := rfl

theorem bind_eq_ok_iff {x : Except ε α} {f : α → Except ε β} {b : β} :
    x >>= f = .ok b ↔ ∃ a, x = .ok a ∧ f a = .ok b := by
  cases x with
  | error e =>
    constructor
    · intro h
      cases h
    · rintro ⟨a, h, -⟩
      cases h
  | ok a =>
    constructor
    · exact fun h => ⟨a, rfl, h⟩
    · rintro ⟨a', h, hb⟩
      cases h
      exact hb

theorem mapM_ok {f : α → Except ε β} {g : α → β} {l : List α}
    (h : ∀ x ∈ l, f x = .ok (g x)) : l.mapM f = .ok (l.map g) := by
  induction l with
  | nil => rfl
  | cons x xs ih =>
    rw [List.mapM_cons, h x (by simp), ih fun y hy => h y (by simp [hy])]
    rfl

theorem exists_mapM_ok {f : α → Except ε β} {l : List α} (h : ∀ x ∈ l, ∃ b, f x = .ok b) :
    ∃ bs, l.mapM f = .ok bs := by
  induction l with
  | nil => exact ⟨[], rfl⟩
  | cons x xs ih =>
    obtain ⟨b, hb⟩ := h x (by simp)
    obtain ⟨bs, hbs⟩ := ih fun y hy => h y (by simp [hy])
    exact ⟨b :: bs, by rw [List.mapM_cons, hb, hbs]; rfl⟩

/-- A loop gives what another loop gives where each turn does. -/
theorem mapM_ok_map {γ : Type} {f : α → Except ε β} {g : α → Except ε γ} {h : β → γ}
    (hturn : ∀ x b, f x = .ok b → g x = .ok (h b)) {l : List α} {bs : List β}
    (hl : l.mapM f = .ok bs) : l.mapM g = .ok (bs.map h) := by
  induction l generalizing bs with
  | nil =>
    cases hl
    rfl
  | cons x xs ih =>
    rw [List.mapM_cons] at hl ⊢
    obtain ⟨b, hb, hl⟩ := bind_eq_ok_iff.mp hl
    obtain ⟨bs', hbs, hl⟩ := bind_eq_ok_iff.mp hl
    cases hl
    rw [hturn x b hb, ih hbs]
    rfl

/-! ## What a dialogue asks when `o` gives the answers -/

section
variable {o : Q → A} {q : Q}

theorem mem_asked_bind {m : Raising Q A ε α} {f : α → Raising Q A ε β}
    (h : q ∈ Dialogue.asked o (m >>= f).run) :
    q ∈ Dialogue.asked o m.run ∨ ∃ a, outcome o m = .ok a ∧ q ∈ Dialogue.asked o (f a).run := by
  change q ∈ Dialogue.asked o (m.run >>= ExceptT.bindCont f) at h
  rw [Dialogue.asked_bind] at h
  rcases List.mem_append.mp h with h | h
  · exact Or.inl h
  · change q ∈ Dialogue.asked o (ExceptT.bindCont f (outcome o m)) at h
    cases hm : outcome o m with
    | ok a =>
      rw [hm] at h
      exact Or.inr ⟨a, rfl, h⟩
    | error e =>
      rw [hm] at h
      cases h

theorem mem_asked_lift_bind {m : Dialogue Q A α} {f : α → Raising Q A ε β}
    (h : q ∈ Dialogue.asked o (liftM m >>= f).run) :
    q ∈ m.asked o ∨ q ∈ Dialogue.asked o (f (m.value o)).run := by
  rcases mem_asked_bind h with h | ⟨a, ha, h⟩
  · change q ∈ Dialogue.asked o (Except.ok <$> m) at h
    rw [Dialogue.asked_map] at h
    exact Or.inl h
  · rw [outcome_lift] at ha
    cases ha
    exact Or.inr h

theorem asked_bind_of_ok {m : Raising Q A ε α} {a : α} (h : outcome o m = .ok a)
    (f : α → Raising Q A ε β) :
    Dialogue.asked o (m >>= f).run = Dialogue.asked o m.run ++ Dialogue.asked o (f a).run := by
  change Dialogue.asked o (m.run >>= ExceptT.bindCont f) = _
  rw [Dialogue.asked_bind]
  change _ ++ Dialogue.asked o (ExceptT.bindCont f (outcome o m)) = _
  rw [h]
  rfl

theorem mem_asked_bind_of_mem {m : Raising Q A ε α} (h : q ∈ Dialogue.asked o m.run)
    (f : α → Raising Q A ε β) : q ∈ Dialogue.asked o (m >>= f).run := by
  change q ∈ Dialogue.asked o (m.run >>= ExceptT.bindCont f)
  rw [Dialogue.asked_bind]
  exact List.mem_append_left _ h

/-- A loop in which no turn throws asks what each turn asks. -/
theorem mem_asked_mapM_of_ok {f : α → Raising Q A ε β} {g : α → β} {l : List α}
    (h : ∀ x ∈ l, outcome o (f x) = .ok (g x)) {x : α} (hx : x ∈ l)
    (hq : q ∈ Dialogue.asked o (f x).run) : q ∈ Dialogue.asked o (l.mapM f).run := by
  induction l with
  | nil => cases hx
  | cons y ys ih =>
    have hys : ∀ z ∈ ys, outcome o (f z) = .ok (g z) := fun z hz => h z (by simp [hz])
    rw [List.mapM_cons, asked_bind_of_ok (h y (by simp)), asked_bind_of_ok (outcome_mapM o hys)]
    rcases List.mem_cons.mp hx with rfl | hx
    · exact List.mem_append_left _ hq
    · exact List.mem_append_right _ (List.mem_append_left _ (ih hys hx))

theorem mem_asked_mapM {f : α → Raising Q A ε β} {l : List α}
    (h : q ∈ Dialogue.asked o (l.mapM f).run) : ∃ x ∈ l, q ∈ Dialogue.asked o (f x).run := by
  induction l with
  | nil => cases h
  | cons x xs ih =>
    rw [List.mapM_cons] at h
    rcases mem_asked_bind h with h | ⟨y, -, h⟩
    · exact ⟨x, by simp, h⟩
    · rcases mem_asked_bind h with h | ⟨ys, -, h⟩
      · obtain ⟨z, hz, h⟩ := ih h
        exact ⟨z, by simp [hz], h⟩
      · cases h

end

/-! ## What a dialogue can ask before it ends or throws -/

section
variable {P : Q → Prop}

theorem asks_pure (a : α) : (pure a : Raising Q A ε α).run.Asks P := trivial

theorem asks_ofExcept (e : Except ε α) : (liftM e : Raising Q A ε α).run.Asks P := trivial

theorem asks_ofExcept_bind {e : Except ε α} {f : α → Raising Q A ε β}
    (hf : ∀ a, e = .ok a → (f a).run.Asks P) : (liftM e >>= f).run.Asks P := by
  cases e with
  | ok a => exact hf a rfl
  | error e => exact trivial

theorem asks_lift {m : Dialogue Q A α} (hm : m.Asks P) :
    (liftM m : Raising Q A ε α).run.Asks P := Dialogue.asks_map Except.ok hm

theorem asks_bind {m : Raising Q A ε α} {f : α → Raising Q A ε β} (hm : m.run.Asks P)
    (hf : ∀ a, (f a).run.Asks P) : (m >>= f).run.Asks P := by
  refine Dialogue.asks_bind hm fun r => ?_
  cases r with
  | ok a => exact hf a
  | error e => exact trivial

theorem asksGiven_ask_bind {G : Q → A → Prop} {q : Q} {f : A → Raising Q A ε β} (hq : P q)
    (hf : ∀ a, G q a → (f a).run.Asks P) :
    (liftM (Dialogue.ask q Dialogue.done : Dialogue Q A A) >>= f).run.AsksGiven G P :=
  ⟨hq, fun a ha => Dialogue.asksGiven_of_asks (hf a ha)⟩

theorem asks_map {m : Raising Q A ε α} (f : α → β) (hm : m.run.Asks P) :
    (f <$> m).run.Asks P := by
  refine Dialogue.asks_bind hm fun r => ?_
  cases r <;> exact trivial

theorem asks_mapM {f : α → Raising Q A ε β} {l : List α} (hf : ∀ x ∈ l, (f x).run.Asks P) :
    (l.mapM f).run.Asks P := by
  induction l with
  | nil => exact trivial
  | cons x xs ih =>
    rw [List.mapM_cons]
    exact asks_bind (hf x (by simp)) fun _ =>
      asks_bind (ih fun y hy => hf y (by simp [hy])) fun _ => trivial

end

end Raising
