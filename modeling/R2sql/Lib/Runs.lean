-- Runs of a machine with labelled steps, and the rules for what holds along
-- them: an invariant of the states, and a law of the labels.
import Mathlib

namespace runs

variable {σ α : Type} {step : σ → α → Option σ}

/-- The state after the labels, if the machine can take a step for each of them in turn. -/
def run (step : σ → α → Option σ) : σ → List α → Option σ
  | s, [] => some s
  | s, a :: as => (step s a).bind fun t => run step t as

@[simp] theorem run_nil (s : σ) : run step s [] = some s := rfl

theorem run_cons_iff {s t : σ} {a : α} {as : List α} :
    run step s (a :: as) = some t ↔ ∃ u, step s a = some u ∧ run step u as = some t := by
  rw [run, Option.bind_eq_some_iff]

theorem run_append_iff {s t : σ} {as bs : List α} :
    run step s (as ++ bs) = some t ↔ ∃ u, run step s as = some u ∧ run step u bs = some t := by
  induction as generalizing s with
  | nil => simp
  | cons a as ih =>
    rw [List.cons_append, run_cons_iff]
    constructor
    · rintro ⟨u, hstep, hrun⟩
      obtain ⟨v, hv, hvt⟩ := ih.mp hrun
      exact ⟨v, run_cons_iff.mpr ⟨u, hstep, hv⟩, hvt⟩
    · rintro ⟨v, hv, hvt⟩
      obtain ⟨u, hstep, hrun⟩ := run_cons_iff.mp hv
      exact ⟨u, hstep, ih.mpr ⟨v, hrun, hvt⟩⟩

theorem run_map {β : Type} (f : β → α) (s : σ) (bs : List β) :
    run step s (bs.map f) = run (fun s b => step s (f b)) s bs := by
  induction bs generalizing s with
  | nil => rfl
  | cons b bs ih =>
    rw [List.map_cons, run, run]
    exact congrArg _ (funext ih)

/-! ## Invariants -/

/-- What holds at the start and survives each step holds after every run. -/
theorem run_invariant {I : σ → Prop} (hstep : ∀ s a t, I s → step s a = some t → I t) {s t : σ}
    {as : List α} (hs : I s) (hrun : run step s as = some t) : I t := by
  induction as generalizing s with
  | nil =>
    rw [run_nil, Option.some.injEq] at hrun
    exact hrun ▸ hs
  | cons a as ih =>
    obtain ⟨u, hu, hrest⟩ := run_cons_iff.mp hrun
    exact ih (hstep s a u hs hu) hrest

/-- Every step of the run meets `G`, a condition on its label and the state before it. -/
def Along (step : σ → α → Option σ) (G : σ → α → Prop) : σ → List α → Prop
  | _, [] => True
  | s, a :: as => G s a ∧ ∀ t, step s a = some t → Along step G t as

/-- A test of every step of a run. -/
def alongTest (step : σ → α → Option σ) (test : σ → α → Bool) : σ → List α → Bool
  | _, [] => true
  | s, a :: as =>
    test s a &&
      match step s a with
      | none => true
      | some t => alongTest step test t as

theorem along_of_test {G : σ → α → Prop} {test : σ → α → Bool}
    (htest : ∀ s a, test s a = true → G s a) {s : σ} {as : List α}
    (h : alongTest step test s as = true) : Along step G s as := by
  induction as generalizing s with
  | nil => trivial
  | cons a as ih =>
    rw [alongTest, Bool.and_eq_true] at h
    refine ⟨htest s a h.1, fun t ht => ih ?_⟩
    have hrest := h.2
    rwa [ht] at hrest

theorem along_append {G : σ → α → Prop} {s t : σ} {as bs : List α}
    (h : Along step G s (as ++ bs)) (hrun : run step s as = some t) :
    Along step G s as ∧ Along step G t bs := by
  induction as generalizing s with
  | nil =>
    rw [run_nil, Option.some.injEq] at hrun
    exact ⟨trivial, hrun ▸ h⟩
  | cons a as ih =>
    obtain ⟨u, hu, hrest⟩ := run_cons_iff.mp hrun
    refine ⟨⟨h.1, fun v hv => ?_⟩, (ih (h.2 u hu) hrest).2⟩
    rw [hu, Option.some.injEq] at hv
    exact hv ▸ (ih (h.2 u hu) hrest).1

/-- What holds at the start and survives each step that meets the condition holds after every run
whose steps all meet it. -/
theorem run_invariant_along {I : σ → Prop} {G : σ → α → Prop}
    (hstep : ∀ s a t, I s → G s a → step s a = some t → I t) {s t : σ} {as : List α} (hs : I s)
    (hG : Along step G s as) (hrun : run step s as = some t) : I t := by
  induction as generalizing s with
  | nil =>
    rw [run_nil, Option.some.injEq] at hrun
    exact hrun ▸ hs
  | cons a as ih =>
    obtain ⟨u, hu, hrest⟩ := run_cons_iff.mp hrun
    exact ih (hstep s a u hs hG.1 hu) (hG.2 u hu) hrest

/-- A step of the run meets `P`. -/
def Happens (step : σ → α → Option σ) (P : σ → α → Prop) (s : σ) (as : List α) : Prop :=
  ∃ before a after u, as = before ++ a :: after ∧ run step s before = some u ∧ P u a

theorem happens_cons {P : σ → α → Prop} {s u : σ} {a : α} {as : List α} (hu : step s a = some u)
    (h : Happens step P u as) : Happens step P s (a :: as) := by
  obtain ⟨before, b, after, v, rfl, hbefore, hb⟩ := h
  exact ⟨a :: before, b, after, v, rfl, run_cons_iff.mpr ⟨u, hu, hbefore⟩, hb⟩

/-- The step, with the run before it and the run after it. -/
theorem Happens.split {P : σ → α → Prop} {s t : σ} {as : List α} (h : Happens step P s as)
    (hrun : run step s as = some t) :
    ∃ before a u v after, as = before ++ a :: after ∧ run step s before = some u ∧ P u a ∧
      step u a = some v ∧ run step v after = some t := by
  obtain ⟨before, a, after, u, rfl, hbefore, ha⟩ := h
  obtain ⟨u', hu', hrest⟩ := run_append_iff.mp hrun
  rw [hbefore, Option.some.injEq] at hu'
  subst hu'
  obtain ⟨v, hv, hafter⟩ := run_cons_iff.mp hrest
  exact ⟨before, a, u, v, after, rfl, hbefore, ha, hv, hafter⟩

/-- What happens in a run happens in a longer one, and so does its last step. -/
theorem happens_concat_iff {P : σ → α → Prop} {s : σ} {a : α} {as : List α} :
    Happens step P s (as ++ [a]) ↔ Happens step P s as ∨ ∃ u, run step s as = some u ∧ P u a := by
  constructor
  · rintro ⟨before, b, after, u, heq, hbefore, hb⟩
    rcases List.eq_nil_or_concat after with rfl | ⟨rest, c, rfl⟩
    · obtain ⟨rfl, hba⟩ := List.append_inj' heq rfl
      exact Or.inr ⟨u, hbefore, List.singleton_inj.mp hba ▸ hb⟩
    · rw [List.concat_eq_append, ← List.cons_append, ← List.append_assoc] at heq
      exact Or.inl ⟨before, b, rest, u, (List.append_inj' heq rfl).1, hbefore, hb⟩
  · rintro (⟨before, b, after, u, rfl, hbefore, hb⟩ | ⟨u, hrun, ha⟩)
    · exact ⟨before, b, after ++ [a], u, by simp, hbefore, hb⟩
    · exact ⟨as, a, [], u, rfl, hrun, ha⟩

/-- What relates the state and the labels so far at the start, and after each step, relates them
after every run. -/
theorem run_invariant_history {s₀ : σ} {I : σ → List α → Prop}
    (hstep : ∀ s as a t, run step s₀ as = some s → I s as → step s a = some t → I t (as ++ [a]))
    (hs : I s₀ []) {t : σ} {as : List α} (hrun : run step s₀ as = some t) : I t as := by
  induction as using List.reverseRecOn generalizing t with
  | nil =>
    rw [run_nil, Option.some.injEq] at hrun
    exact hrun ▸ hs
  | append_singleton as a ih =>
    obtain ⟨s, hbefore, hlast⟩ := run_append_iff.mp hrun
    obtain ⟨u, hu, hend⟩ := run_cons_iff.mp hlast
    rw [run_nil, Option.some.injEq] at hend
    exact hend ▸ hstep s as a u hbefore (ih hbefore) hu

/-- Where the entries of a log come from: each is there at the start, or from a step of the run. -/
theorem happens_of_log {β : Type} (log : σ → List β) (writes : σ → α → β → Prop)
    (hstep : ∀ s a t e, step s a = some t → e ∈ log t → e ∈ log s ∨ writes s a e) {s t : σ}
    {as : List α} (hrun : run step s as = some t) {e : β} (he : e ∈ log t) :
    e ∈ log s ∨ Happens step (fun u a => writes u a e) s as := by
  induction as generalizing s with
  | nil =>
    rw [run_nil, Option.some.injEq] at hrun
    exact Or.inl (hrun ▸ he)
  | cons a as ih =>
    obtain ⟨u, hu, hrest⟩ := run_cons_iff.mp hrun
    rcases ih hrest with hlog | hlater
    · exact (hstep s a u e hu hlog).imp_right fun h => ⟨[], a, as, s, rfl, rfl, h⟩
    · exact Or.inr (happens_cons hu hlater)

/-- The same by the labels alone. -/
theorem run_log {β : Type} (log : σ → List β) (from_label : α → β → Prop)
    (hstep : ∀ s a t e, step s a = some t → e ∈ log t → e ∈ log s ∨ from_label a e) {s t : σ}
    {as : List α} (hrun : run step s as = some t) {e : β} (he : e ∈ log t) :
    e ∈ log s ∨ ∃ a ∈ as, from_label a e := by
  refine (happens_of_log log (fun _ => from_label) hstep hrun he).imp_right ?_
  rintro ⟨before, a, after, u, rfl, -, ha⟩
  exact ⟨a, by simp, ha⟩

/-! ## Labels that lower a rank -/

/-- Where each label of one kind lowers a rank and no label raises it, a run has no more labels of
the kind than the rank is lowered by. The steps meet `G`. -/
theorem run_rank {I : σ → Prop} {G : σ → α → Prop} (mine : α → Bool) (rank : σ → Nat)
    (hstep : ∀ s a t, I s → G s a → step s a = some t →
      I t ∧ rank t + (if mine a then 1 else 0) ≤ rank s) {s t : σ} {as : List α} (hs : I s)
    (hG : Along step G s as) (hrun : run step s as = some t) :
    rank t + as.countP mine ≤ rank s := by
  induction as generalizing s with
  | nil =>
    rw [run_nil, Option.some.injEq] at hrun
    rw [hrun, List.countP_nil, Nat.add_zero]
  | cons a as ih =>
    obtain ⟨u, hu, hrest⟩ := run_cons_iff.mp hrun
    obtain ⟨hIu, hlower⟩ := hstep s a u hs hG.1 hu
    have hafter := ih hIu (hG.2 u hu) hrest
    rw [List.countP_cons]
    omega

theorem along_of_forall {G : σ → α → Prop} (h : ∀ s a, G s a) (s : σ) (as : List α) :
    Along step G s as := by
  induction as generalizing s with
  | nil => trivial
  | cons a as ih => exact ⟨h s a, fun t _ => ih t⟩

/-! ## A record of a run -/

/-- What is written down along a run: `note` adds what one step did. -/
def record {γ : Type} (step : σ → α → Option σ) (note : σ → α → σ → γ → γ) :
    σ → List α → γ → γ
  | _, [], g => g
  | s, a :: as, g =>
    match step s a with
    | none => g
    | some t => record step note t as (note s a t g)

theorem record_concat {γ : Type} {note : σ → α → σ → γ → γ} {s t u : σ} {a : α} {as : List α}
    (hrun : run step s as = some t) (hu : step t a = some u) (g : γ) :
    record step note s (as ++ [a]) g = note t a u (record step note s as g) := by
  induction as generalizing s g with
  | nil =>
    rw [run_nil, Option.some.injEq] at hrun
    subst hrun
    simp only [List.nil_append, record, hu]
  | cons b as ih =>
    obtain ⟨v, hv, hrest⟩ := run_cons_iff.mp hrun
    rw [List.cons_append, record, record, hv]
    exact ih hrest _

/-- What relates the state and the record at the start and after each step relates them after every
run. -/
theorem run_invariant_record {γ : Type} {note : σ → α → σ → γ → γ} {I : σ → γ → Prop}
    (hstep : ∀ s a t g, I s g → step s a = some t → I t (note s a t g)) {s t : σ} {g : γ}
    {as : List α} (hs : I s g) (hrun : run step s as = some t) :
    I t (record step note s as g) := by
  induction as generalizing s g with
  | nil =>
    rw [run_nil, Option.some.injEq] at hrun
    exact hrun ▸ hs
  | cons a as ih =>
    obtain ⟨u, hu, hrest⟩ := run_cons_iff.mp hrun
    rw [record, hu]
    exact ih (hstep s a u g hs hu) hrest

/-- Where the entries of a record come from. -/
theorem happens_of_record {γ β : Type} {note : σ → α → σ → γ → γ} (entries : γ → List β)
    (writes : σ → α → β → Prop)
    (hnote : ∀ s a t g e, step s a = some t → e ∈ entries (note s a t g) →
      e ∈ entries g ∨ writes s a e) {s t : σ} {g : γ} {as : List α}
    (hrun : run step s as = some t) {e : β} (he : e ∈ entries (record step note s as g)) :
    e ∈ entries g ∨ Happens step (fun u a => writes u a e) s as := by
  induction as generalizing s g with
  | nil => exact Or.inl he
  | cons a as ih =>
    obtain ⟨u, hu, hrest⟩ := run_cons_iff.mp hrun
    rw [record, hu] at he
    rcases ih hrest he with hentry | hlater
    · exact (hnote s a u g e hu hentry).imp_right fun h => ⟨[], a, as, s, rfl, rfl, h⟩
    · exact Or.inr (happens_cons hu hlater)

/-! ## A machine that always steps, and an abstract one -/

/-- Every step of a run that is never refused meets `G`. -/
def AlongAll (step : σ → α → σ) (G : σ → α → Prop) : σ → List α → Prop
  | _, [] => True
  | s, a :: as => G s a ∧ AlongAll step G (step s a) as

/-- Where one step follows the abstract machine exactly when it meets `G`, a run follows it all the
way exactly when all its steps meet `G`. -/
theorem follows_iff_alongAll {τ : Type} {step : σ → α → σ} {abstract : τ → α → τ} {view : σ → τ}
    {G : σ → α → Prop} (hstep : ∀ s a, view (step s a) = abstract (view s) a ↔ G s a) (s : σ)
    (as : List α) :
    (∀ bs, bs <+: as → view (bs.foldl step s) = bs.foldl abstract (view s)) ↔
      AlongAll step G s as := by
  induction as generalizing s with
  | nil =>
    rw [AlongAll, iff_true]
    intro bs hbs
    rw [List.prefix_nil.mp hbs]
    rfl
  | cons a as ih =>
    rw [AlongAll, ← hstep s a, ← ih (step s a)]
    constructor
    · intro h
      have ha := h [a] (by simp)
      refine ⟨ha, fun bs hbs => ?_⟩
      have hmore := h (a :: bs) (by simpa using hbs)
      rw [List.foldl_cons, List.foldl_cons] at hmore
      rwa [show view (step s a) = abstract (view s) a from ha]
    · rintro ⟨ha, hrest⟩ bs hbs
      cases bs with
      | nil => rfl
      | cons b bs =>
        obtain ⟨rfl, hprefix⟩ := List.cons_prefix_cons.mp hbs
        rw [List.foldl_cons, List.foldl_cons, ← ha]
        exact hrest bs hprefix

/-! ## Laws of the labels -/

/-- A law of the labels: each step from a state with the invariant, under a label that meets `G`,
keeps the invariant and gives `Q` of the label. -/
theorem run_labels {I : σ → Prop} {G Q : α → Prop}
    (hstep : ∀ s a t, I s → G a → step s a = some t → I t ∧ Q a) {s t : σ} {as : List α}
    (hs : I s) (hG : ∀ a ∈ as, G a) (hrun : run step s as = some t) : I t ∧ ∀ a ∈ as, Q a := by
  induction as generalizing s with
  | nil =>
    rw [run_nil, Option.some.injEq] at hrun
    subst hrun
    exact ⟨hs, by simp⟩
  | cons a as ih =>
    obtain ⟨u, hu, hrest⟩ := run_cons_iff.mp hrun
    obtain ⟨hIu, hQ⟩ := hstep s a u hs (hG a (by simp)) hu
    obtain ⟨hIt, hall⟩ := ih hIu (fun b hb => hG b (by simp [hb])) hrest
    exact ⟨hIt, List.forall_mem_cons.mpr ⟨hQ, hall⟩⟩

/-- Labels for a list of inputs: where each input has a good label that the machine can take from a
state with the invariant, and that keeps it, there is a run of good labels for the whole list. -/
theorem exists_run {ι : Type} {I : σ → Prop} {G : α → Prop} (input : α → ι) (is : List ι)
    (hstep : ∀ s, ∀ i ∈ is, I s → ∃ a t, (input a = i ∧ G a) ∧ step s a = some t ∧ I t) {s : σ}
    (hs : I s) :
    ∃ as t, (as.map input = is ∧ ∀ a ∈ as, G a) ∧ run step s as = some t ∧ I t := by
  induction is generalizing s with
  | nil => exact ⟨[], s, ⟨rfl, by simp⟩, rfl, hs⟩
  | cons i is ih =>
    obtain ⟨a, u, ⟨ha, hG⟩, hu, hIu⟩ := hstep s i (by simp) hs
    obtain ⟨as, t, ⟨has, hall⟩, hrun, hIt⟩ :=
      ih (fun s j hj => hstep s j (List.mem_cons_of_mem _ hj)) hIu
    exact ⟨a :: as, t, ⟨by rw [List.map_cons, ha, has], List.forall_mem_cons.mpr ⟨hG, hall⟩⟩,
      run_cons_iff.mpr ⟨u, hu, hrun⟩, hIt⟩

/-- Where each step, seen from outside, is a step of another machine, a run is a run of it. -/
theorem run_view {τ β : Type} {step' : τ → β → Option τ} {I : σ → Prop} (view : σ → τ) (f : α → β)
    (hstep : ∀ s a t, I s → step s a = some t → I t ∧ step' (view s) (f a) = some (view t))
    {s t : σ} {as : List α} (hs : I s) (hrun : run step s as = some t) :
    run step' (view s) (as.map f) = some (view t) := by
  induction as generalizing s with
  | nil =>
    rw [run_nil, Option.some.injEq] at hrun
    rw [hrun]
    rfl
  | cons a as ih =>
    obtain ⟨u, hu, hrest⟩ := run_cons_iff.mp hrun
    obtain ⟨hIu, hu'⟩ := hstep s a u hs hu
    exact run_cons_iff.mpr ⟨view u, hu', ih hIu hrest⟩

/-! ## A machine that steps by itself -/

section
variable {turn : σ → Option σ}

/-- The state after `n` turns, if the machine can take them all. -/
def turns (turn : σ → Option σ) : Nat → σ → Option σ
  | 0, s => some s
  | n + 1, s => (turn s).bind (turns turn n)

theorem turns_succ_iff {n : Nat} {s t : σ} :
    turns turn (n + 1) s = some t ↔ ∃ u, turn s = some u ∧ turns turn n u = some t := by
  rw [turns, Option.bind_eq_some_iff]

/-- What holds at the start and survives each turn holds after any number of turns. -/
theorem turns_invariant {I : σ → Prop} (hturn : ∀ s t, I s → turn s = some t → I t) {n : Nat}
    {s t : σ} (hs : I s) (hrun : turns turn n s = some t) : I t := by
  induction n generalizing s with
  | zero =>
    rw [turns, Option.some.injEq] at hrun
    exact hrun ▸ hs
  | succ n ih =>
    obtain ⟨u, hu, hrest⟩ := turns_succ_iff.mp hrun
    exact ih (hturn s u hs hu) hrest

/-- Where each state with the invariant is the end, or the machine goes on to one with the invariant
and a smaller rank, it comes to an end. -/
theorem exists_end {I End : σ → Prop} {τ : Type} [LT τ] [WellFoundedLT τ] (rank : σ → τ)
    (hturn : ∀ s, I s → End s ∨ ∃ t, turn s = some t ∧ I t ∧ rank t < rank s) {s : σ} (hs : I s) :
    ∃ n t, turns turn n s = some t ∧ End t := by
  induction hr : rank s using WellFoundedLT.induction generalizing s with
  | ind r ih =>
    subst hr
    rcases hturn s hs with hend | ⟨u, hu, hIu, hlt⟩
    · exact ⟨0, s, rfl, hend⟩
    · obtain ⟨n, t, hrun, hend⟩ := ih (rank u) hlt hIu rfl
      exact ⟨n + 1, t, turns_succ_iff.mpr ⟨u, hu, hrun⟩, hend⟩

end

/-! ## Labels before and after a first one -/

section
variable {P Q : α → Prop} {l : List α}

/-- Where `Q` holds of each label with `P` and of all after it, the labels without `P` come first,
up to a point, and `Q` holds from there on. -/
theorem exists_split (hPQ : ∀ a, P a → Q a) (h : l.Pairwise fun a b => P a → Q b) :
    ∃ n, (∀ a ∈ l.take n, ¬ P a) ∧ ∀ a ∈ l.drop n, Q a := by
  induction l with
  | nil => exact ⟨0, by simp⟩
  | cons a l ih =>
    rw [List.pairwise_cons] at h
    by_cases ha : P a
    · exact ⟨0, by simp, List.forall_mem_cons.mpr ⟨hPQ a ha, fun b hb => h.1 b hb ha⟩⟩
    · obtain ⟨n, hbefore, hafter⟩ := ih h.2
      exact ⟨n + 1, List.forall_mem_cons.mpr ⟨ha, hbefore⟩, hafter⟩

/-- Where a label without `Q` comes after one with `P`, there is a first one with `P`, and then a
first one without `Q`. -/
theorem exists_first_pair (h : ¬ l.Pairwise fun a b => P a → Q b) :
    ∃ before a between b after, l = before ++ a :: (between ++ b :: after) ∧
      (∀ c ∈ before, ¬ P c) ∧ P a ∧ (∀ c ∈ between, Q c) ∧ ¬ Q b := by
  induction l with
  | nil => simp at h
  | cons a l ih =>
    by_cases hpair : P a ∧ ∃ b ∈ l, ¬ Q b
    · obtain ⟨ha, hb⟩ := hpair
      obtain ⟨between, b, after, hl, hbetween, hb⟩ :
          ∃ between b after, l = between ++ b :: after ∧ (∀ c ∈ between, Q c) ∧ ¬ Q b := by
        clear ih h
        induction l with
        | nil => simp at hb
        | cons c l ih =>
          by_cases hc : Q c
          · obtain ⟨between, b, after, rfl, hbetween, hb⟩ := ih (by simpa [hc] using hb)
            exact ⟨c :: between, b, after, rfl, List.forall_mem_cons.mpr ⟨hc, hbetween⟩, hb⟩
          · exact ⟨[], c, l, rfl, by simp, hc⟩
      exact ⟨[], a, between, b, after, by rw [hl, List.nil_append], by simp, ha, hbetween, hb⟩
    · have hrest : ¬ l.Pairwise fun a b => P a → Q b := by
        intro hrest
        refine h (List.pairwise_cons.mpr ⟨fun b hb ha => ?_, hrest⟩)
        by_contra hQ
        exact hpair ⟨ha, b, hb, hQ⟩
      obtain ⟨before, p, between, b, after, rfl, hbefore, hp, hbetween, hb⟩ := ih hrest
      by_cases ha : P a
      · exact absurd ⟨ha, b, by simp, hb⟩ hpair
      · exact ⟨a :: before, p, between, b, after, rfl, List.forall_mem_cons.mpr ⟨ha, hbefore⟩, hp,
          hbetween, hb⟩

end

end runs
