-- Command lines of options: each has a name, and a value, none, or one that
-- can be left out. A line is read from left to right, and in one way only.
import Mathlib

namespace options

variable {W : Type}

/-- What comes after the name of an option. -/
inductive Kind where
  | flag
  | value
  | optional
  deriving DecidableEq

/-- The options of a program. `accepts` tells which word is taken as the value of an option that can
be without; no name of an option is. -/
structure Grammar (W : Type) where
  kind : W → Option Kind
  accepts : W → Bool
  not_accepted : ∀ w, accepts w = true → kind w = none

/-- An option as it is given. -/
structure Given (W : Type) where
  name : W
  value : Option W
  deriving DecidableEq

def Given.words (o : Given W) : List W := o.name :: o.value.toList

namespace Grammar

variable (G : Grammar W)

/-- The option at the front of a line, and the words after it. -/
def next : List W → Option (Given W × List W)
  | [] => none
  | k :: rest =>
    match G.kind k, rest with
    | none, _ => none
    | some .flag, rest => some (⟨k, none⟩, rest)
    | some .value, [] => none
    | some .value, v :: rest => some (⟨k, some v⟩, rest)
    | some .optional, [] => some (⟨k, none⟩, [])
    | some .optional, v :: rest =>
      if G.accepts v then some (⟨k, some v⟩, rest) else some (⟨k, none⟩, v :: rest)

/-- The option has what its kind says. -/
def fits (o : Given W) : Bool :=
  match G.kind o.name, o.value with
  | some .flag, none => true
  | some .value, some _ => true
  | some .optional, none => true
  | some .optional, some v => G.accepts v
  | _, _ => false

def Fits (o : Given W) : Prop := G.fits o = true

instance (o : Given W) : Decidable (G.Fits o) := inferInstanceAs (Decidable (G.fits o = true))

theorem next_fits {ws rest : List W} {o : Given W} (h : G.next ws = some (o, rest)) :
    G.Fits o ∧ ws = o.words ++ rest := by
  unfold next at h
  split at h
  · cases h
  · rename_i k tail
    split at h
    · cases h
    · rename_i hkind
      cases h
      exact ⟨by simp [Fits, fits, hkind], rfl⟩
    · cases h
    · rename_i hkind
      cases h
      exact ⟨by simp [Fits, fits, hkind], rfl⟩
    · rename_i hkind
      cases h
      exact ⟨by simp [Fits, fits, hkind], rfl⟩
    · rename_i hkind
      split at h <;> cases h
      · rename_i haccepts
        exact ⟨by simp [Fits, fits, hkind, haccepts], rfl⟩
      · exact ⟨by simp [Fits, fits, hkind], rfl⟩

theorem next_words {o : Given W} (ho : G.Fits o) {rest : List W}
    (hrest : ∀ w ∈ rest.head?, G.kind w ≠ none) : G.next (o.words ++ rest) = some (o, rest) := by
  obtain ⟨k, value⟩ := o
  unfold Fits fits at ho
  simp only [Given.words, List.cons_append]
  cases hkind : G.kind k with
  | none => simp [hkind] at ho
  | some kind =>
    cases kind with
    | flag =>
      cases value with
      | none => simp [next, hkind]
      | some v => simp [hkind] at ho
    | value =>
      cases value with
      | none => simp [hkind] at ho
      | some v => simp [next, hkind]
    | optional =>
      cases value with
      | none =>
        cases rest with
        | nil => simp [next, hkind]
        | cons w rest =>
          have hw : G.accepts w = false := by
            rw [Bool.eq_false_iff]
            exact fun haccepts => hrest w rfl (G.not_accepted w haccepts)
          simp [next, hkind, hw]
      | some v =>
        simp only [hkind] at ho
        simp [next, hkind, ho]

theorem next_cons_none {k : W} {rest : List W} :
    G.next (k :: rest) = none ↔ G.kind k = none ∨ G.kind k = some .value ∧ rest = [] := by
  cases hkind : G.kind k with
  | none => simp [next, hkind]
  | some kind =>
    cases kind with
    | flag => simp [next, hkind]
    | value => cases rest <;> simp [next, hkind]
    | optional =>
      cases rest with
      | nil => simp [next, hkind]
      | cons v rest => cases haccepts : G.accepts v <;> simp [next, hkind, haccepts]

theorem length_next {ws rest : List W} {o : Given W} (h : G.next ws = some (o, rest)) :
    rest.length < ws.length := by
  rw [(G.next_fits h).2]
  simp [Given.words]

/-- The options of a line, and the words from where it stops. -/
def read (ws : List W) : List (Given W) × List W :=
  match _h : G.next ws with
  | none => ([], ws)
  | some (o, rest) =>
    let r := read rest
    (o :: r.1, r.2)
termination_by ws.length
decreasing_by exact G.length_next ‹_›

theorem read_of_none {ws : List W} (h : G.next ws = none) : G.read ws = ([], ws) := by
  rw [read]
  split
  · rfl
  · rename_i hnext
    rw [h] at hnext
    cases hnext

theorem read_of_some {ws rest : List W} {o : Given W} (h : G.next ws = some (o, rest)) :
    G.read ws = (o :: (G.read rest).1, (G.read rest).2) := by
  rw [read]
  split
  · rename_i hnext
    rw [h] at hnext
    cases hnext
  · rename_i hnext
    rw [h] at hnext
    cases hnext
    rfl

/-- The words are those of the options and the rest, and no option is at the front of the rest. -/
theorem read_spec (ws : List W) :
    (∀ o ∈ (G.read ws).1, G.Fits o) ∧ ws = (G.read ws).1.flatMap Given.words ++ (G.read ws).2 ∧
      G.next (G.read ws).2 = none := by
  induction hn : ws.length using Nat.strong_induction_on generalizing ws with
  | _ n ih =>
    subst hn
    cases hnext : G.next ws with
    | none =>
      rw [G.read_of_none hnext]
      exact ⟨by simp, rfl, hnext⟩
    | some p =>
      obtain ⟨o, rest⟩ := p
      obtain ⟨ho, hws⟩ := G.next_fits hnext
      obtain ⟨hall, hrest, hstop⟩ := ih _ (G.length_next hnext) rest rfl
      rw [G.read_of_some hnext]
      refine ⟨List.forall_mem_cons.mpr ⟨ho, hall⟩, ?_, hstop⟩
      rw [List.flatMap_cons, List.append_assoc, ← hrest]
      exact hws

theorem head_words {os : List (Given W)} (hos : ∀ o ∈ os, G.Fits o) :
    ∀ w ∈ (os.flatMap Given.words).head?, G.kind w ≠ none := by
  intro w hw hnone
  cases os with
  | nil => cases hw
  | cons o os =>
    simp only [List.flatMap_cons, Given.words, List.cons_append, List.head?_cons,
      Option.mem_some_iff] at hw
    subst hw
    have ho := hos o (by simp)
    simp [Fits, fits, hnone] at ho

theorem read_words {os : List (Given W)} (hos : ∀ o ∈ os, G.Fits o) :
    G.read (os.flatMap Given.words) = (os, []) := by
  induction os with
  | nil => exact G.read_of_none rfl
  | cons o os ih =>
    rw [List.forall_mem_cons] at hos
    rw [List.flatMap_cons, G.read_of_some (G.next_words hos.1 (G.head_words hos.2)), ih hos.2]

/-- There is one way at most to write a line as options. -/
theorem words_injective {os os' : List (Given W)} (hos : ∀ o ∈ os, G.Fits o)
    (hos' : ∀ o ∈ os', G.Fits o) (h : os.flatMap Given.words = os'.flatMap Given.words) :
    os = os' := by
  have hread := G.read_words hos
  rw [h, G.read_words hos'] at hread
  exact (Prod.mk.inj hread).1.symm

end Grammar

/-! ## The order of the options -/

section
variable {O A K : Type} {key : O → K} {f : A → O → A}

/-- What has no option of the key before it comes to the front. -/
theorem foldl_front (hcomm : ∀ a o o', key o ≠ key o' → f (f a o) o' = f (f a o') o) {o : O}
    {before : List O} (hbefore : ∀ o' ∈ before, key o' ≠ key o) (after : List O) (a : A) :
    (before ++ o :: after).foldl f a = (before ++ after).foldl f (f a o) := by
  induction before generalizing a with
  | nil => rfl
  | cons b before ih =>
    rw [List.forall_mem_cons] at hbefore
    rw [List.cons_append, List.cons_append, List.foldl_cons, List.foldl_cons, ih hbefore.2,
      hcomm a b o hbefore.1]

/-- Where options with different keys commute, it matters alone in which order those with the same
key come. -/
theorem foldl_eq_of_filter_eq [DecidableEq K]
    (hcomm : ∀ a o o', key o ≠ key o' → f (f a o) o' = f (f a o') o) {os os' : List O}
    (h : ∀ k, os.filter (fun o => key o = k) = os'.filter fun o => key o = k)
    (a : A) : os.foldl f a = os'.foldl f a := by
  induction os generalizing os' a with
  | nil =>
    cases os' with
    | nil => rfl
    | cons o os' =>
      have ho := h (key o)
      simp at ho
  | cons o os ih =>
    have ho : o ∈ os'.filter fun o' => key o' = key o := by
      rw [← h (key o)]
      simp
    -- The first option of the key of `o` in the other list is `o`.
    obtain ⟨before, first, after, rfl, hbefore, hfirst⟩ :
        ∃ before first after, os' = before ++ first :: after ∧
          (∀ o' ∈ before, key o' ≠ key o) ∧ key first = key o := by
      have hmem := (List.mem_filter.mp ho).1
      clear h ih
      induction os' with
      | nil => cases hmem
      | cons b os' ih =>
        by_cases hb : key b = key o
        · exact ⟨[], b, os', rfl, by simp, hb⟩
        · have hmem' : o ∈ os' := by
            rcases List.mem_cons.mp hmem with rfl | hmem'
            · exact absurd rfl hb
            · exact hmem'
          obtain ⟨before, first, after, rfl, hbefore, hfirst⟩ :=
            ih (List.mem_filter.mpr ⟨hmem', by simp⟩) hmem'
          exact ⟨b :: before, first, after, rfl, List.forall_mem_cons.mpr ⟨hb, hbefore⟩, hfirst⟩
    have hnone : before.filter (fun o' => key o' = key o) = [] := by
      rw [List.filter_eq_nil_iff]
      simpa using hbefore
    have hsame := h (key o)
    rw [List.filter_cons_of_pos (by simp), List.filter_append, hnone, List.nil_append,
      List.filter_cons_of_pos (by simpa using hfirst), List.cons.injEq] at hsame
    obtain ⟨rfl, hrest⟩ := hsame
    rw [foldl_front hcomm hbefore, List.foldl_cons]
    refine ih (fun k => ?_) (f a o)
    have hk := h k
    by_cases hok : key o = k
    · subst hok
      rw [List.filter_append, hnone, List.nil_append]
      exact hrest
    · rwa [List.filter_cons_of_neg (by simpa using hok), List.filter_append,
        List.filter_cons_of_neg (by simpa using hok), ← List.filter_append] at hk

end

end options
