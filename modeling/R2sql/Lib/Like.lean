-- Wildcard patterns over any alphabet: a pattern is a list of tokens, and
-- it matches a text that splits into one run for each token.
import Mathlib

namespace like

/-- One token of a pattern: a letter, any one letter, or any run of letters. -/
inductive Token (α : Type) where
  | lit (a : α)
  | one
  | any
  deriving DecidableEq

variable {α : Type}

/-- The pattern matches the text, where `ok r t` says that an `any` may stand for the run `r`
when the text goes on with `t`. -/
inductive Matches (ok : List α → List α → Prop) : List (Token α) → List α → Prop
  | nil : Matches ok [] []
  | lit {a : α} {p : List (Token α)} {t : List α} :
    Matches ok p t → Matches ok (.lit a :: p) (a :: t)
  | one {a : α} {p : List (Token α)} {t : List α} : Matches ok p t → Matches ok (.one :: p) (a :: t)
  | any {r t : List α} {p : List (Token α)} :
      ok r t → Matches ok p t → Matches ok (.any :: p) (r ++ t)

/-- The matches of `LIKE`: an `any` stands for any run. -/
def Like : List (Token α) → List α → Prop := Matches fun _ _ => True

section
variable {ok ok' : List α → List α → Prop} {p q : List (Token α)} {t : List α}

theorem Matches.mono (h : ∀ r t, ok r t → ok' r t) (hm : Matches ok p t) : Matches ok' p t := by
  induction hm with
  | nil => exact .nil
  | lit _ ih => exact .lit ih
  | one _ ih => exact .one ih
  | any hr _ ih => exact .any (h _ _ hr) ih

theorem Matches.toLike (hm : Matches ok p t) : Like p t := hm.mono fun _ _ _ => trivial

@[simp] theorem matches_nil : Matches ok [] t ↔ t = [] := by
  constructor
  · intro h
    cases h
    rfl
  · rintro rfl
    exact .nil

@[simp] theorem matches_lit_cons {a b : α} :
    Matches ok (.lit a :: p) (b :: t) ↔ a = b ∧ Matches ok p t := by
  constructor
  · intro h
    cases h with
    | lit h => exact ⟨rfl, h⟩
  · rintro ⟨rfl, h⟩
    exact .lit h

@[simp] theorem not_matches_lit_nil {a : α} : ¬ Matches ok (.lit a :: p) [] := nofun

@[simp] theorem matches_one_cons {a : α} : Matches ok (.one :: p) (a :: t) ↔ Matches ok p t := by
  constructor
  · intro h
    cases h with
    | one h => exact h
  · exact .one

@[simp] theorem not_matches_one_nil : ¬ Matches ok (.one :: p) [] := nofun

theorem matches_any :
    Matches ok (.any :: p) t ↔ ∃ r t', t = r ++ t' ∧ ok r t' ∧ Matches ok p t' := by
  constructor
  · intro h
    cases h with
    | any hr h => exact ⟨_, _, rfl, hr, h⟩
  · rintro ⟨r, t', rfl, hr, h⟩
    exact .any hr h

theorem matches_any_iff_split : Matches ok (.any :: p) t ↔
    ∃ n ∈ List.range (t.length + 1), ok (t.take n) (t.drop n) ∧ Matches ok p (t.drop n) := by
  rw [matches_any]
  constructor
  · rintro ⟨r, t', rfl, hr, h⟩
    refine ⟨r.length, by simp, ?_⟩
    rw [List.take_left, List.drop_left]
    exact ⟨hr, h⟩
  · rintro ⟨n, -, hr, h⟩
    exact ⟨t.take n, t.drop n, (List.take_append_drop n t).symm, hr, h⟩

/-- The match by trying every length for the run of an `any`. -/
def decidableMatches [DecidableEq α] (ok : List α → List α → Prop) [∀ r t, Decidable (ok r t)] :
    (p : List (Token α)) → (t : List α) → Decidable (Matches ok p t)
  | [], t => decidable_of_iff (t = []) matches_nil.symm
  | .lit _ :: _, [] => isFalse not_matches_lit_nil
  | .lit a :: p, b :: t =>
    have := decidableMatches ok p t
    decidable_of_iff (a = b ∧ Matches ok p t) matches_lit_cons.symm
  | .one :: _, [] => isFalse not_matches_one_nil
  | .one :: p, _ :: t =>
    have := decidableMatches ok p t
    decidable_of_iff (Matches ok p t) matches_one_cons.symm
  | .any :: p, t =>
    have : ∀ t, Decidable (Matches ok p t) := decidableMatches ok p
    decidable_of_iff
      (∃ n ∈ List.range (t.length + 1), ok (t.take n) (t.drop n) ∧ Matches ok p (t.drop n))
      matches_any_iff_split.symm

instance [DecidableEq α] [∀ r t, Decidable (ok r t)] : Decidable (Matches ok p t) :=
  decidableMatches ok p t

instance [DecidableEq α] : Decidable (Like p t) := inferInstanceAs (Decidable (Matches _ _ _))

/-- An `any` of `LIKE` before a pattern: the pattern matches a suffix of the text. -/
theorem like_any : Like (.any :: p) t ↔ ∃ t', t' <:+ t ∧ Like p t' := by
  unfold Like
  rw [matches_any]
  constructor
  · rintro ⟨r, t', rfl, -, h⟩
    exact ⟨t', List.suffix_append r t', h⟩
  · rintro ⟨t', ⟨r, rfl⟩, h⟩
    exact ⟨r, t', rfl, trivial, h⟩

/-- Letters alone, then an `any`: a prefix of the text. -/
theorem like_lits_any (w : List α) : Like (w.map .lit ++ [.any]) t ↔ w <+: t := by
  induction w generalizing t with
  | nil =>
    simp only [List.map_nil, List.nil_append, like_any, List.nil_prefix, iff_true]
    exact ⟨[], List.nil_suffix, .nil⟩
  | cons a w ih =>
    cases t with
    | nil => simp [Like]
    | cons b t =>
      have hw : Matches (fun _ _ => True) (w.map .lit ++ [.any]) t ↔ w <+: t := ih
      simp [Like, hw, List.cons_prefix_cons]

/-- Letters alone between two `any`s: a factor of the text. -/
theorem like_any_lits_any (w : List α) : Like (.any :: (w.map .lit ++ [.any])) t ↔ w <:+: t := by
  rw [like_any, List.infix_iff_prefix_suffix]
  constructor
  · rintro ⟨t', hs, h⟩
    exact ⟨t', (like_lits_any w).mp h, hs⟩
  · rintro ⟨t', h, hs⟩
    exact ⟨t', hs, (like_lits_any w).mpr h⟩

end

end like
