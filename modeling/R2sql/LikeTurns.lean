-- The loop of `like_match` turn by turn, on variables of which nothing is
-- known, and with every read of the two strings checked: the indices stay in
-- bounds and the loop ends, however often it falls back to a star.
import R2sql.Grep
import R2sql.Lib.Runs

namespace r2sql

open runs

/-! ## The turns -/

/-- The variables of the loop. `star` is none where the source has `npos`. -/
structure LikeVars where
  ti : Nat
  pi : Nat
  star : Option Nat
  retry : Nat
  deriving DecidableEq

/-- Where a run of `like_match` stands: before a turn of its loop, before a turn of the loop that
skips the last `%`s, or at the `return`. -/
inductive LikePoint where
  | loop (v : LikeVars)
  | skip (pi : Nat)
  | answer (b : Bool)
  deriving DecidableEq

/-- `pi < pattern.size() && (pattern[pi] == '_' || pattern[pi] == text[ti])`. There is no value
where an index is out of range. -/
def takes_byte (text pattern : Bytes) (ti pi : Nat) : Option Bool :=
  if pi < pattern.length then do
    let q ← pattern[pi]?
    if q = '_'.toUInt8 then return true
    else
      let a ← text[ti]?
      return decide (q = a)
  else return false

/-- `pi < pattern.size() && pattern[pi] == '%'`. -/
def at_percent (pattern : Bytes) (pi : Nat) : Option Bool :=
  if pi < pattern.length then do
    let q ← pattern[pi]?
    return decide (q = '%'.toUInt8)
  else return false

/-- One turn. There is none from the `return`, nor where an index is out of range. -/
def like_turn (text pattern : Bytes) : LikePoint → Option LikePoint
  | .loop v =>
    if v.ti < text.length then do
      if ← takes_byte text pattern v.ti v.pi then
        return .loop { v with ti := v.ti + 1, pi := v.pi + 1 }
      else if ← at_percent pattern v.pi then
        return .loop { v with star := some v.pi, pi := v.pi + 1, retry := v.ti }
      else
        match v.star with
        | some k => return .loop { v with pi := k + 1, ti := v.retry + 1, retry := v.retry + 1 }
        | none => return .answer false
    else return .skip v.pi
  | .skip pi => do
    if ← at_percent pattern pi then return .skip (pi + 1)
    else return .answer (pi == pattern.length)
  | .answer _ => none

/-- The variables as the function sets them before the loop. -/
def LikePoint.start : LikePoint := .loop { ti := 0, pi := 0, star := none, retry := 0 }

/-! ## Bounds and the measure -/

/-- The indices are in their strings, `retry` is not past `ti`, and the star is a `%` before
`pi`. -/
structure LikeVars.InBounds (text pattern : Bytes) (v : LikeVars) : Prop where
  ti_le : v.ti ≤ text.length
  pi_le : v.pi ≤ pattern.length
  retry_le : v.retry ≤ v.ti
  star_lt : ∀ k ∈ v.star, k < v.pi ∧ pattern[k]? = some '%'.toUInt8

def LikePoint.InBounds (text pattern : Bytes) : LikePoint → Prop
  | .loop v => v.InBounds text pattern
  | .skip pi => pi ≤ pattern.length
  | .answer _ => True

/-- The first index after the star, and 0 with no star. -/
def LikeVars.after_star (v : LikeVars) : Nat := (v.star.map (· + 1)).getD 0

/-- What each turn lowers, in the order of a dictionary: how far the run is from its end, the
pattern after the star, the text after `retry`, and the text after `ti`. -/
def LikePoint.measure (text pattern : Bytes) : LikePoint → ℕ ×ₗ ℕ ×ₗ ℕ ×ₗ ℕ
  | .loop v => toLex (2, toLex (pattern.length - v.after_star,
      toLex (text.length - v.retry, text.length - v.ti)))
  | .skip pi => toLex (1, toLex (pattern.length - pi, toLex (0, 0)))
  | .answer _ => toLex (0, toLex (0, toLex (0, 0)))

/-! ## One turn -/

section
variable {text pattern : Bytes}

/-- The variables without what is known of them. -/
def LikeState.vars (s : LikeState text pattern) : LikeVars :=
  { ti := s.ti, pi := s.pi, star := s.star, retry := s.retry }

theorem LikeState.inBounds (s : LikeState text pattern) : s.vars.InBounds text pattern where
  ti_le := s.ti_le
  pi_le := s.pi_le
  retry_le := s.retry_le
  star_lt := s.star_lt

/-- The run goes on to the answer `b`, as `like_loop` gives it. -/
def LikePoint.LeadsTo (text pattern : Bytes) (b : Bool) : LikePoint → Prop
  | .loop v => ∃ s : LikeState text pattern, s.vars = v ∧ like_loop s = b
  | .skip pi => pi ≤ pattern.length ∧ ((pattern.drop pi).all fun c => c == '%'.toUInt8) = b
  | .answer a => a = b

theorem LikePoint.LeadsTo.inBounds {b : Bool} {p : LikePoint} (h : p.LeadsTo text pattern b) :
    p.InBounds text pattern := by
  cases p with
  | loop v =>
    obtain ⟨s, rfl, -⟩ := h
    exact s.inBounds
  | skip pi => exact h.1
  | answer a => trivial

theorem takes_byte_eq {ti : Nat} (ht : ti < text.length) (pi : Nat) :
    takes_byte text pattern ti pi =
      some (decide (∃ h : pi < pattern.length,
        pattern[pi] = '_'.toUInt8 ∨ pattern[pi] = text[ti])) := by
  unfold takes_byte
  by_cases hp : pi < pattern.length
  · rw [if_pos hp, List.getElem?_eq_getElem hp, List.getElem?_eq_getElem ht]
    by_cases hone : pattern[pi] = '_'.toUInt8 <;> simp [hp, hone]
  · rw [if_neg hp]
    simp [hp]

theorem at_percent_eq (pattern : Bytes) (pi : Nat) :
    at_percent pattern pi =
      some (decide (∃ h : pi < pattern.length, pattern[pi] = '%'.toUInt8)) := by
  unfold at_percent
  by_cases hp : pi < pattern.length
  · rw [if_pos hp, List.getElem?_eq_getElem hp]
    simp [hp]
  · rw [if_neg hp]
    simp [hp]

theorem LikeState.after_star_vars (s : LikeState text pattern) :
    s.vars.after_star = s.after_star := by
  unfold LikeVars.after_star LikeState.after_star LikeState.vars
  cases s.star <;> rfl

theorem measure_loop_lt {v w : LikeVars}
    (h : pattern.length - w.after_star < pattern.length - v.after_star ∨
      w.after_star = v.after_star ∧ (text.length - w.retry < text.length - v.retry ∨
        w.retry = v.retry ∧ text.length - w.ti < text.length - v.ti)) :
    (LikePoint.loop w).measure text pattern < (LikePoint.loop v).measure text pattern := by
  simp only [LikePoint.measure, Prod.Lex.toLex_lt_toLex, lt_self_iff_false, false_or, true_and]
  rcases h with h | ⟨hstar, h | ⟨hretry, h⟩⟩
  · exact Or.inl h
  · exact Or.inr ⟨by rw [hstar], Or.inl h⟩
  · exact Or.inr ⟨by rw [hstar], Or.inr ⟨by rw [hretry], h⟩⟩

theorem like_turn_loop {ti : Nat} (ht : ti < text.length) (pi : Nat) (star : Option Nat)
    (retry : Nat) :
    like_turn text pattern (.loop { ti := ti, pi := pi, star := star, retry := retry }) = some
      (if ∃ h : pi < pattern.length, pattern[pi] = '_'.toUInt8 ∨ pattern[pi] = text[ti] then
        .loop { ti := ti + 1, pi := pi + 1, star := star, retry := retry }
      else if ∃ h : pi < pattern.length, pattern[pi] = '%'.toUInt8 then
        .loop { ti := ti, pi := pi + 1, star := some pi, retry := ti }
      else
        match star with
        | some k => .loop { ti := retry + 1, pi := k + 1, star := star, retry := retry + 1 }
        | none => .answer false) := by
  rw [like_turn, if_pos ht, takes_byte_eq ht, at_percent_eq]
  simp only [Option.pure_def, Option.bind_eq_bind, Option.bind_some, decide_eq_true_eq]
  split
  · rfl
  · split
    · rfl
    · cases star <;> rfl

/-- One turn of the loop: it reads nothing out of range, what `like_loop` answers stays the same,
and the measure falls. -/
theorem turn_of_loop {b : Bool} (s : LikeState text pattern) (hb : like_loop s = b) :
    ∃ q, like_turn text pattern (.loop s.vars) = some q ∧ q.LeadsTo text pattern b ∧
      q.measure text pattern < (LikePoint.loop s.vars).measure text pattern := by
  have hstar := s.after_star_le
  rw [← s.after_star_vars] at hstar
  have hretry := s.retry_le
  rw [like_loop] at hb
  by_cases ht : s.ti < text.length
  · rw [dif_pos ht] at hb
    refine ⟨_, like_turn_loop ht s.pi s.star s.retry, ?_⟩
    split at hb
    · -- a byte of each
      rename_i hq
      rw [if_pos hq]
      refine ⟨⟨_, rfl, hb⟩, measure_loop_lt (Or.inr ⟨rfl, Or.inr ⟨rfl, ?_⟩⟩)⟩
      change text.length - (s.ti + 1) < text.length - s.ti
      omega
    · rename_i hq
      rw [if_neg hq]
      split at hb
      · -- a new star
        rename_i hp
        have hlt := hp.1
        rw [if_pos hp]
        refine ⟨⟨_, rfl, hb⟩, measure_loop_lt (Or.inl ?_)⟩
        change pattern.length - (s.pi + 1) < pattern.length - s.vars.after_star
        omega
      · rename_i hp
        rw [if_neg hp]
        split at hb
        · -- back to the star, one byte further
          rename_i k hs
          simp only [hs]
          refine ⟨⟨_, ?_, hb⟩, measure_loop_lt (Or.inr ⟨?_, Or.inl ?_⟩)⟩
          · simp only [LikeState.vars, hs]
          · simp only [LikeVars.after_star, LikeState.vars, hs]
          · change text.length - (s.retry + 1) < text.length - s.retry
            omega
        · -- no star
          rename_i hs
          simp only [hs]
          refine ⟨hb, ?_⟩
          simp [LikePoint.measure, Prod.Lex.toLex_lt_toLex]
  · rw [dif_neg ht] at hb
    refine ⟨.skip s.pi, ?_, ⟨s.pi_le, hb⟩, ?_⟩
    · rw [like_turn, if_neg (show ¬ s.vars.ti < text.length from ht)]
      rfl
    · simp [LikePoint.measure, Prod.Lex.toLex_lt_toLex]

/-- One turn of the loop after it, that skips a `%` at the end of the pattern. -/
theorem turn_of_skip {b : Bool} {pi : Nat} (hb : (LikePoint.skip pi).LeadsTo text pattern b) :
    ∃ q, like_turn text pattern (.skip pi) = some q ∧ q.LeadsTo text pattern b ∧
      q.measure text pattern < (LikePoint.skip pi).measure text pattern := by
  obtain ⟨hle, hb⟩ := hb
  rw [like_turn, at_percent_eq]
  simp only [Option.pure_def, Option.bind_eq_bind, Option.bind_some, decide_eq_true_eq]
  by_cases hp : ∃ h : pi < pattern.length, pattern[pi] = '%'.toUInt8
  · obtain ⟨hlt, hc⟩ := hp
    rw [List.drop_eq_getElem_cons hlt, List.all_cons, hc] at hb
    refine ⟨.skip (pi + 1), by rw [if_pos ⟨hlt, hc⟩], ⟨hlt, by simpa using hb⟩, ?_⟩
    simp only [LikePoint.measure, Prod.Lex.toLex_lt_toLex, lt_self_iff_false, false_or, true_and]
    exact Or.inl (by omega)
  · refine ⟨.answer (pi == pattern.length), by rw [if_neg hp], ?_, ?_⟩
    · change (pi == pattern.length) = b
      rw [← hb]
      rcases Nat.lt_or_eq_of_le hle with hlt | rfl
      · have hc : pattern[pi] ≠ '%'.toUInt8 := fun hc => hp ⟨hlt, hc⟩
        have hne : pi ≠ pattern.length := Nat.ne_of_lt hlt
        rw [List.drop_eq_getElem_cons hlt, List.all_cons, beq_false_of_ne hne, beq_false_of_ne hc,
          Bool.false_and]
      · simp
    · simp [LikePoint.measure, Prod.Lex.toLex_lt_toLex]

theorem turn_of_leadsTo {b : Bool} (p : LikePoint) (h : p.LeadsTo text pattern b) :
    p = .answer b ∨ ∃ q, like_turn text pattern p = some q ∧ q.LeadsTo text pattern b ∧
      q.measure text pattern < p.measure text pattern := by
  cases p with
  | loop v =>
    obtain ⟨s, rfl, hb⟩ := h
    exact Or.inr (turn_of_loop s hb)
  | skip pi => exact Or.inr (turn_of_skip h)
  | answer a => exact Or.inl (congrArg _ h)

end

/-! ## The law -/

/-- `like_match` ends with its answer, whatever the text and the pattern. At every point that a run
comes to, the indices are in bounds, and the run has its answer or takes one more turn: no read is
out of range, and the turn lowers the measure. -/
theorem like_match_ends_within_bounds (text_in pattern_in : Bytes) :
    (∃ n, turns (like_turn (to_lower text_in) (to_lower pattern_in)) n .start =
        some (.answer (like_match text_in pattern_in))) ∧
      ∀ n p, turns (like_turn (to_lower text_in) (to_lower pattern_in)) n .start = some p →
        p.InBounds (to_lower text_in) (to_lower pattern_in) ∧
          (p = .answer (like_match text_in pattern_in) ∨
            ∃ q, like_turn (to_lower text_in) (to_lower pattern_in) p = some q ∧
              q.measure (to_lower text_in) (to_lower pattern_in) <
                p.measure (to_lower text_in) (to_lower pattern_in)) := by
  have hstart : LikePoint.start.LeadsTo (to_lower text_in) (to_lower pattern_in)
      (like_match text_in pattern_in) := ⟨.start _ _, rfl, rfl⟩
  constructor
  · obtain ⟨n, p, hrun, hend⟩ := exists_end _ turn_of_leadsTo hstart
    exact ⟨n, hend ▸ hrun⟩
  · intro n p hrun
    have hp := turns_invariant (I := LikePoint.LeadsTo _ _ _) (fun s t hs ht => by
      rcases turn_of_leadsTo s hs with rfl | ⟨q, hq, hlead, -⟩
      · cases ht
      · exact Option.some.inj (hq.symm.trans ht) ▸ hlead) hstart hrun
    refine ⟨hp.inBounds, ?_⟩
    rcases turn_of_leadsTo p hp with hend | ⟨q, hq, -, hlt⟩
    · exact Or.inl hend
    · exact Or.inr ⟨q, hq, hlt⟩

end r2sql
