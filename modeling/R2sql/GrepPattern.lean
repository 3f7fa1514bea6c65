-- The laws of the grep pattern. `like_match` accepts a text when the
-- pattern matches it as in `LIKE`, but with one reservation: a `%` of the
-- pattern that meets a `%` byte of the text stands for that byte alone.
import R2sql.Grep
import R2sql.Lib.Like

namespace r2sql

open like

/-! ## Patterns as tokens -/

def token (c : UInt8) : Token UInt8 :=
  if c = '%'.toUInt8 then .any else if c = '_'.toUInt8 then .one else .lit c

theorem token_percent : token '%'.toUInt8 = .any := rfl

def tokens (pattern : Bytes) : List (Token UInt8) := pattern.map token

/-- A run that does not begin at a `%` byte, or that is one `%` byte alone. -/
def PlainRun (r t : Bytes) : Prop := (r ++ t).head? = some '%'.toUInt8 → r = ['%'.toUInt8]

/-- The text matches, and every `%` of the pattern stands for a plain run. -/
def PlainMatches (pattern text : Bytes) : Prop := Matches PlainRun (tokens pattern) text

instance (r t : Bytes) : Decidable (PlainRun r t) := inferInstanceAs (Decidable (_ → _))

instance (pattern text : Bytes) : Decidable (PlainMatches pattern text) :=
  inferInstanceAs (Decidable (Matches _ _ _))

/-- The first branch of the loop takes the byte `a` of the text for the byte `q` of the pattern. -/
def Takes (q a : UInt8) : Prop := q = '_'.toUInt8 ∨ q = a

theorem tokens_append (p q : Bytes) : tokens (p ++ q) = tokens p ++ tokens q := List.map_append

theorem tokens_of_not_wild {p : Bytes} (h : has_wild p = false) : tokens p = p.map .lit := by
  apply List.map_congr_left
  intro c hc
  simp only [has_wild, Bool.or_eq_false_iff, List.contains_eq_mem, decide_eq_false_iff_not] at h
  have h1 : c ≠ '%'.toUInt8 := fun he => h.1 (he ▸ hc)
  have h2 : c ≠ '_'.toUInt8 := fun he => h.2 (he ▸ hc)
  simp [token, h1, h2]

section
variable {p t : Bytes} {q a : UInt8}

theorem plain_cons_taken (h : Takes q a) : PlainMatches (q :: p) (a :: t) ↔ PlainMatches p t := by
  unfold PlainMatches tokens
  rw [List.map_cons, token]
  split
  · -- the byte is a `%` of the text as well, so the run is that byte
    rename_i hq
    have ha : a = '%'.toUInt8 := by
      rcases h with h | h
      · exact absurd (hq.symm.trans h) (by decide)
      · rw [← h, hq]
    rw [matches_any]
    constructor
    · rintro ⟨r, t', he, hr, hm⟩
      rw [hr (by rw [← he, ha]; rfl)] at he
      cases he
      exact hm
    · intro hm
      exact ⟨['%'.toUInt8], t, by rw [ha]; rfl, fun _ => rfl, hm⟩
  · split
    · exact matches_one_cons
    · rename_i h2
      have ha : q = a := h.resolve_left h2
      rw [matches_lit_cons]
      exact ⟨fun hm => hm.2, fun hm => ⟨ha, hm⟩⟩

theorem plain_cons_not_taken (h : ¬ Takes q a) (hq : q ≠ '%'.toUInt8) :
    ¬ PlainMatches (q :: p) (a :: t) := by
  have h1 : q ≠ '_'.toUInt8 := fun he => h (Or.inl he)
  have h2 : q ≠ a := fun he => h (Or.inr he)
  unfold PlainMatches tokens
  simp [token, hq, h1, h2]

theorem plain_percent (h : a ≠ '%'.toUInt8) :
    PlainMatches ('%'.toUInt8 :: p) (a :: t) ↔ ∃ t', t' <:+ a :: t ∧ PlainMatches p t' := by
  unfold PlainMatches tokens
  rw [List.map_cons, token_percent, matches_any]
  constructor
  · rintro ⟨r, t', he, -, hm⟩
    exact ⟨t', ⟨r, he.symm⟩, hm⟩
  · rintro ⟨t', ⟨r, he⟩, hm⟩
    refine ⟨r, t', he.symm, ?_, hm⟩
    intro hh
    rw [he] at hh
    exact absurd (by simpa using hh) h

/-- Whatever a leading `%` stands for, the rest of the pattern matches a suffix of the text. -/
theorem suffix_of_plain_percent (h : PlainMatches ('%'.toUInt8 :: p) t) :
    ∃ t', t' <:+ t ∧ PlainMatches p t' := by
  unfold PlainMatches tokens at h
  rw [List.map_cons, token_percent, matches_any] at h
  obtain ⟨r, t', he, -, hm⟩ := h
  exact ⟨t', ⟨r, he.symm⟩, hm⟩

theorem plain_nil_right : PlainMatches p [] ↔ (p.all fun c => c == '%'.toUInt8) = true := by
  induction p with
  | nil => simp [PlainMatches, tokens]
  | cons q p ih =>
    unfold PlainMatches tokens at ih ⊢
    rw [List.map_cons, token, List.all_cons, Bool.and_eq_true, beq_iff_eq, ← ih]
    split
    · rename_i hq
      rw [matches_any]
      constructor
      · rintro ⟨r, t', he, -, hm⟩
        obtain ⟨-, rfl⟩ := List.append_eq_nil_iff.mp he.symm
        exact ⟨hq, hm⟩
      · rintro ⟨-, hm⟩
        exact ⟨[], [], rfl, by simp [PlainRun], hm⟩
    · rename_i hq
      split <;> simp [hq]

/-- The part `seg` of the pattern took the part `w` of the text, byte by byte. A match of `seg` that
begins no sooner than `w` does not end sooner either, so what comes after `seg` matches a suffix of
what comes after `w`. -/
theorem plain_later {seg w : Bytes} (h : List.Forall₂ Takes seg w) (d : Nat)
    (hm : PlainMatches (seg ++ p) ((w ++ t).drop d)) : ∃ u, PlainMatches p (t.drop u) := by
  induction h generalizing d with
  | nil => exact ⟨d, hm⟩
  | @cons q a seg w hqa hrest ih =>
    cases d with
    | zero => exact ih 0 ((plain_cons_taken hqa).mp hm)
    | succ d =>
      rw [List.cons_append, List.cons_append, List.drop_succ_cons] at hm
      by_cases hq : q = '%'.toUInt8
      · subst hq
        unfold PlainMatches tokens at hm
        rw [List.map_cons, token_percent, matches_any] at hm
        obtain ⟨r, t', he, -, hm⟩ := hm
        apply ih (d + r.length)
        rw [← List.drop_drop, he, List.drop_left]
        exact hm
      · rcases hd : (w ++ t).drop d with _ | ⟨b, rest⟩
        · rw [hd] at hm
          have := plain_nil_right.mp hm
          simp [hq] at this
        · rw [hd] at hm
          have hb : Takes q b := by
            by_contra hn
            exact plain_cons_not_taken hn hq hm
          apply ih (d + 1)
          rw [← List.drop_drop, hd]
          exact (plain_cons_taken hb).mp hm

end

/-! ## The loop -/

section
variable {text pattern : Bytes}

/-- What the pattern after the star took so far, byte by byte, since `retry`. -/
def Lockstep (s : LikeState text pattern) : Prop :=
  ∀ k ∈ s.star, ∃ seg w, pattern.drop (k + 1) = seg ++ pattern.drop s.pi ∧
    text.drop s.retry = w ++ text.drop s.ti ∧ List.Forall₂ Takes seg w

/-- The texts that the loop still tries after the star. -/
def RetryMatches (s : LikeState text pattern) : Prop :=
  ∃ k ∈ s.star, ∃ t', t' <:+ text.drop (s.retry + 1) ∧ PlainMatches (pattern.drop (k + 1)) t'

theorem not_plain_of_mismatch {s : LikeState text pattern} (ht : s.ti < text.length)
    (hq : ¬ ∃ h : s.pi < pattern.length, pattern[s.pi] = '_'.toUInt8 ∨ pattern[s.pi] = text[s.ti])
    (hp : ¬ ∃ h : s.pi < pattern.length, pattern[s.pi] = '%'.toUInt8) :
    ¬ PlainMatches (pattern.drop s.pi) (text.drop s.ti) := by
  rw [List.drop_eq_getElem_cons ht]
  by_cases hlt : s.pi < pattern.length
  · rw [List.drop_eq_getElem_cons hlt]
    exact plain_cons_not_taken (fun h => hq ⟨hlt, h⟩) fun h => hp ⟨hlt, h⟩
  · rw [List.drop_of_length_le (by omega)]
    unfold PlainMatches tokens
    rw [List.map_nil, matches_nil]
    exact List.cons_ne_nil _ _

/-- A match that the loop finds by a retry leaves a match of the rest of the pattern with a later
suffix of the text. -/
theorem rest_of_retry {s : LikeState text pattern} (hl : Lockstep s) (h : RetryMatches s) :
    ∃ u, PlainMatches (pattern.drop s.pi) ((text.drop s.ti).drop u) := by
  obtain ⟨k, hk, t', ⟨r, hr⟩, hm⟩ := h
  obtain ⟨seg, w, hseg, hw, htake⟩ := hl k hk
  have ht' : t' = (w ++ text.drop s.ti).drop (1 + r.length) := by
    rw [← hw, ← List.drop_drop, List.drop_drop (i := 1), ← hr, List.drop_left]
  rw [hseg, ht'] at hm
  exact plain_later htake _ hm

theorem lockstep_of_star {s : LikeState text pattern} {k : Nat} (hstar : s.star = some k)
    (hpi : s.pi = k + 1) (hretry : s.retry = s.ti) : Lockstep s := by
  intro k' hk
  rw [hstar] at hk
  cases hk
  exact ⟨[], [], by rw [hpi]; rfl, by rw [hretry]; rfl, .nil⟩

theorem retryMatches_iff {s : LikeState text pattern} {k : Nat} (hstar : s.star = some k) :
    RetryMatches s ↔ ∃ t', t' <:+ text.drop (s.retry + 1) ∧
      PlainMatches (pattern.drop (k + 1)) t' := by
  simp [RetryMatches, hstar]

/-- A suffix of the text from `n` on is that text, or a suffix from the next byte on. -/
theorem exists_suffix_drop {text : Bytes} (n : Nat) {P : Bytes → Prop} :
    (∃ t', t' <:+ text.drop n ∧ P t') ↔
      P (text.drop n) ∨ ∃ t', t' <:+ text.drop (n + 1) ∧ P t' := by
  by_cases hlt : n < text.length
  · simp only [List.drop_eq_getElem_cons hlt, List.suffix_cons_iff, or_and_right, exists_or,
      exists_eq_left]
  · have hnil : text.drop n = [] := List.drop_of_length_le (by omega)
    have hnil' : text.drop (n + 1) = [] := List.drop_of_length_le (by omega)
    simp [hnil, hnil']

/-- The loop answers true when the rest of the pattern matches the rest of the text, or when a retry
after the star finds a match. -/
theorem like_loop_spec (s : LikeState text pattern) (hl : Lockstep s) :
    like_loop s = true ↔
      PlainMatches (pattern.drop s.pi) (text.drop s.ti) ∨ RetryMatches s := by
  fun_induction like_loop s with
  | case1 s ht hq ih =>
    -- the first branch: one byte of each
    obtain ⟨hp, htake⟩ := hq
    have htext := List.drop_eq_getElem_cons ht
    have hpat := List.drop_eq_getElem_cons hp
    rw [ih, hpat, htext, plain_cons_taken htake]
    · rfl
    · intro k hk
      obtain ⟨seg, w, hseg, hw, hall⟩ := hl k hk
      refine ⟨seg ++ [pattern[s.pi]], w ++ [text[s.ti]], ?_, ?_, ?_⟩
      · rw [hseg, hpat]; simp
      · rw [hw, htext]; simp
      · exact List.rel_append hall (.cons htake .nil)
  | case2 s ht hq hp ih =>
    -- a new star: the run of the `%` may be of any length, as the text has no `%` here
    obtain ⟨hlt, hc⟩ := hp
    have ha : text[s.ti] ≠ '%'.toUInt8 := fun he => hq ⟨hlt, Or.inr (by rw [hc, he])⟩
    have hpat : pattern.drop s.pi = '%'.toUInt8 :: pattern.drop (s.pi + 1) := by
      rw [List.drop_eq_getElem_cons hlt, hc]
    have hnew : PlainMatches (pattern.drop s.pi) (text.drop s.ti) ↔
        ∃ t', t' <:+ text.drop s.ti ∧ PlainMatches (pattern.drop (s.pi + 1)) t' := by
      rw [hpat, List.drop_eq_getElem_cons ht]
      exact plain_percent ha
    -- what an older star still finds, the new one finds as well
    have hold : RetryMatches s → PlainMatches (pattern.drop s.pi) (text.drop s.ti) := by
      intro h
      obtain ⟨u, hu⟩ := rest_of_retry hl h
      rw [hpat] at hu
      obtain ⟨t', ht', hm⟩ := suffix_of_plain_percent hu
      exact hnew.mpr ⟨t', ht'.trans (List.drop_suffix _ _), hm⟩
    rw [ih (lockstep_of_star rfl rfl rfl), or_iff_left_of_imp hold, hnew, exists_suffix_drop]
    exact or_congr_right (retryMatches_iff rfl)
  | case3 s ht hq hp k hs ih =>
    -- back to the star, one byte further
    rw [ih (lockstep_of_star hs rfl rfl), or_iff_right (not_plain_of_mismatch ht hq hp),
      retryMatches_iff hs, exists_suffix_drop]
    exact or_congr_right (retryMatches_iff hs)
  | case4 s ht hq hp hs =>
    simp only [Bool.false_eq_true, false_iff, not_or]
    refine ⟨not_plain_of_mismatch ht hq hp, ?_⟩
    rintro ⟨k, hk, -⟩
    rw [hs] at hk
    cases hk
  | case5 s ht =>
    -- the end of the text: only `%` may be left of the pattern
    have hnil : text.drop s.ti = [] := List.drop_of_length_le (by omega)
    rw [hnil, plain_nil_right]
    constructor
    · exact Or.inl
    · rintro (h | h)
      · exact h
      · obtain ⟨u, hu⟩ := rest_of_retry hl h
        rw [hnil, List.drop_nil] at hu
        exact plain_nil_right.mp hu

theorem like_match_iff (text_in pattern_in : Bytes) :
    like_match text_in pattern_in = true ↔
      PlainMatches (to_lower pattern_in) (to_lower text_in) := by
  unfold like_match
  rw [like_loop_spec]
  · constructor
    · rintro (h | ⟨k, hk, -⟩)
      · exact h
      · cases hk
    · exact Or.inl
  · intro k hk
    cases hk

end

/-! ## The rows of a pattern -/

/-- What the documentation of the grep table says of a pattern: with no wildcard it is a
case-insensitive substring, and with one it is an anchored `LIKE` pattern. -/
def PatternMatches (pattern text : Bytes) : Prop :=
  if has_wild pattern then Like (tokens (to_lower pattern)) (to_lower text)
  else to_lower pattern <:+: to_lower text

instance (pattern text : Bytes) : Decidable (PatternMatches pattern text) :=
  inferInstanceAs (Decidable (ite _ _ _))

def RowMatches (pattern : Bytes) (r : GrepRow) : Prop :=
  PatternMatches pattern r.name ∨ PatternMatches pattern r.full_name

instance (pattern : Bytes) (r : GrepRow) : Decidable (RowMatches pattern r) :=
  inferInstanceAs (Decidable (_ ∨ _))

/-- The name or the full name has a match in which every `%` stands for a plain run. A pattern with
no wildcard has a `%` on both sides here. -/
def RowMatchesPlain (pattern : Bytes) (r : GrepRow) : Prop :=
  PlainMatches (to_lower (effective_pattern pattern)) (to_lower r.name) ∨
    PlainMatches (to_lower (effective_pattern pattern)) (to_lower r.full_name)

instance (pattern : Bytes) (r : GrepRow) : Decidable (RowMatchesPlain pattern r) :=
  inferInstanceAs (Decidable (_ ∨ _))

theorem tolower_eq_percent : ∀ c, tolower c = '%'.toUInt8 ↔ c = '%'.toUInt8 :=
  Bytes.forall_byte (by decide +kernel)

theorem tolower_eq_underscore : ∀ c, tolower c = '_'.toUInt8 ↔ c = '_'.toUInt8 :=
  Bytes.forall_byte (by decide +kernel)

theorem has_wild_to_lower (pattern : Bytes) : has_wild (to_lower pattern) = has_wild pattern := by
  have h1 : '%'.toUInt8 ∈ to_lower pattern ↔ '%'.toUInt8 ∈ pattern := by
    simp [to_lower, tolower_eq_percent]
  have h2 : '_'.toUInt8 ∈ to_lower pattern ↔ '_'.toUInt8 ∈ pattern := by
    simp [to_lower, tolower_eq_underscore]
  simp [has_wild, h1, h2]

/-- The wrapped pattern says the same as the pattern. -/
theorem patternMatches_iff (pattern text : Bytes) :
    PatternMatches pattern text ↔
      Like (tokens (to_lower (effective_pattern pattern))) (to_lower text) := by
  unfold PatternMatches effective_pattern
  by_cases h : has_wild pattern = true
  · simp [h]
  · have hw : has_wild (to_lower pattern) = false := by
      rw [has_wild_to_lower]
      simpa using h
    have ht : tokens (to_lower (Bytes.lit "%" ++ pattern ++ Bytes.lit "%")) =
        .any :: ((to_lower pattern).map .lit ++ [.any]) := by
      unfold to_lower at hw ⊢
      rw [List.map_append, List.map_append, tokens_append, tokens_append, tokens_of_not_wild hw]
      rfl
    simp only [h, if_false, Bool.false_eq_true]
    rw [ht, like_any_lits_any]

theorem RowMatchesPlain.rowMatches {pattern : Bytes} {r : GrepRow}
    (h : RowMatchesPlain pattern r) : RowMatches pattern r := by
  unfold RowMatches
  rw [patternMatches_iff, patternMatches_iff]
  exact h.imp Matches.toLike Matches.toLike

theorem delivered_plain [Nlohmann] (be : Backend) (pattern : Bytes) :
    ((GrepPatternIterator pattern).value be).delivered.map Prod.snd =
      (build_grep_rows.value be).filter fun r => RowMatchesPlain pattern r := by
  simp only [GrepPatternIterator, Dialogue.value_bind, Dialogue.value_pure,
    VecIterator.delivered_rows]
  apply List.filter_congr
  intro r _
  rw [Bool.eq_iff_iff, Bool.or_eq_true, like_match_iff, like_match_iff, decide_eq_true_iff]
  rfl

/-- Two filters, one of which keeps no more than the other, keep the same elements when every
element that the wider one keeps is kept by the narrower one. -/
theorem filter_eq_filter_iff {α : Type} {p q : α → Prop} [DecidablePred p] [DecidablePred q]
    (h : ∀ a, p a → q a) (l : List α) :
    l.filter (fun a => p a) = l.filter (fun a => q a) ↔ ∀ a ∈ l, q a → p a := by
  constructor
  · intro he a ha hq
    have hm : a ∈ l.filter fun a => q a := List.mem_filter.mpr ⟨ha, by simpa using hq⟩
    rw [← he, List.mem_filter] at hm
    simpa using hm.2
  · intro hall
    apply List.filter_congr
    intro a ha
    rw [decide_eq_decide]
    exact ⟨h a, hall a ha⟩

/-! ## The law -/

/-- The iterator delivers the rows that the documentation promises, in their order, exactly when
every row that matches has a match in which no `%` of the pattern stands for a longer run, or an
empty one, at a `%` byte of the text. -/
theorem the_pattern_keeps_the_matching_rows [Nlohmann] (be : Backend) (pattern : Bytes) :
    ((GrepPatternIterator pattern).value be).delivered.map Prod.snd =
        (build_grep_rows.value be).filter (fun r => RowMatches pattern r) ↔
      ∀ r ∈ build_grep_rows.value be, RowMatches pattern r → RowMatchesPlain pattern r := by
  rw [delivered_plain]
  exact filter_eq_filter_iff (fun _ => RowMatchesPlain.rowMatches) _

/-- One comment, `%d items`. -/
@[reducible] def formatCommentJson : Nlohmann := .ofTexts
  [("[\x7b\"offset\":16,\"name\":\"%d items\"\x7d]", .array [.object
    [(Bytes.lit "name", .string (Bytes.lit "%d items")),
      (Bytes.lit "offset", .number_unsigned 16)]])]

def formatCommentBackend : Backend := mock_backend
  [("CCj", "[\x7b\"offset\":16,\"name\":\"%d items\"\x7d]")]

/-- A comment that begins with a `%` is not found by a word that it contains. -/
theorem the_pattern_misses_a_comment_with_a_percent :
    letI := formatCommentJson
    ((GrepPatternIterator (Bytes.lit "items")).value formatCommentBackend).delivered.map Prod.snd ≠
      (build_grep_rows.value formatCommentBackend).filter fun r =>
        RowMatches (Bytes.lit "items") r := by
  intro h
  rw [@delivered_plain formatCommentJson] at h
  exact absurd h (by decide)

end r2sql
