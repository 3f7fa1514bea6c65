-- Quotes in a command line: the texts that pass between two quotes, and the
-- name of the program, that comes first and has rules of its own.
import R2sql.Lib.ArgvWords

namespace argv

variable {α : Type} [DecidableEq α] {g : Signs α} {b : α}

/-! ## Quoted texts -/

theorem split_inside_open {p : List α} (hquote : g.quote ∉ p) (n : Nat) :
    split g .inside n p = [List.replicate n g.escape ++ p] := by
  induction p generalizing n with
  | nil => simp [split]
  | cons c p ih =>
    rw [List.mem_cons, not_or] at hquote
    by_cases hescape : c = g.escape
    · rw [hescape, split_escape, escapes_cons]
      exact ih hquote.2 (n + 1)
    · rw [split_plain n p hescape (Ne.symm hquote.1) fun _ => rfl]
      change push _ (split g .inside 0 p) = _
      rw [ih hquote.2 0, push]
      simp

/-- Up to a quote, the signs inside of quotes go into the argument as they are, unless escape signs
stand before the quote. -/
theorem split_inside_quote {u : List α} {n : Nat} (hquote : g.quote ∉ u)
    (hlast : u.getLast? ≠ some g.escape) (hn : u = [] → n = 0) (s : List α) :
    split g .inside n (u ++ g.quote :: s) =
      push (List.replicate n g.escape ++ u) (split g .closing 0 s) := by
  induction u generalizing n with
  | nil =>
    rw [hn rfl, List.nil_append, split_quote]
    rfl
  | cons c u ih =>
    rw [List.mem_cons, not_or] at hquote
    have hrest : u.getLast? ≠ some g.escape := by
      intro h
      exact hlast (by rw [List.getLast?_cons, h]; rfl)
    rw [List.cons_append]
    by_cases hescape : c = g.escape
    · have hne : u ≠ [] := by
        rintro rfl
        exact hlast (by rw [hescape]; rfl)
      rw [hescape, split_escape, escapes_cons]
      exact ih hquote.2 hrest fun h => absurd h hne
    · rw [split_plain n _ hescape (Ne.symm hquote.1) fun _ => rfl]
      change push _ (split g .inside 0 (u ++ g.quote :: s)) = _
      rw [ih hquote.2 hrest fun _ => rfl, push_push]
      simp

theorem args_quote (s : List α) : args g (g.quote :: s) = split g .inside 0 s := by
  rw [args, split_quote, if_neg (by decide)]
  change push [] (split g .inside 0 s) = _
  cases hs : split g .inside 0 s with
  | nil => exact absurd hs (split_ne_nil g (by decide) 0 s)
  | cons t ts => rfl

/-- A text in an open quote comes out as it is exactly where no quote is in it. -/
theorem args_open_iff (p : List α) : args g (g.quote :: p) = [p] ↔ g.quote ∉ p := by
  rw [args_quote]
  constructor
  · intro h hmem
    have hle := weight_split_le g .inside 0 p
    have hcount := List.count_pos_iff.mpr hmem
    rw [h, weight_cons, due] at hle
    omega
  · intro hquote
    rw [split_inside_open hquote]
    rfl

/-- Between a quote that closes and another one, no text but the empty one comes out with a quote
before it. -/
theorem split_closing_ne {p : List α} (hp : p ≠ []) :
    split g .closing 0 (p ++ [g.quote]) ≠ [g.quote :: p] := by
  intro h
  have hweight : weight [g.quote :: p] = p.length + 2 := rfl
  cases p with
  | nil => exact hp rfl
  | cons c p =>
    rw [List.cons_append] at h
    by_cases hc : c = g.quote
    · subst hc
      have hle := weight_split_le g .inside 0 (p ++ [g.quote])
      have hpush := weight_push [g.quote]
        (split_ne_nil g (by decide : Mode.inside ≠ .gap) 0 (p ++ [g.quote]))
      rw [split_quote, if_neg (by decide)] at h
      change push [g.quote] (split g .inside 0 (p ++ [g.quote])) = _ at h
      rw [h, hweight] at hpush
      simp only [List.length_append, List.length_cons, List.length_nil, List.count_append,
        List.count_singleton_self, due] at hle hpush
      omega
    · have hle := weight_split_le g .outside 0 (c :: (p ++ [g.quote]))
      rw [split_closing 0 _ hc] at h
      rw [h, hweight] at hle
      simp only [List.length_append, List.length_cons, List.length_nil, List.count_append,
        List.count_singleton_self, List.count_cons_of_ne hc, due] at hle
      omega

/-- A quote inside of quotes comes out as it is, with what is after it, only where it is the first
of a pair at the end. -/
theorem pair_of_split {p : List α} {n : Nat}
    (h : split g .inside n (g.quote :: (p ++ [g.quote])) =
      [List.replicate n g.escape ++ g.quote :: p]) : n = 0 ∧ p = [] := by
  have hinside : split g .inside 0 (p ++ [g.quote]) ≠ [] := split_ne_nil g (by decide) 0 _
  have hclosing : split g .closing 0 (p ++ [g.quote]) ≠ [] := split_ne_nil g (by decide) 0 _
  have hweight : weight [List.replicate n g.escape ++ g.quote :: p] = n + p.length + 2 := by
    simp [weight]
    omega
  rw [split_quote] at h
  split at h
  · -- half of the escape signs are lost, and one that goes with the quote
    have hle := weight_split_le g .inside 0 (p ++ [g.quote])
    have hpush := weight_push (List.replicate (n / 2) g.escape ++ [g.quote]) hinside
    change push _ (split g .inside 0 (p ++ [g.quote])) = _ at h
    rw [h, hweight] at hpush
    simp only [List.length_append, List.length_cons, List.length_nil, List.length_replicate,
      List.count_append, List.count_singleton_self, due] at hle hpush
    omega
  · have hle := weight_split_le g .closing 0 (p ++ [g.quote])
    have hpush := weight_push (List.replicate (n / 2) g.escape) hclosing
    change push (_ ++ []) (split g .closing 0 (p ++ [g.quote])) = _ at h
    rw [List.append_nil] at h
    rw [h, hweight] at hpush
    simp only [List.length_append, List.length_cons, List.length_nil, List.length_replicate,
      due] at hle hpush
    have hn : n = 0 := by omega
    subst hn
    by_contra hp
    exact split_closing_ne (fun h => hp ⟨rfl, h⟩) (push_cancel [] hclosing h)

/-- What is read as it is from inside of quotes, up to the quote that closes them. -/
theorem quotable_of_split {p : List α} {n : Nat}
    (h : split g .inside n (p ++ [g.quote]) = [List.replicate n g.escape ++ p]) :
    ∃ u, (p = u ∨ p = u ++ [g.quote]) ∧ g.quote ∉ u ∧ u.getLast? ≠ some g.escape ∧
      (u = [] → n = 0) := by
  induction p generalizing n with
  | nil =>
    rw [List.nil_append, List.append_nil, split_quote] at h
    split at h
    · -- an escaped quote comes out as a quote
      have hmem : g.quote ∈ List.replicate n g.escape := by
        rw [← (List.cons.inj h).1]
        simp
      exact absurd (List.eq_of_mem_replicate hmem) g.escape_ne_quote.symm
    · have hlen := congrArg List.length (List.cons.inj h).1
      simp at hlen
      exact ⟨[], Or.inl rfl, List.not_mem_nil, by simp, fun _ => by omega⟩
  | cons c p ih =>
    rw [List.cons_append] at h
    rcases sign_cases g .inside c with rfl | rfl | ⟨-, hne⟩ | ⟨hescape, hquote, hblank⟩
    · -- one more escape sign waits
      rw [split_escape, escapes_cons] at h
      obtain ⟨u, hp, hu, hlast, hnil⟩ := ih h
      have hne : u ≠ [] := fun hu => Nat.succ_ne_zero n (hnil hu)
      refine ⟨g.escape :: u, ?_, ?_, ?_, fun h => absurd h (List.cons_ne_nil _ _)⟩
      · exact hp.imp (congrArg _) (congrArg _)
      · rw [List.mem_cons, not_or]
        exact ⟨g.escape_ne_quote.symm, hu⟩
      · rw [List.getLast?_cons_of_ne_nil hne]
        exact hlast
    · obtain ⟨rfl, rfl⟩ := pair_of_split h
      exact ⟨[], Or.inr rfl, List.not_mem_nil, by simp, fun _ => rfl⟩
    · exact absurd rfl hne
    · rw [split_plain n _ hescape hquote hblank, List.append_cons _ c p] at h
      have hrest : split g .inside 0 (p ++ [g.quote]) = [p] :=
        push_cancel _ (split_ne_nil g (by decide) 0 _) h
      obtain ⟨u, hp, hu, hlast, -⟩ := ih (n := 0) hrest
      refine ⟨c :: u, ?_, ?_, ?_, fun h => absurd h (List.cons_ne_nil _ _)⟩
      · exact hp.imp (congrArg _) (congrArg _)
      · rw [List.mem_cons, not_or]
        exact ⟨hquote.symm, hu⟩
      · rw [List.getLast?_cons]
        cases hu : u.getLast? with
        | none => simpa using hescape
        | some d => simpa [hu] using hlast

theorem args_quoted_iff (p : List α) :
    args g (g.quote :: (p ++ [g.quote])) = [p] ↔ Quotable g p := by
  rw [args_quote]
  constructor
  · intro h
    obtain ⟨u, hp, hquote, hlast, -⟩ := quotable_of_split (n := 0) h
    exact ⟨u, hp, hquote, hlast⟩
  · rintro ⟨u, rfl | rfl, hquote, hlast⟩
    · rw [split_inside_quote hquote hlast fun _ => rfl, split]
      simp [push]
    · -- the quote at the end and the one that should close it are a pair
      rw [List.append_assoc, List.singleton_append, split_inside_quote hquote hlast fun _ => rfl,
        split_quote, if_neg (by decide)]
      simp [Mode.turn, split, push]

/-! ## The name of the program -/

theorem after_name_whole {quoted : Bool} {exe : List α} (h : Whole g quoted exe) (t : List α) :
    after_name g quoted (exe ++ t) = after_name g true t := by
  induction exe generalizing quoted with
  | nil =>
    rw [show quoted = true from h]
    rfl
  | cons c exe ih =>
    rw [Whole] at h
    rw [List.cons_append, after_name]
    split at h
    · rename_i hquote
      rw [if_pos hquote]
      exact ih h
    · rename_i hquote
      rw [if_neg hquote, if_neg fun hb => by simp [h.1 hb.1] at hb]
      exact ih h.2

theorem whole_of_no_quote {x : List α} (h : g.quote ∉ x) : Whole g true x := by
  induction x with
  | nil => rfl
  | cons c x ih =>
    rw [List.mem_cons, not_or] at h
    rw [Whole, if_neg (Ne.symm h.1)]
    exact ⟨fun _ => rfl, ih h.2⟩

theorem arguments_of_whole (hb : g.blank b = true) {exe : List α} (h : Whole g true exe)
    (s : List α) : arguments g (g.quote :: (exe ++ g.quote :: b :: s)) = args g (b :: s) := by
  have hname : after_name g false (g.quote :: (exe ++ g.quote :: b :: s)) =
      after_name g true (exe ++ g.quote :: b :: s) := by
    rw [after_name, if_pos rfl]
    rfl
  rw [arguments, hname, after_name_whole h, after_name, if_pos rfl, after_name,
    if_neg (ne_quote_of_blank hb), if_pos ⟨hb, rfl⟩, args_blank s hb]

theorem after_name_leaves {quoted : Bool} {exe rest : List α} (h : Leaves g quoted exe rest)
    (t : List α) : after_name g quoted (exe ++ t) = rest ++ t := by
  induction exe generalizing quoted with
  | nil => cases h
  | cons c exe ih =>
    rw [Leaves] at h
    rw [List.cons_append, after_name]
    split at h
    · rename_i hquote
      rw [if_pos hquote]
      exact ih h
    · rename_i hquote
      rw [if_neg hquote]
      split at h
      · rename_i hend
        rw [if_pos hend, h]
      · rename_i hend
        rw [if_neg hend]
        exact ih h

/-- What becomes of a name that does not stay in its quotes: it ends early, at a blank of its own,
or it ends outside of its quotes. -/
theorem name_cases {quoted : Bool} {exe : List α} (h : ¬ Whole g quoted exe) :
    (∃ rest, Leaves g quoted exe rest) ∨
      ∀ t, after_name g quoted (exe ++ t) = after_name g false t := by
  induction exe generalizing quoted with
  | nil =>
    cases quoted with
    | true => exact absurd rfl h
    | false => exact Or.inr fun _ => rfl
  | cons c exe ih =>
    rw [Whole] at h
    simp only [List.cons_append, after_name, Leaves]
    by_cases hquote : c = g.quote
    · rw [if_pos hquote] at h
      simp only [if_pos hquote]
      exact ih h
    · rw [if_neg hquote] at h
      by_cases hend : g.blank c = true ∧ quoted = false
      · exact Or.inl ⟨exe, by rw [if_neg hquote, if_pos hend]⟩
      · simp only [if_neg hquote, if_neg hend]
        refine ih fun hw => h ⟨fun hb => ?_, hw⟩
        cases quoted with
        | true => rfl
        | false => exact absurd ⟨hb, rfl⟩ hend

theorem after_name_suffix (quoted : Bool) (s : List α) : after_name g quoted s <:+ s := by
  induction s generalizing quoted with
  | nil => exact List.suffix_refl _
  | cons c s ih =>
    rw [after_name]
    split
    · exact (ih _).trans (List.suffix_cons c s)
    · split
      · exact List.suffix_cons c s
      · exact (ih _).trans (List.suffix_cons c s)

omit [DecidableEq α] in
theorem Letter.notMem_escapes {c : α} (hc : Letter g c) (k : Nat) :
    c ∉ List.replicate k g.escape := fun h => hc.ne_escape (List.eq_of_mem_replicate h)

/-- A letter that comes only after a blank comes into the first argument with that blank. -/
theorem blank_of_mem_head {c : α} (hc : Letter g c) (hb : g.blank b = true) {m : Mode}
    (hm : m ≠ .gap) {n : Nat} {u s : List α} (hu : c ∉ u)
    (h : c ∈ (split g m n (u ++ b :: s)).headD []) :
    ∃ d ∈ (split g m n (u ++ b :: s)).headD [], g.blank d = true := by
  induction u generalizing m n with
  | nil =>
    rw [List.nil_append] at h ⊢
    by_cases hinside : m = .inside
    · rw [split_plain n s (ne_escape_of_blank hb) (ne_quote_of_blank hb) fun _ => hinside,
        headD_push]
      exact ⟨b, by simp, hb⟩
    · rw [split_blank n s hb hm hinside] at h
      exact absurd h (hc.notMem_escapes n)
  | cons d u ih =>
    rw [List.mem_cons, not_or] at hu
    -- what is put before the rest of the argument has no such letter
    have hpush : ∀ w m', c ∉ w → m' ≠ .gap → c ∈ (push w (split g m' 0 (u ++ b :: s))).headD [] →
        ∃ d ∈ (push w (split g m' 0 (u ++ b :: s))).headD [], g.blank d = true := by
      intro w m' hw hm' hmem
      rw [headD_push] at hmem ⊢
      obtain ⟨e, he, hblank⟩ := ih hm' hu.2 ((List.mem_append.mp hmem).resolve_left hw)
      exact ⟨e, List.mem_append_right w he, hblank⟩
    rw [List.cons_append] at h ⊢
    rcases sign_cases g m d with rfl | rfl | ⟨hblank, hinside⟩ | ⟨hescape, hquote, hblank⟩
    · rw [split_escape] at h ⊢
      exact ih (within_ne_gap m) hu.2 h
    · rw [split_quote] at h ⊢
      split at h
      · rw [if_pos ‹_›]
        refine hpush _ _ ?_ (within_ne_gap m) h
        simpa [hc.ne_quote] using fun _ => hc.ne_escape
      · rw [if_neg ‹_›]
        refine hpush _ _ ?_ (turn_ne_gap m) h
        have hpair : c ∉ if m = .closing then [g.quote] else [] := by
          split <;> simp [hc.ne_quote]
        exact fun hmem => (List.mem_append.mp hmem).elim (hc.notMem_escapes _) hpair
    · rw [split_blank n _ hblank hm hinside] at h
      exact absurd h (hc.notMem_escapes n)
    · rw [split_plain n _ hescape hquote hblank] at h ⊢
      refine hpush _ _ ?_ (within_ne_gap m) h
      exact fun hmem => (List.mem_append.mp hmem).elim (hc.notMem_escapes n)
        fun hd => hu.1 (List.mem_singleton.mp hd)

/-- The same for the first argument of a text, where a quote stands before the blank. -/
theorem blank_of_mem_first {c : α} (hc : Letter g c) (hb : g.blank b = true) {v s : List α}
    (hv : c ∉ v) (h : c ∈ (args g (v ++ g.quote :: b :: s)).headD []) :
    ∃ d ∈ (args g (v ++ g.quote :: b :: s)).headD [], g.blank d = true := by
  induction v with
  | nil =>
    rw [List.nil_append, args, split_gap 0 _ g.blank_quote] at h ⊢
    exact blank_of_mem_head hc hb (by decide) (u := [g.quote]) (by simpa using hc.ne_quote) h
  | cons d v ih =>
    rw [List.mem_cons, not_or] at hv
    rw [List.cons_append] at h ⊢
    by_cases hd : g.blank d = true
    · rw [args_blank _ hd] at h ⊢
      exact ih hv.2 h
    · rw [args, split_gap 0 _ (by simpa using hd)] at h ⊢
      have hsplit : d :: (v ++ g.quote :: b :: s) = (d :: v ++ [g.quote]) ++ b :: s := by simp
      rw [hsplit] at h ⊢
      refine blank_of_mem_head hc hb (by decide) ?_ h
      simp [hv.1, hv.2, hc.ne_quote]

/-- The name of the program stays in its quotes where the first argument comes out, and no letter of
it comes out more or less often than it is in the arguments. -/
theorem whole_of_arguments {c : α} {exe first rest : List α} {ts : List (List α)}
    (hb : g.blank b = true) (hc : Letter g c) (hfirst : Word g first) (hmem : c ∈ first)
    (hcount : (first :: ts).flatten.count c = (first ++ rest).count c)
    (h : arguments g (g.quote :: (exe ++ g.quote :: b :: (first ++ rest))) = first :: ts) :
    Whole g true exe := by
  by_contra hw
  have hname : arguments g (g.quote :: (exe ++ g.quote :: b :: (first ++ rest))) =
      args g (after_name g true (exe ++ g.quote :: b :: (first ++ rest))) := by
    rw [arguments, after_name, if_pos rfl]
    rfl
  rw [hname] at h
  have hletters := count_args hc (after_name g true (exe ++ g.quote :: b :: (first ++ rest)))
  rw [h, hcount] at hletters
  rcases name_cases hw with ⟨v, hv⟩ | hopen
  · -- the name ends early, and the first argument comes from before its closing quote
    rw [after_name_leaves hv] at h hletters
    have hv0 : c ∉ v := by
      intro hcv
      have hpos := List.count_pos_iff.mpr hcv
      simp only [List.count_append, List.count_cons] at hletters
      omega
    obtain ⟨d, hd, hblank⟩ := blank_of_mem_first hc hb hv0 (s := first ++ rest) (by
      rw [h]
      exact hmem)
    rw [h] at hd
    rw [hfirst.no_blank d hd] at hblank
    cases hblank
  · -- the name goes on after its closing quote, and takes the first argument with it
    have hquote : g.quote ∉ b :: first := by
      rw [List.mem_cons, not_or]
      exact ⟨(ne_quote_of_blank hb).symm, hfirst.no_quote⟩
    have hrest : after_name g false (g.quote :: b :: (first ++ rest)) = after_name g true rest := by
      rw [after_name, if_pos rfl]
      exact after_name_whole (whole_of_no_quote hquote) rest
    have hle := (after_name_suffix (g := g) true rest).sublist.count_le c
    have hpos := List.count_pos_iff.mpr hmem
    rw [hopen, hrest, List.count_append] at hletters
    omega

end argv
