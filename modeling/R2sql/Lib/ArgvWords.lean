-- Arguments without quotes in a command line: the texts that come out as they
-- are put in are the words, and no others.
import R2sql.Lib.Argv

namespace argv

variable {α : Type} [DecidableEq α]

/-! ## Words -/

section
variable {g : Signs α} {b : α}

omit [DecidableEq α] in
theorem escapes_cons (g : Signs α) (n : Nat) (x : List α) :
    List.replicate n g.escape ++ g.escape :: x = List.replicate (n + 1) g.escape ++ x := by
  rw [List.replicate_succ', List.append_assoc, List.singleton_append]

/-- The text is at its end, or goes on with a blank. -/
def Ends (g : Signs α) (s : List α) : Prop := ∀ c ∈ s.head?, g.blank c = true

theorem split_word {x s : List α} (hquote : g.quote ∉ x) (hblank : ∀ c ∈ x, g.blank c = false)
    (hs : Ends g s) (n : Nat) :
    split g .outside n (x ++ s) = (List.replicate n g.escape ++ x) :: args g s := by
  induction x generalizing n with
  | nil =>
    rw [List.nil_append, List.append_nil]
    cases s with
    | nil => rfl
    | cons c s =>
      rw [split_blank n s (hs c rfl) (by decide) (by decide), args_blank s (hs c rfl)]
  | cons c x ih =>
    have hq : g.quote ∉ x := fun h => hquote (List.mem_cons_of_mem c h)
    have hb : ∀ d ∈ x, g.blank d = false := fun d hd => hblank d (List.mem_cons_of_mem c hd)
    rw [List.cons_append]
    by_cases hescape : c = g.escape
    · subst hescape
      rw [split_escape, escapes_cons]
      exact ih hq hb (n + 1)
    · rw [split_plain n _ hescape (fun h => hquote (h ▸ List.mem_cons_self))
        (by simp [hblank c List.mem_cons_self])]
      change push _ (split g .outside 0 (x ++ s)) = _
      rw [ih hq hb 0, push]
      simp

theorem args_word {w : List α} (hw : Word g w) {s : List α} (hs : Ends g s) :
    args g (w ++ s) = w :: args g s := by
  cases w with
  | nil => exact absurd rfl hw.ne_nil
  | cons c w =>
    rw [args, List.cons_append, split_gap 0 _ (hw.no_blank c List.mem_cons_self),
      ← List.cons_append, split_word hw.no_quote hw.no_blank hs]
    rfl

/-- The signs of an argument before its first blank. -/
def lead (g : Signs α) (t : List α) : Nat := (t.takeWhile fun c => !g.blank c).length

omit [DecidableEq α] in
theorem lead_append {w : List α} (hw : ∀ c ∈ w, g.blank c = false) (t : List α) :
    lead g (w ++ t) = w.length + lead g t := by
  unfold lead
  rw [List.takeWhile_append_of_pos (by simpa using hw), List.length_append]

omit [DecidableEq α] in
theorem lead_of_not_blank {w : List α} (hw : ∀ c ∈ w, g.blank c = false) :
    lead g w = w.length := by
  simpa [lead] using lead_append hw []

omit [DecidableEq α] in
theorem blank_escapes (n : Nat) : ∀ c ∈ List.replicate n g.escape, g.blank c = false := by
  intro c hc
  rw [List.eq_of_mem_replicate hc]
  exact g.blank_escape

omit [DecidableEq α] in
theorem lead_push_escapes {w : List α} (hw : ∀ c ∈ w, g.blank c = false) (k : Nat)
    (ts : List (List α)) :
    lead g ((push (List.replicate k g.escape ++ w) ts).headD []) =
      k + w.length + lead g (ts.headD []) := by
  rw [headD_push, List.append_assoc, lead_append (blank_escapes k), lead_append hw,
    List.length_replicate, Nat.add_assoc]

/-- At a blank, only the escape signs that wait are before the first blank of the argument. -/
theorem lead_split_blank (hb : g.blank b = true) {m : Mode} (hm : m ≠ .gap) (n : Nat)
    (r : List α) : lead g ((split g m n (b :: r)).headD []) = n := by
  by_cases hinside : m = .inside
  · rw [split_plain n r (ne_escape_of_blank hb) (ne_quote_of_blank hb) fun _ => hinside, headD_push,
      List.append_assoc, lead_append (blank_escapes n), List.length_replicate]
    simp [lead, hb]
  · rw [split_blank n r hb hm hinside, List.headD_cons, lead_of_not_blank (blank_escapes n),
      List.length_replicate]

/-- An argument has no more signs before its first blank than the text that it comes from. -/
theorem lead_split_le (hb : g.blank b = true) {m : Mode} (hm : m ≠ .gap) (n : Nat) {x : List α}
    (hx : ∀ c ∈ x, g.blank c = false) (r : List α) :
    lead g ((split g m n (x ++ b :: r)).headD []) ≤ n + x.length := by
  induction x generalizing m n with
  | nil =>
    rw [List.nil_append, lead_split_blank hb hm, List.length_nil]
    omega
  | cons c x ih =>
    rw [List.forall_mem_cons] at hx
    have hwithin := fun k => ih (within_ne_gap m) k hx.2
    rw [List.cons_append, List.length_cons]
    rcases sign_cases g m c with rfl | rfl | ⟨hblank, -⟩ | ⟨hescape, hquote, hblank⟩
    · have hle := hwithin (n + 1)
      rw [split_escape]
      omega
    · rw [split_quote]
      split
      · have hle := hwithin 0
        rw [lead_push_escapes (by simpa using hx.1), List.length_singleton]
        omega
      · have hle := ih (turn_ne_gap m) 0 hx.2
        have hpair : ∀ d ∈ (if m = .closing then [g.quote] else []), g.blank d = false := by
          split <;> simp [g.blank_quote]
        have hlen : (if m = .closing then [g.quote] else []).length ≤ 1 := by split <;> simp
        rw [lead_push_escapes hpair]
        omega
    · rw [hx.1] at hblank
      cases hblank
    · have hle := hwithin 0
      rw [split_plain n _ hescape hquote hblank, lead_push_escapes (by simpa using hx.1),
        List.length_singleton]
      omega

/-- And it has fewer where a quote opens in the text. -/
theorem lead_split_lt (hb : g.blank b = true) (n : Nat) {x : List α} (hquote : g.quote ∈ x)
    (hx : ∀ c ∈ x, g.blank c = false) (r : List α) :
    lead g ((split g .outside n (x ++ b :: r)).headD []) < n + x.length := by
  induction x generalizing n with
  | nil => cases hquote
  | cons c x ih =>
    rw [List.forall_mem_cons] at hx
    rw [List.cons_append, List.length_cons]
    rcases sign_cases g .outside c with rfl | rfl | ⟨hblank, -⟩ | ⟨hescape, hne, hblank⟩
    · have hmem : g.quote ∈ x := (List.mem_cons.mp hquote).resolve_left g.escape_ne_quote.symm
      have hlt := ih (n + 1) hmem hx.2
      rw [split_escape]
      change lead g ((split g .outside (n + 1) (x ++ b :: r)).headD []) < _
      omega
    · rw [split_quote]
      split
      · have hle := lead_split_le hb (within_ne_gap .outside) 0 hx.2 r
        rw [lead_push_escapes (by simpa using hx.1), List.length_singleton]
        omega
      · have hle := lead_split_le hb (turn_ne_gap .outside) 0 hx.2 r
        rw [if_neg (by decide), lead_push_escapes nofun, List.length_nil]
        omega
    · rw [hx.1] at hblank
      cases hblank
    · have hlt := ih 0 ((List.mem_cons.mp hquote).resolve_left hne.symm) hx.2
      rw [split_plain n _ hescape hne hblank, lead_push_escapes (by simpa using hx.1),
        List.length_singleton]
      change n + 1 + lead g ((split g .outside 0 (x ++ b :: r)).headD []) < _
      omega

omit [DecidableEq α] in
/-- The signs of a text before its first blank, and the rest. -/
theorem exists_lead (g : Signs α) (t : List α) :
    ∃ x y, t = x ++ y ∧ (∀ c ∈ x, g.blank c = false) ∧ Ends g y := by
  refine ⟨t.takeWhile fun c => !g.blank c, t.dropWhile fun c => !g.blank c,
    List.takeWhile_append_dropWhile.symm, ?_, ?_⟩
  · intro c hc
    simpa using List.mem_takeWhile_imp hc
  · intro c hc
    have hhead := List.head?_dropWhile_not (fun c => !g.blank c) t
    rw [Option.mem_def.mp hc] at hhead
    simpa using hhead

/-- A text that comes out as the first argument, up to a blank after it, is a word. -/
theorem word_of_args (hb : g.blank b = true) {c : α} {w : List α} {ws : List (List α)}
    {r : List α} (hc : g.blank c = false) (h : args g (c :: w ++ b :: r) = (c :: w) :: ws) :
    Word g (c :: w) := by
  obtain ⟨x, y, hxy, hx, hy⟩ := exists_lead g (c :: w)
  obtain ⟨b', r', hr, hb'⟩ : ∃ b' r', y ++ b :: r = b' :: r' ∧ g.blank b' = true := by
    cases y with
    | nil => exact ⟨b, r, rfl, hb⟩
    | cons d y => exact ⟨d, y ++ b :: r, rfl, hy d rfl⟩
  rw [args, List.cons_append, split_gap 0 _ hc, ← List.cons_append, hxy, List.append_assoc, hr] at h
  have hlead : lead g (x ++ y) = x.length := by
    rw [lead_append hx]
    cases y with
    | nil => rfl
    | cons d y => simp [lead, hy d rfl]
  have hquote : g.quote ∉ x := by
    intro hmem
    have hlt := lead_split_lt hb' 0 hmem hx r'
    rw [h, List.headD_cons, hlead] at hlt
    omega
  have hend : Ends g (b' :: r') := by
    intro d hd
    cases hd
    exact hb'
  rw [split_word hquote hx hend, List.cons.injEq] at h
  have hword : x = c :: w := by rw [hxy, ← h.1]; rfl
  rw [← hword]
  exact ⟨by rw [hword]; exact List.cons_ne_nil _ _, hquote, hx⟩

/-! ## Arguments between blanks -/

/-- The arguments, each with a blank before it. -/
def spaced (b : α) (ws : List (List α)) : List α := ws.flatMap fun w => b :: w

omit [DecidableEq α] in
theorem length_spaced (b : α) (ws : List (List α)) : (spaced b ws).length = weight ws := by
  simp [spaced, weight, List.length_flatMap]

omit [DecidableEq α] in
theorem spaced_cons (b : α) (w : List α) (ws : List (List α)) (s : List α) :
    spaced b (w :: ws) ++ s = b :: (w ++ (spaced b ws ++ s)) := by
  simp [spaced]

omit [DecidableEq α] in
theorem spaced_append (b : α) (ws vs : List (List α)) :
    spaced b (ws ++ vs) = spaced b ws ++ spaced b vs := List.flatMap_append

theorem count_spaced {b c : α} (hc : b ≠ c) (ws : List (List α)) :
    (spaced b ws).count c = ws.flatten.count c := by
  induction ws with
  | nil => rfl
  | cons w ws ih =>
    rw [← List.append_nil (spaced b (w :: ws)), spaced_cons, List.append_nil,
      List.count_cons_of_ne hc, List.count_append, ih, List.flatten_cons, List.count_append]

omit [DecidableEq α] in
theorem ends_spaced {b : α} (hb : g.blank b = true) (ws : List (List α)) {s : List α}
    (hs : Ends g s) : Ends g (spaced b ws ++ s) := by
  intro c hc
  cases ws with
  | nil => exact hs c hc
  | cons w ws =>
    cases hc
    exact hb

theorem args_spaced {b : α} (hb : g.blank b = true) {ws : List (List α)}
    (hws : ∀ w ∈ ws, Word g w) {s : List α} (hs : Ends g s) :
    args g (spaced b ws ++ s) = ws ++ args g s := by
  induction ws with
  | nil => rfl
  | cons w ws ih =>
    rw [List.forall_mem_cons] at hws
    rw [spaced_cons, args_blank _ hb, args_word hws.1 (ends_spaced hb ws hs), ih hws.2]
    rfl

theorem weight_args_spaced_le {b : α} (hb : g.blank b = true) (ws : List (List α)) :
    weight (args g (spaced b ws)) ≤ weight ws := by
  cases ws with
  | nil => exact le_refl 0
  | cons w ws =>
    have hle := weight_args_blank_le hb (w ++ spaced b ws)
    have hlen : (spaced b (w :: ws)).length = _ := length_spaced b (w :: ws)
    change (w ++ spaced b ws).length + 1 = _ at hlen
    change weight (args g (b :: (w ++ spaced b ws))) ≤ _
    omega

/-- Where the same arguments come out as are put in and some more, behind words that are added in
front, each of them is a word: it is one of those in front, or one that came out before. -/
theorem append_args_spaced_iff {b : α} (hb : g.blank b = true) {front : List (List α)}
    (hfront : ∀ w ∈ front, Word g w) {more : List (List α)} (hmore : more ≠ [])
    (ws : List (List α)) :
    front ++ args g (spaced b ws) = ws ++ more ↔ front ++ ws = ws ++ more := by
  by_cases hnil : front = []
  · subst hnil
    refine iff_of_false (fun h => ?_) fun h => hmore (by simpa using h)
    have hle := weight_args_spaced_le (g := g) hb ws
    have hpos : 0 < weight more := by
      cases more with
      | nil => exact absurd rfl hmore
      | cons w more =>
        rw [weight_cons]
        omega
    rw [← List.nil_append (args g _), h, weight_append] at hle
    omega
  · induction ws generalizing front with
    | nil => rfl
    | cons w ws ih =>
      obtain ⟨v, front, rfl⟩ := List.exists_cons_of_ne_nil hnil
      rw [List.forall_mem_cons] at hfront
      have hrest : ∀ u ∈ front ++ [v], Word g u := by
        intro u hu
        rcases List.mem_append.mp hu with hu | hu
        · exact hfront.2 u hu
        · rw [List.mem_singleton.mp hu]
          exact hfront.1
      have hstep := ih hrest (by simp)
      have hends : Ends g (spaced b ws) := by
        simpa using ends_spaced hb ws (s := []) nofun
      simp only [List.cons_append, List.cons.injEq]
      refine and_congr_right fun hv => ?_
      subst hv
      change front ++ args g (b :: (v ++ spaced b ws)) = _ ↔ _
      rw [args_blank _ hb, args_word hfront.1 hends]
      simpa using hstep

/-- Arguments with blanks before them come out as they are exactly where they are words, up to a
last one that may have quotes of its own around it. The bound on its text leaves no signs for the
quotes of the others to take. -/
theorem args_spaced_iff {b : α} (hb : g.blank b = true) {text last : List α}
    (htext : text.length ≤ last.length + min 2 (text.count g.quote)) (ws : List (List α)) :
    args g (spaced b ws ++ b :: text) = ws ++ [last] ↔
      (∀ w ∈ ws, Word g w) ∧ args g text = [last] := by
  have hend : Ends g (b :: text) := by
    rintro c ⟨⟩
    exact hb
  constructor
  · intro h
    induction ws with
    | nil => exact ⟨nofun, (args_blank text hb).symm.trans h⟩
    | cons w ws ih =>
      rw [spaced_cons, args_blank _ hb] at h
      obtain ⟨rest, hrest⟩ : ∃ rest, spaced b ws ++ b :: text = b :: rest := by
        cases ws with
        | nil => exact ⟨text, rfl⟩
        | cons v ws => exact ⟨_, spaced_cons b v ws _⟩
      have hweight : weight (w :: ws ++ [last]) = w.length + 1 + weight ws + (last.length + 1) := by
        rw [weight_append, weight_cons, weight_cons]
        rfl
      -- a blank at the front would be one sign too many that is lost
      have hfront : ∀ c s, w ++ (spaced b ws ++ b :: text) = c :: s → g.blank c = false := by
        intro c s hs
        by_contra hblank
        have hc := (Bool.not_eq_false _).mp hblank
        have hle := weight_args_blank_le hc s
        have hlen := congrArg List.length hs
        have hcount := congrArg (List.count g.quote) hs
        rw [List.length_append, List.length_append, length_spaced] at hlen
        rw [List.count_append, List.count_append, List.count_cons_of_ne (ne_quote_of_blank hb),
          List.count_cons_of_ne (ne_quote_of_blank hc)] at hcount
        rw [← hs, h, hweight] at hle
        simp only [List.length_cons] at hlen
        omega
      cases w with
      | nil =>
        rw [hfront b rest hrest] at hb
        cases hb
      | cons c w =>
        have hword : Word g (c :: w) := by
          rw [hrest] at h
          exact word_of_args hb (hfront c _ rfl) h
        rw [args_word hword (ends_spaced hb ws hend), List.cons_append, List.cons.injEq] at h
        obtain ⟨hws, hlast⟩ := ih h.2
        exact ⟨List.forall_mem_cons.mpr ⟨hword, hws⟩, hlast⟩
  · rintro ⟨hws, hlast⟩
    rw [args_spaced hb hws hend, args_blank text hb, hlast]

end

end argv
