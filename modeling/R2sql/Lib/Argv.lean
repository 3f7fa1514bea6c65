-- Command lines: how a program whose arguments come in one text splits them.
-- Blanks part the arguments, quotes group, and an escape sign before a quote
-- makes it a plain sign. Which texts come out as they were put in.
import Mathlib

namespace argv

/-! ## The split -/

/-- The signs that are special in a command line. -/
structure Signs (α : Type) where
  quote : α
  escape : α
  blank : α → Bool
  escape_ne_quote : escape ≠ quote
  blank_quote : blank quote = false
  blank_escape : blank escape = false

/-- Where the split stands: between two arguments, in one and outside its quotes, inside them, or
right after a quote that closes, unless the next sign is a quote as well. -/
inductive Mode where
  | gap
  | outside
  | inside
  | closing
  deriving DecidableEq

/-- The mode after a sign that goes into the argument. -/
def Mode.within : Mode → Mode
  | .inside => .inside
  | _ => .outside

/-- The mode after a quote that is not escaped. -/
def Mode.turn : Mode → Mode
  | .inside => .closing
  | _ => .inside

variable {α : Type} [DecidableEq α]

/-- Put signs before the first argument. -/
def push (w : List α) : List (List α) → List (List α)
  | [] => [w]
  | t :: ts => (w ++ t) :: ts

/-- The arguments in a text, after `n` escape signs that still wait for what they stand before. They
are halved before a quote, and an odd one makes the quote plain. Two quotes in a row inside of
quotes are one plain quote. -/
def split (g : Signs α) : Mode → Nat → List α → List (List α)
  | m, n, [] => if m = .gap then [] else [List.replicate n g.escape]
  | m, n, c :: s =>
    if c = g.escape then split g m.within (n + 1) s
    else if c = g.quote then
      if n % 2 = 1 then
        push (List.replicate (n / 2) g.escape ++ [g.quote]) (split g m.within 0 s)
      else
        push (List.replicate (n / 2) g.escape ++ if m = .closing then [g.quote] else [])
          (split g m.turn 0 s)
    else if g.blank c ∧ m ≠ .inside then
      if m = .gap then split g .gap 0 s else List.replicate n g.escape :: split g .gap 0 s
    else push (List.replicate n g.escape ++ [c]) (split g m.within 0 s)

/-- The arguments of a text. -/
def args (g : Signs α) (s : List α) : List (List α) := split g .gap 0 s

/-- What follows the name of the program, that comes first. Its quotes group, and no sign escapes
them. -/
def after_name (g : Signs α) : Bool → List α → List α
  | _, [] => []
  | quoted, c :: s =>
    if c = g.quote then after_name g (!quoted) s
    else if g.blank c ∧ quoted = false then s
    else after_name g quoted s

/-- The arguments of a command line, after the name of the program. -/
def arguments (g : Signs α) (line : List α) : List (List α) := args g (after_name g false line)

/-! ## Texts that pass -/

/-- An argument that needs no quotes. -/
structure Word (g : Signs α) (w : List α) : Prop where
  ne_nil : w ≠ []
  no_quote : g.quote ∉ w
  no_blank : ∀ c ∈ w, g.blank c = false

/-- A text that comes out as it is from between two quotes: no quote is in it, or a single one that
ends it, and what is before it does not end in an escape sign. -/
def Quotable (g : Signs α) (p : List α) : Prop :=
  ∃ u, (p = u ∨ p = u ++ [g.quote]) ∧ g.quote ∉ u ∧ u.getLast? ≠ some g.escape

/-- A name of a program that stays in the quotes around it: read from inside of them, its own quotes
come in pairs, and no blank is outside. -/
def Whole (g : Signs α) : Bool → List α → Prop
  | quoted, [] => quoted = true
  | quoted, c :: s =>
    if c = g.quote then Whole g (!quoted) s
    else (g.blank c = true → quoted = true) ∧ Whole g quoted s

/-- A name of a program that ends early: it has a blank outside of its quotes, and `rest` is behind
the first of them. -/
def Leaves (g : Signs α) : Bool → List α → List α → Prop
  | _, [], _ => False
  | quoted, c :: s, rest =>
    if c = g.quote then Leaves g (!quoted) s rest
    else if g.blank c ∧ quoted = false then s = rest
    else Leaves g quoted s rest

/-- A sign that always stands for itself. -/
structure Letter (g : Signs α) (c : α) : Prop where
  ne_quote : c ≠ g.quote
  ne_escape : c ≠ g.escape
  not_blank : g.blank c = false

/-! ## One sign -/

section
variable (g : Signs α) (m : Mode) (n : Nat) (s : List α)

theorem split_escape : split g m n (g.escape :: s) = split g m.within (n + 1) s := by
  rw [split, if_pos rfl]

theorem split_quote : split g m n (g.quote :: s) =
    if n % 2 = 1 then push (List.replicate (n / 2) g.escape ++ [g.quote]) (split g m.within 0 s)
    else push (List.replicate (n / 2) g.escape ++ if m = .closing then [g.quote] else [])
      (split g m.turn 0 s) := by
  rw [split, if_neg g.escape_ne_quote.symm, if_pos rfl]

variable {g m} {b c : α}

omit [DecidableEq α] in
theorem ne_quote_of_blank (hb : g.blank b = true) : b ≠ g.quote := by
  rintro rfl
  rw [g.blank_quote] at hb
  cases hb

omit [DecidableEq α] in
theorem ne_escape_of_blank (hb : g.blank b = true) : b ≠ g.escape := by
  rintro rfl
  rw [g.blank_escape] at hb
  cases hb

theorem split_blank_gap (hb : g.blank b = true) : split g .gap n (b :: s) = args g s := by
  rw [split, if_neg (ne_escape_of_blank hb), if_neg (ne_quote_of_blank hb), if_pos ⟨hb, nofun⟩,
    if_pos rfl, args]

theorem args_blank (hb : g.blank b = true) : args g (b :: s) = args g s := by
  rw [args, split_blank_gap 0 s hb]

theorem split_blank (hb : g.blank b = true) (hgap : m ≠ .gap) (hinside : m ≠ .inside) :
    split g m n (b :: s) = List.replicate n g.escape :: args g s := by
  rw [split, if_neg (ne_escape_of_blank hb), if_neg (ne_quote_of_blank hb), if_pos ⟨hb, hinside⟩,
    if_neg hgap, args]

theorem split_plain (hescape : c ≠ g.escape) (hquote : c ≠ g.quote)
    (hblank : g.blank c = true → m = .inside) :
    split g m n (c :: s) = push (List.replicate n g.escape ++ [c]) (split g m.within 0 s) := by
  rw [split, if_neg hescape, if_neg hquote, if_neg fun h => h.2 (hblank h.1)]

theorem split_gap (hc : g.blank c = false) :
    split g .gap n (c :: s) = split g .outside n (c :: s) := by
  by_cases hescape : c = g.escape
  · subst hescape
    rw [split_escape, split_escape]
    rfl
  · by_cases hquote : c = g.quote
    · subst hquote
      rw [split_quote, split_quote]
      rfl
    · rw [split_plain n s hescape hquote (by simp [hc]),
        split_plain n s hescape hquote (by simp [hc])]
      rfl

/-- After a closing quote, only a second quote makes a difference. -/
theorem split_closing (hc : c ≠ g.quote) :
    split g .closing n (c :: s) = split g .outside n (c :: s) := by
  by_cases hescape : c = g.escape
  · subst hescape
    rw [split_escape, split_escape]
    rfl
  · by_cases hblank : g.blank c = true
    · rw [split_blank n s hblank (by decide) (by decide),
        split_blank n s hblank (by decide) (by decide)]
    · rw [split_plain n s hescape hc (fun h => absurd h hblank),
        split_plain n s hescape hc (fun h => absurd h hblank)]
      rfl

end

theorem within_ne_gap (m : Mode) : m.within ≠ .gap := by cases m <;> decide

theorem turn_ne_gap (m : Mode) : m.turn ≠ .gap := by cases m <;> decide

/-! ## Arguments put together -/

section
variable (w : List α) (ts : List (List α))

omit [DecidableEq α] in
theorem push_ne_nil : push w ts ≠ [] := by cases ts <;> exact List.cons_ne_nil _ _

omit [DecidableEq α] in
theorem headD_push : (push w ts).headD [] = w ++ ts.headD [] := by
  cases ts <;> simp [push]

omit [DecidableEq α] in
theorem flatten_push : (push w ts).flatten = w ++ ts.flatten := by
  cases ts <;> simp [push]

omit [DecidableEq α] in
theorem push_push (v : List α) : push v (push w ts) = push (v ++ w) ts := by
  cases ts <;> simp [push]

omit [DecidableEq α] in
theorem push_cancel {ts : List (List α)} {t : List α} (hne : ts ≠ [])
    (h : push w ts = [w ++ t]) : ts = [t] := by
  cases ts with
  | nil => exact absurd rfl hne
  | cons u us =>
    rw [push, List.cons.injEq] at h
    rw [List.append_cancel_left h.1, h.2]

end

/-- What a sign can be: an escape, a quote, a blank that parts two arguments, or a sign of an
argument. -/
theorem sign_cases (g : Signs α) (m : Mode) (c : α) :
    c = g.escape ∨ c = g.quote ∨ (g.blank c = true ∧ m ≠ .inside) ∨
      (c ≠ g.escape ∧ c ≠ g.quote ∧ (g.blank c = true → m = .inside)) := by
  by_cases hescape : c = g.escape
  · exact Or.inl hescape
  · by_cases hquote : c = g.quote
    · exact Or.inr (Or.inl hquote)
    · by_cases hblank : g.blank c = true → m = .inside
      · exact Or.inr (Or.inr (Or.inr ⟨hescape, hquote, hblank⟩))
      · exact Or.inr (Or.inr (Or.inl (Classical.not_imp.mp hblank)))

theorem split_ne_nil (g : Signs α) {m : Mode} (hm : m ≠ .gap) (n : Nat) (s : List α) :
    split g m n s ≠ [] := by
  induction s generalizing m n with
  | nil =>
    rw [split, if_neg hm]
    exact List.cons_ne_nil _ _
  | cons c s ih =>
    rcases sign_cases g m c with rfl | rfl | ⟨hblank, hinside⟩ | ⟨hescape, hquote, hblank⟩
    · rw [split_escape]
      exact ih (within_ne_gap m) (n + 1)
    · rw [split_quote]
      split
      · exact push_ne_nil _ _
      · exact push_ne_nil _ _
    · rw [split_blank n s hblank hm hinside]
      exact List.cons_ne_nil _ _
    · rw [split_plain n s hescape hquote hblank]
      exact push_ne_nil _ _

/-! ## What the split takes away -/

/-- The signs of the arguments, and one more for the end of each. -/
def weight (ws : List (List α)) : Nat := (ws.map fun w => w.length + 1).sum

omit [DecidableEq α] in
theorem weight_cons (w : List α) (ws : List (List α)) :
    weight (w :: ws) = w.length + 1 + weight ws := by
  simp [weight]

omit [DecidableEq α] in
theorem weight_append (ws vs : List (List α)) : weight (ws ++ vs) = weight ws + weight vs := by
  simp [weight]

omit [DecidableEq α] in
theorem weight_push (w : List α) {ts : List (List α)} (h : ts ≠ []) :
    weight (push w ts) = w.length + weight ts := by
  cases ts with
  | nil => exact absurd rfl h
  | cons t ts =>
    rw [push, weight_cons, weight_cons, List.length_append]
    omega

omit [DecidableEq α] in
theorem weight_push_escapes (k : Nat) (e : α) (w : List α) {ts : List (List α)} (h : ts ≠ []) :
    weight (push (List.replicate k e ++ w) ts) = k + w.length + weight ts := by
  rw [weight_push _ h, List.length_append, List.length_replicate]

/-- How many signs the quotes that are still to come take away at least. -/
def due : Mode → Nat → Nat
  | .inside, q => min 1 q
  | .closing, _ => 0
  | _, q => min 2 q

theorem due_le_within (m : Mode) (q : Nat) : due m q ≤ due m.within q := by
  cases m <;> simp [due, Mode.within]

/-- A quote that is not escaped pays for itself, or is the second of a pair. -/
theorem due_succ_le (m : Mode) (q : Nat) :
    due m (q + 1) + (if m = .closing then 1 else 0) ≤ due m.turn q + 1 := by
  cases m <;> simp [due, Mode.turn] <;> omega

theorem due_succ_le_within (m : Mode) (q : Nat) : due m (q + 1) ≤ due m.within q + 1 := by
  cases m <;> simp [due, Mode.within] <;> omega

/-- Each sign goes into one argument or ends it, and quotes take some away. -/
theorem weight_split_le (g : Signs α) (m : Mode) (n : Nat) (s : List α) :
    weight (split g m n s) + due m (s.count g.quote) ≤ s.length + n + 1 := by
  induction s generalizing m n with
  | nil =>
    have hdue : due m 0 = 0 := by cases m <;> rfl
    rw [List.count_nil, hdue, split]
    split <;> simp [weight]
  | cons c s ih =>
    have hwithin : ∀ k, split g m.within k s ≠ [] := fun k => split_ne_nil g (within_ne_gap m) k s
    have hturn : split g m.turn 0 s ≠ [] := split_ne_nil g (turn_ne_gap m) 0 s
    rw [List.length_cons]
    rcases sign_cases g m c with rfl | rfl | ⟨hblank, hinside⟩ | ⟨hescape, hquote, hblank⟩
    · have hle := ih m.within (n + 1)
      have hdue := due_le_within m (s.count g.quote)
      rw [split_escape, List.count_cons_of_ne g.escape_ne_quote]
      omega
    · rw [split_quote, List.count_cons_self]
      split
      · have hle := ih m.within 0
        have hdue := due_succ_le_within m (s.count g.quote)
        rw [weight_push_escapes _ _ _ (hwithin 0), List.length_singleton]
        omega
      · have hle := ih m.turn 0
        have hdue := due_succ_le m (s.count g.quote)
        have hlen : (if m = .closing then [g.quote] else []).length =
            if m = .closing then 1 else 0 := by split <;> rfl
        rw [weight_push_escapes _ _ _ hturn, hlen]
        omega
    · have hle := ih .gap 0
      have hdue : due m (s.count g.quote) ≤ due .gap (s.count g.quote) := by
        cases m <;> simp [due]
      rw [List.count_cons_of_ne (ne_quote_of_blank hblank)]
      by_cases hgap : m = .gap
      · subst hgap
        rw [split_blank_gap n s hblank, args]
        omega
      · rw [split_blank n s hblank hgap hinside, args, weight_cons, List.length_replicate]
        omega
    · have hle := ih m.within 0
      have hdue := due_le_within m (s.count g.quote)
      rw [split_plain n s hescape hquote hblank, List.count_cons_of_ne hquote,
        weight_push_escapes _ _ _ (hwithin 0), List.length_singleton]
      omega

theorem weight_args_le (g : Signs α) (s : List α) :
    weight (args g s) + min 2 (s.count g.quote) ≤ s.length + 1 := weight_split_le g .gap 0 s

theorem weight_args_blank_le {g : Signs α} {b : α} (hb : g.blank b = true) (s : List α) :
    weight (args g (b :: s)) + min 2 (s.count g.quote) ≤ s.length + 1 := by
  rw [args_blank s hb]
  exact weight_args_le g s

section
variable {g : Signs α} {c : α} (hc : Letter g c)
include hc

theorem count_escapes (k : Nat) : (List.replicate k g.escape).count c = 0 := by
  rw [List.count_replicate, if_neg (by simpa using hc.ne_escape.symm)]

theorem count_push_escapes (k : Nat) (w : List α) (ts : List (List α)) :
    (push (List.replicate k g.escape ++ w) ts).flatten.count c =
      w.count c + ts.flatten.count c := by
  rw [flatten_push, List.count_append, List.count_append, count_escapes hc, Nat.zero_add]

theorem count_split (m : Mode) (n : Nat) (s : List α) :
    (split g m n s).flatten.count c = s.count c := by
  induction s generalizing m n with
  | nil =>
    rw [split]
    split
    · rfl
    · simpa using count_escapes hc n
  | cons d s ih =>
    rcases sign_cases g m d with rfl | rfl | ⟨hblank, hinside⟩ | ⟨hescape, hquote, hblank⟩
    · rw [split_escape, ih, List.count_cons_of_ne hc.ne_escape.symm]
    · have hsingle : [g.quote].count c = 0 := by
        rw [List.count_singleton, if_neg (by simpa using hc.ne_quote.symm)]
      rw [split_quote, List.count_cons_of_ne hc.ne_quote.symm]
      split
      · rw [count_push_escapes hc, ih, hsingle, Nat.zero_add]
      · have hpair : (if m = .closing then [g.quote] else []).count c = 0 := by
          split
          · exact hsingle
          · rfl
        rw [count_push_escapes hc, ih, hpair, Nat.zero_add]
    · have hne : d ≠ c := by
        rintro rfl
        rw [hc.not_blank] at hblank
        cases hblank
      rw [List.count_cons_of_ne hne]
      by_cases hgap : m = .gap
      · subst hgap
        rw [split_blank_gap n s hblank, args, ih]
      · rw [split_blank n s hblank hgap hinside, args, List.flatten_cons, List.count_append,
          count_escapes hc, ih, Nat.zero_add]
    · rw [split_plain n s hescape hquote hblank, count_push_escapes hc, ih, ← List.count_append]
      rfl

theorem count_args (s : List α) : (args g s).flatten.count c = s.count c :=
  count_split hc .gap 0 s

end

end argv
