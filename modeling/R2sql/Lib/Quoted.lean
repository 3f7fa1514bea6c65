-- Quoted texts: a text between two quotes, in which an escape sign stands
-- before a quote or before another escape sign that belongs to the text.
import Mathlib

namespace quoted

variable {α : Type} [DecidableEq α] (quote escape : α)

/-- The text up to the closing quote, and what follows the quote. The opening quote is not there any
more. An escape sign before any other sign stands for itself. -/
def read : List α → Option (List α × List α)
  | [] => none
  | [c] => if c = quote then some ([], []) else none
  | c :: d :: rest =>
    if c = quote then some ([], d :: rest)
    else if c = escape ∧ (d = quote ∨ d = escape) then
      (read rest).map fun p => (d :: p.1, p.2)
    else (read (d :: rest)).map fun p => (c :: p.1, p.2)

/-- A text that needs no escapes. -/
structure Plain (text : List α) : Prop where
  no_quote : quote ∉ text
  no_pair : ¬ [escape, escape] <:+: text
  last : text.getLast? ≠ some escape

variable {quote escape}

/-! ## Reading one sign -/

theorem read_cons {c : α} {l : List α} (hc : c ≠ quote)
    (hnext : c = escape → ∀ d ∈ l.head?, d ≠ quote ∧ d ≠ escape) :
    read quote escape (c :: l) = (read quote escape l).map fun p => (c :: p.1, p.2) := by
  cases l with
  | nil => simp [read, hc]
  | cons d rest =>
    have hescape : ¬ (c = escape ∧ (d = quote ∨ d = escape)) := by
      rintro ⟨he, hd⟩
      have hplain := hnext he d rfl
      exact hd.elim hplain.1 hplain.2
    rw [read, if_neg hc, if_neg hescape]

theorem read_escape {c : α} {l : List α} (hne : escape ≠ quote) (hc : c = quote ∨ c = escape) :
    read quote escape (escape :: c :: l) = (read quote escape l).map fun p => (c :: p.1, p.2) := by
  rw [read, if_neg hne, if_pos ⟨rfl, hc⟩]

theorem read_quote (l : List α) : read quote escape (quote :: l) = some ([], l) := by
  cases l <;> simp [read]

/-! ## Texts without escapes -/

omit [DecidableEq α] in
theorem Plain.tail {c : α} {text : List α} (h : Plain quote escape (c :: text)) :
    Plain quote escape text where
  no_quote := fun hq => h.no_quote (List.mem_cons_of_mem c hq)
  no_pair := fun hp => h.no_pair (hp.trans (List.suffix_cons c text).isInfix)
  last := by
    intro hl
    apply h.last
    rw [List.getLast?_cons, hl]
    rfl

theorem read_plain {text : List α} (h : Plain quote escape text) (rest : List α) :
    read quote escape (text ++ quote :: rest) = some (text, rest) := by
  induction text with
  | nil => exact read_quote rest
  | cons c text ih =>
    have hc : c ≠ quote := fun e => h.no_quote (e ▸ List.mem_cons_self)
    rw [List.cons_append, read_cons hc, ih h.tail]
    · rfl
    · rintro rfl d hd
      cases text with
      | nil => exact absurd rfl h.last
      | cons e text =>
        cases hd
        constructor
        · exact fun he => h.no_quote (by simp [he])
        · exact fun he => h.no_pair ⟨[], text, by simp [he]⟩

theorem read_length {l text rest : List α} (h : read quote escape l = some (text, rest)) :
    text.length + rest.length + 1 ≤ l.length := by
  fun_induction read quote escape l generalizing text rest with
  | case1 => cases h
  | case2 =>
    cases h
    simp
  | case3 c hc => cases h
  | case4 d rest' =>
    cases h
    simp
  | case5 c d rest' hc he ih =>
    obtain ⟨⟨t, r⟩, hread, heq⟩ := Option.map_eq_some_iff.mp h
    cases heq
    have hle := ih hread
    simp only [List.length_cons]
    omega
  | case6 c d rest' hc he ih =>
    obtain ⟨⟨t, r⟩, hread, heq⟩ := Option.map_eq_some_iff.mp h
    cases heq
    have hle := ih hread
    simp only [List.length_cons] at hle ⊢
    omega

omit [DecidableEq α] in
theorem plain_nil : Plain quote escape [] where
  no_quote := List.not_mem_nil
  no_pair := by simp
  last := by simp

omit [DecidableEq α] in
theorem Plain.cons {c : α} {text rest : List α} (h : Plain quote escape text) (hc : c ≠ quote)
    (hnext : c = escape → ∀ d ∈ (text ++ quote :: rest).head?, d ≠ quote ∧ d ≠ escape) :
    Plain quote escape (c :: text) where
  no_quote := by
    intro hq
    rcases List.mem_cons.mp hq with rfl | hq
    · exact hc rfl
    · exact h.no_quote hq
  no_pair := by
    intro hp
    rcases List.infix_cons_iff.mp hp with hp | hp
    · obtain ⟨hce, htext⟩ := List.cons_prefix_cons.mp hp
      obtain ⟨t, rfl⟩ := htext
      exact (hnext hce.symm escape rfl).2 rfl
    · exact h.no_pair hp
  last := by
    intro hl
    cases text with
    | nil => exact (hnext (Option.some.inj hl) quote rfl).1 rfl
    | cons d text => exact h.last (by rwa [List.getLast?_cons_cons] at hl)

/-- A text that is read without a sign less stands there as it is, and needs no escapes. -/
theorem plain_of_read {l text rest : List α} (h : read quote escape l = some (text, rest))
    (hlen : text.length + rest.length + 1 = l.length) :
    Plain quote escape text ∧ l = text ++ quote :: rest := by
  fun_induction read quote escape l generalizing text rest with
  | case1 => cases h
  | case2 =>
    cases h
    exact ⟨plain_nil, rfl⟩
  | case3 c hc => cases h
  | case4 d rest' =>
    cases h
    exact ⟨plain_nil, rfl⟩
  | case5 c d rest' hc he ih =>
    obtain ⟨⟨t, r⟩, hread, heq⟩ := Option.map_eq_some_iff.mp h
    cases heq
    have hle := read_length hread
    simp only [List.length_cons] at hlen
    omega
  | case6 c d rest' hc he ih =>
    obtain ⟨⟨t, r⟩, hread, heq⟩ := Option.map_eq_some_iff.mp h
    cases heq
    simp only [List.length_cons] at hlen
    obtain ⟨hplain, hsplit⟩ := ih hread (by simp only [List.length_cons]; omega)
    have hnext : c = escape → ∀ x ∈ (t ++ quote :: r).head?, x ≠ quote ∧ x ≠ escape := by
      rw [← hsplit]
      rintro hce x hx
      cases hx
      constructor
      · exact fun hd => he ⟨hce, Or.inl hd⟩
      · exact fun hd => he ⟨hce, Or.inr hd⟩
    exact ⟨hplain.cons hc hnext, by rw [hsplit, List.cons_append]⟩

/-- Exactly the texts that need no escapes are read as they are. -/
theorem read_eq_self_iff {text : List α} :
    read quote escape (text ++ [quote]) = some (text, []) ↔ Plain quote escape text := by
  constructor
  · intro h
    exact (plain_of_read h (by simp)).1
  · intro h
    exact read_plain h []

end quoted
