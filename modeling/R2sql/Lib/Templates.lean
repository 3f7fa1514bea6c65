-- Templates: fixed texts with numbered holes. When the operands avoid a
-- separator and a separator follows every hole, the filled template gives its
-- operands back.
import Mathlib

namespace templates

variable {α : Type}

inductive Piece (α : Type) where
  | text (s : List α)
  | hole (i : Nat)
  deriving DecidableEq

/-- A template, with its pieces from left to right. -/
abbrev Template (α : Type) := List (Piece α)

/-- The template with operand `i` in hole `i`. A hole with no operand stays empty. -/
def fill (operands : List (List α)) : Template α → List α
  | [] => []
  | .text s :: t => s ++ fill operands t
  | .hole i :: t => operands.getD i [] ++ fill operands t

def holes : Template α → List Nat
  | [] => []
  | .text _ :: t => holes t
  | .hole i :: t => i :: holes t

@[simp] theorem fill_append (operands : List (List α)) (t u : Template α) :
    fill operands (t ++ u) = fill operands t ++ fill operands u := by
  induction t with
  | nil => rfl
  | cons p t ih => cases p <;> simp [fill, ih]

@[simp] theorem holes_append (t u : Template α) : holes (t ++ u) = holes t ++ holes u := by
  induction t with
  | nil => rfl
  | cons p t ih => cases p <;> simp [holes, ih]

/-! ## One operand -/

theorem fill_set_of_notMem (operands : List (List α)) {t : Template α} {i : Nat} (o : List α)
    (h : i ∉ holes t) : fill (operands.set i o) t = fill operands t := by
  induction t with
  | nil => rfl
  | cons p t ih =>
    cases p with
    | text s => rw [fill, fill, ih h]
    | hole j =>
      rw [holes, List.mem_cons, not_or] at h
      have hj : (operands.set i o).getD j [] = operands.getD j [] := by
        simp [List.getD_eq_getElem?_getD, List.getElem?_set_ne h.1]
      rw [fill, fill, ih h.2, hj]

theorem split_at_hole {t : Template α} {i : Nat} (h : i ∈ holes t) :
    ∃ before after : Template α, t = before ++ .hole i :: after := by
  induction t with
  | nil => cases h
  | cons p t ih =>
    cases p with
    | text s =>
      obtain ⟨before, after, rfl⟩ := ih h
      exact ⟨.text s :: before, after, rfl⟩
    | hole j =>
      rcases List.mem_cons.mp h with rfl | h
      · exact ⟨[], t, rfl⟩
      · obtain ⟨before, after, rfl⟩ := ih h
        exact ⟨.hole j :: before, after, rfl⟩

/-- Around the only hole of an operand stand two texts that do not depend on the operand. -/
theorem fill_set (operands : List (List α)) {t : Template α} {i : Nat} (hi : i < operands.length)
    (hmem : i ∈ holes t) (honce : (holes t).Nodup) :
    ∃ before after : List α, ∀ o, fill (operands.set i o) t = before ++ o ++ after := by
  obtain ⟨left, right, rfl⟩ := split_at_hole hmem
  rw [holes_append, holes, List.nodup_append, List.nodup_cons] at honce
  obtain ⟨-, ⟨hright, -⟩, hapart⟩ := honce
  have hleft : i ∉ holes left := fun h => hapart i h i List.mem_cons_self rfl
  refine ⟨fill operands left, fill operands right, ?_⟩
  intro o
  have hget : (operands.set i o).getD i [] = o := by
    simp [List.getD_eq_getElem?_getD, hi]
  rw [fill_append, fill, fill_set_of_notMem operands o hleft, fill_set_of_notMem operands o hright,
    hget, List.append_assoc]

/-! ## All operands -/

/-- Every hole is the last piece, or has a text after it that begins with the separator. -/
def separated [DecidableEq α] (sep : α) : Template α → Bool
  | .hole _ :: .text s :: t => s.head? = some sep && separated sep t
  | .hole _ :: .hole _ :: _ => false
  | .text _ :: t => separated sep t
  | _ => true

theorem split_at_separator {sep : α} {a b x y : List α} (ha : sep ∉ a) (hb : sep ∉ b)
    (h : a ++ sep :: x = b ++ sep :: y) : a = b ∧ x = y := by
  rcases List.append_eq_append_iff.mp h with ⟨c, rfl, hc⟩ | ⟨c, rfl, hc⟩
  · rcases List.cons_eq_append_iff.mp hc with ⟨rfl, hy⟩ | ⟨c', rfl, -⟩
    · exact ⟨(List.append_nil a).symm, (List.cons.inj hy).2.symm⟩
    · simp at hb
  · rcases List.cons_eq_append_iff.mp hc with ⟨rfl, hx⟩ | ⟨c', rfl, -⟩
    · exact ⟨List.append_nil b, (List.cons.inj hx).2⟩
    · simp at ha

/-- Filled in the same way, two lists of operands without separators agree at every hole. -/
theorem fill_injective_at [DecidableEq α] {sep : α} {t : Template α} (ht : separated sep t)
    {a b : List (List α)} (ha : ∀ i, sep ∉ a.getD i []) (hb : ∀ i, sep ∉ b.getD i [])
    (h : fill a t = fill b t) : ∀ i ∈ holes t, a.getD i [] = b.getD i [] := by
  fun_induction separated sep t with
  | case1 i s t ih =>
    simp only [Bool.and_eq_true, decide_eq_true_eq, List.head?_eq_some_iff] at ht
    obtain ⟨⟨s, rfl⟩, ht⟩ := ht
    simp only [fill, List.cons_append] at h
    obtain ⟨hhere, hrest⟩ := split_at_separator (ha i) (hb i) h
    intro j hj
    rcases List.mem_cons.mp hj with rfl | hj
    · exact hhere
    · exact ih ht (List.append_cancel_left hrest) j hj
  | case2 => cases ht
  | case3 s t ih => exact ih ht (List.append_cancel_left h)
  | case4 t h1 h2 h3 =>
    match t, h1, h2, h3 with
    | [], _, _, _ =>
      intro j hj
      cases hj
    | [.hole i], _, _, _ =>
      intro j hj
      rw [List.mem_singleton.mp hj]
      simpa [fill] using h
    | .text s :: t, _, _, h3 => exact (h3 s t rfl).elim
    | .hole i :: .text s :: t, h1, _, _ => exact (h1 i s t rfl).elim
    | .hole i :: .hole j :: t, _, h2, _ => exact (h2 i j t rfl).elim

/-- Templates that use every operand determine all of them. -/
theorem fill_injective [DecidableEq α] {sep : α} {ts : List (Template α)} {a b : List (List α)}
    (hsep : ∀ t ∈ ts, separated sep t) (hlen : a.length = b.length)
    (hused : ∀ i < a.length, ∃ t ∈ ts, i ∈ holes t)
    (ha : ∀ s ∈ a, sep ∉ s) (hb : ∀ s ∈ b, sep ∉ s) (h : ts.map (fill a) = ts.map (fill b)) :
    a = b := by
  have hclean : ∀ l : List (List α), (∀ s ∈ l, sep ∉ s) → ∀ i, sep ∉ l.getD i [] := by
    intro l hl i
    by_cases hi : i < l.length
    · simpa [hi] using hl _ (List.getElem_mem hi)
    · simp [hi]
  apply List.ext_getElem hlen
  intro i hia hib
  obtain ⟨t, ht, hit⟩ := hused i hia
  have heq := fill_injective_at (hsep t ht) (hclean a ha) (hclean b hb)
    (List.map_inj_left.mp h t ht) i hit
  simpa [hia, hib] using heq

end templates
