-- The front of a text: the letters of one kind that it begins with, and what
-- comes after them.
import Mathlib

namespace fronts

variable {α : Type} {p : α → Bool} {front rest text : List α}

/-- The text does not begin with a letter of the kind. -/
def Stops (p : α → Bool) (text : List α) : Prop := ∀ c ∈ text.head?, p c = false

theorem stops_dropWhile (p : α → Bool) (text : List α) : Stops p (text.dropWhile p) := by
  intro c hc
  have h := List.head?_dropWhile_not p text
  rw [Option.mem_def.mp hc] at h
  simpa using h

theorem dropWhile_of_stops (h : Stops p text) : text.dropWhile p = text := by
  cases text with
  | nil => rfl
  | cons c text =>
    have hc := h c rfl
    exact List.dropWhile_cons_of_neg (by simp [hc])

theorem takeWhile_of_stops (h : Stops p text) : text.takeWhile p = [] := by
  cases text with
  | nil => rfl
  | cons c text =>
    have hc := h c rfl
    exact List.takeWhile_cons_of_neg (by simp [hc])

theorem dropWhile_append (hfront : ∀ c ∈ front, p c = true) (hrest : Stops p rest) :
    (front ++ rest).dropWhile p = rest := by
  rw [List.dropWhile_append_of_pos hfront, dropWhile_of_stops hrest]

theorem takeWhile_append (hfront : ∀ c ∈ front, p c = true) (hrest : Stops p rest) :
    (front ++ rest).takeWhile p = front := by
  rw [List.takeWhile_append_of_pos hfront, takeWhile_of_stops hrest, List.append_nil]

theorem append_injective {front' rest' : List α} (hfront : ∀ c ∈ front, p c = true)
    (hrest : Stops p rest) (hfront' : ∀ c ∈ front', p c = true) (hrest' : Stops p rest')
    (h : front ++ rest = front' ++ rest') : front = front' ∧ rest = rest' := by
  constructor
  · rw [← takeWhile_append hfront hrest, h, takeWhile_append hfront' hrest']
  · rw [← dropWhile_append hfront hrest, h, dropWhile_append hfront' hrest']

theorem exists_append (p : α → Bool) (text : List α) :
    ∃ front, (∀ c ∈ front, p c = true) ∧ text = front ++ text.dropWhile p :=
  ⟨text.takeWhile p, fun _ hc => List.mem_takeWhile_imp hc, List.takeWhile_append_dropWhile.symm⟩

end fronts
