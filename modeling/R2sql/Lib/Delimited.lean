-- Tables in a text: a mark between the cells of a row, and a mark at the end of
-- each row. The text tells the table where no cell has a mark in it.
import Mathlib

namespace delimited

variable {α : Type} [DecidableEq α] {cell line : α}

/-- The text of a table. -/
def write (cell line : α) (rows : List (List (List α))) : List α :=
  rows.flatMap fun row => [cell].intercalate row ++ [line]

/-- The table in a text: what is after the last end of a row is no row. -/
def read (cell line : α) (text : List α) : List (List (List α)) :=
  (text.splitOn line).dropLast.map fun row => row.splitOn cell

/-- A piece of a text has no mark in it, and nothing that the text has not. -/
theorem piece_of_splitOn {mark : α} {text piece : List α} (h : piece ∈ text.splitOn mark) :
    mark ∉ piece ∧ ∀ c ∈ piece, c ∈ text := by
  induction text generalizing piece with
  | nil =>
    rw [List.splitOn_nil, List.mem_singleton] at h
    subst h
    simp
  | cons a text ih =>
    rw [List.splitOn_cons_eq_if_modifyHead] at h
    split at h
    · rcases List.mem_cons.mp h with rfl | h
      · simp
      · obtain ⟨hmark, hmem⟩ := ih h
        exact ⟨hmark, fun c hc => List.mem_cons_of_mem _ (hmem c hc)⟩
    · rename_i ha
      obtain ⟨first, rest, hsplit⟩ := List.exists_cons_of_ne_nil (List.splitOn_ne_nil mark text)
      rw [hsplit, List.modifyHead_cons] at h
      rcases List.mem_cons.mp h with rfl | h
      · obtain ⟨hmark, hmem⟩ := ih (hsplit ▸ List.mem_cons_self)
        refine ⟨?_, fun c hc => ?_⟩
        · rw [List.mem_cons, not_or]
          exact ⟨fun e => ha (by simp [e]), hmark⟩
        · rcases List.mem_cons.mp hc with rfl | hc
          · exact List.mem_cons_self
          · exact List.mem_cons_of_mem _ (hmem c hc)
      · obtain ⟨hmark, hmem⟩ := ih (hsplit ▸ List.mem_cons_of_mem _ h)
        exact ⟨hmark, fun c hc => List.mem_cons_of_mem _ (hmem c hc)⟩

theorem of_mem_read {text : List α} {row : List (List α)} (hrow : row ∈ read cell line text)
    {c : List α} (hc : c ∈ row) : cell ∉ c ∧ line ∉ c ∧ ∀ a ∈ c, a ∈ text := by
  obtain ⟨piece, hpiece, rfl⟩ := List.mem_map.mp hrow
  obtain ⟨hline, htext⟩ := piece_of_splitOn (List.mem_of_mem_dropLast hpiece)
  obtain ⟨hcell, hmem⟩ := piece_of_splitOn hc
  exact ⟨hcell, fun h => hline (hmem _ h), fun a ha => htext a (hmem a ha)⟩

omit [DecidableEq α] in
theorem mem_intercalate {mark a : α} {row : List (List α)} (h : a ∈ [mark].intercalate row) :
    a = mark ∨ ∃ c ∈ row, a ∈ c := by
  induction row with
  | nil => simp at h
  | cons c row ih =>
    cases row with
    | nil =>
      rw [List.intercalate_singleton] at h
      exact .inr ⟨c, by simp, h⟩
    | cons d row =>
      rw [List.intercalate_cons_cons, List.append_assoc, List.mem_append, List.mem_append,
        List.mem_singleton] at h
      rcases h with h | h | h
      · exact .inr ⟨c, by simp, h⟩
      · exact .inl h
      · rcases ih h with h | ⟨e, he, h⟩
        · exact .inl h
        · exact .inr ⟨e, List.mem_cons_of_mem _ he, h⟩

omit [DecidableEq α] in
theorem mem_write {a : α} {rows : List (List (List α))} (h : a ∈ write cell line rows) :
    a = cell ∨ a = line ∨ ∃ row ∈ rows, ∃ c ∈ row, a ∈ c := by
  obtain ⟨row, hrow, h⟩ := List.mem_flatMap.mp h
  rcases List.mem_append.mp h with h | h
  · rcases mem_intercalate h with h | ⟨c, hc, h⟩
    · exact .inl h
    · exact .inr (.inr ⟨row, hrow, c, hc, h⟩)
  · exact .inr (.inl (List.mem_singleton.mp h))

theorem read_append (hne : cell ≠ line) {row : List (List α)} (hrow : row ≠ [])
    (hcells : ∀ c ∈ row, cell ∉ c ∧ line ∉ c) (text : List α) :
    read cell line ([cell].intercalate row ++ line :: text) = row :: read cell line text := by
  have hline : line ∉ [cell].intercalate row := by
    intro h
    rcases mem_intercalate h with h | ⟨c, hc, h⟩
    · exact hne h.symm
    · exact (hcells c hc).2 h
  unfold read
  rw [List.splitOn_append_cons_self_of_not_mem hline,
    List.dropLast_cons_of_ne_nil (List.splitOn_ne_nil line text), List.map_cons,
    List.splitOn_intercalate cell (fun c hc => (hcells c hc).1) hrow]

theorem read_write_append (hne : cell ≠ line) {rows : List (List (List α))}
    (hrows : ∀ row ∈ rows, row ≠ []) (hcells : ∀ row ∈ rows, ∀ c ∈ row, cell ∉ c ∧ line ∉ c)
    (text : List α) :
    read cell line (write cell line rows ++ text) = rows ++ read cell line text := by
  induction rows with
  | nil => rfl
  | cons row rows ih =>
    rw [List.forall_mem_cons] at hrows hcells
    have hwrite : write cell line (row :: rows) ++ text =
        [cell].intercalate row ++ line :: (write cell line rows ++ text) := by
      simp [write]
    rw [hwrite, read_append hne hrows.1 hcells.1, ih hrows.2 hcells.2, List.cons_append]

theorem read_write (hne : cell ≠ line) {rows : List (List (List α))}
    (hrows : ∀ row ∈ rows, row ≠ []) (hcells : ∀ row ∈ rows, ∀ c ∈ row, cell ∉ c ∧ line ∉ c) :
    read cell line (write cell line rows) = rows := by
  have h := read_write_append hne hrows hcells []
  rw [List.append_nil] at h
  rw [h]
  exact List.append_nil rows

end delimited
