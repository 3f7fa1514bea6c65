-- Tables whose rows have a key each, and no key twice. Rows go by a test, a
-- new row takes the place of the one with its key, and a row gets another key
-- where nobody has it.
import Mathlib

namespace keyed

/-- A table of rows with different keys. -/
structure Table {α κ : Type} (key : α → κ) where
  rows : List α
  nodup : (rows.map key).Nodup

namespace Table

variable {α κ : Type} {key : α → κ}

theorem ext_rows {t u : Table key} (h : t.rows = u.rows) : t = u := by
  cases t
  cases u
  cases h
  rfl

/-- A key names at most one row. -/
theorem eq_of_key {t : Table key} {a b : α} (ha : a ∈ t.rows) (hb : b ∈ t.rows)
    (h : key a = key b) : a = b := List.inj_on_of_nodup_map t.nodup ha hb h

/-- The rows that pass a test. -/
def keep (p : α → Bool) (t : Table key) : Table key where
  rows := t.rows.filter p
  nodup := t.nodup.sublist (List.filter_sublist.map key)

/-- Every row is changed, and keeps its key. -/
def change (f : α → α) (hf : ∀ a, key (f a) = key a) (t : Table key) : Table key where
  rows := t.rows.map f
  nodup := by
    rw [List.map_map, show key ∘ f = key from funext hf]
    exact t.nodup

variable [DecidableEq κ]

/-- The row with the key. -/
def find (k : κ) (t : Table key) : Option α := t.rows.find? fun a => key a = k

theorem find_eq_some_iff {k : κ} {a : α} {t : Table key} :
    t.find k = some a ↔ a ∈ t.rows ∧ key a = k := by
  constructor
  · intro h
    exact ⟨List.mem_of_find?_eq_some h, by simpa using List.find?_some h⟩
  · rintro ⟨ha, hk⟩
    cases h : t.find k with
    | none => exact absurd hk (by simpa using List.find?_eq_none.mp h a ha)
    | some b =>
      have hb : key b = k := by simpa using List.find?_some h
      rw [eq_of_key (List.mem_of_find?_eq_some h) ha (hb.trans hk.symm)]

/-- The row with the key goes. -/
def erase (k : κ) (t : Table key) : Table key := t.keep fun a => key a ≠ k

theorem find_erase (k k' : κ) (t : Table key) :
    (t.erase k).find k' = if k' = k then none else t.find k' := by
  ext a
  rw [find_eq_some_iff]
  by_cases h : k' = k
  · subst h
    simp [erase, keep]
  · rw [if_neg h, find_eq_some_iff]
    simp only [erase, keep, List.mem_filter, decide_eq_true_eq, and_assoc, and_congr_right_iff,
      and_iff_right_iff_imp]
    rintro - rfl
    exact h

/-- A new row, unless its key is taken. -/
def add (a : α) (t : Table key) : Table key :=
  if h : key a ∈ t.rows.map key then t
  else
    { rows := t.rows ++ [a]
      nodup := by
        rw [List.map_append, List.map_cons, List.map_nil, ← List.concat_eq_append,
          List.nodup_concat]
        exact ⟨h, t.nodup⟩ }

/-- A new row in the place of the one with its key. -/
def put (a : α) (t : Table key) : Table key := add a (t.erase (key a))

/-- The row with the key `old` gets the key `new`, unless that is taken. `set` writes a key. -/
def rekey (set : κ → α → α) (hset : ∀ k a, key (set k a) = k) (old new : κ) (t : Table key) :
    Table key :=
  if h : new ∈ t.rows.map key then t
  else
    { rows := t.rows.map fun a => if key a = old then set new a else a
      nodup := by
        rw [List.map_map]
        apply (List.nodup_map_iff_inj_on (List.Nodup.of_map key t.nodup)).mpr
        intro a ha b hb hab
        simp only [Function.comp_apply, apply_ite key, hset] at hab
        have hfree : ∀ c ∈ t.rows, key c ≠ new := by
          rintro c hc rfl
          exact h (List.mem_map_of_mem hc)
        split at hab <;> split at hab
        · exact eq_of_key ha hb ((‹key a = old›).trans (‹key b = old›).symm)
        · exact absurd hab.symm (hfree b hb)
        · exact absurd hab (hfree a ha)
        · exact eq_of_key ha hb hab }

theorem add_of_mem {a : α} {t : Table key} (h : key a ∈ t.rows.map key) : t.add a = t := dif_pos h

theorem rows_add {a : α} {t : Table key} (h : key a ∉ t.rows.map key) :
    (t.add a).rows = t.rows ++ [a] := by rw [add, dif_neg h]

theorem key_mem_add (a : α) (t : Table key) : key a ∈ (t.add a).rows.map key := by
  by_cases h : key a ∈ t.rows.map key
  · rwa [add_of_mem h]
  · simp [rows_add h]

theorem mem_add_of_mem {a b : α} {t : Table key} (h : b ∈ t.rows) : b ∈ (t.add a).rows := by
  by_cases ha : key a ∈ t.rows.map key
  · rwa [add_of_mem ha]
  · rw [rows_add ha]
    exact List.mem_append_left _ h

theorem rows_put (a : α) (t : Table key) :
    (t.put a).rows = (t.rows.filter fun b => key b ≠ key a) ++ [a] := by
  apply rows_add
  simp [erase, keep]

theorem find_put (a : α) (k : κ) (t : Table key) :
    (t.put a).find k = if k = key a then some a else t.find k := by
  have hrows : (t.put a).rows = (t.erase (key a)).rows ++ [a] := rows_put a t
  rw [find, hrows, List.find?_append, ← find, find_erase]
  by_cases h : k = key a
  · simp [h]
  · simp [h, Ne.symm h]

theorem rekey_of_mem {set : κ → α → α} {hset : ∀ k a, key (set k a) = k} {old new : κ}
    {t : Table key} (h : new ∈ t.rows.map key) : t.rekey set hset old new = t := dif_pos h

theorem rows_rekey {set : κ → α → α} {hset : ∀ k a, key (set k a) = k} {old new : κ}
    {t : Table key} (h : new ∉ t.rows.map key) :
    (t.rekey set hset old new).rows = t.rows.map fun a => if key a = old then set new a else a := by
  rw [rekey, dif_neg h]

theorem rekey_of_notMem {set : κ → α → α} {hset : ∀ k a, key (set k a) = k} {old new : κ}
    {t : Table key} (h : old ∉ t.rows.map key) : t.rekey set hset old new = t := by
  by_cases hnew : new ∈ t.rows.map key
  · exact rekey_of_mem hnew
  · apply ext_rows
    rw [rows_rekey hnew]
    calc t.rows.map (fun a => if key a = old then set new a else a) = t.rows.map id := by
          apply List.map_congr_left
          rintro a ha
          rw [if_neg, id]
          rintro rfl
          exact h (List.mem_map_of_mem ha)
      _ = t.rows := List.map_id _

end Table

end keyed
