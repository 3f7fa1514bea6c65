-- Maps that are filled by `emplace`: the first value of a key stays, so a key
-- has the value of its first entry.
import Mathlib

namespace first_wins

variable {κ β : Type} [DecidableEq κ]

/-- A map of keys to values. No key is there twice. -/
abbrev Map (κ β : Type) := AList fun _ : κ => β

def get (m : Map κ β) (k : κ) : Option β := m.lookup k

/-- The entry goes into the map, unless its key is there. -/
def emplace (m : Map κ β) (entry : κ × β) : Map κ β :=
  if entry.1 ∈ m then m else m.insert entry.1 entry.2

/-- The map of a list of entries, in their order. -/
def ofEntries (entries : List (κ × β)) : Map κ β := entries.foldl emplace ∅

theorem get_emplace (m : Map κ β) (entry : κ × β) (k : κ) :
    get (emplace m entry) k = (get m k).or ([entry].lookup k) := by
  obtain ⟨key, v⟩ := entry
  rw [emplace]
  by_cases hk : k = key
  · subst hk
    rw [List.lookup_cons_self]
    by_cases hmem : k ∈ m
    · obtain ⟨w, hw⟩ := Option.isSome_iff_exists.mp (AList.lookup_isSome.mpr hmem)
      have hget : get m k = some w := hw
      rw [if_pos hmem, hget, Option.some_or]
    · have hget : get m k = none := AList.lookup_eq_none.mpr hmem
      rw [if_neg hmem, hget, Option.none_or]
      exact AList.lookup_insert m
  · have hother : [(key, v)].lookup k = none := by simp [hk]
    rw [hother, Option.or_none]
    by_cases hmem : key ∈ m
    · rw [if_pos hmem]
    · rw [if_neg hmem]
      exact AList.lookup_insert_ne hk

theorem get_foldl_emplace (m : Map κ β) (entries : List (κ × β)) (k : κ) :
    get (entries.foldl emplace m) k = (get m k).or (entries.lookup k) := by
  induction entries generalizing m with
  | nil => simp
  | cons entry entries ih =>
    rw [List.foldl_cons, ih, get_emplace, Option.or_assoc, ← List.lookup_append]
    rfl

theorem get_ofEntries (entries : List (κ × β)) (k : κ) :
    get (ofEntries entries) k = entries.lookup k := by
  rw [ofEntries, get_foldl_emplace, get, AList.lookup_empty, Option.none_or]

theorem mem_ofEntries (entries : List (κ × β)) (k : κ) (v : β) :
    ⟨k, v⟩ ∈ (ofEntries entries).entries ↔
      ∃ before after, entries = before ++ (k, v) :: after ∧ ∀ entry ∈ before, entry.1 ≠ k := by
  have hget : ⟨k, v⟩ ∈ (ofEntries entries).entries ↔ entries.lookup k = some v := by
    rw [← AList.mem_lookup_iff, ← get_ofEntries]
    rfl
  rw [hget, List.lookup_eq_some_iff]
  simp only [bne_iff_ne, ne_comm]

/-- The map of the entries that a function finds in a list of items: an item that it finds no entry
in does not count. -/
theorem mem_ofEntries_filterMap {ι : Type} (f : ι → Option (κ × β)) (items : List ι) (k : κ)
    (v : β) : ⟨k, v⟩ ∈ (ofEntries (items.filterMap f)).entries ↔
      ∃ before item after, items = before ++ item :: after ∧ f item = some (k, v) ∧
        ∀ x ∈ before, ∀ w, f x ≠ some (k, w) := by
  rw [mem_ofEntries]
  constructor
  · rintro ⟨l, l', hl, hfirst⟩
    obtain ⟨start, rest, hsplit, hstart, hrest⟩ := List.filterMap_eq_append_iff.mp hl
    obtain ⟨skipped, item, after, rfl, hskipped, hitem, -⟩ := List.filterMap_eq_cons_iff.mp hrest
    refine ⟨start ++ skipped, item, after, ?_, hitem, ?_⟩
    · rw [hsplit, List.append_assoc]
    · intro x hx w hentry
      rcases List.mem_append.mp hx with hx | hx
      · have hmem : (k, w) ∈ l := hstart ▸ List.mem_filterMap.mpr ⟨x, hx, hentry⟩
        exact hfirst _ hmem rfl
      · rw [hskipped x hx] at hentry
        cases hentry
  · rintro ⟨before, item, after, hsplit, hitem, hfirst⟩
    refine ⟨before.filterMap f, after.filterMap f, ?_, ?_⟩
    · rw [hsplit, List.filterMap_append, List.filterMap_cons_some hitem]
    · rintro ⟨key, w⟩ hmem rfl
      obtain ⟨x, hx, hentry⟩ := List.mem_filterMap.mp hmem
      exact hfirst x hx w hentry

theorem mem_ofEntries_of_nodup {entries : List (κ × β)} (h : (entries.map Prod.fst).Nodup) (k : κ)
    (v : β) : ⟨k, v⟩ ∈ (ofEntries entries).entries ↔ (k, v) ∈ entries := by
  rw [mem_ofEntries]
  constructor
  · rintro ⟨before, after, rfl, -⟩
    exact List.mem_append_right before List.mem_cons_self
  · intro hmem
    obtain ⟨before, after, rfl⟩ := List.mem_iff_append.mp hmem
    refine ⟨before, after, rfl, ?_⟩
    intro entry hentry hkey
    rw [List.map_append, List.nodup_append] at h
    exact h.2.2 _ (List.mem_map_of_mem hentry) _ (by simp) hkey

end first_wins
