-- Layouts of records: fields with an offset and an extent each. When the
-- fields fit into the sum of the extents, and when into the largest one.
import Mathlib

namespace layout

variable {ι α : Type}

/-! ## The largest extent -/

section
variable [LinearOrder α] {extent : ι → α} {fs : List ι}

theorem foldl_largest_le_iff (b c : α) :
    fs.foldl (fun m f => if extent f > m then extent f else m) b ≤ c ↔
      b ≤ c ∧ ∀ f ∈ fs, extent f ≤ c := by
  induction fs generalizing b with
  | nil => simp
  | cons f fs ih =>
    rw [List.foldl_cons, ih, List.forall_mem_cons, ← and_assoc]
    apply and_congr_left
    intro _
    split
    · rename_i hf
      exact ⟨fun h => ⟨hf.le.trans h, h⟩, And.right⟩
    · rename_i hf
      exact ⟨fun h => ⟨h, (not_lt.mp hf).trans h⟩, And.left⟩

variable [Zero α]

/-- The largest extent, or 0 where all are below. -/
def largest (extent : ι → α) (fs : List ι) : α :=
  fs.foldl (fun m f => if extent f > m then extent f else m) 0

theorem largest_le_iff (c : α) : largest extent fs ≤ c ↔ 0 ≤ c ∧ ∀ f ∈ fs, extent f ≤ c :=
  foldl_largest_le_iff 0 c

theorem le_largest {f : ι} (hf : f ∈ fs) : extent f ≤ largest extent fs :=
  ((largest_le_iff _).mp le_rfl).2 f hf

theorem exists_largest (hne : fs ≠ []) (hextent : ∀ f ∈ fs, 0 ≤ extent f) :
    ∃ f ∈ fs, largest extent fs = extent f := by
  cases hmax : fs.argmax extent with
  | none => exact absurd (List.argmax_eq_none.mp hmax) hne
  | some f =>
    have hf := List.argmax_mem hmax
    refine ⟨f, hf, le_antisymm ?_ (le_largest hf)⟩
    exact (largest_le_iff _).mpr ⟨hextent f hf, fun g hg => List.le_of_mem_argmax hg hmax⟩

end

/-! ## Running sums -/

section
variable [AddMonoid α] {P : α → Prop}

/-- Every sum of a run of additions that starts from `b` satisfies `P`. -/
def StaysIn (P : α → Prop) (b : α) (xs : List α) : Prop := ∀ p, p <+: xs → P (b + p.sum)

theorem StaysIn.start {b : α} {xs : List α} (h : StaysIn P b xs) : P b := by
  simpa using h [] List.nil_prefix

theorem staysIn_cons {b x : α} {xs : List α} :
    StaysIn P b (x :: xs) ↔ P b ∧ StaysIn P (b + x) xs := by
  constructor
  · intro h
    refine ⟨h.start, ?_⟩
    intro p hp
    rw [add_assoc, ← List.sum_cons]
    exact h (x :: p) (List.cons_prefix_cons.mpr ⟨rfl, hp⟩)
  · rintro ⟨hb, h⟩ p hp
    rcases List.prefix_cons_iff.mp hp with rfl | ⟨q, rfl, hq⟩
    · rwa [List.sum_nil, add_zero]
    · rw [List.sum_cons, ← add_assoc]
      exact h q hq

end

/-- With no negative summand, a run of additions stays in an interval where its last sum does. -/
theorem staysIn_iff_of_nonneg [AddCommMonoid α] [LinearOrder α] [IsOrderedAddMonoid α] {lo hi b : α}
    {xs : List α} (hb : lo ≤ b) (hxs : ∀ x ∈ xs, 0 ≤ x) :
    StaysIn (fun y => lo ≤ y ∧ y < hi) b xs ↔ b + xs.sum < hi := by
  constructor
  · intro h
    exact (h xs (List.prefix_refl xs)).2
  · rintro h p ⟨rest, rfl⟩
    have hp : 0 ≤ p.sum := List.sum_nonneg fun x hx => hxs x (List.mem_append_left _ hx)
    have hrest : 0 ≤ rest.sum := List.sum_nonneg fun x hx => hxs x (List.mem_append_right _ hx)
    refine ⟨hb.trans (le_add_of_nonneg_right hp), lt_of_le_of_lt ?_ h⟩
    rw [List.sum_append, ← add_assoc]
    exact le_add_of_nonneg_right hrest

/-! ## Fields that fit -/

section
variable [AddCommGroup α]

/-- The extents of all fields together. -/
def total (extent : ι → α) (fs : List ι) : α := (fs.map extent).sum

theorem total_split (extent : ι → α) (before after : List ι) (f : ι) :
    total extent (before ++ f :: after) =
      total extent before + total extent after + extent f := by
  simp only [total, List.map_append, List.map_cons, List.sum_append, List.sum_cons]
  abel

variable [LinearOrder α] (offset extent : ι → α) {fs : List ι}

/-- The fields fit into the largest extent exactly when each ends within the extent of some
field. -/
theorem fits_largest_iff (hextent : ∀ f ∈ fs, 0 ≤ extent f) :
    (∀ f ∈ fs, offset f + extent f ≤ largest extent fs) ↔
      ∀ f ∈ fs, ∃ g ∈ fs, offset f + extent f ≤ extent g := by
  constructor
  · intro h f hf
    obtain ⟨g, hg, hlargest⟩ := exists_largest (List.ne_nil_of_mem hf) hextent
    exact ⟨g, hg, hlargest ▸ h f hf⟩
  · intro h f hf
    obtain ⟨g, hg, hle⟩ := h f hf
    exact hle.trans (le_largest hg)

variable [IsOrderedAddMonoid α]

/-- The fields fit into the sum exactly when none begins behind the extents of the others. -/
theorem fits_total_iff :
    (∀ f ∈ fs, offset f + extent f ≤ total extent fs) ↔
      ∀ before f after, fs = before ++ f :: after →
        offset f ≤ total extent before + total extent after := by
  constructor
  · rintro h before f after rfl
    have hf := h f (by simp)
    rw [total_split] at hf
    exact le_of_add_le_add_right hf
  · intro h f hf
    obtain ⟨before, after, rfl⟩ := List.append_of_mem hf
    rw [total_split]
    exact add_le_add_left (h before f after rfl) _

variable {offset extent}

/-- In a record laid out in order, a field begins behind the extents of the fields before it. -/
theorem total_le_offset {before after : List ι} {f : ι}
    (hordered : (before ++ f :: after).Pairwise fun f g => offset f + extent f ≤ offset g)
    (hoffset : ∀ g ∈ before ++ f :: after, 0 ≤ offset g) : total extent before ≤ offset f := by
  induction before using List.reverseRecOn generalizing f after with
  | nil => exact hoffset f (by simp)
  | append_singleton before g ih =>
    rw [List.append_assoc, List.singleton_append] at hordered hoffset
    have hgf : offset g + extent g ≤ offset f :=
      (List.pairwise_cons.mp (List.pairwise_append.mp hordered).2.1).1 f (by simp)
    calc total extent (before ++ [g]) = total extent before + extent g := by simp [total]
      _ ≤ offset g + extent g := add_le_add_left (ih hordered hoffset) _
      _ ≤ offset f := hgf

/-- The fields of a record laid out in order fit into the sum exactly when there is no gap before
the last of them. -/
theorem ordered_fits_total_iff {before : List ι} {f : ι}
    (hordered : (before ++ [f]).Pairwise fun f g => offset f + extent f ≤ offset g)
    (hoffset : ∀ g ∈ before ++ [f], 0 ≤ offset g) (hextent : ∀ g ∈ before ++ [f], 0 ≤ extent g) :
    (∀ g ∈ before ++ [f], offset g + extent g ≤ total extent (before ++ [f])) ↔
      offset f = total extent before := by
  have htotal : total extent (before ++ [f]) = total extent before + extent f := by simp [total]
  rw [htotal]
  constructor
  · intro h
    have hf := le_of_add_le_add_right (h f (by simp))
    exact le_antisymm hf (total_le_offset hordered hoffset)
  · intro hlast g hg
    rw [← hlast]
    rcases List.mem_append.mp hg with hbefore | hg
    · have hgf : offset g + extent g ≤ offset f :=
        (List.pairwise_append.mp hordered).2.2 g hbefore f (by simp)
      exact hgf.trans (le_add_of_nonneg_right (hextent f (by simp)))
    · rw [List.mem_singleton.mp hg]

end

end layout
