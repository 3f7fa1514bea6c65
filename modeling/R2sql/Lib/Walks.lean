-- Walks that deliver rows group by group, and what they say as multisets:
-- the rows of one key in a walk over keys, and the rows of a relation that
-- a walk over groups lists against the relation itself.
import Mathlib

namespace walks

variable {ι κ ε γ ρ : Type}

/-! ## A walk over keys -/

/-- A walk over keys that delivers the rows of each key: the rows under `x` are the rows of `x`,
once for each time that the walk meets `x`. -/
theorem filter_walk [DecidableEq κ] (rows : κ → List ρ) (p : ρ → Prop) [DecidablePred p] (x : κ)
    (hp : ∀ a, ∀ r ∈ rows a, p r ↔ a = x) (k : ι → κ) (l : List ι) :
    (l.flatMap fun i => rows (k i)).filter p =
      (List.replicate (l.countP fun i => k i = x) (rows x)).flatten := by
  induction l with
  | nil => rfl
  | cons i l ih =>
    rw [List.flatMap_cons, List.filter_append, ih, List.countP_cons]
    by_cases hi : k i = x
    · have hall : (rows (k i)).filter p = rows (k i) := by
        rw [List.filter_eq_self]
        intro r hr
        simpa using (hp _ r hr).mpr hi
      rw [hall, hi, if_pos (by simp), List.replicate_succ, List.flatten_cons]
    · have hnone : (rows (k i)).filter p = [] := by
        rw [List.filter_eq_nil_iff]
        intro r hr
        simpa using fun h => hi ((hp _ r hr).mp h)
      rw [hnone, if_neg (by simpa using hi)]
      rfl

/-- `n` copies of the rows are the rows themselves for one copy, or for no rows at all. -/
theorem copies_perm_iff (n : Nat) (l : List ρ) :
    (List.replicate n l).flatten.Perm l ↔ n = 1 ∨ l = [] := by
  constructor
  · intro h
    have hlen := h.length_eq
    simp only [List.length_flatten, List.map_replicate, List.sum_replicate, smul_eq_mul] at hlen
    rcases Nat.eq_zero_or_pos l.length with h0 | hpos
    · exact Or.inr (List.length_eq_zero_iff.mp h0)
    · exact Or.inl (Nat.eq_of_mul_eq_mul_right hpos (by omega))
  · rintro (rfl | rfl) <;> simp

/-! ## The front of a list -/

/-- What a test keeps of a list is its first elements when no element that it keeps comes after one
that it does not keep. -/
theorem filter_prefix_iff (keep : ρ → Bool) (l : List ρ) :
    l.filter keep <+: l ↔ l.Pairwise fun a b => keep b → keep a := by
  induction l with
  | nil => simp
  | cons a l ih =>
    rw [List.pairwise_cons, ← ih]
    by_cases ha : keep a = true
    · rw [List.filter_cons_of_pos ha, List.prefix_cons_inj]
      simp [ha]
    · rw [List.filter_cons_of_neg ha]
      constructor
      · intro h
        have hnone : l.filter keep = [] := by
          cases hl : l.filter keep with
          | nil => rfl
          | cons b bs =>
            rw [hl, List.cons_prefix_cons] at h
            have hb : b ∈ l.filter keep := by simp [hl]
            exact absurd (h.1 ▸ (List.mem_filter.mp hb).2) ha
        rw [hnone]
        rw [List.filter_eq_nil_iff] at hnone
        exact ⟨fun b hb hk => absurd hk (hnone b hb), List.nil_prefix⟩
      · rintro ⟨h, -⟩
        have hnone : l.filter keep = [] := by
          rw [List.filter_eq_nil_iff]
          exact fun b hb hk => ha (h b hb hk)
        rw [hnone]
        exact List.nil_prefix

/-! ## A walk over groups -/

/-- The rows of a walk over the groups: each group lists the elements whose key lies in it. -/
def byGroup (gs : List γ) (xs : List ε) (key : ε → κ) (inside : γ → κ → Bool) (row : γ → ε → ρ) :
    List ρ :=
  gs.flatMap fun g => (xs.filter fun x => inside g (key x)).map (row g)

section
variable (gs : List γ) (xs : List ε) (key : ε → κ) (inside : γ → κ → Bool) (row : γ → ε → ρ)

/-- The walk over the groups, sorted by element: one row for each group that an element lies in. -/
theorem byGroup_eq_bind :
    (byGroup gs xs key inside row : Multiset ρ) =
      (xs : Multiset ε).bind fun x =>
        ((gs.filter fun g => inside g (key x)).map fun g => row g x : List ρ) := by
  have hg : ∀ g : γ, (((xs.filter fun x => inside g (key x)).map (row g) : List ρ) : Multiset ρ) =
      (xs : Multiset ε).bind fun x => if inside g (key x) then {row g x} else 0 := by
    intro g
    induction xs with
    | nil => simp
    | cons x xs ih =>
      rw [← Multiset.cons_coe, Multiset.cons_bind, ← ih, List.filter_cons]
      split <;> simp
  have hx : ∀ x : ε, (((gs.filter fun g => inside g (key x)).map fun g => row g x : List ρ) :
      Multiset ρ) = (gs : Multiset γ).bind fun g => if inside g (key x) then {row g x} else 0 := by
    intro x
    induction gs with
    | nil => simp
    | cons g gs ih =>
      rw [← Multiset.cons_coe, Multiset.cons_bind, ← ih, List.filter_cons]
      split <;> simp
  have hwalk : (byGroup gs xs key inside row : Multiset ρ) =
      (gs : Multiset γ).bind fun g =>
        ((xs.filter fun x => inside g (key x)).map (row g) : List ρ) := by
    unfold byGroup
    rw [Multiset.coe_bind]
  rw [hwalk]
  simp only [hg, hx]
  exact Multiset.bind_bind _ _

/-- A filter of the rows that speaks of the elements alone is a filter of the elements. -/
theorem filter_byGroup (p : ρ → Prop) (q : ε → Prop) [DecidablePred p] [DecidablePred q]
    (h : ∀ g x, p (row g x) ↔ q x) :
    (byGroup gs xs key inside row).filter p = byGroup gs (xs.filter q) key inside row := by
  unfold byGroup
  rw [List.filter_flatMap]
  congr 1
  funext g
  have hpq : ((fun r => decide (p r)) ∘ row g) = fun x => decide (q x) := by
    funext x
    simp [h g x]
  rw [List.filter_map, List.filter_comm, hpq]

variable [DecidableEq κ] (src : ρ → κ) (direct : ε → ρ)

/-- The rows of one source in a walk: one row for each element with that source, times the groups
that hold the source. -/
theorem countP_byGroup (hsrc : ∀ g x, src (row g x) = key x) (a : κ) :
    (byGroup gs xs key inside row).countP (fun r => src r = a) =
      (xs.countP fun x => key x = a) * gs.countP fun g => inside g a := by
  unfold byGroup
  induction gs with
  | nil => simp
  | cons g gs ih =>
    rw [List.flatMap_cons, List.countP_append, ih, List.countP_cons, List.countP_map]
    have hcount : (xs.filter fun x => inside g (key x)).countP
        ((fun r => decide (src r = a)) ∘ row g) =
          if inside g a then xs.countP fun x => key x = a else 0 := by
      rw [List.countP_filter]
      split
      · rename_i hin
        apply List.countP_congr
        intro x _
        simp only [Function.comp, hsrc, Bool.and_eq_true, decide_eq_true_eq]
        constructor
        · exact And.left
        · rintro rfl
          exact ⟨rfl, hin⟩
      · rename_i hout
        rw [List.countP_eq_zero]
        intro x _
        simp only [Function.comp, hsrc, Bool.and_eq_true, decide_eq_true_eq, not_and]
        rintro rfl
        exact hout
    rw [hcount]
    by_cases hin : inside g a = true
    · simp only [hin, if_true]
      ring
    · simp [hin]

/-- A walk over groups against a direct listing of the same elements, where an element that lies in
one group only has the same row both ways. The two agree as multisets exactly when every element
lies in one group. -/
theorem byGroup_perm_direct_iff (hsrc : ∀ g x, src (row g x) = key x)
    (hdirect : ∀ x, src (direct x) = key x)
    (hone : ∀ x ∈ xs, ∀ g, (gs.filter fun g => inside g (key x)) = [g] → row g x = direct x) :
    (byGroup gs xs key inside row).Perm (xs.map direct) ↔
      ∀ x ∈ xs, (gs.countP fun g => inside g (key x)) = 1 := by
  constructor
  · intro h x hx
    have hcount := h.countP_eq fun r => src r = key x
    rw [countP_byGroup gs xs key inside row src hsrc, List.countP_map] at hcount
    have hmap : xs.countP ((fun r => decide (src r = key x)) ∘ direct) =
        xs.countP fun y => key y = key x := by
      apply List.countP_congr
      intro y _
      simp [hdirect]
    rw [hmap] at hcount
    have hpos : 0 < xs.countP fun y => key y = key x :=
      List.countP_pos_iff.mpr ⟨x, hx, by simp⟩
    exact Nat.eq_of_mul_eq_mul_left hpos (by omega)
  · intro h
    rw [← Multiset.coe_eq_coe, byGroup_eq_bind, ← Multiset.map_coe, ← Multiset.bind_singleton]
    apply Multiset.bind_congr
    intro x hx
    have hlen := h x hx
    rw [List.countP_eq_length_filter, List.length_eq_one_iff] at hlen
    obtain ⟨g, hg⟩ := hlen
    rw [hg, ← hone x hx g hg]
    rfl

end

end walks
