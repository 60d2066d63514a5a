import Mathlib
import Madlib.Lib.Moments

/-!
# Centers of groups

Points are assigned to groups, and each group has a center.  When every group gets a center that is
no worse for its own points, the points are no worse off, whichever center they then prefer.  The
mean is a best center for the sum of squared distances.
-/

namespace Madlib.Lib.Centers

variable {ρ ι κ α : Type}

section Groups

variable [AddCommMonoid α] [DecidableEq ι]

/-- A sum over all points is a sum over the groups. -/
theorem sum_groups (points : Multiset ρ) (group : ρ → ι) (groups : Finset ι)
    (hgroups : ∀ p ∈ points, group p ∈ groups) (f : ρ → ι → α) :
    (points.map fun p => f p (group p)).sum =
      ∑ i ∈ groups, ((points.filter fun p => group p = i).map fun p => f p i).sum := by
  induction points using Multiset.induction_on with
  | empty => simp
  | cons p points ih =>
      have hsplit : ∀ i, (((p ::ₘ points).filter fun q => group q = i).map fun q => f q i).sum =
          (if group p = i then f p i else 0) +
            ((points.filter fun q => group q = i).map fun q => f q i).sum := by
        intro i
        by_cases h : group p = i
        · rw [Multiset.filter_cons_of_pos (p := fun q => group q = i) _ h, Multiset.map_cons, Multiset.sum_cons, if_pos h]
        · rw [Multiset.filter_cons_of_neg (p := fun q => group q = i) _ h, if_neg h, zero_add]
      rw [Multiset.map_cons, Multiset.sum_cons,
        ih fun q hq => hgroups q (Multiset.mem_cons_of_mem hq)]
      simp only [hsplit, Finset.sum_add_distrib, Finset.sum_ite_eq,
        if_pos (hgroups p (Multiset.mem_cons_self p points))]

end Groups

section Improvement

variable [AddCommMonoid α] [PartialOrder α] [IsOrderedAddMonoid α] [DecidableEq ι]

/-- Centers that are no worse for their own groups are no worse for the points. -/
theorem sum_nearest_le {points : Multiset ρ} (group : ρ → ι) (distance : ρ → κ → α)
    (old new : ι → κ) {best best' : ρ → α} (hold : ∀ p ∈ points, best p = distance p (old (group p)))
    (hnew : ∀ p ∈ points, best' p ≤ distance p (new (group p)))
    (hgroup : ∀ i, ((points.filter fun p => group p = i).map fun p => distance p (new i)).sum ≤
      ((points.filter fun p => group p = i).map fun p => distance p (old i)).sum) :
    (points.map best').sum ≤ (points.map best).sum := by
  classical
  have hmem : ∀ p ∈ points, group p ∈ (points.map group).toFinset := by
    intro p hp
    exact Multiset.mem_toFinset.mpr (Multiset.mem_map_of_mem group hp)
  calc (points.map best').sum
      ≤ (points.map fun p => distance p (new (group p))).sum := Multiset.sum_map_le_sum_map _ _ hnew
    _ = ∑ i ∈ (points.map group).toFinset,
          ((points.filter fun p => group p = i).map fun p => distance p (new i)).sum :=
        sum_groups points group _ hmem fun p i => distance p (new i)
    _ ≤ ∑ i ∈ (points.map group).toFinset,
          ((points.filter fun p => group p = i).map fun p => distance p (old i)).sum :=
        Finset.sum_le_sum fun i _ => hgroup i
    _ = (points.map fun p => distance p (old (group p))).sum :=
        (sum_groups points group _ hmem fun p i => distance p (old i)).symm
    _ = (points.map best).sum :=
        congrArg Multiset.sum (Multiset.map_congr rfl fun p hp => (hold p hp).symm)

end Improvement

section Mean

variable [Field α] [LinearOrder α] [IsStrictOrderedRing α]

/-- The mean has the least sum of squared distances. -/
theorem sum_square_mean_le (values : Multiset α) (c : α) :
    (values.map fun x => (x - values.sum / values.card) ^ 2).sum ≤
      (values.map fun x => (x - c) ^ 2).sum := by
  by_cases hzero : values = 0
  · simp [hzero]
  · have hcard : (values.card : α) ≠ 0 := Moments.weight_ne_zero hzero
    rw [Moments.sum_square_distances, Moments.sum_square_distances, ← sub_nonneg]
    have hdifference : (values.map fun x => x * x).sum - 2 * c * values.sum + values.card * c * c -
        ((values.map fun x => x * x).sum - 2 * (values.sum / values.card) * values.sum +
          values.card * (values.sum / values.card) * (values.sum / values.card)) =
        values.card * (values.sum / values.card - c) ^ 2 := by
      field_simp
      ring
    rw [hdifference]
    positivity

end Mean

end Madlib.Lib.Centers
