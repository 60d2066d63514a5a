import Mathlib

/-!
# Sums of squares about the mean

The number of values of a sample, their sum and the sum of the squared distances from their mean,
and how those of two samples make up those of both.
-/

namespace Madlib.Lib.Moments

structure Sample (α : Type) where
  weight : α
  sum : α
  corrected : α
  deriving DecidableEq

variable {α : Type} [Field α]

/-- The sum of squared distances from the mean is that of the squares, less the mean times the
sum. -/
def moments (values : Multiset α) : Sample α where
  weight := values.card
  sum := values.sum
  corrected := (values.map fun x => x * x).sum - values.sum * values.sum / values.card

theorem moments_zero : moments (0 : Multiset α) = ⟨0, 0, 0⟩ := by
  simp [moments]

theorem moments_singleton (x : α) : moments ({x} : Multiset α) = ⟨1, x, 0⟩ := by
  simp [moments]

theorem weight_add (left right : Multiset α) :
    (moments (left + right)).weight = (moments left).weight + (moments right).weight := by
  simp [moments]

theorem sum_add (left right : Multiset α) :
    (moments (left + right)).sum = (moments left).sum + (moments right).sum := by
  simp [moments]

/-- The sum of squared distances from any point. -/
theorem sum_square_distances (values : Multiset α) (c : α) :
    (values.map fun x => (x - c) ^ 2).sum =
      (values.map fun x => x * x).sum - 2 * c * values.sum + values.card * c * c := by
  induction values using Multiset.induction_on with
  | empty => simp
  | cons x values ih =>
      rw [Multiset.map_cons, Multiset.sum_cons, ih, Multiset.map_cons, Multiset.sum_cons,
        Multiset.sum_cons, Multiset.card_cons, Nat.cast_add_one]
      ring

variable [CharZero α]

theorem weight_ne_zero {values : Multiset α} (h : values ≠ 0) : (moments values).weight ≠ 0 :=
  Nat.cast_ne_zero.mpr (Multiset.card_pos.mpr h).ne'

/-- The update formula for two samples with values. -/
theorem corrected_add {left right : Multiset α} (hl : left ≠ 0) (hr : right ≠ 0) :
    (moments (left + right)).corrected = (moments left).corrected + ((moments right).corrected +
      (moments left).weight /
          ((moments right).weight * ((moments left).weight + (moments right).weight)) *
        ((moments right).weight / (moments left).weight * (moments left).sum -
          (moments right).sum) *
        ((moments right).weight / (moments left).weight * (moments left).sum -
          (moments right).sum)) := by
  have hn : (left.card : α) ≠ 0 := weight_ne_zero hl
  have hm : (right.card : α) ≠ 0 := weight_ne_zero hr
  have hnm : (left.card : α) + right.card ≠ 0 := by
    rw [← Nat.cast_add, ← Multiset.card_add]
    refine weight_ne_zero fun hzero => hl ?_
    exact (add_eq_zero.mp hzero).1
  simp only [moments, Multiset.map_add, Multiset.sum_add, Multiset.card_add, Nat.cast_add]
  field_simp
  ring

/-- The corrected sum of squares is that of the distances from the mean. -/
theorem corrected_eq (values : Multiset α) :
    (moments values).corrected =
      (values.map fun x => (x - values.sum / values.card) ^ 2).sum := by
  by_cases hzero : values = 0
  · simp [hzero, moments]
  · have hcard : (values.card : α) ≠ 0 := weight_ne_zero hzero
    rw [sum_square_distances, moments]
    field_simp
    ring

theorem corrected_nonneg [LinearOrder α] [IsStrictOrderedRing α] (values : Multiset α) :
    0 ≤ (moments values).corrected := by
  rw [corrected_eq]
  apply Multiset.sum_nonneg
  intro y hy
  obtain ⟨x, -, rfl⟩ := Multiset.mem_map.mp hy
  exact sq_nonneg _

end Madlib.Lib.Moments
