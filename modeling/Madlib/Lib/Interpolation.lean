import Mathlib

/-!
# Interpolation between neighbours

Between two neighbours of a sequence the value moves from the one to the other.  Along a monotone
sequence it does not fall, and it stays between the neighbours.
-/

namespace Madlib.Lib.Interpolation

variable {α : Type} [Field α] [LinearOrder α] [FloorRing α]

/-- The value at a place that is not negative. -/
def between (f : Nat → α) (t : α) : α :=
  f (⌊t⌋.toNat + 1) * Int.fract t + f ⌊t⌋.toNat * (1 - Int.fract t)

/-- The sequence does not fall up to the index `n`. -/
def MonotoneTo (f : Nat → α) (n : Nat) : Prop := ∀ i j, i ≤ j → j ≤ n → f i ≤ f j

variable {f : Nat → α} {t u : α}

theorem between_eq (f : Nat → α) (t : α) :
    between f t = f ⌊t⌋.toNat + (f (⌊t⌋.toNat + 1) - f ⌊t⌋.toNat) * Int.fract t := by
  unfold between
  ring

variable [IsStrictOrderedRing α]

theorem le_between (h : f ⌊t⌋.toNat ≤ f (⌊t⌋.toNat + 1)) : f ⌊t⌋.toNat ≤ between f t := by
  have hstep := mul_nonneg (sub_nonneg.mpr h) (Int.fract_nonneg t)
  rw [between_eq]
  linarith

theorem between_le (h : f ⌊t⌋.toNat ≤ f (⌊t⌋.toNat + 1)) : between f t ≤ f (⌊t⌋.toNat + 1) := by
  have hstep := mul_nonneg (sub_nonneg.mpr h) (sub_nonneg.mpr (Int.fract_lt_one t).le)
  rw [between_eq]
  linarith

theorem between_mono (ht : 0 ≤ t) (htu : t ≤ u) (hf : MonotoneTo f (⌊u⌋.toNat + 1)) :
    between f t ≤ between f u := by
  have hfloor : ⌊t⌋ ≤ ⌊u⌋ := Int.floor_le_floor htu
  have hnonneg : 0 ≤ ⌊t⌋ := Int.floor_nonneg.mpr ht
  have hlast := hf ⌊u⌋.toNat (⌊u⌋.toNat + 1) (Nat.le_succ _) (le_refl _)
  rcases eq_or_lt_of_le hfloor with heq | hlt
  · have hfract : Int.fract t ≤ Int.fract u := by
      unfold Int.fract
      rw [heq]
      linarith
    have hstep := mul_le_mul_of_nonneg_left hfract (sub_nonneg.mpr hlast)
    rw [between_eq, between_eq, heq]
    linarith
  · calc between f t ≤ f (⌊t⌋.toNat + 1) := between_le (hf _ _ (Nat.le_succ _) (by omega))
      _ ≤ f ⌊u⌋.toNat := hf _ _ (by omega) (Nat.le_succ _)
      _ ≤ between f u := le_between hlast

/-- Between the first two neighbours the place decides. -/
theorem between_lt_one (h0 : 0 ≤ t) (h1 : t < 1) : between f t = f 0 + (f 1 - f 0) * t := by
  have hfloor : ⌊t⌋ = 0 := Int.floor_eq_zero_iff.mpr ⟨h0, h1⟩
  rw [between_eq, hfloor, Int.fract_eq_self.mpr ⟨h0, h1⟩]
  rfl

end Madlib.Lib.Interpolation
