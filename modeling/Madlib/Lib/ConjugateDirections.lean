import Mathlib

/-!
# Conjugate directions

A linear system with a positive definite matrix is solved by steps along directions that are
conjugate to each other.  Each residual is orthogonal to the ones before, so there are at most as
many residuals other than zero as there are unknowns.
-/

namespace Madlib.Lib.ConjugateDirections

open Matrix

variable {ι α : Type} [Fintype ι]

/-- A point, its residual, and the direction of the next step. -/
structure Iterate (ι α : Type) where
  x : ι → α
  r : ι → α
  p : ι → α

section Steps

variable [Field α]

def stepLength (A : Matrix ι ι α) (s : Iterate ι α) : α := (s.r ⬝ᵥ s.r) / (s.p ⬝ᵥ A *ᵥ s.p)

def newResidual (A : Matrix ι ι α) (s : Iterate ι α) : ι → α := s.r - stepLength A s • A *ᵥ s.p

/-- The part of the last direction in the next one. -/
def turn (A : Matrix ι ι α) (s : Iterate ι α) : α :=
  (newResidual A s ⬝ᵥ newResidual A s) / (s.r ⬝ᵥ s.r)

def step (A : Matrix ι ι α) (s : Iterate ι α) : Iterate ι α where
  x := s.x + stepLength A s • s.p
  r := newResidual A s
  p := newResidual A s + turn A s • s.p

def start (A : Matrix ι ι α) (b x : ι → α) : Iterate ι α := ⟨x, b - A *ᵥ x, b - A *ᵥ x⟩

def iterate (A : Matrix ι ι α) (b x : ι → α) : Nat → Iterate ι α
  | 0 => start A b x
  | n + 1 => step A (iterate A b x n)

/-- The residual is the one of the point. -/
theorem iterate_residual (A : Matrix ι ι α) (b x : ι → α) (n : Nat) :
    (iterate A b x n).r = b - A *ᵥ (iterate A b x n).x := by
  induction n with
  | zero => rfl
  | succ n ih =>
      simp only [iterate, step, newResidual]
      rw [ih, mulVec_add, mulVec_smul]
      abel

variable {A : Matrix ι ι α} {b x : ι → α} {n : Nat}

/-- The first residuals are orthogonal and the first directions conjugate. -/
structure Conjugate (A : Matrix ι ι α) (s : Nat → Iterate ι α) (n : Nat) : Prop where
  residuals : ∀ i j, i < j → j ≤ n → (s i).r ⬝ᵥ (s j).r = 0
  directions : ∀ i j, i < j → j ≤ n → (s i).p ⬝ᵥ A *ᵥ (s j).p = 0

theorem Conjugate.mono {m : Nat} (h : Conjugate A (iterate A b x) n) (hm : m ≤ n) :
    Conjugate A (iterate A b x) m where
  residuals i j hij hj := h.residuals i j hij (hj.trans hm)
  directions i j hij hj := h.directions i j hij (hj.trans hm)

theorem Conjugate.direction_orthogonal (h : Conjugate A (iterate A b x) n) {i j : Nat}
    (hij : i < j) (hj : j ≤ n) : (iterate A b x i).p ⬝ᵥ (iterate A b x j).r = 0 := by
  induction i with
  | zero => exact h.residuals 0 j hij hj
  | succ i ih =>
      have hres := h.residuals (i + 1) j hij hj
      rw [iterate, step, add_dotProduct, smul_dotProduct, ih (by omega), smul_zero, add_zero]
      exact hres

/-- A residual meets the image of the last direction as its own direction does. -/
theorem Conjugate.residual_image (h : Conjugate A (iterate A b x) n) {i : Nat} (hi : i ≤ n) :
    (iterate A b x i).r ⬝ᵥ A *ᵥ (iterate A b x n).p =
      (iterate A b x i).p ⬝ᵥ A *ᵥ (iterate A b x n).p := by
  cases i with
  | zero => rfl
  | succ i =>
      have hdir := h.directions i n hi (le_refl n)
      have hp : (iterate A b x (i + 1)).p =
          (iterate A b x (i + 1)).r + turn A (iterate A b x i) • (iterate A b x i).p := rfl
      rw [hp, add_dotProduct, smul_dotProduct, hdir, smul_zero, add_zero]

/-- The image of a direction is a difference of residuals. -/
theorem stepLength_image (v : ι → α) (i : Nat) :
    stepLength A (iterate A b x i) * (v ⬝ᵥ A *ᵥ (iterate A b x i).p) =
      v ⬝ᵥ (iterate A b x i).r - v ⬝ᵥ (iterate A b x (i + 1)).r := by
  rw [iterate, step, newResidual, dotProduct_sub, dotProduct_smul, smul_eq_mul]
  ring

/-- A direction has the residual as its part along it. -/
theorem Conjugate.direction_dot (h : Conjugate A (iterate A b x) n) :
    (iterate A b x n).p ⬝ᵥ (iterate A b x n).r =
      (iterate A b x n).r ⬝ᵥ (iterate A b x n).r := by
  cases n with
  | zero => rfl
  | succ n =>
      have hdir := h.direction_orthogonal (Nat.lt_succ_self n) (le_refl _)
      calc (iterate A b x (n + 1)).p ⬝ᵥ (iterate A b x (n + 1)).r
          = (iterate A b x (n + 1)).r ⬝ᵥ (iterate A b x (n + 1)).r +
              turn A (iterate A b x n) •
                ((iterate A b x n).p ⬝ᵥ (iterate A b x (n + 1)).r) := by
            rw [← smul_dotProduct, ← add_dotProduct]
            rfl
        _ = (iterate A b x (n + 1)).r ⬝ᵥ (iterate A b x (n + 1)).r := by
            rw [hdir, smul_zero, add_zero]

end Steps

section Definite

variable [Field α] [LinearOrder α]

structure PositiveDefinite (A : Matrix ι ι α) : Prop where
  symm : A.IsSymm
  pos : ∀ v, v ≠ 0 → 0 < v ⬝ᵥ A *ᵥ v

theorem PositiveDefinite.comm {A : Matrix ι ι α} (h : PositiveDefinite A) (u v : ι → α) :
    u ⬝ᵥ A *ᵥ v = v ⬝ᵥ A *ᵥ u := by
  have hcomm := dotProduct_transpose_mulVec A u v
  rwa [h.symm] at hcomm

variable [IsStrictOrderedRing α] {A : Matrix ι ι α} {b x : ι → α} {n : Nat}

theorem Conjugate.direction_ne_zero (h : Conjugate A (iterate A b x) n)
    (hr : (iterate A b x n).r ≠ 0) : (iterate A b x n).p ≠ 0 := by
  intro hp
  have hdot := h.direction_dot
  rw [hp, zero_dotProduct] at hdot
  exact hr (dotProduct_self_eq_zero.mp hdot.symm)

/-- No step divides by zero before the residual is. -/
theorem Conjugate.curvature_pos (hA : PositiveDefinite A) (h : Conjugate A (iterate A b x) n)
    (hr : (iterate A b x n).r ≠ 0) :
    0 < (iterate A b x n).p ⬝ᵥ A *ᵥ (iterate A b x n).p := hA.pos _ (h.direction_ne_zero hr)

theorem Conjugate.residual_succ (hA : PositiveDefinite A) (h : Conjugate A (iterate A b x) n)
    (hr : (iterate A b x n).r ≠ 0) {i : Nat} (hi : i ≤ n) :
    (iterate A b x i).r ⬝ᵥ (iterate A b x (n + 1)).r = 0 := by
  have hpos := h.curvature_pos hA hr
  have himage := h.residual_image hi
  rw [iterate, step, newResidual, dotProduct_sub, dotProduct_smul, himage]
  rcases Nat.lt_or_ge i n with hlt | hge
  · rw [h.residuals i n hlt (le_refl n), h.directions i n hlt (le_refl n), smul_zero, sub_zero]
  · obtain rfl : i = n := by omega
    rw [smul_eq_mul, stepLength, div_mul_cancel₀ _ hpos.ne', sub_self]

theorem Conjugate.direction_succ (hA : PositiveDefinite A) (h : Conjugate A (iterate A b x) n)
    (hr : ∀ i ≤ n, (iterate A b x i).r ≠ 0) {i : Nat} (hi : i ≤ n) :
    (iterate A b x i).p ⬝ᵥ A *ᵥ (iterate A b x (n + 1)).p = 0 := by
  have hpos := (h.mono hi).curvature_pos hA (hr i hi)
  have hself : (iterate A b x i).r ⬝ᵥ (iterate A b x i).r ≠ 0 :=
    fun h0 => hr i hi (dotProduct_self_eq_zero.mp h0)
  have hlength : stepLength A (iterate A b x i) ≠ 0 := div_ne_zero hself hpos.ne'
  have himage := stepLength_image (A := A) (b := b) (x := x) (iterate A b x (n + 1)).r i
  have hold : (iterate A b x (n + 1)).r ⬝ᵥ (iterate A b x i).r = 0 := by
    rw [dotProduct_comm]
    exact h.residual_succ hA (hr n (le_refl n)) hi
  have hp : (iterate A b x (n + 1)).p =
      (iterate A b x (n + 1)).r + turn A (iterate A b x n) • (iterate A b x n).p := rfl
  rw [hold, zero_sub] at himage
  rw [hA.comm, hp, add_dotProduct, smul_dotProduct, smul_eq_mul]
  rcases Nat.lt_or_ge i n with hlt | hge
  · have hnew : (iterate A b x (n + 1)).r ⬝ᵥ (iterate A b x (i + 1)).r = 0 := by
      rw [dotProduct_comm]
      exact h.residual_succ hA (hr n (le_refl n)) hlt
    rw [hnew, neg_zero] at himage
    rw [(mul_eq_zero.mp himage).resolve_left hlength, hA.comm,
      h.directions i n hlt (le_refl n), mul_zero, add_zero]
  · obtain rfl : i = n := by omega
    have hturn : turn A (iterate A b x i) = ((iterate A b x (i + 1)).r ⬝ᵥ (iterate A b x (i + 1)).r) /
        ((iterate A b x i).r ⬝ᵥ (iterate A b x i).r) := rfl
    rw [stepLength] at himage
    rw [hturn]
    field_simp at himage ⊢
    linarith

theorem Conjugate.succ (hA : PositiveDefinite A) (h : Conjugate A (iterate A b x) n)
    (hr : ∀ i ≤ n, (iterate A b x i).r ≠ 0) : Conjugate A (iterate A b x) (n + 1) where
  residuals i j hij hj := by
    rcases Nat.lt_or_ge n j with hlt | hge
    · obtain rfl : j = n + 1 := by omega
      exact h.residual_succ hA (hr n (le_refl n)) (by omega)
    · exact h.residuals i j hij hge
  directions i j hij hj := by
    rcases Nat.lt_or_ge n j with hlt | hge
    · obtain rfl : j = n + 1 := by omega
      exact h.direction_succ hA hr (by omega)
    · exact h.directions i j hij hge

/-- As long as no residual is zero. -/
theorem conjugate_of_ne_zero (hA : PositiveDefinite A)
    (hr : ∀ i < n, (iterate A b x i).r ≠ 0) : Conjugate A (iterate A b x) n := by
  induction n with
  | zero => exact ⟨fun i j hij hj => by omega, fun i j hij hj => by omega⟩
  | succ n ih =>
      have hprev := ih fun i hi => hr i (by omega)
      exact hprev.succ hA fun i hi => hr i (by omega)

/-- Orthogonal vectors other than zero are independent. -/
theorem linearIndependent_of_orthogonal {v : Fin n → ι → α} (hne : ∀ i, v i ≠ 0)
    (horth : ∀ i j, i ≠ j → v i ⬝ᵥ v j = 0) : LinearIndependent α v := by
  rw [Fintype.linearIndependent_iff]
  intro c hc j
  have hdot : (∑ i, c i • v i) ⬝ᵥ v j = c j * (v j ⬝ᵥ v j) := by
    rw [sum_dotProduct, Finset.sum_eq_single j]
    · rw [smul_dotProduct, smul_eq_mul]
    · intro i _ hij
      rw [smul_dotProduct, horth i j hij, smul_zero]
    · intro hj
      exact absurd (Finset.mem_univ j) hj
  rw [hc, zero_dotProduct] at hdot
  have hself : v j ⬝ᵥ v j ≠ 0 := fun h0 => hne j (dotProduct_self_eq_zero.mp h0)
  exact (mul_eq_zero.mp hdot.symm).resolve_right hself

/-- There are at most as many steps as unknowns. -/
theorem le_card_of_ne_zero (hA : PositiveDefinite A)
    (hr : ∀ i < n, (iterate A b x i).r ≠ 0) : n ≤ Fintype.card ι := by
  have hconj := conjugate_of_ne_zero hA hr
  have hind : LinearIndependent α fun i : Fin n => (iterate A b x i).r := by
    apply linearIndependent_of_orthogonal fun i => hr i i.isLt
    intro i j hij
    rcases Nat.lt_or_gt_of_ne (Fin.val_ne_of_ne hij) with hlt | hgt
    · exact hconj.residuals i j hlt j.isLt.le
    · rw [dotProduct_comm]
      exact hconj.residuals j i hgt i.isLt.le
  have hle := hind.fintype_card_le_finrank
  rwa [Fintype.card_fin, Module.finrank_fintype_fun_eq_card] at hle

end Definite

end Madlib.Lib.ConjugateDirections
