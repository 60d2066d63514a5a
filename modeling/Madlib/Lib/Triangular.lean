import Mathlib

/-!
# Quadratic forms and triangles

A symmetric matrix is given by one of its triangles.  The form of the triangle alone falls short
of the form of the matrix by the entries off the diagonal.
-/

namespace Madlib.Lib.Triangular

variable {α : Type} [CommRing α]

/-- `d^T H d` -/
def quadraticForm (n : Nat) (entry : Nat → Nat → α) (d : Nat → α) : α :=
  ∑ j ∈ Finset.range n, (∑ i ∈ Finset.range n, d i * entry i j) * d j

/-- The lower triangle of a matrix. -/
def lowerTriangle (entry : Nat → Nat → α) (i j : Nat) : α := if j ≤ i then entry i j else 0

/-- The part below the diagonal. -/
def strictTriangle (entry : Nat → Nat → α) (i j : Nat) : α := if j < i then entry i j else 0

variable {n : Nat} {entry entry' : Nat → Nat → α} {d : Nat → α}

theorem quadraticForm_congr (h : ∀ i j, i < n → j < n → entry i j = entry' i j) :
    quadraticForm n entry d = quadraticForm n entry' d := by
  unfold quadraticForm
  apply Finset.sum_congr rfl
  intro j hj
  congr 1
  apply Finset.sum_congr rfl
  intro i hi
  rw [h i j (Finset.mem_range.mp hi) (Finset.mem_range.mp hj)]

theorem quadraticForm_eq (n : Nat) (entry : Nat → Nat → α) (d : Nat → α) :
    quadraticForm n entry d =
      ∑ i ∈ Finset.range n, ∑ j ∈ Finset.range n, d i * entry i j * d j := by
  unfold quadraticForm
  simp only [Finset.sum_mul]
  exact Finset.sum_comm

theorem quadraticForm_add (entry entry' : Nat → Nat → α) :
    quadraticForm n (fun i j => entry i j + entry' i j) d =
      quadraticForm n entry d + quadraticForm n entry' d := by
  simp only [quadraticForm, mul_add, Finset.sum_add_distrib, add_mul]

theorem quadraticForm_swap (n : Nat) (entry : Nat → Nat → α) (d : Nat → α) :
    quadraticForm n (fun i j => entry j i) d = quadraticForm n entry d := by
  rw [quadraticForm_eq, quadraticForm_eq, Finset.sum_comm]
  apply Finset.sum_congr rfl
  intro i _
  apply Finset.sum_congr rfl
  intro j _
  ring

/-- The form of a symmetric matrix is that of its lower triangle and that of the part below the
diagonal once more. -/
theorem quadraticForm_symmetric (hsymm : ∀ i j, entry i j = entry j i) :
    quadraticForm n entry d =
      quadraticForm n (lowerTriangle entry) d + quadraticForm n (strictTriangle entry) d := by
  have hsplit : ∀ i j, entry i j = lowerTriangle entry i j + strictTriangle entry j i := by
    intro i j
    unfold lowerTriangle strictTriangle
    by_cases h : j ≤ i
    · rw [if_pos h, if_neg (Nat.not_lt.mpr h), add_zero]
    · rw [if_neg h, if_pos (Nat.lt_of_not_le h), zero_add, hsymm i j]
  calc
    quadraticForm n entry d =
        quadraticForm n (fun i j => lowerTriangle entry i j + strictTriangle entry j i) d :=
      quadraticForm_congr fun i j _ _ => hsplit i j
    _ = quadraticForm n (lowerTriangle entry) d +
        quadraticForm n (fun i j => strictTriangle entry j i) d := quadraticForm_add _ _
    _ = _ := by rw [quadraticForm_swap n (strictTriangle entry)]

/-- A form that is not zero belongs to a vector that is not zero. -/
theorem exists_ne_zero (h : quadraticForm n entry d ≠ 0) : ∃ i, i < n ∧ d i ≠ 0 := by
  by_contra hall
  simp only [not_exists, not_and, not_not] at hall
  apply h
  unfold quadraticForm
  apply Finset.sum_eq_zero
  intro j hj
  rw [hall j (Finset.mem_range.mp hj), mul_zero]

end Madlib.Lib.Triangular
