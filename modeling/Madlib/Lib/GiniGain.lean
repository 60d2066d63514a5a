import Mathlib

/-!
# The gain of a split by the Gini index

A table gives every branch of a split a count of each class.  The Gini index of the classes is
never smaller than the mean of the indices in the branches, weighted with their sizes.
-/

namespace Madlib.Lib.GiniGain

variable {K ι κ : Type} [Field K]

/-- The Gini index of class counts. -/
def giniIndex (counts : List K) : K := 1 - (counts.map fun n => (n / counts.sum) ^ 2).sum

section Table

variable (classes : List κ) (branches : List (κ → K))

def branchTotal (b : κ → K) : K := (classes.map b).sum

def classTotal (c : κ) : K := (branches.map fun b => b c).sum

def total : K := (branches.map (branchTotal classes)).sum

/-- The gain of the split into the branches. -/
def giniGain : K :=
  giniIndex (classes.map (classTotal branches)) -
    (branches.map fun b =>
      branchTotal classes b / total classes branches * giniIndex (classes.map b)).sum

end Table

theorem sum_map_div (l : List ι) (f : ι → K) (x : K) :
    (l.map fun i => f i / x).sum = (l.map f).sum / x := by
  simp only [div_eq_mul_inv]
  exact List.sum_map_mul_right l f x⁻¹

theorem sum_map_sub (l : List ι) (f g : ι → K) :
    (l.map fun i => f i - g i).sum = (l.map f).sum - (l.map g).sum := by
  simpa using Multiset.sum_map_sub (m := (l : Multiset ι)) (f := f) (g := g)

theorem sum_map_sum_map (xs : List ι) (ys : List κ) (f : ι → κ → K) :
    (xs.map fun x => (ys.map (f x)).sum).sum =
      (ys.map fun y => (xs.map fun x => f x y).sum).sum := by
  simpa using Multiset.sum_map_sum_map (xs : Multiset ι) (ys : Multiset κ)

variable {classes : List κ} {branches : List (κ → K)}

theorem sum_classTotal : (classes.map (classTotal branches)).sum = total classes branches :=
  sum_map_sum_map classes branches fun c b => b c

/-- The squares of the counts of a branch, as the aggregate sums them up. -/
def branchSquares (classes : List κ) (b : κ → K) : K :=
  (classes.map fun c => b c ^ 2 / branchTotal classes b).sum

theorem weighted_giniIndex (b : κ → K) (x : K) :
    branchTotal classes b / x * giniIndex (classes.map b) =
      branchTotal classes b / x - branchSquares classes b / x := by
  have hsquares : ((classes.map b).map fun n => (n / (classes.map b).sum) ^ 2).sum =
      (classes.map fun c => b c ^ 2).sum / branchTotal classes b ^ 2 := by
    rw [List.map_map, ← sum_map_div]
    simp only [Function.comp_def, div_pow]
    rfl
  rw [giniIndex, hsquares, branchSquares, sum_map_div, mul_sub, mul_one]
  congr 1
  by_cases hzero : branchTotal classes b = 0
  · simp [hzero]
  · field_simp

/-- The gain, from the sums of squares before and after the split. -/
theorem giniGain_eq (htotal : total classes branches ≠ 0) :
    giniGain classes branches =
      (branches.map (branchSquares classes)).sum / total classes branches -
        (classes.map fun c => (classTotal branches c / total classes branches) ^ 2).sum := by
  have hbranches : (branches.map fun b =>
      branchTotal classes b / total classes branches * giniIndex (classes.map b)).sum =
        1 - (branches.map (branchSquares classes)).sum / total classes branches := by
    simp only [weighted_giniIndex]
    rw [sum_map_sub, sum_map_div, sum_map_div]
    congr 1
    exact div_self htotal
  rw [giniGain, hbranches, giniIndex, sum_classTotal, List.map_map]
  simp only [Function.comp_def]
  ring

section Order

variable [LinearOrder K] [IsStrictOrderedRing K]

/-- The inequality of Cauchy and Schwarz for quotients, with zeros over zeros. -/
theorem sq_sum_le (l : List ι) {f g : ι → K} (hg : ∀ i ∈ l, 0 ≤ g i)
    (hzero : ∀ i ∈ l, g i = 0 → f i = 0) :
    (l.map f).sum ^ 2 ≤ (l.map g).sum * (l.map fun i => f i ^ 2 / g i).sum := by
  have hsquare : ∀ i ∈ l, f i ^ 2 = g i * (f i ^ 2 / g i) := by
    intro i hi
    by_cases hne : g i = 0
    · rw [hzero i hi hne, zero_pow two_ne_zero, zero_div, mul_zero]
    · field_simp
  rw [← Fin.sum_univ_fun_getElem l f, ← Fin.sum_univ_fun_getElem l g,
    ← Fin.sum_univ_fun_getElem l fun i => f i ^ 2 / g i]
  apply Finset.sum_sq_le_sum_mul_sum_of_sq_le_mul
  · exact fun i _ => hg _ (List.getElem_mem i.isLt)
  · exact fun i _ => div_nonneg (sq_nonneg _) (hg _ (List.getElem_mem i.isLt))
  · exact fun i _ => (hsquare _ (List.getElem_mem i.isLt)).le

theorem branchTotal_nonneg {b : κ → K} (hb : ∀ c ∈ classes, 0 ≤ b c) :
    0 ≤ branchTotal classes b := by
  apply List.sum_nonneg
  intro n hn
  obtain ⟨c, hc, rfl⟩ := List.mem_map.mp hn
  exact hb c hc

/-- No split makes the classes less pure. -/
theorem giniGain_nonneg (hcounts : ∀ b ∈ branches, ∀ c ∈ classes, 0 ≤ b c)
    (htotal : 0 < total classes branches) : 0 ≤ giniGain classes branches := by
  have hclass : ∀ c ∈ classes, (classTotal branches c / total classes branches) ^ 2 ≤
      (branches.map fun b => b c ^ 2 / branchTotal classes b).sum / total classes branches := by
    intro c hc
    have hsq := sq_sum_le branches (f := fun b => b c) (g := branchTotal classes)
      (fun b hb => branchTotal_nonneg (hcounts b hb)) (by
        intro b hb hzero
        have hmem : b c ∈ classes.map b := List.mem_map_of_mem hc
        have hall : ∀ n ∈ classes.map b, 0 ≤ n := by
          intro n hn
          obtain ⟨c', hc', rfl⟩ := List.mem_map.mp hn
          exact hcounts b hb c' hc'
        exact List.all_zero_of_le_zero_le_of_sum_eq_zero hall hzero hmem)
    rw [div_pow, sq (total classes branches), ← div_div]
    apply div_le_div_of_nonneg_right _ htotal.le
    rw [div_le_iff₀ htotal, mul_comm]
    exact hsq
  rw [giniGain_eq htotal.ne', sub_nonneg]
  calc (classes.map fun c => (classTotal branches c / total classes branches) ^ 2).sum
      ≤ (classes.map fun c => (branches.map fun b =>
          b c ^ 2 / branchTotal classes b).sum / total classes branches).sum :=
        List.sum_le_sum hclass
    _ = (branches.map (branchSquares classes)).sum / total classes branches := by
        rw [sum_map_div]
        congr 1
        exact sum_map_sum_map classes branches fun c b => b c ^ 2 / branchTotal classes b

end Order

end Madlib.Lib.GiniGain
