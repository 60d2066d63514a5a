import Mathlib

/-!
# Impurity of class counts

Gini index and entropy sum one term for the share of every class.  A term is zero
only for the shares 0 and 1, so the sum is zero exactly where one class has all.
-/

namespace Madlib.Lib.Impurity

variable {K : Type} [Field K]

/-- The shares of all classes make one. -/
theorem sum_shares {counts : List K} {total : K} (hsum : counts.sum = total) (htotal : total ≠ 0) :
    (counts.map fun c => c / total).sum = 1 := by
  have hdiv : (counts.map fun c => c / total).sum = counts.sum / total := by
    clear hsum
    induction counts with
    | nil => simp
    | cons c counts ih => rw [List.map_cons, List.sum_cons, List.sum_cons, ih, add_div]
  rw [hdiv, hsum, div_self htotal]

variable [LinearOrder K]

/-- `g` is positive on the shares strictly between 0 and 1, and zero at both. -/
structure IsImpurity (g : K → K) : Prop where
  zero : g 0 = 0
  one : g 1 = 0
  pos : ∀ p, 0 < p → p < 1 → 0 < g p

theorem IsImpurity.nonneg {g : K → K} (hg : IsImpurity g) {p : K} (hlo : 0 ≤ p) (hhi : p ≤ 1) : 0 ≤ g p := by
  rcases eq_or_lt_of_le hlo with hzero | hpos
  · rw [← hzero, hg.zero]
  · rcases eq_or_lt_of_le hhi with hone | hlt
    · rw [hone, hg.one]
    · exact (hg.pos p hpos hlt).le

variable [IsStrictOrderedRing K] {g : K → K} {counts : List K} {total : K}

theorem le_sum_of_mem (hcounts : ∀ c ∈ counts, 0 ≤ c) {c : K} (hc : c ∈ counts) :
    c ≤ counts.sum :=
  List.single_le_sum hcounts c hc

/-- Where one count is the total, the others are zero. -/
theorem eq_zero_or_eq_of_mem (hcounts : ∀ c ∈ counts, 0 ≤ c) (hsum : counts.sum = total)
    (hpure : total ∈ counts) {c : K} (hc : c ∈ counts) : c = 0 ∨ c = total := by
  have ⟨before, after, heq⟩ := List.append_of_mem hpure
  subst heq
  rw [List.sum_append, List.sum_cons] at hsum
  have hbefore : ∀ c ∈ before, 0 ≤ c := fun c hc => hcounts c (List.mem_append_left _ hc)
  have hafter : ∀ c ∈ after, 0 ≤ c :=
    fun c hc => hcounts c (List.mem_append_right _ (List.mem_cons_of_mem _ hc))
  have hsumBefore : 0 ≤ before.sum := List.sum_nonneg hbefore
  have hsumAfter : 0 ≤ after.sum := List.sum_nonneg hafter
  rcases List.mem_append.mp hc with hc | hc
  · left
    have hle := le_sum_of_mem hbefore hc
    exact le_antisymm (by linarith) (hbefore c hc)
  · rcases List.mem_cons.mp hc with hc | hc
    · exact .inr hc
    · left
      have hle := le_sum_of_mem hafter hc
      exact le_antisymm (by linarith) (hafter c hc)

theorem sum_eq_zero_iff {terms : List K} (h : ∀ t ∈ terms, 0 ≤ t) :
    terms.sum = 0 ↔ ∀ t ∈ terms, t = 0 := by
  induction terms with
  | nil => simp
  | cons t terms ih =>
      have ht := h t List.mem_cons_self
      have hrest : ∀ u ∈ terms, 0 ≤ u := fun u hu => h u (List.mem_cons_of_mem t hu)
      rw [List.sum_cons, List.forall_mem_cons, ← ih hrest]
      exact add_eq_zero_iff_of_nonneg ht (List.sum_nonneg hrest)

/-- The impurity of class counts is zero exactly where one class has all. -/
theorem IsImpurity.sum_eq_zero_iff_mem (hg : IsImpurity g) (hcounts : ∀ c ∈ counts, 0 ≤ c)
    (hsum : counts.sum = total) (htotal : 0 < total) :
    (counts.map fun c => g (c / total)).sum = 0 ↔ total ∈ counts := by
  have hshare : ∀ c ∈ counts, 0 ≤ c / total ∧ c / total ≤ 1 := by
    intro c hc
    have hle := le_sum_of_mem hcounts hc
    rw [hsum] at hle
    exact ⟨div_nonneg (hcounts c hc) htotal.le, (div_le_one htotal).mpr hle⟩
  have hterms : ∀ t ∈ counts.map fun c => g (c / total), 0 ≤ t := by
    intro t ht
    have ⟨c, hc, hct⟩ := List.mem_map.mp ht
    rw [← hct]
    exact hg.nonneg (hshare c hc).1 (hshare c hc).2
  rw [sum_eq_zero_iff hterms, List.forall_mem_map]
  constructor
  · intro hzero
    by_contra hmixed
    have hall : ∀ c ∈ counts, c = 0 := by
      intro c hc
      by_contra hne
      have ⟨hlo, hhi⟩ := hshare c hc
      have hpos : 0 < c / total := lt_of_le_of_ne hlo (div_ne_zero hne htotal.ne').symm
      have hlt : c / total < 1 := by
        apply lt_of_le_of_ne hhi
        intro hone
        rw [div_eq_one_iff_eq htotal.ne'] at hone
        exact hmixed (hone ▸ hc)
      exact (hg.pos _ hpos hlt).ne' (hzero c hc)
    have hnone : counts.sum = 0 := (sum_eq_zero_iff hcounts).mpr hall
    exact htotal.ne' (hsum ▸ hnone)
  · intro hpure c hc
    rcases eq_zero_or_eq_of_mem hcounts hsum hpure hc with hzero | hone
    · rw [hzero, zero_div, hg.zero]
    · rw [hone, div_self htotal.ne', hg.one]

/-- `p - p * p`, whose sum over all shares is the Gini index. -/
theorem isImpurity_gini : IsImpurity fun p : K => p - p * p where
  zero := by ring
  one := by ring
  pos := by
    intro p hpos hlt
    have hprod : 0 < p * (1 - p) := mul_pos hpos (sub_pos.mpr hlt)
    linarith

end Madlib.Lib.Impurity
