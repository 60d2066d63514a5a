import Mathlib

/-!
# The first largest value

A scan over consecutive positions that moves only to a strictly larger value stays at the first of
the positions with the largest value.
-/

namespace Madlib.Lib.FirstMaximum

variable {α : Type} [LinearOrder α] {f : ℕ → α} {lo hi i : ℕ}

/-- Of the positions from `lo` on and before `hi`, `i` is the first one with the largest value. -/
structure IsFirstMax (f : ℕ → α) (lo hi i : ℕ) : Prop where
  mem : i ∈ Finset.Ico lo hi
  le : ∀ j ∈ Finset.Ico lo hi, f j ≤ f i
  lt : ∀ j ∈ Finset.Ico lo i, f j < f i

theorem forall_mem_Ico_succ {p : ℕ → Prop} (h : ∀ j ∈ Finset.Ico lo hi, p j) (hp : p hi) :
    ∀ j ∈ Finset.Ico lo (hi + 1), p j := by
  intro j hj
  rw [Finset.mem_Ico] at hj
  rcases Nat.lt_succ_iff_lt_or_eq.mp hj.2 with hlt | rfl
  · exact h j (Finset.mem_Ico.mpr ⟨hj.1, hlt⟩)
  · exact hp

theorem IsFirstMax.single (f : ℕ → α) (lo : ℕ) : IsFirstMax f lo (lo + 1) lo where
  mem := by simp
  le := by simp
  lt := by simp

theorem IsFirstMax.move (h : IsFirstMax f lo hi i) (hlt : f i < f hi) :
    IsFirstMax f lo (hi + 1) hi where
  mem := by
    have hmem := Finset.mem_Ico.mp h.mem
    apply Finset.mem_Ico.mpr
    omega
  le := forall_mem_Ico_succ (fun j hj => (h.le j hj).trans hlt.le) le_rfl
  lt := fun j hj => (h.le j hj).trans_lt hlt

theorem IsFirstMax.stay (h : IsFirstMax f lo hi i) (hle : f hi ≤ f i) :
    IsFirstMax f lo (hi + 1) i where
  mem := Finset.Ico_subset_Ico_right (Nat.le_succ hi) h.mem
  le := forall_mem_Ico_succ h.le hle
  lt := h.lt

theorem IsFirstMax.sup_eq [OrderBot α] (h : IsFirstMax f lo hi i) :
    (Finset.Ico lo hi).sup f = f i := by
  apply le_antisymm
  · exact Finset.sup_le h.le
  · exact Finset.le_sup h.mem

theorem IsFirstMax.isLeast [OrderBot α] (h : IsFirstMax f lo hi i) :
    IsLeast {j | j ∈ Finset.Ico lo hi ∧ f j = (Finset.Ico lo hi).sup f} i := by
  rw [h.sup_eq]
  refine ⟨⟨h.mem, rfl⟩, ?_⟩
  intro j ⟨hj, heq⟩
  by_contra hlt
  have hbefore : j ∈ Finset.Ico lo i :=
    Finset.mem_Ico.mpr ⟨(Finset.mem_Ico.mp hj).1, not_le.mp hlt⟩
  exact (h.lt j hbefore).ne heq

end Madlib.Lib.FirstMaximum
