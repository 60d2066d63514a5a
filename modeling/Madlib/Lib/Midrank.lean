import Mathlib

/-!
# Midranks

The rank of a key among others is the number of smaller keys, with the average of the places that
equal keys take.  A pair of keys scores one if it is in order, and one half if it is a tie: the
midrank of a key is one half more than its score against all keys, itself included.
-/

namespace Madlib.Lib.Midrank

variable {κ : Type} [LinearOrder κ]

def midrank (ks : Multiset κ) (k : κ) : ℚ :=
  ks.countP (· < k) + ((ks.count k : ℚ) + 1) / 2

/-- Whether `x` comes before `y`. -/
def pairScore (x y : κ) : ℚ := if x < y then 1 else if x = y then 1 / 2 else 0

/-- The score of all pairs of an element of `xs` and one of `ys`. -/
def pairsInOrder (xs ys : Multiset κ) : ℚ := (ys.map fun y => (xs.map fun x => pairScore x y).sum).sum

/-- For each group of `t` equal keys `(t^3 - t) / 48`. -/
def tieSum (ks : Multiset κ) : ℚ := ∑ k ∈ ks.toFinset, ((ks.count k : ℚ) ^ 3 - ks.count k) / 48

variable {ks : Multiset κ} {k x y : κ}

/-! ## Pairs -/

theorem pairScore_of_lt (h : x < y) : pairScore x y = 1 := if_pos h

theorem pairScore_self (x : κ) : pairScore x x = 1 / 2 := by
  simp [pairScore]

theorem pairScore_of_gt (h : y < x) : pairScore x y = 0 := by
  simp [pairScore, h.not_gt, h.ne']

theorem pairScore_add (x y : κ) : pairScore x y + pairScore y x = 1 := by
  rcases lt_trichotomy x y with h | rfl | h
  · rw [pairScore_of_lt h, pairScore_of_gt h, add_zero]
  · rw [pairScore_self]
    norm_num
  · rw [pairScore_of_gt h, pairScore_of_lt h, zero_add]

theorem midrank_cons (k : κ) (ks : Multiset κ) (x : κ) :
    midrank (k ::ₘ ks) x = midrank ks x + pairScore k x := by
  unfold midrank
  rcases lt_trichotomy k x with h | rfl | h
  · rw [pairScore_of_lt h, Multiset.countP_cons_of_pos (p := fun y => y < x) ks h,
      Multiset.count_cons_of_ne h.ne']
    push_cast
    ring
  · rw [pairScore_self, Multiset.countP_cons_of_neg (p := fun y => y < k) ks (lt_irrefl k),
      Multiset.count_cons_self]
    push_cast
    ring
  · rw [pairScore_of_gt h, Multiset.countP_cons_of_neg (p := fun y => y < x) ks h.not_gt,
      Multiset.count_cons_of_ne h.ne, add_zero]

theorem midrank_eq_sum (ks : Multiset κ) (x : κ) :
    midrank ks x = (ks.map fun k => pairScore k x).sum + 1 / 2 := by
  induction ks using Multiset.induction_on with
  | empty => simp [midrank]
  | cons k ks ih =>
      rw [midrank_cons, ih, Multiset.map_cons, Multiset.sum_cons]
      ring

/-- The keys of two samples are ranked together. -/
theorem midrank_add (xs ys : Multiset κ) (y : κ) :
    midrank (xs + ys) y = midrank ys y + (xs.map fun x => pairScore x y).sum := by
  rw [midrank_eq_sum, midrank_eq_sum, Multiset.map_add, Multiset.sum_add]
  ring

theorem pairsInOrder_cons_self (k : κ) (ks : Multiset κ) :
    pairsInOrder (k ::ₘ ks) (k ::ₘ ks) = pairsInOrder ks ks + ks.card + 1 / 2 := by
  have hcross : (ks.map fun x => pairScore x k).sum + (ks.map fun y => pairScore k y).sum =
      ks.card := by
    calc (ks.map fun x => pairScore x k).sum + (ks.map fun y => pairScore k y).sum
        = (ks.map fun x => pairScore x k + pairScore k x).sum := Multiset.sum_map_add.symm
      _ = (ks.map fun _ => (1 : ℚ)).sum := by simp only [pairScore_add]
      _ = ks.card := by simp
  have hrest : (ks.map fun y => ((k ::ₘ ks).map fun x => pairScore x y).sum).sum =
      (ks.map fun y => pairScore k y).sum + pairsInOrder ks ks := by
    simp only [Multiset.map_cons, Multiset.sum_cons]
    rw [Multiset.sum_map_add]
    rfl
  unfold pairsInOrder at hrest ⊢
  rw [Multiset.map_cons, Multiset.sum_cons, hrest, Multiset.map_cons, Multiset.sum_cons,
    pairScore_self]
  linarith

/-- A pair of places is in order one way or the other. -/
theorem pairsInOrder_self (ks : Multiset κ) : pairsInOrder ks ks = (ks.card : ℚ) ^ 2 / 2 := by
  induction ks using Multiset.induction_on with
  | empty => simp [pairsInOrder]
  | cons k ks ih =>
      rw [pairsInOrder_cons_self, ih, Multiset.card_cons]
      push_cast
      ring

/-- The midranks of one sample are those of any sample of its size. -/
theorem sum_midrank (ks : Multiset κ) :
    (ks.map (midrank ks)).sum = (ks.card : ℚ) * (ks.card + 1) / 2 := by
  have hpairs := pairsInOrder_self ks
  calc (ks.map (midrank ks)).sum
      = (ks.map fun y => (ks.map fun x => pairScore x y).sum + 1 / 2).sum := by
        simp only [midrank_eq_sum]
    _ = pairsInOrder ks ks + ks.card * (1 / 2) := by
        rw [Multiset.sum_map_add]
        simp [pairsInOrder]
    _ = (ks.card : ℚ) * (ks.card + 1) / 2 := by
        rw [hpairs]
        ring

/-- What the ranks of a sample among two are more than its own is the score of the pairs. -/
theorem sum_midrank_add (xs ys : Multiset κ) :
    (ys.map (midrank (xs + ys))).sum = (ys.card : ℚ) * (ys.card + 1) / 2 + pairsInOrder xs ys := by
  rw [← sum_midrank]
  simp only [midrank_add]
  rw [Multiset.sum_map_add]
  rfl

/-! ## Keys in ascending order -/

/-- A last key takes a place behind all others, and the average of the places of its ties. -/
theorem midrank_cons_self (h : ∀ x ∈ ks, x ≤ k) :
    midrank (k ::ₘ ks) k = ks.card + 1 - (ks.count k : ℚ) / 2 := by
  have hcard : (ks.card : ℚ) = ks.countP (· < k) + ks.count k := by
    have hsplit := Multiset.card_eq_countP_add_countP (· < k) ks
    have hrest : ks.countP (fun x => ¬x < k) = ks.count k := by
      rw [Multiset.count]
      apply Multiset.countP_congr rfl
      intro x hx
      rw [eq_iff_iff]
      exact ⟨fun hnot => le_antisymm (not_lt.mp hnot) (h x hx), fun heq => heq ▸ lt_irrefl _⟩
    rw [hsplit, hrest]
    push_cast
    ring
  rw [midrank_cons, pairScore_self, hcard]
  unfold midrank
  ring

/-- The keys in front of a last one gain one half for each tie with it. -/
theorem sum_midrank_cons {part : Multiset κ} (h : ∀ x ∈ part, x ≤ k) :
    (part.map (midrank (k ::ₘ ks))).sum = (part.map (midrank ks)).sum + part.count k * (1 / 2) := by
  induction part using Multiset.induction_on with
  | empty => simp
  | cons x part ih =>
      have hpart : ∀ y ∈ part, y ≤ k := fun y hy => h y (Multiset.mem_cons_of_mem hy)
      rw [Multiset.map_cons, Multiset.sum_cons, ih hpart, midrank_cons, Multiset.map_cons,
        Multiset.sum_cons]
      rcases (h x (Multiset.mem_cons_self x part)).lt_or_eq with hlt | rfl
      · rw [pairScore_of_gt hlt, Multiset.count_cons_of_ne hlt.ne']
        ring
      · rw [pairScore_self, Multiset.count_cons_self]
        push_cast
        ring

/-! ## Ties -/

theorem tieSum_zero : tieSum (0 : Multiset κ) = 0 := by
  simp [tieSum]

/-- Keys that do not occur add nothing. -/
theorem tieSum_eq_sum {s : Finset κ} (h : ks.toFinset ⊆ s) :
    tieSum ks = ∑ k ∈ s, ((ks.count k : ℚ) ^ 3 - ks.count k) / 48 := by
  apply Finset.sum_subset h
  intro x _ hx
  rw [Multiset.mem_toFinset, ← Multiset.count_eq_zero] at hx
  simp [hx]

theorem tieSum_cons (k : κ) (ks : Multiset κ) :
    tieSum (k ::ₘ ks) = tieSum ks + 1 / 16 * ks.count k * (ks.count k + 1) := by
  have hmem : k ∈ insert k ks.toFinset := Finset.mem_insert_self k _
  have hother : ∀ x ∈ (insert k ks.toFinset).erase k,
      (((k ::ₘ ks).count x : ℚ) ^ 3 - (k ::ₘ ks).count x) / 48 =
        ((ks.count x : ℚ) ^ 3 - ks.count x) / 48 := by
    intro x hx
    rw [Multiset.count_cons_of_ne (Finset.ne_of_mem_erase hx)]
  rw [tieSum_eq_sum (s := insert k ks.toFinset) (by rw [Multiset.toFinset_cons]),
    tieSum_eq_sum (Finset.subset_insert k ks.toFinset), ← Finset.add_sum_erase _ _ hmem,
    ← Finset.add_sum_erase _ _ hmem, Finset.sum_congr rfl hother, Multiset.count_cons_self]
  push_cast
  ring

/-- A new key is a group of one. -/
theorem tieSum_cons_of_notMem {k : κ} {ks : Multiset κ} (h : k ∉ ks) :
    tieSum (k ::ₘ ks) = tieSum ks := by
  rw [tieSum_cons, Multiset.count_eq_zero.mpr h]
  simp

end Madlib.Lib.Midrank
