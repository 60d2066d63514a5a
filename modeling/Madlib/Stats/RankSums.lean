import Madlib.Lib.Midrank

/-!
# Rank sums

The tests on ranks keep three numbers for each of two samples: how many keys there are, how many of
them are ties with the last key, and the sum of the ranks.  Keys arrive in ascending order, and a
tie corrects the ranks of those it is tied with.
-/

namespace Madlib.Stats

open Madlib.Lib.Midrank

local instance neZero_two : NeZero 2 := ⟨by decide⟩

structure RankState where
  num : Fin 2 → ℚ
  numTies : Fin 2 → ℚ
  rankSum : Fin 2 → ℚ
  deriving DecidableEq

/-- `sum()` of a vector of two numbers. -/
def sumOfTwo (v : Fin 2 → ℚ) : ℚ := v 0 + v 1

namespace RankState

def zero : RankState := ⟨0, 0, 0⟩

/-- `rankSum(i) += numTies(i) * 0.5` -/
def correctTies (s : RankState) : RankState :=
  { s with rankSum := fun i => s.rankSum i + s.numTies i * (1 / 2) }

/-- `numTies.setZero()` -/
def clearTies (s : RankState) : RankState := { s with numTies := 0 }

/-- The statements both transition functions end with. -/
def addRank (s : RankState) (sample : Fin 2) : RankState :=
  let num := Function.update s.num sample (s.num sample + 1)
  { num := num
    numTies := Function.update s.numTies sample (s.numTies sample + 1)
    rankSum := Function.update s.rankSum sample
      (s.rankSum sample + (2 * sumOfTwo num - sumOfTwo s.numTies) / 2) }

end RankState

theorem sumOfTwo_addRank (s : RankState) (sample : Fin 2) :
    sumOfTwo (s.addRank sample).num = sumOfTwo s.num + 1 := by
  unfold sumOfTwo RankState.addRank
  fin_cases sample
  · simp [add_right_comm]
  · simp [add_assoc]

theorem sumOfTwo_addRank_numTies (s : RankState) (sample : Fin 2) :
    sumOfTwo (s.addRank sample).numTies = sumOfTwo s.numTies + 1 := by
  unfold sumOfTwo RankState.addRank
  fin_cases sample
  · simp [add_right_comm]
  · simp [add_assoc]

/-! ## What the numbers mean -/

variable {κ : Type}

/-- The keys of both samples. -/
def together (samples : Fin 2 → Multiset κ) : Multiset κ := samples 0 + samples 1

def insertKey (samples : Fin 2 → Multiset κ) (sample : Fin 2) (key : κ) : Fin 2 → Multiset κ :=
  Function.update samples sample (key ::ₘ samples sample)

@[simp] theorem together_insertKey (samples : Fin 2 → Multiset κ) (sample : Fin 2) (key : κ) :
    together (insertKey samples sample key) = key ::ₘ together samples := by
  unfold together insertKey
  fin_cases sample <;> simp

theorem le_together (samples : Fin 2 → Multiset κ) (i : Fin 2) : samples i ≤ together samples := by
  fin_cases i
  · exact Multiset.le_add_right _ _
  · exact Multiset.le_add_left _ _

theorem sumOfTwo_card {samples : Fin 2 → Multiset κ} {v : Fin 2 → ℚ}
    (h : ∀ i, v i = (samples i).card) :
    sumOfTwo v = (together samples).card := by
  unfold sumOfTwo together
  rw [h, h, Multiset.card_add]
  push_cast
  rfl

variable [LinearOrder κ]

/-- The ranks are the midranks of the keys so far. -/
structure Ranked (samples : Fin 2 → Multiset κ) (last : κ) (s : RankState) : Prop where
  num : ∀ i, s.num i = (samples i).card
  numTies : ∀ i, s.numTies i = (samples i).count last
  rankSum : ∀ i, s.rankSum i = ((samples i).map (midrank (together samples))).sum

/-- The ranks count a key that is still to come. -/
structure Awaits (samples : Fin 2 → Multiset κ) (key : κ) (s : RankState) : Prop where
  num : ∀ i, s.num i = (samples i).card
  numTies : ∀ i, s.numTies i = (samples i).count key
  rankSum : ∀ i, s.rankSum i = ((samples i).map (midrank (key ::ₘ together samples))).sum

variable {samples : Fin 2 → Multiset κ} {last key : κ} {s t : RankState}

theorem ranked_zero (last : κ) : Ranked (fun _ => 0) last RankState.zero where
  num i := by simp [RankState.zero]
  numTies i := by simp [RankState.zero]
  rankSum i := by simp [RankState.zero]

/-- The keys determine the numbers. -/
theorem Ranked.unique (hs : Ranked samples last s) (ht : Ranked samples last t) : s = t := by
  have hnum : s.num = t.num := funext fun i => (hs.num i).trans (ht.num i).symm
  have hnumTies : s.numTies = t.numTies := funext fun i => (hs.numTies i).trans (ht.numTies i).symm
  have hrankSum : s.rankSum = t.rankSum := funext fun i => (hs.rankSum i).trans (ht.rankSum i).symm
  cases s
  cases t
  rw [RankState.mk.injEq]
  exact ⟨hnum, hnumTies, hrankSum⟩

theorem sumOfTwo_count {v : Fin 2 → ℚ} (h : ∀ i, v i = (samples i).count key) :
    sumOfTwo v = (together samples).count key := by
  unfold sumOfTwo together
  rw [h, h, Multiset.count_add]
  push_cast
  rfl

/-! ## Steps -/

theorem mem_le_of_together (h : ∀ x ∈ together samples, x ≤ key) (i : Fin 2) :
    ∀ x ∈ samples i, x ≤ key :=
  fun x hx => h x (Multiset.mem_of_le (le_together samples i) hx)

theorem count_eq_zero_of_lt (h : ∀ x ∈ together samples, x < key) (i : Fin 2) :
    (samples i).count key = 0 := by
  rw [Multiset.count_eq_zero]
  intro hmem
  exact lt_irrefl key (h key (Multiset.mem_of_le (le_together samples i) hmem))

/-- The keys a tie is tied with lose half a rank to it. -/
theorem Ranked.correctTies (h : Ranked samples key s) (hle : ∀ x ∈ together samples, x ≤ key) :
    Awaits samples key s.correctTies where
  num := h.num
  numTies := h.numTies
  rankSum i := by
    rw [sum_midrank_cons (mem_le_of_together hle i), ← h.rankSum i, ← h.numTies i]
    rfl

theorem Ranked.clearTies (h : Ranked samples last s) (hlt : ∀ x ∈ together samples, x < key) :
    Awaits samples key s.clearTies where
  num := h.num
  numTies i := by
    simp [RankState.clearTies, count_eq_zero_of_lt hlt]
  rankSum i := by
    have hle := mem_le_of_together (fun x hx => (hlt x hx).le) i
    rw [sum_midrank_cons hle, ← h.rankSum i, count_eq_zero_of_lt hlt, Nat.cast_zero, zero_mul, add_zero]
    rfl

theorem Awaits.addRank (h : Awaits samples key s) (hle : ∀ x ∈ together samples, x ≤ key)
    (sample : Fin 2) : Ranked (insertKey samples sample key) key (s.addRank sample) := by
  have hnum : ∀ i, (s.addRank sample).num i = (insertKey samples sample key i).card := by
    intro i
    by_cases hi : i = sample
    · subst hi
      simp [RankState.addRank, insertKey, h.num]
    · simp [RankState.addRank, insertKey, Function.update_of_ne hi, h.num]
  refine ⟨hnum, ?_, ?_⟩
  · intro i
    by_cases hi : i = sample
    · subst hi
      simp [RankState.addRank, insertKey, h.numTies]
    · simp [RankState.addRank, insertKey, Function.update_of_ne hi, h.numTies]
  · intro i
    rw [together_insertKey]
    by_cases hi : i = sample
    · subst hi
      have hcard := sumOfTwo_card hnum
      rw [together_insertKey, Multiset.card_cons] at hcard
      have hrank := midrank_cons_self hle
      calc (s.addRank i).rankSum i
          = s.rankSum i +
              (2 * sumOfTwo (s.addRank i).num - sumOfTwo s.numTies) / 2 := by
            simp [RankState.addRank]
        _ = s.rankSum i + midrank (key ::ₘ together samples) key := by
            rw [hcard, sumOfTwo_count h.numTies, hrank]
            push_cast
            ring
        _ = ((insertKey samples i key i).map (midrank (key ::ₘ together samples))).sum := by
            rw [h.rankSum i]
            simp [insertKey, add_comm]
    · simp [RankState.addRank, insertKey, Function.update_of_ne hi, h.rankSum]

end Madlib.Stats
