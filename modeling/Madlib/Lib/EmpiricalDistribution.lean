import Mathlib

/-!
# Empirical distribution functions

The share of the elements of a sample that are at most, or below, a point.  Two samples are as far
apart as the largest gap between their shares.  A walk through both samples in ascending order
passes through a point part by part: the shares it has reached lie between those below the point
and those at most at the point.
-/

namespace Madlib.Lib.EmpiricalDistribution

variable {κ : Type} [LinearOrder κ]

def shareAtMost (ks : Multiset κ) (t : κ) : ℚ := ks.countP (· ≤ t) / ks.card

def shareBelow (ks : Multiset κ) (t : κ) : ℚ := ks.countP (· < t) / ks.card

def gap (xs ys : Multiset κ) (t : κ) : ℚ := |shareAtMost xs t - shareAtMost ys t|

/-- The distance of the two distribution functions. -/
def IsDistance (xs ys : Multiset κ) (d : ℚ) : Prop := IsGreatest (Set.range (gap xs ys)) d

/-- At no point one sample jumps further ahead of where the other was in front of it than the
functions ever are apart. -/
def JumpsWithin (xs ys : Multiset κ) : Prop :=
  ∀ t, (∃ u, shareAtMost xs t - shareBelow ys t ≤ gap xs ys u) ∧
    ∃ u, shareAtMost ys t - shareBelow xs t ≤ gap xs ys u

variable {xs ys p q : Multiset κ} {t : κ} {d : ℚ}

/-- What has been passed of a sample has all that is below the last point and nothing above. -/
structure PassedTo (xs : Multiset κ) (t : κ) (p : Multiset κ) : Prop where
  below : xs.filter (· < t) ≤ p
  atMost : p ≤ xs.filter (· ≤ t)

theorem PassedTo.share_ge (h : PassedTo xs t p) : shareBelow xs t ≤ (p.card : ℚ) / xs.card := by
  have hle := Multiset.card_le_card h.below
  rw [← Multiset.countP_eq_card_filter] at hle
  unfold shareBelow
  gcongr

theorem PassedTo.share_le (h : PassedTo xs t p) : (p.card : ℚ) / xs.card ≤ shareAtMost xs t := by
  have hle := Multiset.card_le_card h.atMost
  rw [← Multiset.countP_eq_card_filter] at hle
  unfold shareAtMost
  gcongr

/-- If jumps stay within the gaps, so does a walk. -/
theorem JumpsWithin.passed_le (h : JumpsWithin xs ys) (hd : ∀ u, gap xs ys u ≤ d)
    (hp : PassedTo xs t p) (hq : PassedTo ys t q) :
    |(p.card : ℚ) / xs.card - (q.card : ℚ) / ys.card| ≤ d := by
  obtain ⟨⟨u, hu⟩, v, hv⟩ := h t
  have hxlow := hp.share_ge
  have hxhigh := hp.share_le
  have hylow := hq.share_ge
  have hyhigh := hq.share_le
  have hdu := hd u
  have hdv := hd v
  rw [abs_le]
  constructor
  · linarith
  · linarith

theorem gap_comm (xs ys : Multiset κ) (t : κ) : gap xs ys t = gap ys xs t := abs_sub_comm _ _

theorem share_sub_le_gap (xs ys : Multiset κ) (t : κ) :
    shareAtMost xs t - shareAtMost ys t ≤ gap xs ys t := le_abs_self _

/-! ## Samples without common elements -/

theorem shareBelow_eq (h : t ∉ xs) : shareBelow xs t = shareAtMost xs t := by
  have hcount : xs.countP (· < t) = xs.countP (· ≤ t) := by
    apply Multiset.countP_congr rfl
    intro x hx
    have hne : x ≠ t := fun heq => h (heq ▸ hx)
    exact propext ⟨le_of_lt, fun hle => lt_of_le_of_ne hle hne⟩
  unfold shareBelow shareAtMost
  rw [hcount]

/-- In front of a point the functions are what they are at the last element, if there is one. -/
theorem below_eq_atMost (xs ys : Multiset κ) (t : κ) :
    (shareBelow xs t = 0 ∧ shareBelow ys t = 0) ∨
      ∃ u, shareBelow xs t = shareAtMost xs u ∧ shareBelow ys t = shareAtMost ys u := by
  by_cases hnone : ((xs + ys).filter (· < t)).toFinset.Nonempty
  · right
    obtain ⟨hmem, hmax⟩ := Finset.isGreatest_max' _ hnone
    generalize Finset.max' _ hnone = u at hmem hmax
    have hu : u < t := by
      rw [Finset.mem_coe, Multiset.mem_toFinset, Multiset.mem_filter] at hmem
      exact hmem.2
    have hcount : ∀ ks, ks ≤ xs + ys → shareBelow ks t = shareAtMost ks u := by
      intro ks hks
      have heq : ks.countP (· < t) = ks.countP (· ≤ u) := by
        apply Multiset.countP_congr rfl
        intro x hx
        refine propext ⟨fun hlt => hmax ?_, fun hle => hle.trans_lt hu⟩
        rw [Finset.mem_coe, Multiset.mem_toFinset, Multiset.mem_filter]
        exact ⟨Multiset.mem_of_le hks hx, hlt⟩
      unfold shareBelow shareAtMost
      rw [heq]
    exact ⟨u, hcount xs (Multiset.le_add_right xs ys), hcount ys (Multiset.le_add_left ys xs)⟩
  · left
    have hzero : ∀ ks, ks ≤ xs + ys → shareBelow ks t = 0 := by
      intro ks hks
      have heq : ks.countP (· < t) = 0 := by
        rw [Multiset.countP_eq_zero]
        intro x hx hlt
        refine hnone ⟨x, ?_⟩
        rw [Multiset.mem_toFinset, Multiset.mem_filter]
        exact ⟨Multiset.mem_of_le hks hx, hlt⟩
      unfold shareBelow
      rw [heq, Nat.cast_zero, zero_div]
    exact ⟨hzero xs (Multiset.le_add_right xs ys), hzero ys (Multiset.le_add_left ys xs)⟩

theorem jump_le_gap (h : t ∉ xs ∨ t ∉ ys) :
    ∃ u, shareAtMost xs t - shareBelow ys t ≤ gap xs ys u := by
  rcases h with hx | hy
  · rw [← shareBelow_eq hx]
    rcases below_eq_atMost xs ys t with ⟨hzero, hzero'⟩ | ⟨u, hu, hu'⟩
    · refine ⟨t, ?_⟩
      rw [hzero, hzero', sub_zero]
      exact abs_nonneg _
    · refine ⟨u, ?_⟩
      rw [hu, hu']
      exact share_sub_le_gap xs ys u
  · rw [shareBelow_eq hy]
    exact ⟨t, share_sub_le_gap xs ys t⟩

/-- Without common elements no jump leaves the gaps. -/
theorem jumpsWithin_of_disjoint (h : ∀ x ∈ xs, x ∉ ys) : JumpsWithin xs ys := by
  intro t
  have hnot : t ∉ xs ∨ t ∉ ys := by
    by_cases ht : t ∈ xs
    · exact .inr (h t ht)
    · exact .inl ht
  obtain ⟨u, hu⟩ := jump_le_gap hnot.symm
  rw [gap_comm] at hu
  exact ⟨jump_le_gap hnot, u, hu⟩

/-! ## Parts of a sorted list -/

/-- What is below a bound stands in front. -/
theorem filter_prefix_of_sorted {α : Type} {key : α → κ} {rows : List α}
    (h : rows.Pairwise fun a b => key a ≤ key b) (t : κ) :
    rows.filter (fun a => key a ≤ t) <+: rows := by
  induction rows with
  | nil => exact List.nil_prefix
  | cons row rows ih =>
      rw [List.pairwise_cons] at h
      by_cases hrow : key row ≤ t
      · rw [List.filter_cons_of_pos (by simpa using hrow)]
        exact List.prefix_cons_inj row |>.mpr (ih h.2)
      · have hnone : rows.filter (fun a => key a ≤ t) = [] := by
          rw [List.filter_eq_nil_iff]
          intro a ha hle
          exact hrow ((h.1 a ha).trans (of_decide_eq_true hle))
        rw [List.filter_cons_of_neg (by simpa using hrow), hnone]
        exact List.nil_prefix

end Madlib.Lib.EmpiricalDistribution
