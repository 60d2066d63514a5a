import Mathlib
import Madlib.Backend
import Madlib.Lib.GreedyNet
import Madlib.Lib.Segments

/-!
# Canopies

Canopies are collected in one pass over the points of each segment, concatenated, and pruned once
more.  The points themselves and the metrics are left open: a metric is chosen by its number and
may raise an error.
-/

namespace Madlib.Kmeans

open Madlib.Backend
open Madlib.Lib.GreedyNet
open Madlib.Lib.Segments

inductive KMeansMetric where
  | l1norm
  | l2norm
  | cosine
  | tanimoto
deriving DecidableEq

abbrev MetricFn (P α : Type) := P → P → Except Fault α

section Functions

variable {P α : Type} [LT α] [DecidableLT α]

def getMetricFn (metrics : KMeansMetric → MetricFn P α) (inMetric : ℤ) :
    Except Fault (MetricFn P α) :=
  match inMetric with
  | 1 => .ok (metrics .l1norm)
  | 2 => .ok (metrics .l2norm)
  | 3 => .ok (metrics .cosine)
  | 4 => .ok (metrics .tanimoto)
  | _ => .error (.ereport .invalidParameterValue "invalid metric")

/-- The loop that stops at the first canopy within the threshold. -/
def anyWithin (metricFn : MetricFn P α) (point : P) (threshold : α) : List P → Except Fault Bool
  | [] => .ok false
  | canopy :: canopies => do
      let distance ← metricFn point canopy
      if distance < threshold then return true
      else anyWithin metricFn point threshold canopies

variable (metrics : KMeansMetric → MetricFn P α)

def internalKmeansCanopyTransition (canopies : List P) (point : P) (inMetric : ℤ) (threshold : α) :
    Except Fault (List P) := do
  let metricFn ← getMetricFn metrics inMetric
  let within ← anyWithin metricFn point threshold canopies
  return if within then canopies else canopies ++ [point]

/-- The aggregate; the states of two segments are concatenated by `array_cat`. -/
def kmeansCanopy (inMetric : ℤ) (threshold : α) : Aggregate Fault P (List P) where
  init := []
  transition := fun canopies point =>
    internalKmeansCanopyTransition metrics canopies point inMetric threshold
  merge := fun canopies canopies' => .ok (canopies ++ canopies')

/-- One round of the loop over all canopies. -/
def removeCloseRound (metricFn : MetricFn P α) (threshold : α) (closeCanopies : List P)
    (canopy : P) : Except Fault (List P) := do
  let within ← anyWithin metricFn canopy threshold closeCanopies
  return if within then closeCanopies else closeCanopies ++ [canopy]

def internalRemoveCloseCanopies (allCanopies : List P) (inMetric : ℤ) (threshold : α) :
    Except Fault (List P) := do
  let metricFn ← getMetricFn metrics inMetric
  allCanopies.foldlM (removeCloseRound metricFn threshold) []

/-- The positions, from a first one on, of the canopies within the threshold. -/
def closePositions (metricFn : MetricFn P α) (svec : P) (threshold : α) :
    ℤ → List P → Except Fault (List ℤ)
  | _, [] => .ok []
  | position, canopy :: canopies => do
      let distance ← metricFn svec canopy
      let rest ← closePositions metricFn svec threshold (position + 1) canopies
      return if distance < threshold then position :: rest else rest

/-- NULL when no canopy is close. -/
def internalGetArrayOfCloseCanopies (svec : P) (allCanopies : List P) (threshold : α)
    (inMetric : ℤ) : Except Fault (Option (List ℤ)) := do
  let metricFn ← getMetricFn metrics inMetric
  let closeCanopies ← closePositions metricFn svec threshold 1 allCanopies
  return if closeCanopies.length = 0 then none else some closeCanopies

end Functions

section Loops

variable {P α : Type} [LinearOrder α] {metricFn : MetricFn P α} {dist : P → P → α}
variable (hdist : ∀ x y, metricFn x y = .ok (dist x y))
include hdist

theorem anyWithin_eq (point : P) (threshold : α) (canopies : List P) :
    anyWithin metricFn point threshold canopies =
      .ok (canopies.any fun canopy => dist point canopy < threshold) := by
  induction canopies with
  | nil => rfl
  | cons canopy canopies ih =>
      unfold anyWithin
      rw [hdist, ok_bind, ih]
      by_cases hlt : dist point canopy < threshold
      · simp [hlt]
      · simp [hlt]

theorem removeCloseRound_eq (threshold : α) (kept : List P) (canopy : P) :
    removeCloseRound metricFn threshold kept canopy =
      .ok (takePoint (fun x y => decide (dist x y < threshold)) kept canopy) := by
  unfold removeCloseRound
  rw [anyWithin_eq hdist]
  rfl

theorem foldlM_removeCloseRound (threshold : α) (kept canopies : List P) :
    canopies.foldlM (removeCloseRound metricFn threshold) kept =
      .ok (takePoints (fun x y => decide (dist x y < threshold)) kept canopies) := by
  induction canopies generalizing kept with
  | nil => rfl
  | cons canopy canopies ih =>
      rw [List.foldlM_cons, removeCloseRound_eq hdist, ok_bind, ih]
      rfl

/-- The search returns the positions of the canopies within the threshold. -/
theorem closePositions_ok (svec : P) (threshold : α) (position : ℤ) (canopies : List P) :
    ∃ positions, closePositions metricFn svec threshold position canopies = .ok positions ∧
      ∀ i, i ∈ positions ↔ ∃ (n : ℕ) (canopy : P), canopies[n]? = some canopy ∧
        i = position + n ∧ dist svec canopy < threshold := by
  induction canopies generalizing position with
  | nil => exact ⟨[], rfl, by simp⟩
  | cons canopy canopies ih =>
      obtain ⟨rest, hrest, hmem⟩ := ih (position + 1)
      have htail : ∀ i, i ∈ rest ↔ ∃ (n : ℕ) (canopy' : P),
          (canopy :: canopies)[n + 1]? = some canopy' ∧ i = position + ((n + 1 : ℕ) : ℤ) ∧
            dist svec canopy' < threshold := by
        intro i
        have hshift : ∀ n : ℕ, position + 1 + (n : ℤ) = position + ((n + 1 : ℕ) : ℤ) := by
          intro n
          rw [Nat.cast_add_one]
          ring
        rw [hmem]
        simp only [List.getElem?_cons_succ, hshift]
      refine ⟨if dist svec canopy < threshold then position :: rest else rest, ?_, ?_⟩
      · unfold closePositions
        rw [hdist, ok_bind, hrest]
        rfl
      · intro i
        constructor
        · intro hi
          split at hi
          case isTrue hlt =>
            rcases List.mem_cons.mp hi with rfl | hi
            · exact ⟨0, canopy, rfl, by simp, hlt⟩
            · obtain ⟨n, canopy', hn⟩ := (htail i).mp hi
              exact ⟨n + 1, canopy', hn⟩
          case isFalse =>
            obtain ⟨n, canopy', hn⟩ := (htail i).mp hi
            exact ⟨n + 1, canopy', hn⟩
        · rintro ⟨n, canopy', hcanopy, rfl, hlt⟩
          cases n with
          | zero =>
              obtain rfl : canopy = canopy' := by simpa using hcanopy
              rw [if_pos hlt]
              exact List.mem_cons.mpr (.inl (by simp))
          | succ n =>
              have hi := (htail _).mpr ⟨n, canopy', hcanopy, rfl, hlt⟩
              split
              · exact List.mem_cons_of_mem position hi
              · exact hi

end Loops

section Calls

variable {P α : Type} [LinearOrder α] {metrics : KMeansMetric → MetricFn P α} {inMetric : ℤ}
variable {metricFn : MetricFn P α} {dist : P → P → α} {threshold : α}

theorem canopyTransition_ok (hmetric : getMetricFn metrics inMetric = .ok metricFn)
    (hdist : ∀ x y, metricFn x y = .ok (dist x y)) (canopies : List P) (point : P) :
    internalKmeansCanopyTransition metrics canopies point inMetric threshold =
      .ok (takePoint (fun x y => decide (dist x y < threshold)) canopies point) := by
  unfold internalKmeansCanopyTransition
  rw [hmetric, ok_bind, anyWithin_eq hdist]
  rfl

theorem removeCloseCanopies_ok (hmetric : getMetricFn metrics inMetric = .ok metricFn)
    (hdist : ∀ x y, metricFn x y = .ok (dist x y)) (canopies : List P) :
    internalRemoveCloseCanopies metrics canopies inMetric threshold =
      .ok (takePoints (fun x y => decide (dist x y < threshold)) [] canopies) := by
  unfold internalRemoveCloseCanopies
  rw [hmetric, ok_bind, foldlM_removeCloseRound hdist]

theorem closeCanopies_nonempty (hmetric : getMetricFn metrics inMetric = .ok metricFn)
    (hdist : ∀ x y, metricFn x y = .ok (dist x y)) {point : P} {canopies : List P}
    (hclose : ∃ canopy ∈ canopies, dist point canopy < threshold) :
    ∃ ids, internalGetArrayOfCloseCanopies metrics point canopies threshold inMetric =
      .ok (some ids) ∧ ids ≠ [] := by
  obtain ⟨positions, hpositions, hmem⟩ := closePositions_ok hdist point threshold 1 canopies
  obtain ⟨canopy, hcanopy, hlt⟩ := hclose
  obtain ⟨n, hn⟩ := List.mem_iff_getElem?.mp hcanopy
  have hposition : (1 + n : ℤ) ∈ positions := (hmem _).mpr ⟨n, canopy, hn, rfl, hlt⟩
  have hne : positions ≠ [] := List.ne_nil_of_mem hposition
  refine ⟨positions, ?_, hne⟩
  unfold internalGetArrayOfCloseCanopies
  rw [hmetric, ok_bind, hpositions, ok_bind, if_neg (by simpa using hne)]
  rfl

/-- Every point is within the threshold of a canopy. -/
def WithinCanopy (dist : P → P → α) (threshold : α) (points : Multiset P) (canopies : List P) :
    Prop :=
  ∀ point ∈ points, ∃ canopy ∈ canopies, dist point canopy < threshold

theorem kmeansCanopy_proceeds (hmetric : getMetricFn metrics inMetric = .ok metricFn)
    (hdist : ∀ x y, metricFn x y = .ok (dist x y)) :
    Proceeds (kmeansCanopy metrics inMetric threshold) (fun _ => True)
      (WithinCanopy dist threshold) where
  transition := fun _ canopies point _ _ => ⟨_, canopyTransition_ok hmetric hdist canopies point⟩
  merge := fun _ _ _ _ _ _ => ⟨_, rfl⟩

end Calls

/-! ## No point is orphaned -/

section Cover

variable {P α : Type} [Field α] [LinearOrder α]
variable {metrics : KMeansMetric → MetricFn P α} {inMetric : ℤ} {metricFn : MetricFn P α}
variable {dist : P → P → α} {threshold : α}

theorem covered_within (hzero : ∀ x, dist x x = 0) (hthreshold : 0 < threshold)
    {kept : List P} {point : P}
    (h : Covered (fun x y => decide (dist x y < threshold)) kept point) :
    ∃ canopy ∈ kept, dist point canopy < threshold := by
  obtain ⟨canopy, hcanopy, rfl | hclose⟩ := h
  · exact ⟨canopy, hcanopy, by rwa [hzero]⟩
  · exact ⟨canopy, hcanopy, of_decide_eq_true hclose⟩

/-- Each segment covers its points, and so do the concatenated canopies. -/
theorem kmeansCanopy_keeps (hmetric : getMetricFn metrics inMetric = .ok metricFn)
    (hdist : ∀ x y, metricFn x y = .ok (dist x y)) (hzero : ∀ x, dist x x = 0)
    (hthreshold : 0 < threshold) :
    Keeps (kmeansCanopy metrics inMetric threshold) (fun _ => True)
      (WithinCanopy dist threshold) where
  init := by
    intro point hpoint
    exact absurd hpoint (Multiset.notMem_zero point)
  transition := by
    intro points canopies point canopies' _ hwithin hstep
    obtain rfl := Except.ok.inj ((canopyTransition_ok hmetric hdist canopies point).symm.trans hstep)
    intro point' hpoint'
    rcases Multiset.mem_cons.mp hpoint' with rfl | hpoint'
    · exact covered_within hzero hthreshold (covered_takePoint canopies point')
    · obtain ⟨canopy, hcanopy, hlt⟩ := hwithin point' hpoint'
      exact ⟨canopy, subset_takePoint canopies point hcanopy, hlt⟩
  merge := by
    intro points canopies points' canopies' merged hwithin hwithin' hstep
    cases hstep
    intro point hpoint
    rcases Multiset.mem_add.mp hpoint with hpoint | hpoint
    · obtain ⟨canopy, hcanopy, hlt⟩ := hwithin point hpoint
      exact ⟨canopy, List.mem_append_left canopies' hcanopy, hlt⟩
    · obtain ⟨canopy, hcanopy, hlt⟩ := hwithin' point hpoint
      exact ⟨canopy, List.mem_append_right canopies hcanopy, hlt⟩

variable [IsStrictOrderedRing α]

/-- The kept canopies are apart by the threshold, each point is within twice the threshold of one
of them, and the search with `max(t1, 2 * t2)` finds it. -/
theorem canopies_cover (hmetric : getMetricFn metrics inMetric = .ok metricFn)
    (hdist : ∀ x y, metricFn x y = .ok (dist x y)) (hsymm : ∀ x y, dist x y = dist y x)
    (htriangle : ∀ x y z, dist x z ≤ dist x y + dist y z) (hzero : ∀ x, dist x x = 0)
    (hthreshold : 0 < threshold) (plan : Plan P) :
    ∃ canopies kept, (kmeansCanopy metrics inMetric threshold).run plan = .ok canopies ∧
      internalRemoveCloseCanopies metrics canopies inMetric threshold = .ok kept ∧
      kept.Pairwise (fun canopy canopy' => threshold ≤ dist canopy canopy') ∧
      (∀ point ∈ plan.rows, ∃ canopy ∈ kept, dist point canopy < 2 * threshold) ∧
      ∀ t1, ∀ point ∈ plan.rows, ∃ ids,
        internalGetArrayOfCloseCanopies metrics point kept (max t1 (2 * threshold)) inMetric =
          .ok (some ids) ∧ ids ≠ [] := by
  have hkeeps := kmeansCanopy_keeps hmetric hdist hzero hthreshold
  obtain ⟨canopies, hrun⟩ := (kmeansCanopy_proceeds hmetric hdist).run hkeeps
    fun (point : P) (_ : point ∈ plan.rows) => trivial
  have hwithin : WithinCanopy dist threshold plan.rows canopies :=
    hkeeps.run (fun _ _ => trivial) hrun
  have hcover : ∀ point ∈ plan.rows, ∃ canopy ∈ takePoints
      (fun x y => decide (dist x y < threshold)) [] canopies,
        dist point canopy < 2 * threshold := by
    intro point hpoint
    obtain ⟨canopy, hcanopy, hfirst⟩ := hwithin point hpoint
    obtain ⟨center, hcenter, hsecond⟩ := covered_within hzero hthreshold
      (covered_takePoints [] canopies canopy hcanopy)
    refine ⟨center, hcenter, ?_⟩
    calc dist point center ≤ dist point canopy + dist canopy center :=
          htriangle point canopy center
      _ < threshold + threshold := add_lt_add hfirst hsecond
      _ = 2 * threshold := (two_mul threshold).symm
  refine ⟨canopies, _, hrun, removeCloseCanopies_ok hmetric hdist canopies, ?_, hcover, ?_⟩
  · have hseparated : Separated (fun x y => decide (dist x y < threshold)) ([] : List P) :=
      List.Pairwise.nil
    refine (hseparated.takePoints canopies).imp fun {canopy canopy'} hfar => ?_
    rw [hsymm]
    exact not_lt.mp (of_decide_eq_false hfar)
  · intro t1 point hpoint
    obtain ⟨canopy, hcanopy, hlt⟩ := hcover point hpoint
    exact closeCanopies_nonempty hmetric hdist
      ⟨canopy, hcanopy, hlt.trans_le (le_max_right t1 (2 * threshold))⟩

/-- Four points of a line in two segments. -/
theorem canopies_cover_line :
    ∃ canopies kept,
      (kmeansCanopy (fun _ x y => .ok |x - y|) 2 3).run
        (.merged (.segment [0, 2, 5]) (.segment [7])) = .ok canopies ∧
      internalRemoveCloseCanopies (fun _ x y => .ok |x - y|) canopies 2 3 = .ok kept ∧
      kept.Pairwise (fun canopy canopy' : ℚ => 3 ≤ |canopy - canopy'|) ∧
      (∀ point ∈ (Plan.merged (.segment [0, 2, 5]) (.segment [7])).rows,
        ∃ canopy ∈ kept, |point - canopy| < 2 * 3) ∧
      ∀ t1, ∀ point ∈ (Plan.merged (.segment [0, 2, 5]) (.segment [7])).rows, ∃ ids,
        internalGetArrayOfCloseCanopies (fun _ x y => .ok |x - y|) point kept (max t1 (2 * 3)) 2 =
          .ok (some ids) ∧ ids ≠ [] :=
  canopies_cover rfl (fun _ _ => rfl) abs_sub_comm abs_sub_le (fun x => by simp) (by norm_num) _

end Cover

end Madlib.Kmeans
