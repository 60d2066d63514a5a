import Madlib.Kmeans.Lloyd
import Madlib.Lib.Tables

/-!
# The main loop of k-means

A round assigns every point to a centroid, of all or of those of its canopies, refreshes the
centroids, and compares the assignments with those before.  The loop is left when few of them
changed, or after enough rounds.

A round does not raise the sum of the squared distances of the points to their own centroids, from
the second round on: the assignment before was one of those that are compared, and a mean is a best
center.  When no assignment changes, the centroids stay the means they are.
-/

namespace Madlib.Kmeans

open Madlib.Backend
open Madlib.Lib.Centers
open Madlib.Lib.Tables
open Relation

/-- A row of `TempPoints`; the columns but `cid` are copied from table to table. -/
structure PointRow (P : Type) where
  pid : Option ℤ
  coords : P
  cid : ℤ
  canopies : Option (List ℤ)

/-- What the loop is run with; `canopy` is set for `init_method == 'canopy'`. -/
structure LoopParams (α : Type) where
  canopy : Bool
  inMetric : ℤ
  pointCount : ℕ
  maxIter : Option ℤ
  convThreshold : Option α

def LoopParams.maxIterations {α : Type} (params : LoopParams α) : ℕ :=
  match params.maxIter with
  | some maxIter => if 0 < maxIter then maxIter.toNat else 20
  | none => 20

def LoopParams.convergenceThreshold {α : Type} [Field α] [LinearOrder α] (params : LoopParams α) :
    α :=
  match params.convThreshold with
  | some convThreshold => if 0 < convThreshold then convThreshold else 1 / 1000
  | none => 1 / 1000

/-- The table of centroids has the identifiers 1, 2 and so on. -/
structure LoopState (P α : Type) where
  i : ℕ
  points : List (PointRow P)
  outputCentroids : List P
  convergenceLog : List α
  done : Bool

/-- `'p.canopies'` or `'NULL'` -/
def LoopParams.canopiesOf {P α : Type} (params : LoopParams α) (p : PointRow P) :
    Option (List ℤ) :=
  if params.canopy then p.canopies else none

section Model

variable {P α : Type} [Field α] [LinearOrder α]

/-- `INSERT INTO TempPoints{i}` -/
def assignedPoints (metrics : KMeansMetric → MetricFn P α) (params : LoopParams α)
    (ccoords : List P) (points : List (PointRow P)) : Except Fault (List (PointRow P)) :=
  points.mapM fun p => do
    let cid ← internalKmeansClosestCentroid metrics p.coords (params.canopiesOf p) ccoords
      params.inMetric
    pure { p with cid }

/-- The rows of the new table without one of the old table that has the point and the centroid. -/
def updatedPoints (points points' : List (PointRow P)) : List (PointRow P) :=
  points'.filter fun t1 =>
    !points.any fun t2 => t1.pid.isSome && decide (t1.pid = t2.pid) && decide (t1.cid = t2.cid)

/-- `rv[0]['sum'] / (point_count * 1.0)` -/
def reassigned (sum pointCount : ℕ) : Except Fault α :=
  if pointCount = 0 then .error (.elog "float division by zero")
  else .ok ((sum : α) / (pointCount : α))

/-- `convergence_log` behind round `i`. -/
def appendLog (params : LoopParams α) (i sum : ℕ) (convergenceLog : List α) :
    Except Fault (List α) :=
  if 1 < i then do
    let fraction ← reassigned sum params.pointCount
    pure (convergenceLog ++ [fraction])
  else pure convergenceLog

/-- The exit conditions. -/
def exits (params : LoopParams α) (i : ℕ) (convergenceLog : List α) : Except Fault Bool :=
  match convergenceLog[i - 1]? with
  | none => .error (.elog "list index out of range")
  | some fraction =>
      pure (decide (fraction < params.convergenceThreshold) || decide (i = params.maxIterations))

end Model

/-- The canopies of a point are some of the centroids. -/
def LoopParams.HasCanopies {P α : Type} (params : LoopParams α) (k : ℕ) (p : PointRow P) : Prop :=
  params.canopy = true → ∃ ids, p.canopies = some ids ∧ ids ≠ [] ∧ ∀ cid ∈ ids, 1 ≤ cid ∧ cid ≤ k

section Run

variable {α : Type} [Field α] [LinearOrder α]

/-- A round of the loop; the segments of the aggregate are not fixed. -/
structure Round (metrics : KMeansMetric → MetricFn (List α) α) (params : LoopParams α)
    (s s' : LoopState (List α) α) : Prop where
  running : s.done = false
  i_eq : s'.i = s.i + 1
  points_eq : assignedPoints metrics params s.outputCentroids s.points = .ok s'.points
  refreshes : RefreshesCentroids (s'.points.map fun row => (row.coords, row.cid))
    s.outputCentroids s'.outputCentroids
  log_eq : appendLog params s'.i (updatedPoints s.points s'.points).length s.convergenceLog =
    .ok s'.convergenceLog
  done_eq : exits params s'.i s'.convergenceLog = .ok s'.done

/-- The tables and variables in front of the loop. -/
structure Starts (params : LoopParams α) (n : ℕ) (s : LoopState (List α) α) : Prop where
  i_eq : s.i = 0
  done_eq : s.done = false
  log_eq : s.convergenceLog = [1]
  points_ne : s.points ≠ []
  pointCount_eq : params.pointCount = s.points.length
  centroids_ne : s.outputCentroids ≠ []
  points_length : ∀ row ∈ s.points, row.coords.length = n
  centroids_length : ∀ c ∈ s.outputCentroids, c.length = n
  canopies : ∀ row ∈ s.points, params.HasCanopies s.outputCentroids.length row

end Run

/-! ## The search among some centroids -/

section Among

variable {P α : Type} [LinearOrder α] {metricFn : MetricFn P α} {svec : P} {dist : P → α}
variable {centroids : List P}

/-- Among the searched identifiers, a centroid of the smallest distance is known. -/
def ClosestAmong (dist : P → α) (centroids : List P) (ids : List ℤ) (search : Search α) : Prop :=
  (ids = [] ∧ search = ⟨0, none⟩) ∨
    ∃ cid ∈ ids, ∃ centroid, centroidAt centroids cid = .ok centroid ∧
      search = ⟨cid, some (dist centroid)⟩ ∧
      ∀ other ∈ ids, ∀ c, centroidAt centroids other = .ok c → dist centroid ≤ dist c

theorem centroidAt_ok {cid : ℤ} (hlo : 0 ≤ cid) (hhi : cid < centroids.length) :
    ∃ centroid ∈ centroids, centroidAt centroids cid = .ok centroid ∧
      centroids[cid.toNat]? = some centroid := by
  have hlt : cid.toNat < centroids.length := by omega
  refine ⟨centroids[cid.toNat], List.getElem_mem hlt, ?_, List.getElem?_eq_getElem hlt⟩
  unfold centroidAt
  rw [if_neg (by omega), List.getElem?_eq_getElem hlt]

theorem foldlM_searchRound
    (hdist : ∀ centroid ∈ centroids, metricFn svec centroid = .ok (dist centroid)) (ids : List ℤ)
    (hids : ∀ cid ∈ ids, 0 ≤ cid ∧ cid < centroids.length) :
    ∃ search, ids.foldlM (searchRound metricFn svec centroids) ⟨0, none⟩ = .ok search ∧
      ClosestAmong dist centroids ids search := by
  induction ids using List.reverseRecOn with
  | nil => exact ⟨⟨0, none⟩, rfl, .inl ⟨rfl, rfl⟩⟩
  | append_singleton ids cid ih =>
      obtain ⟨search, hrun, hsearch⟩ := ih fun other hother =>
        hids other (List.mem_append_left _ hother)
      obtain ⟨hlo, hhi⟩ := hids cid (List.mem_append_right _ (List.mem_singleton_self cid))
      obtain ⟨centroid, hmem, hat, -⟩ := centroidAt_ok hlo hhi
      have hround : searchRound metricFn svec centroids search cid =
          .ok (if isCloser (dist centroid) search.minDistance then ⟨cid, some (dist centroid)⟩
            else search) := by
        unfold searchRound
        rw [hat, ok_bind, hdist centroid hmem]
        rfl
      have hlast : ∀ {other : ℤ}, other ∈ ids ++ [cid] → other ∈ ids ∨ other = cid := by
        intro other hother
        rw [List.mem_append, List.mem_singleton] at hother
        exact hother
      refine ⟨if isCloser (dist centroid) search.minDistance then ⟨cid, some (dist centroid)⟩
        else search, ?_, ?_⟩
      · rw [List.foldlM_append, hrun, ok_bind]
        simp only [List.foldlM_cons, List.foldlM_nil]
        rw [hround]
        rfl
      · rcases hsearch with ⟨rfl, rfl⟩ | ⟨best, hbest, bestCentroid, hatBest, rfl, hleast⟩
        · refine .inr ⟨cid, by simp, centroid, hat, rfl, fun other hother c hc => ?_⟩
          rw [List.nil_append, List.mem_singleton] at hother
          rw [hother, hat] at hc
          rw [Except.ok.inj hc]
        · by_cases hlt : dist centroid < dist bestCentroid
          · rw [if_pos (by simpa [isCloser] using hlt)]
            refine .inr ⟨cid, by simp, centroid, hat, rfl, fun other hother c hc => ?_⟩
            rcases hlast hother with hother | rfl
            · exact hlt.le.trans (hleast other hother c hc)
            · rw [hat] at hc
              rw [Except.ok.inj hc]
          · rw [if_neg (by simpa [isCloser] using hlt)]
            refine .inr ⟨best, List.mem_append_left _ hbest, bestCentroid, hatBest, rfl,
              fun other hother c hc => ?_⟩
            rcases hlast hother with hother | rfl
            · exact hleast other hother c hc
            · rw [hat] at hc
              rw [← Except.ok.inj hc]
              exact not_lt.mp hlt

/-- The search returns one of the centroids it is to look at, of the least distance. -/
theorem closestCentroid_among {metrics : KMeansMetric → MetricFn P α} {inMetric : ℤ}
    {canopyIds : Option (List ℤ)} {ids : List ℤ}
    (hmetric : getMetricFn metrics inMetric = .ok metricFn)
    (hdist : ∀ centroid ∈ centroids, metricFn svec centroid = .ok (dist centroid))
    (hsearched : searchedIds canopyIds centroids.length = .ok ids) (hne : ids ≠ [])
    (hids : ∀ cid ∈ ids, 0 ≤ cid ∧ cid < centroids.length) :
    ∃ cid ∈ ids, ∃ centroid,
      internalKmeansClosestCentroid metrics svec canopyIds centroids inMetric = .ok (cid + 1) ∧
      centroidAt centroids cid = .ok centroid ∧
      ∀ other ∈ ids, ∀ c, centroidAt centroids other = .ok c → dist centroid ≤ dist c := by
  obtain ⟨search, hrun, hsearch⟩ := foldlM_searchRound hdist ids hids
  rcases hsearch with ⟨hnil, -⟩ | ⟨cid, hcid, centroid, hat, rfl, hleast⟩
  · exact absurd hnil hne
  · refine ⟨cid, hcid, centroid, ?_, hat, hleast⟩
    unfold internalKmeansClosestCentroid
    rw [hsearched, ok_bind, hmetric, ok_bind, hrun]
    rfl

end Among

/-! ## The rounds -/

section Rounds

variable {α : Type} {params : LoopParams α} {n : ℕ} {points points' : List (PointRow (List α))}
  {centroids centroids' : List (List α)}

/-- The centroid with an identifier. -/
def centerOf (centroids : List (List α)) (cid : ℤ) : List α := centroids.getD (cid - 1).toNat []

/-- The positions of the centroids a point is compared with. -/
def LoopParams.allowed (params : LoopParams α) (k : ℕ) (p : PointRow (List α)) : List ℤ :=
  match params.canopiesOf p with
  | none => (List.range k).map Nat.cast
  | some ids => ids.map (· - 1)

/-- The point may be assigned to its centroid. -/
def LoopParams.Allows (params : LoopParams α) (k : ℕ) (p : PointRow (List α)) : Prop :=
  p.cid - 1 ∈ params.allowed k p

/-- What a point keeps from round to round. -/
def PointRow.Copies (p p' : PointRow (List α)) : Prop := p' = { p with cid := p'.cid }

theorem allowed_spec {p : PointRow (List α)} {k : ℕ} (hk : 0 < k) (h : params.HasCanopies k p) :
    searchedIds (params.canopiesOf p) k = .ok (params.allowed k p) ∧ params.allowed k p ≠ [] ∧
      ∀ cid ∈ params.allowed k p, 0 ≤ cid ∧ cid < k := by
  unfold LoopParams.allowed LoopParams.canopiesOf
  by_cases hcanopy : params.canopy = true
  · obtain ⟨ids, hids, hne, hrange⟩ := h hcanopy
    rw [if_pos hcanopy, hids]
    refine ⟨?_, by simpa using hne, fun cid hcid => ?_⟩
    · cases ids with
      | nil => exact absurd rfl hne
      | cons id ids => rfl
    · obtain ⟨id, hid, rfl⟩ := List.mem_map.mp hcid
      obtain ⟨hlo, hhi⟩ := hrange id hid
      omega
  · rw [if_neg hcanopy]
    refine ⟨rfl, ?_, fun cid hcid => ?_⟩
    · simp only [ne_eq, List.map_eq_nil_iff, List.range_eq_nil]
      omega
    · obtain ⟨position, hposition, rfl⟩ := List.mem_map.mp hcid
      rw [List.mem_range] at hposition
      omega

theorem Copies.allowed_eq {p p' : PointRow (List α)} (h : p.Copies p') (k : ℕ) :
    params.allowed k p' = params.allowed k p := by
  rw [h]
  rfl

theorem centerOf_eq {cid : ℤ} {centroid : List α} (h : centroidAt centroids cid = .ok centroid) :
    centerOf centroids (cid + 1) = centroid := by
  unfold centroidAt at h
  unfold centerOf
  have hplace : (cid + 1 - 1).toNat = cid.toNat := by omega
  rw [hplace, List.getD_eq_getElem?_getD]
  split at h
  · cases h
  · cases hget : centroids[cid.toNat]? with
    | none =>
        rw [hget] at h
        cases h
    | some c =>
        rw [hget] at h
        exact Except.ok.inj h

variable [Field α] [LinearOrder α]

/-- No centroid the point is compared with is closer than its own. -/
def LoopParams.Closest (params : LoopParams α) (centroids : List (List α))
    (p : PointRow (List α)) : Prop :=
  params.Allows centroids.length p ∧ ∀ other ∈ params.allowed centroids.length p,
    squareDistance p.coords (centerOf centroids p.cid) ≤
      squareDistance p.coords (centerOf centroids (other + 1))

variable [IsStrictOrderedRing α] {sqrt : α → α} {metrics : KMeansMetric → MetricFn (List α) α}

/-- Every point is assigned to a closest centroid. -/
theorem assignedPoints_ok (hsqrt : ∀ x y, 0 ≤ x → 0 ≤ y → (sqrt x < sqrt y ↔ x < y))
    (hl2 : metrics .l2norm = svecSvecL2norm sqrt) (hmetric : params.inMetric = 2)
    (hne : centroids ≠ []) (hcentroids : ∀ c ∈ centroids, c.length = n)
    (hpoints : ∀ p ∈ points, p.coords.length = n)
    (hcanopies : ∀ p ∈ points, params.HasCanopies centroids.length p) :
    ∃ points', assignedPoints metrics params centroids points = .ok points' ∧
      List.Forall₂ (fun p p' => p.Copies p' ∧ params.Closest centroids p') points points' := by
  refine mapM_forall₂ fun p hp => ?_
  have hdist : ∀ c ∈ centroids, svecSvecL2norm sqrt p.coords c =
      .ok (sqrt (squareDistance p.coords c)) :=
    fun c hc => svecSvecL2norm_ok sqrt (hpoints p hp) (hcentroids c hc)
  have hfn : getMetricFn metrics params.inMetric = .ok (svecSvecL2norm sqrt) := by
    rw [hmetric, ← hl2]
    rfl
  obtain ⟨hsearched, hsome, hrange⟩ :=
    allowed_spec (List.length_pos_iff.mpr hne) (hcanopies p hp)
  obtain ⟨cid, hcid, centroid, hrun, hat, hleast⟩ :=
    closestCentroid_among hfn hdist hsearched hsome hrange
  refine ⟨{ p with cid := cid + 1 }, by rw [hrun]; rfl, rfl, ?_, fun other hother => ?_⟩
  · show cid + 1 - 1 ∈ params.allowed centroids.length p
    rwa [Int.add_sub_cancel]
  · obtain ⟨hlo, hhi⟩ := hrange other hother
    obtain ⟨c, -, hatOther, -⟩ := centroidAt_ok hlo hhi
    have hroots := hleast other hother c hatOther
    show squareDistance p.coords (centerOf centroids (cid + 1)) ≤ _
    rw [centerOf_eq hat, centerOf_eq hatOther]
    by_contra hlt
    exact hroots.not_gt ((hsqrt _ _ (squareDistance_nonneg _ _)
      (squareDistance_nonneg _ _)).mpr (not_le.mp hlt))

/-- The squared distances of the points to their own centroids. -/
def assignedCost (centroids : List (List α)) (points : List (PointRow (List α))) : α :=
  (points.map fun p => squareDistance p.coords (centerOf centroids p.cid)).sum

/-- The assignment does not cost more than another one that is allowed. -/
theorem assignedCost_assigned (h : List.Forall₂ (fun p p' => p.Copies p' ∧
      params.Closest centroids p') points points')
    (hallows : ∀ p ∈ points, params.Allows centroids.length p) :
    assignedCost centroids points' ≤ assignedCost centroids points := by
  unfold assignedCost
  induction h with
  | nil => exact le_rfl
  | @cons p p' points points' hrow hrows ih =>
      obtain ⟨hallow, hallows⟩ := List.forall_mem_cons.mp hallows
      rw [List.map_cons, List.map_cons, List.sum_cons, List.sum_cons]
      refine add_le_add ?_ (ih hallows)
      have hcid : p.cid - 1 ∈ params.allowed centroids.length p' := by
        rw [Copies.allowed_eq hrow.1]
        exact hallow
      have hle := hrow.2.2 (p.cid - 1) hcid
      rw [Int.sub_add_cancel] at hle
      have hcoords : p'.coords = p.coords := by rw [hrow.1]
      rwa [hcoords] at hle ⊢

end Rounds

/-! ## Refreshed centroids -/

section Refreshed

variable {α : Type} [Field α] {n : ℕ} {points points' : List (PointRow (List α))}
  {centroids centroids' : List (List α)}

/-- The points with their assignments. -/
def assignments (points : List (PointRow (List α))) : List (List α × ℤ) :=
  points.map fun row => (row.coords, row.cid)

/-- The centroids that have points are the means of these. -/
def AreMeans (n : ℕ) (points : List (PointRow (List α))) (centroids : List (List α)) : Prop :=
  ∀ (position : ℕ) (centroid : List α), centroids[position]? = some centroid →
    cluster (assignments points) (position + 1) ≠ 0 →
      centroid = coordinateMeans n (cluster (assignments points) (position + 1))

omit [Field α] in
theorem length_of_mem_cluster (hpoints : ∀ p ∈ points, p.coords.length = n) (cid : ℤ) :
    ∀ q ∈ cluster (assignments points) cid, q.length = n := by
  intro q hq
  obtain ⟨row, hrow, rfl⟩ := List.mem_map.mp (Multiset.mem_coe.mp hq)
  obtain ⟨p, hp, rfl⟩ := List.mem_map.mp (List.mem_filter.mp hrow).1
  exact hpoints p hp

/-- A refreshed centroid is the mean of its points, or the one it was. -/
theorem refreshed_at (hpoints : ∀ p ∈ points, p.coords.length = n)
    (h : RefreshesCentroids (assignments points) centroids centroids') {position : ℕ}
    {centroid : List α} (hposition : centroids[position]? = some centroid) :
    ∃ centroid', centroids'[position]? = some centroid' ∧
      (cluster (assignments points) (position + 1) = 0 → centroid' = centroid) ∧
      (cluster (assignments points) (position + 1) ≠ 0 →
        centroid' = coordinateMeans n (cluster (assignments points) (position + 1))) := by
  obtain ⟨coords, hjoins, hrefreshed⟩ := h.2 position centroid hposition
  refine ⟨coords.getD centroid, hrefreshed, fun hempty => ?_, fun hne => ?_⟩
  · rcases hjoins with ⟨-, rfl⟩ | ⟨hne, -⟩
    · rfl
    · exact absurd hempty hne
  · rw [joinsMean_unique (length_of_mem_cluster hpoints _) hjoins hne]
    rfl

theorem exists_old (h : RefreshesCentroids (assignments points) centroids centroids')
    {position : ℕ} {centroid' : List α} (hposition : centroids'[position]? = some centroid') :
    ∃ centroid, centroids[position]? = some centroid := by
  obtain ⟨hlt, -⟩ := List.getElem?_eq_some_iff.mp hposition
  exact ⟨_, List.getElem?_eq_getElem (h.1 ▸ hlt)⟩

theorem refreshed_length (hpoints : ∀ p ∈ points, p.coords.length = n)
    (hcentroids : ∀ c ∈ centroids, c.length = n)
    (h : RefreshesCentroids (assignments points) centroids centroids') :
    ∀ c ∈ centroids', c.length = n := by
  intro c hc
  obtain ⟨position, hposition⟩ := List.mem_iff_getElem?.mp hc
  obtain ⟨centroid, hold⟩ := exists_old h hposition
  obtain ⟨centroid', hnew, hkept, hmean⟩ := refreshed_at hpoints h hold
  rw [hposition] at hnew
  rw [Option.some.inj hnew]
  by_cases hempty : cluster (assignments points) (position + 1) = 0
  · rw [hkept hempty]
    exact hcentroids centroid (List.mem_of_getElem? hold)
  · rw [hmean hempty]
    exact length_coordinateMeans

theorem refreshed_means (hpoints : ∀ p ∈ points, p.coords.length = n)
    (h : RefreshesCentroids (assignments points) centroids centroids') :
    AreMeans n points centroids' := by
  intro position centroid' hposition hne
  obtain ⟨centroid, hold⟩ := exists_old h hposition
  obtain ⟨other, hnew, -, hmean⟩ := refreshed_at hpoints h hold
  rw [hposition] at hnew
  rw [Option.some.inj hnew]
  exact hmean hne

/-- Centroids that are the means of their points stay as they are. -/
theorem refreshed_eq (hpoints : ∀ p ∈ points, p.coords.length = n)
    (hmeans : AreMeans n points centroids)
    (h : RefreshesCentroids (assignments points) centroids centroids') :
    centroids' = centroids := by
  apply List.ext_getElem?
  intro position
  cases hposition : centroids[position]? with
  | none =>
      rw [List.getElem?_eq_none_iff] at hposition ⊢
      rwa [h.1]
  | some centroid =>
      obtain ⟨centroid', hnew, hkept, hmean⟩ := refreshed_at hpoints h hposition
      rw [hnew]
      by_cases hempty : cluster (assignments points) (position + 1) = 0
      · rw [hkept hempty]
      · rw [hmean hempty, hmeans position centroid hposition hempty]

variable [LinearOrder α] [IsStrictOrderedRing α] {params : LoopParams α}

omit [Field α] [LinearOrder α] [IsStrictOrderedRing α] in
theorem cid_of_allows {k : ℕ} {p : PointRow (List α)} (hk : 0 < k)
    (hcanopies : params.HasCanopies k p) (h : params.Allows k p) :
    ∃ position : ℕ, position < k ∧ p.cid = position + 1 := by
  obtain ⟨-, -, hrange⟩ := allowed_spec hk hcanopies
  obtain ⟨hlo, hhi⟩ := hrange _ h
  exact ⟨(p.cid - 1).toNat, by omega, by omega⟩

/-- Refreshing the centroids does not cost more. -/
theorem assignedCost_refreshed (hpoints : ∀ p ∈ points, p.coords.length = n)
    (hcentroids : ∀ c ∈ centroids, c.length = n)
    (hcid : ∀ p ∈ points, ∃ position : ℕ, position < centroids.length ∧ p.cid = position + 1)
    (h : RefreshesCentroids (assignments points) centroids centroids') :
    assignedCost centroids' points ≤ assignedCost centroids points := by
  have hcost : ∀ cs : List (List α), assignedCost cs points =
      ((assignments points : Multiset (List α × ℤ)).map fun row =>
        squareDistance row.1 (centerOf cs row.2)).sum := by
    intro cs
    rw [assignedCost, assignments, Multiset.map_coe, List.map_map]
    rfl
  rw [hcost, hcost]
  refine sum_nearest_le Prod.snd (fun row c => squareDistance row.1 c) (centerOf centroids)
    (centerOf centroids') (fun _ _ => rfl) (fun _ _ => le_rfl) fun cid => ?_
  rw [sum_cluster, sum_cluster]
  by_cases hempty : cluster (assignments points) cid = 0
  · rw [hempty]
    rfl
  · obtain ⟨q, hq⟩ := Multiset.exists_mem_of_ne_zero hempty
    obtain ⟨row, hrow, -⟩ := List.mem_map.mp (Multiset.mem_coe.mp hq)
    obtain ⟨hmem, hrowCid⟩ := List.mem_filter.mp hrow
    obtain ⟨p, hp, rfl⟩ := List.mem_map.mp hmem
    obtain ⟨position, hlt, hplace⟩ := hcid p hp
    have heq : cid = position + 1 := (of_decide_eq_true hrowCid).symm.trans hplace
    have hold := List.getElem?_eq_getElem hlt
    rw [heq] at hempty ⊢
    obtain ⟨centroid', hnew, -, hmean⟩ := refreshed_at hpoints h hold
    have hindex : ((position : ℤ) + 1 - 1).toNat = position := by omega
    rw [centerOf, centerOf, hindex, List.getD_eq_getElem?_getD, List.getD_eq_getElem?_getD, hold,
      hnew, hmean hempty]
    exact sum_squareDistance_means_le (length_of_mem_cluster hpoints _)
      (hcentroids _ (List.getElem_mem hlt))

end Refreshed

/-! ## Unchanged assignments -/

section Updated

variable {α : Type} {points points' : List (PointRow (List α))}

/-- The points are told apart by their identifiers. -/
def DistinctPids (points : List (PointRow (List α))) : Prop :=
  (points.map PointRow.pid).Nodup ∧ ∀ p ∈ points, p.pid.isSome

theorem copies_trans {points0 : List (PointRow (List α))}
    (h : List.Forall₂ PointRow.Copies points0 points)
    (h' : List.Forall₂ PointRow.Copies points points') :
    List.Forall₂ PointRow.Copies points0 points' := by
  induction h generalizing points' with
  | nil => exact h'
  | @cons p0 p points0 points hcopy hcopies ih =>
      cases h' with
      | @cons _ p' _ points' hcopy' hcopies' =>
          refine .cons ?_ (ih hcopies')
          unfold PointRow.Copies at hcopy hcopy' ⊢
          rw [hcopy', hcopy]

theorem DistinctPids.of_copies (hdistinct : DistinctPids points)
    (hcopies : List.Forall₂ PointRow.Copies points points') : DistinctPids points' := by
  have hpids : points'.map PointRow.pid = points.map PointRow.pid := by
    induction hcopies with
    | nil => rfl
    | @cons p p' points points' hcopy hcopies ih =>
        obtain ⟨hnodup, hsome⟩ := hdistinct
        rw [List.map_cons, List.nodup_cons] at hnodup
        rw [List.map_cons, List.map_cons,
          ih ⟨hnodup.2, fun q hq => hsome q (List.mem_cons_of_mem _ hq)⟩, hcopy]
  refine ⟨hpids ▸ hdistinct.1, fun p' hp' => ?_⟩
  obtain ⟨p, hp, hcopy⟩ := exists_key hcopies hp'
  rw [hcopy]
  exact hdistinct.2 p hp

theorem points_eq_of_updated (hdistinct : DistinctPids points)
    (hcopies : List.Forall₂ PointRow.Copies points points')
    (hnone : updatedPoints points points' = []) : points' = points := by
  rw [← List.forall₂_eq_eq_eq, List.forall₂_iff_zip]
  refine ⟨hcopies.length_eq.symm, fun {p' p} hmem => ?_⟩
  have hswap : (p, p') ∈ points.zip points' := by
    have hmem' := List.mem_map_of_mem (f := Prod.swap) hmem
    rwa [List.zip_swap] at hmem'
  have hcopy := (List.forall₂_iff_zip.mp hcopies).2 hswap
  obtain ⟨hp, hp'⟩ := List.of_mem_zip hswap
  have hold := List.filter_eq_nil_iff.mp hnone p' hp'
  rw [Bool.not_eq_true, Bool.not_eq_false', List.any_eq_true] at hold
  obtain ⟨t2, ht2, hsame⟩ := hold
  rw [Bool.and_eq_true, Bool.and_eq_true, decide_eq_true_iff, decide_eq_true_iff] at hsame
  have hpid : p'.pid = p.pid := by rw [hcopy]
  have heq : t2 = p := List.inj_on_of_nodup_map hdistinct.1 ht2 hp (hsame.1.2.symm.trans hpid)
  rw [hcopy, hsame.2, heq]

end Updated

/-! ## The invariant -/

section Invariant

theorem maxIterations_pos {α : Type} (params : LoopParams α) : 0 < params.maxIterations := by
  unfold LoopParams.maxIterations
  split
  · split <;> omega
  · omega

variable {α : Type} [Field α] [LinearOrder α] {params : LoopParams α} {n : ℕ}
  {metrics : KMeansMetric → MetricFn (List α) α} {start s s' : LoopState (List α) α}

/-- What the rounds keep. -/
structure LoopInv (params : LoopParams α) (n : ℕ) (start s : LoopState (List α) α) : Prop where
  bounded : s.i ≤ params.maxIterations
  running : s.done = false → s.i < params.maxIterations
  copies : List.Forall₂ PointRow.Copies start.points s.points
  length_eq : s.outputCentroids.length = start.outputCentroids.length
  centroids_length : ∀ c ∈ s.outputCentroids, c.length = n
  log_length : s.convergenceLog.length = max 1 s.i
  exited : s.done = true → s.i = params.maxIterations ∨
    ∃ fraction, s.convergenceLog[s.i - 1]? = some fraction ∧
      fraction < params.convergenceThreshold
  allows : 0 < s.i → ∀ p ∈ s.points, params.Allows s.outputCentroids.length p
  means : 0 < s.i → AreMeans n s.points s.outputCentroids
  log_first : s.i ≤ 1 → s.convergenceLog[s.i - 1]? = some 1
  log_last : 1 < s.i → ∃ sum : ℕ,
    s.convergenceLog[s.i - 1]? = some ((sum : α) / (params.pointCount : α)) ∧
    (sum = 0 → DistinctPids start.points → ∀ p ∈ s.points, params.Closest s.outputCentroids p)

theorem loopInv_start (h : Starts params n start) : LoopInv params n start start where
  bounded := h.i_eq ▸ Nat.zero_le _
  running _ := h.i_eq ▸ maxIterations_pos params
  copies := List.forall₂_same.mpr fun _ _ => rfl
  length_eq := rfl
  centroids_length := h.centroids_length
  log_length := by rw [h.log_eq, h.i_eq]; rfl
  exited hdone := by
    rw [h.done_eq] at hdone
    cases hdone
  allows hi := by
    rw [h.i_eq] at hi
    omega
  means hi := by
    rw [h.i_eq] at hi
    omega
  log_first _ := by rw [h.log_eq, h.i_eq]; rfl
  log_last hi := by
    rw [h.i_eq] at hi
    omega

omit [LinearOrder α] in
theorem appendLog_first {i sum : ℕ} (hi : i ≤ 1) (convergenceLog : List α) :
    appendLog params i sum convergenceLog = .ok convergenceLog :=
  if_neg (by omega)

omit [LinearOrder α] in
theorem appendLog_later {i sum : ℕ} (hi : 1 < i) (hcount : params.pointCount ≠ 0)
    (convergenceLog : List α) :
    appendLog params i sum convergenceLog =
      .ok (convergenceLog ++ [(sum : α) / (params.pointCount : α)]) := by
  unfold appendLog reassigned
  rw [if_pos hi, if_neg hcount]
  rfl

theorem exits_of_some {i : ℕ} {convergenceLog : List α} {fraction : α}
    (h : convergenceLog[i - 1]? = some fraction) :
    exits params i convergenceLog =
      .ok (decide (fraction < params.convergenceThreshold) ||
        decide (i = params.maxIterations)) := by
  unfold exits
  rw [h]
  rfl

omit [LinearOrder α] in
theorem pointCount_ne (h : Starts params n start) : params.pointCount ≠ 0 := by
  rw [h.pointCount_eq]
  exact mt List.length_eq_zero_iff.mp h.points_ne

omit [LinearOrder α] in
theorem points_length (hstart : Starts params n start) {points : List (PointRow (List α))}
    (hcopies : List.Forall₂ PointRow.Copies start.points points) :
    ∀ p ∈ points, p.coords.length = n := by
  intro p hp
  obtain ⟨p0, hp0, hcopy⟩ := exists_key hcopies hp
  rw [hcopy]
  exact hstart.points_length p0 hp0

theorem hasCanopies (hstart : Starts params n start) (h : LoopInv params n start s) :
    ∀ p ∈ s.points, params.HasCanopies s.outputCentroids.length p := by
  intro p hp
  obtain ⟨p0, hp0, hcopy⟩ := exists_key h.copies hp
  rw [h.length_eq, hcopy]
  exact hstart.canopies p0 hp0

/-- The last entry of the log. -/
theorem Round.exists_last (hstart : Starts params n start) (h : LoopInv params n start s)
    (hround : Round metrics params s s') :
    s'.convergenceLog.length = max 1 s'.i ∧
    (s'.i ≤ 1 → s'.convergenceLog[s'.i - 1]? = some 1) ∧
    (1 < s'.i → s'.convergenceLog[s'.i - 1]? =
      some (((updatedPoints s.points s'.points).length : α) / (params.pointCount : α))) := by
  have hlog := hround.log_eq
  have hi := hround.i_eq
  have hlength := h.log_length
  by_cases hfirst : s'.i ≤ 1
  · rw [appendLog_first hfirst] at hlog
    rw [← Except.ok.inj hlog]
    have hplace : s'.i - 1 = s.i - 1 := by omega
    refine ⟨by omega, fun _ => ?_, fun hlater => by omega⟩
    rw [hplace]
    exact h.log_first (by omega)
  · rw [appendLog_later (by omega) (pointCount_ne hstart)] at hlog
    rw [← Except.ok.inj hlog]
    have hplace : s'.i - 1 = s.convergenceLog.length := by omega
    refine ⟨?_, fun hle => absurd hle hfirst, fun _ => ?_⟩
    · rw [List.length_append, List.length_singleton]
      omega
    · rw [hplace, List.getElem?_concat_length]

variable [IsStrictOrderedRing α] {sqrt : α → α}

/-- What a round does to the points. -/
theorem Round.assigns (hsqrt : ∀ x y, 0 ≤ x → 0 ≤ y → (sqrt x < sqrt y ↔ x < y))
    (hl2 : metrics .l2norm = svecSvecL2norm sqrt) (hmetric : params.inMetric = 2)
    (hstart : Starts params n start) (h : LoopInv params n start s)
    (hround : Round metrics params s s') :
    List.Forall₂ (fun p p' => p.Copies p' ∧ params.Closest s.outputCentroids p') s.points
      s'.points := by
  have hne : s.outputCentroids ≠ [] := by
    rw [← List.length_pos_iff, h.length_eq, List.length_pos_iff]
    exact hstart.centroids_ne
  obtain ⟨points', hrun, hassigned⟩ := assignedPoints_ok hsqrt hl2 hmetric hne h.centroids_length
    (points_length hstart h.copies) (hasCanopies hstart h)
  rw [hround.points_eq] at hrun
  rwa [Except.ok.inj hrun]

/-- A round keeps the invariant. -/
theorem Round.loopInv (hsqrt : ∀ x y, 0 ≤ x → 0 ≤ y → (sqrt x < sqrt y ↔ x < y))
    (hl2 : metrics .l2norm = svecSvecL2norm sqrt) (hmetric : params.inMetric = 2)
    (hstart : Starts params n start) (h : LoopInv params n start s)
    (hround : Round metrics params s s') : LoopInv params n start s' := by
  have hi := hround.i_eq
  have hbound := h.running hround.running
  have hassigned := hround.assigns hsqrt hl2 hmetric hstart h
  have hcopied : List.Forall₂ PointRow.Copies s.points s'.points :=
    hassigned.imp fun _ _ hrow => hrow.1
  have hcopies := copies_trans h.copies hcopied
  have hpoints := points_length hstart hcopies
  have hlength : s'.outputCentroids.length = s.outputCentroids.length := hround.refreshes.1
  obtain ⟨hlog, hfirst, hlater⟩ := hround.exists_last hstart h
  have hlast : ∃ fraction, s'.convergenceLog[s'.i - 1]? = some fraction :=
    ⟨_, List.getElem?_eq_getElem (by omega)⟩
  obtain ⟨fraction, hfraction⟩ := hlast
  have hdone : s'.done =
      (decide (fraction < params.convergenceThreshold) || decide (s'.i = params.maxIterations)) :=
    Except.ok.inj (hround.done_eq.symm.trans (exits_of_some hfraction))
  have hclosest : ∀ p' ∈ s'.points, params.Closest s.outputCentroids p' := by
    intro p' hp'
    obtain ⟨p, -, hrow⟩ := exists_key hassigned hp'
    exact hrow.2
  refine
    { bounded := by omega
      running := fun hrun => ?_
      copies := hcopies
      length_eq := hlength.trans h.length_eq
      centroids_length := refreshed_length hpoints h.centroids_length hround.refreshes
      log_length := hlog
      exited := fun hexit => ?_
      allows := fun _ p' hp' => hlength ▸ (hclosest p' hp').1
      means := fun _ => refreshed_means hpoints hround.refreshes
      log_first := hfirst
      log_last := fun hlast => ⟨_, hlater hlast, fun hzero hdistinct => ?_⟩ }
  · rw [hdone, Bool.or_eq_false_iff, decide_eq_false_iff_not, decide_eq_false_iff_not] at hrun
    omega
  · rw [hdone, Bool.or_eq_true, decide_eq_true_iff, decide_eq_true_iff] at hexit
    exact hexit.symm.imp id fun hless => ⟨fraction, hfraction, hless⟩
  · -- no assignment changed, so the means are those of the round before
    have hsame : s'.points = s.points := points_eq_of_updated (hdistinct.of_copies h.copies) hcopied
      (List.length_eq_zero_iff.mp hzero)
    have hmeans : AreMeans n s'.points s.outputCentroids := hsame ▸ h.means (by omega)
    rw [refreshed_eq hpoints hmeans hround.refreshes]
    exact hclosest

/-- Before the exit there is a next round. -/
theorem exists_round (hsqrt : ∀ x y, 0 ≤ x → 0 ≤ y → (sqrt x < sqrt y ↔ x < y))
    (hl2 : metrics .l2norm = svecSvecL2norm sqrt) (hmetric : params.inMetric = 2)
    (hstart : Starts params n start) (h : LoopInv params n start s) (hrun : s.done = false) :
    ∃ s', Round metrics params s s' := by
  have hne : s.outputCentroids ≠ [] := by
    rw [← List.length_pos_iff, h.length_eq, List.length_pos_iff]
    exact hstart.centroids_ne
  obtain ⟨points', hpoints, hassigned⟩ := assignedPoints_ok hsqrt hl2 hmetric hne
    h.centroids_length (points_length hstart h.copies) (hasCanopies hstart h)
  have hlengths := points_length hstart
    (copies_trans h.copies (hassigned.imp fun _ _ hrow => hrow.1))
  have hrows : ∀ row ∈ assignments points', row.1.length = n := by
    intro row hrow
    obtain ⟨p, hp, rfl⟩ := List.mem_map.mp hrow
    exact hlengths p hp
  obtain ⟨centroids', hrefreshes⟩ := exists_refreshes hrows s.outputCentroids
  have hlength := h.log_length
  by_cases hfirst : s.i = 0
  · have hle : s.i + 1 ≤ 1 := by omega
    have hfraction : s.convergenceLog[s.i + 1 - 1]? = some 1 := by
      have hplace : s.i + 1 - 1 = s.i - 1 := by omega
      rw [hplace]
      exact h.log_first (by omega)
    exact ⟨⟨s.i + 1, points', centroids', s.convergenceLog, _⟩, hrun, rfl, hpoints, hrefreshes,
      appendLog_first hle _, exits_of_some hfraction⟩
  · have hlater : 1 < s.i + 1 := by omega
    have hfraction : (s.convergenceLog ++ [((updatedPoints s.points points').length : α) /
        (params.pointCount : α)])[s.i + 1 - 1]? =
        some (((updatedPoints s.points points').length : α) / (params.pointCount : α)) := by
      have hplace : s.i + 1 - 1 = s.convergenceLog.length := by omega
      rw [hplace, List.getElem?_concat_length]
    exact ⟨⟨s.i + 1, points', centroids', _, _⟩, hrun, rfl, hpoints, hrefreshes,
      appendLog_later hlater (pointCount_ne hstart) _, exits_of_some hfraction⟩

/-- From the second round on, a round does not cost more. -/
theorem Round.descends (hsqrt : ∀ x y, 0 ≤ x → 0 ≤ y → (sqrt x < sqrt y ↔ x < y))
    (hl2 : metrics .l2norm = svecSvecL2norm sqrt) (hmetric : params.inMetric = 2)
    (hstart : Starts params n start) (h : LoopInv params n start s)
    (hround : Round metrics params s s') (hi : 0 < s.i) :
    assignedCost s'.outputCentroids s'.points ≤ assignedCost s.outputCentroids s.points := by
  have hassigned := hround.assigns hsqrt hl2 hmetric hstart h
  have hinv := hround.loopInv hsqrt hl2 hmetric hstart h
  have hlength : s'.outputCentroids.length = s.outputCentroids.length := hround.refreshes.1
  have hne : 0 < s.outputCentroids.length := by
    rw [h.length_eq, List.length_pos_iff]
    exact hstart.centroids_ne
  have hcid : ∀ p ∈ s'.points, ∃ position : ℕ, position < s.outputCentroids.length ∧
      p.cid = position + 1 := by
    intro p hp
    rw [← hlength] at hne ⊢
    exact cid_of_allows hne (hasCanopies hstart hinv p hp)
      (hinv.allows (by rw [hround.i_eq]; omega) p hp)
  calc assignedCost s'.outputCentroids s'.points
      ≤ assignedCost s.outputCentroids s'.points :=
        assignedCost_refreshed (points_length hstart hinv.copies) h.centroids_length hcid
          hround.refreshes
    _ ≤ assignedCost s.outputCentroids s.points := assignedCost_assigned hassigned (h.allows hi)

/-! ## Runs -/

/-- Every point has a closest centroid among those it is compared with, and the centroids are the
means of their points. -/
structure LocalOptimum (params : LoopParams α) (n : ℕ) (s : LoopState (List α) α) : Prop where
  closest : ∀ p ∈ s.points, params.Closest s.outputCentroids p
  means : AreMeans n s.points s.outputCentroids

/-- What is promised for every state of a run. -/
structure LoopPromises (metrics : KMeansMetric → MetricFn (List α) α) (params : LoopParams α)
    (n : ℕ) (start s : LoopState (List α) α) : Prop where
  copies : List.Forall₂ PointRow.Copies start.points s.points
  bounded : s.i ≤ params.maxIterations
  proceeds : s.done = false → ∃ s', Round metrics params s s'
  exits : s.done = true → s.i = params.maxIterations ∨
    ∃ fraction, s.convergenceLog[s.i - 1]? = some fraction ∧
      fraction < params.convergenceThreshold
  descends : 0 < s.i → ∀ s', Round metrics params s s' →
    assignedCost s'.outputCentroids s'.points ≤ assignedCost s.outputCentroids s.points
  optimal : DistinctPids start.points →
    params.convergenceThreshold ≤ 1 / (params.pointCount : α) →
      s.done = true → s.i < params.maxIterations → LocalOptimum params n s

/-- A loop that is left because too few points changed has stopped at a fixed point, if fewer than
one point is too few. -/
theorem LoopInv.localOptimum (hstart : Starts params n start) (h : LoopInv params n start s)
    (hdistinct : DistinctPids start.points)
    (hthreshold : params.convergenceThreshold ≤ 1 / (params.pointCount : α))
    (hdone : s.done = true) (hbefore : s.i < params.maxIterations) : LocalOptimum params n s := by
  have hcount : (1 : α) ≤ params.pointCount := by
    rw [Nat.one_le_cast]
    exact Nat.pos_of_ne_zero (pointCount_ne hstart)
  obtain ⟨fraction, hfraction, hless⟩ := (h.exited hdone).resolve_left hbefore.ne
  have hsmall := hless.trans_le hthreshold
  have hlater : 1 < s.i := by
    by_contra hle
    have hone := h.log_first (by omega)
    rw [hfraction] at hone
    rw [Option.some.inj hone, lt_div_iff₀ (by linarith), one_mul] at hsmall
    exact hcount.not_gt hsmall
  obtain ⟨sum, hsum, hsettled⟩ := h.log_last hlater
  rw [hfraction] at hsum
  rw [Option.some.inj hsum, div_lt_div_iff_of_pos_right (by linarith), Nat.cast_lt_one] at hsmall
  exact ⟨hsettled hsmall hdistinct, h.means (by omega)⟩

/-- The main loop ends, within its bound, without an error; from the second round on no round costs
more, and a loop that is left with no point reassigned has reached a local optimum. -/
theorem kmeans_run (hsqrt : ∀ x y, 0 ≤ x → 0 ≤ y → (sqrt x < sqrt y ↔ x < y))
    (hl2 : metrics .l2norm = svecSvecL2norm sqrt) (hmetric : params.inMetric = 2)
    (hstart : Starts params n start) :
    (∃ final, ReflTransGen (Round metrics params) start final ∧ final.done = true) ∧
      ∀ s, ReflTransGen (Round metrics params) start s →
        LoopPromises metrics params n start s := by
  have hinv : ∀ s, ReflTransGen (Round metrics params) start s → LoopInv params n start s := by
    intro s hrun
    induction hrun with
    | refl => exact loopInv_start hstart
    | tail _ hround ih => exact hround.loopInv hsqrt hl2 hmetric hstart ih
  constructor
  · have hends : ∀ (left : ℕ) (s : LoopState (List α) α),
        ReflTransGen (Round metrics params) start s → params.maxIterations - s.i ≤ left →
        ∃ final, ReflTransGen (Round metrics params) start final ∧ final.done = true := by
      intro left
      induction left with
      | zero =>
          intro s hrun hleft
          cases hdone : s.done with
          | true => exact ⟨s, hrun, hdone⟩
          | false =>
              have hless := (hinv s hrun).running hdone
              omega
      | succ left ih =>
          intro s hrun hleft
          cases hdone : s.done with
          | true => exact ⟨s, hrun, hdone⟩
          | false =>
              obtain ⟨s', hround⟩ := exists_round hsqrt hl2 hmetric hstart (hinv s hrun) hdone
              have hi := hround.i_eq
              exact ih s' (hrun.tail hround) (by omega)
    exact hends _ start .refl le_rfl
  · intro s hrun
    have h := hinv s hrun
    exact
      { copies := h.copies
        bounded := h.bounded
        proceeds := exists_round hsqrt hl2 hmetric hstart h
        exits := h.exited
        descends := fun hi s' hround => hround.descends hsqrt hl2 hmetric hstart h hi
        optimal := fun hdistinct hthreshold hdone hbefore =>
          h.localOptimum hstart hdistinct hthreshold hdone hbefore }

end Invariant

/-! ## Three points of a line -/

def lineParams {α : Type} : LoopParams α := ⟨false, 2, 3, none, none⟩

def lineStart {α : Type} [Field α] : LoopState (List α) α where
  i := 0
  points := [⟨some 1, [0], 0, none⟩, ⟨some 2, [1], 0, none⟩, ⟨some 3, [5], 0, none⟩]
  outputCentroids := [[0], [4]]
  convergenceLog := [1]
  done := false

noncomputable def lineMetrics (_ : KMeansMetric) : MetricFn (List ℝ) ℝ := svecSvecL2norm Real.sqrt

theorem kmeans_run_line :
    ∃ final, ReflTransGen (Round lineMetrics lineParams) lineStart final ∧
      final.done = true ∧ (final.i < 20 → LocalOptimum lineParams 1 final) := by
  have hstart : Starts lineParams 1 (lineStart (α := ℝ)) :=
    { i_eq := rfl
      done_eq := rfl
      log_eq := rfl
      points_ne := by simp [lineStart]
      pointCount_eq := rfl
      centroids_ne := by simp [lineStart]
      points_length := by simp [lineStart]
      centroids_length := by simp [lineStart]
      canopies := fun _ _ hcanopy => Bool.noConfusion hcanopy }
  have hdistinct : DistinctPids (lineStart (α := ℝ)).points := by
    constructor
    · simp [lineStart]
    · simp [lineStart]
  have hthreshold : lineParams.convergenceThreshold ≤ 1 / ((3 : ℕ) : ℝ) := by
    show (1 : ℝ) / 1000 ≤ 1 / ((3 : ℕ) : ℝ)
    norm_num
  have hl2 : lineMetrics .l2norm = svecSvecL2norm Real.sqrt := rfl
  obtain ⟨⟨final, hrun, hdone⟩, hpromises⟩ :=
    kmeans_run (fun _ _ hx _ => Real.sqrt_lt_sqrt_iff hx) hl2 rfl hstart
  exact ⟨final, hrun, hdone, (hpromises final hrun).optimal hdistinct hthreshold hdone⟩

end Madlib.Kmeans
