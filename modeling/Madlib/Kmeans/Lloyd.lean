import Mathlib
import Madlib.Lib.Centers
import Madlib.Kmeans.Canopies
import Madlib.Kmeans.SvecMean

/-!
# One round of k-means

Every point is assigned to the centroid that the search returns, and every centroid is replaced by
the mean of its points, or kept when it has none.
-/

namespace Madlib.Kmeans

open Madlib.Backend
open Madlib.Lib.Segments
open Madlib.Lib.Centers

/-! ## The closest centroid -/

section Search

variable {P α : Type} [LT α] [DecidableLT α]

/-- The variables of the search; the smallest distance is INFINITY at first. -/
structure Search (α : Type) where
  closestCentroid : ℤ
  minDistance : Option α

def centroidAt (centroids : List P) (cid : ℤ) : Except Fault P :=
  if cid < 0 then .error .outOfBounds
  else
    match centroids[cid.toNat]? with
    | some centroid => .ok centroid
    | none => .error .outOfBounds

/-- The indices that are searched: those of the close canopies, or all. -/
def searchedIds (canopyIds : Option (List ℤ)) (numCentroids : ℕ) : Except Fault (List ℤ) :=
  match canopyIds with
  | none => .ok ((List.range numCentroids).map Nat.cast)
  | some [] => .error (.ereport .invalidParameterValue
      "internal error: array of close canopies cannot be empty")
  | some ids => .ok (ids.map (· - 1))

def isCloser (distance : α) : Option α → Bool
  | none => true
  | some minDistance => distance < minDistance

def searchRound (metricFn : MetricFn P α) (svec : P) (centroids : List P) (search : Search α)
    (cid : ℤ) : Except Fault (Search α) := do
  let centroid ← centroidAt centroids cid
  let distance ← metricFn svec centroid
  return if isCloser distance search.minDistance then ⟨cid, some distance⟩ else search

def internalKmeansClosestCentroid (metrics : KMeansMetric → MetricFn P α) (svec : P)
    (canopyIds : Option (List ℤ)) (centroids : List P) (inMetric : ℤ) : Except Fault ℤ := do
  let cids ← searchedIds canopyIds centroids.length
  let metricFn ← getMetricFn metrics inMetric
  let search ← cids.foldlM (searchRound metricFn svec centroids) ⟨0, none⟩
  return search.closestCentroid + 1

/-- The assignment of each point, without canopies. -/
def assignPoint (metrics : KMeansMetric → MetricFn P α) (centroids : List P) (inMetric : ℤ)
    (coords : P) : Except Fault (P × ℤ) := do
  let cid ← internalKmeansClosestCentroid metrics coords none centroids inMetric
  return (coords, cid)

def assignPoints (metrics : KMeansMetric → MetricFn P α) (points centroids : List P)
    (inMetric : ℤ) : Except Fault (List (P × ℤ)) :=
  points.mapM (assignPoint metrics centroids inMetric)

end Search

section SearchRounds

variable {P α : Type} [LinearOrder α] {metricFn : MetricFn P α} {svec : P} {dist : P → α}
variable {centroids : List P}

/-- Behind some rounds, the first centroid of the smallest distance so far is known. -/
def Searched (dist : P → α) (centroids : List P) (rounds : ℕ) (search : Search α) : Prop :=
  (rounds = 0 ∧ search = ⟨0, none⟩) ∨
    ∃ (position : ℕ) (centroid : P), centroids[position]? = some centroid ∧
      search = ⟨position, some (dist centroid)⟩ ∧
      ∀ i < rounds, ∀ other, centroids[i]? = some other → dist centroid ≤ dist other

theorem searchRound_ok (hdist : ∀ centroid ∈ centroids, metricFn svec centroid = .ok (dist centroid))
    {rounds : ℕ} (hrounds : rounds < centroids.length) {search : Search α}
    (hsearch : Searched dist centroids rounds search) :
    ∃ search', searchRound metricFn svec centroids search rounds = .ok search' ∧
      Searched dist centroids (rounds + 1) search' := by
  have hcentroid : centroids[rounds]? = some centroids[rounds] := List.getElem?_eq_getElem hrounds
  have hround : searchRound metricFn svec centroids search rounds =
      .ok (if isCloser (dist centroids[rounds]) search.minDistance then
        ⟨rounds, some (dist centroids[rounds])⟩ else search) := by
    unfold searchRound centroidAt
    rw [if_neg (by omega), Int.toNat_natCast, hcentroid, ok_bind,
      hdist _ (List.getElem_mem hrounds)]
    rfl
  refine ⟨_, hround, ?_⟩
  rcases hsearch with ⟨rfl, rfl⟩ | ⟨position, centroid, hposition, rfl, hleast⟩
  · refine .inr ⟨0, centroids[0], hcentroid, rfl, ?_⟩
    intro i hi other hother
    obtain rfl : i = 0 := by omega
    rw [hcentroid] at hother
    rw [Option.some.inj hother]
  · by_cases hlt : dist centroids[rounds] < dist centroid
    · rw [if_pos (by simpa [isCloser] using hlt)]
      refine .inr ⟨rounds, centroids[rounds], hcentroid, rfl, ?_⟩
      intro i hi other hother
      rcases Nat.lt_succ_iff_lt_or_eq.mp hi with hi | rfl
      · exact hlt.le.trans (hleast i hi other hother)
      · rw [hcentroid] at hother
        rw [Option.some.inj hother]
    · rw [if_neg (by simpa [isCloser] using hlt)]
      refine .inr ⟨position, centroid, hposition, rfl, ?_⟩
      intro i hi other hother
      rcases Nat.lt_succ_iff_lt_or_eq.mp hi with hi | rfl
      · exact hleast i hi other hother
      · rw [hcentroid] at hother
        rw [← Option.some.inj hother]
        exact not_lt.mp hlt

theorem search_ok (hdist : ∀ centroid ∈ centroids, metricFn svec centroid = .ok (dist centroid))
    {rounds : ℕ} (hrounds : rounds ≤ centroids.length) :
    ∃ search, ((List.range rounds).map Nat.cast).foldlM (searchRound metricFn svec centroids)
      ⟨0, none⟩ = .ok search ∧ Searched dist centroids rounds search := by
  induction rounds with
  | zero => exact ⟨⟨0, none⟩, rfl, .inl ⟨rfl, rfl⟩⟩
  | succ rounds ih =>
      obtain ⟨search, hrun, hsearch⟩ := ih (by omega)
      obtain ⟨search', hround, hsearch'⟩ := searchRound_ok hdist (by omega) hsearch
      refine ⟨search', ?_, hsearch'⟩
      rw [List.range_succ, List.map_append, List.foldlM_append, hrun, ok_bind]
      simp only [List.map_singleton, List.foldlM_cons, List.foldlM_nil]
      rw [hround]
      rfl

/-- The search returns the position of a centroid of the least distance. -/
theorem closestCentroid_ok {metrics : KMeansMetric → MetricFn P α} {inMetric : ℤ}
    (hmetric : getMetricFn metrics inMetric = .ok metricFn)
    (hdist : ∀ centroid ∈ centroids, metricFn svec centroid = .ok (dist centroid))
    (hne : centroids ≠ []) :
    ∃ (position : ℕ) (centroid : P),
      internalKmeansClosestCentroid metrics svec none centroids inMetric = .ok (position + 1) ∧
      centroids[position]? = some centroid ∧ ∀ other ∈ centroids, dist centroid ≤ dist other := by
  obtain ⟨search, hrun, hsearch⟩ := search_ok hdist le_rfl
  rcases hsearch with ⟨hzero, -⟩ | ⟨position, centroid, hposition, rfl, hleast⟩
  · exact absurd (List.length_eq_zero_iff.mp hzero) hne
  · refine ⟨position, centroid, ?_, hposition, ?_⟩
    · unfold internalKmeansClosestCentroid searchedIds
      dsimp only
      rw [ok_bind, hmetric, ok_bind, hrun]
      rfl
    · intro other hother
      obtain ⟨i, hi⟩ := List.mem_iff_getElem?.mp hother
      obtain ⟨hlt, -⟩ := List.getElem?_eq_some_iff.mp hi
      exact hleast i hlt other hi

end SearchRounds

/-! ## Distances and means -/

section Distances

variable {α : Type} [Field α]

def squareDistance (svec1 svec2 : List α) : α :=
  (List.zipWith (fun x y => (x - y) ^ 2) svec1 svec2).sum

/-- The vectors are not scalars. -/
def checkDimension (svec1 svec2 : List α) (msg : String) : Except Fault Unit :=
  if svec1.length ≠ svec2.length then
    .error (.ereport .invalidParameterValue (msg ++ ": array dimension of inputs are not the same: " ++
      s!"dim1={svec1.length}, dim2={svec2.length}
"))
  else .ok ()

/-- The square root is the one of the language. -/
def svecSvecL2norm (sqrt : α → α) : MetricFn (List α) α := fun svec1 svec2 => do
  checkDimension svec1 svec2 "l2norm"
  return sqrt (squareDistance svec1 svec2)

/-- The points that are assigned to a centroid. -/
def cluster (assigned : List (List α × ℤ)) (cid : ℤ) : Multiset (List α) :=
  ((assigned.filter fun row => row.2 = cid).map Prod.fst : List (List α))

/-- The mean that is joined to a centroid: NULL when no point is assigned to it. -/
def JoinsMean (points : Multiset (List α)) (coords : Option (List α)) : Prop :=
  (points = 0 ∧ coords = none) ∨
    (points ≠ 0 ∧ ∃ plan state, plan.rows = points ∧ svecMean.run plan = .ok state ∧
      svecMeanFinal state = coords)

/-- `coalesce(t.coords, c.coords)` for each centroid. -/
def RefreshesCentroids (assigned : List (List α × ℤ)) (centroids centroids' : List (List α)) :
    Prop :=
  centroids'.length = centroids.length ∧
    ∀ (position : ℕ) (centroid : List α), centroids[position]? = some centroid →
      ∃ coords, JoinsMean (cluster assigned (position + 1)) coords ∧
        centroids'[position]? = some (coords.getD centroid)

variable {n : ℕ}

theorem squareDistance_eq {p c : List α} (hp : p.length = n) (hc : c.length = n) :
    squareDistance p c = ∑ i ∈ Finset.range n, (p.getD i 0 - c.getD i 0) ^ 2 := by
  have hzip : List.zipWith (fun x y => (x - y) ^ 2) p c =
      (List.range n).map fun i => (p.getD i 0 - c.getD i 0) ^ 2 := by
    apply List.ext_getElem
    · simp [hp, hc]
    · intro i hi hi'
      have hip : i < p.length := by simp [hc] at hi; omega
      have hic : i < c.length := by simp [hp] at hi; omega
      simp [List.getElem?_eq_getElem hip, List.getElem?_eq_getElem hic]
  rw [squareDistance, hzip]
  rfl

theorem svecSvecL2norm_ok (sqrt : α → α) {p c : List α} (hp : p.length = n) (hc : c.length = n) :
    svecSvecL2norm sqrt p c = .ok (sqrt (squareDistance p c)) := by
  unfold svecSvecL2norm checkDimension
  rw [if_neg (by rw [hp, hc, not_not])]
  rfl

theorem sum_cluster (assigned : List (List α × ℤ)) (cid : ℤ) (c : List α) :
    (((assigned : Multiset (List α × ℤ)).filter fun row => row.2 = cid).map fun row =>
      squareDistance row.1 c).sum =
    ((cluster assigned cid).map fun p => squareDistance p c).sum := by
  unfold cluster
  rw [Multiset.filter_coe, Multiset.map_coe, Multiset.map_coe, List.map_map]
  rfl

theorem length_coordinateMeans {rows : Multiset (List α)} :
    (coordinateMeans n rows).length = n := by
  simp [coordinateMeans]

theorem joinsMean_unique {points : Multiset (List α)} {coords : Option (List α)}
    (hpoints : ∀ p ∈ points, p.length = n) (h : JoinsMean points coords) (hne : points ≠ 0) :
    coords = some (coordinateMeans n points) := by
  rcases h with ⟨hzero, -⟩ | ⟨-, plan, state, rfl, hrun, rfl⟩
  · exact absurd hzero hne
  · obtain rfl := Except.ok.inj ((svecMean_run hpoints).symm.trans hrun)
    exact svecMeanFinal_meanState hne

theorem exists_joinsMean {points : Multiset (List α)} (hpoints : ∀ p ∈ points, p.length = n) :
    ∃ coords, JoinsMean points coords := by
  by_cases hne : points = 0
  · exact ⟨none, .inl ⟨hne, rfl⟩⟩
  · obtain ⟨rows, rfl⟩ := Quot.exists_rep points
    exact ⟨_, .inr ⟨hne, .segment rows, _, rfl, svecMean_run hpoints, rfl⟩⟩

theorem exists_refreshes {assigned : List (List α × ℤ)}
    (hassigned : ∀ row ∈ assigned, row.1.length = n) (centroids : List (List α)) :
    ∃ centroids', RefreshesCentroids assigned centroids centroids' := by
  have hcluster : ∀ cid, ∃ coords, JoinsMean (cluster assigned cid) coords := by
    intro cid
    refine exists_joinsMean (n := n) fun p hp => ?_
    obtain ⟨row, hrow, rfl⟩ := List.mem_map.mp (Multiset.mem_coe.mp hp)
    exact hassigned row (List.mem_filter.mp hrow).1
  choose coords hcoords using hcluster
  refine ⟨centroids.mapIdx fun i centroid => (coords (i + 1)).getD centroid, List.length_mapIdx, ?_⟩
  intro position centroid hposition
  refine ⟨coords (position + 1), hcoords _, ?_⟩
  rw [List.getElem?_mapIdx, hposition]
  rfl

variable [LinearOrder α]

/-! ## The cost -/

/-- The squared distance to the nearest centroid. -/
def nearestSquare (centroids : List (List α)) (p : List α) : α :=
  ((centroids.map (squareDistance p)).min?).getD 0

def cost (points centroids : List (List α)) : α :=
  (points.map (nearestSquare centroids)).sum

theorem cost_eq {points : List (List α)} {assigned : List (List α × ℤ)}
    (hpoints : assigned.map Prod.fst = points) (centroids : List (List α)) : cost points centroids =
      ((assigned : Multiset (List α × ℤ)).map fun row => nearestSquare centroids row.1).sum := by
  rw [cost, ← hpoints, List.map_map]
  rfl

theorem nearestSquare_spec {centroids : List (List α)} (hne : centroids ≠ []) (p : List α) :
    (∃ c ∈ centroids, nearestSquare centroids p = squareDistance p c) ∧
      ∀ c ∈ centroids, nearestSquare centroids p ≤ squareDistance p c := by
  unfold nearestSquare
  cases hmin : (centroids.map (squareDistance p)).min? with
  | none => exact absurd (List.map_eq_nil_iff.mp (List.min?_eq_none_iff.mp hmin)) hne
  | some least =>
      obtain ⟨hmem, hle⟩ := List.min?_eq_some_iff.mp hmin
      obtain ⟨c, hc, rfl⟩ := List.mem_map.mp hmem
      exact ⟨⟨c, hc, rfl⟩, fun c' hc' => hle _ (List.mem_map_of_mem hc')⟩

/-- A centroid at the least distance gives the squared distance to the nearest one. -/
theorem nearestSquare_eq {centroids : List (List α)} {p c : List α} (hc : c ∈ centroids)
    (hleast : ∀ c' ∈ centroids, squareDistance p c ≤ squareDistance p c') :
    nearestSquare centroids p = squareDistance p c := by
  obtain ⟨⟨c', hc', heq⟩, hle⟩ := nearestSquare_spec (List.ne_nil_of_mem hc) p
  refine le_antisymm (hle c hc) ?_
  rw [heq]
  exact hleast c' hc'

/-- The points are assigned to centroids at the least distance. -/
structure Assigns (sqrt : α → α) (points centroids : List (List α))
    (assigned : List (List α × ℤ)) : Prop where
  points_eq : assigned.map Prod.fst = points
  closest : ∀ row ∈ assigned, ∃ (position : ℕ) (centroid : List α), row.2 = position + 1 ∧
    centroids[position]? = some centroid ∧
      ∀ other ∈ centroids, sqrt (squareDistance row.1 centroid) ≤ sqrt (squareDistance row.1 other)

variable {sqrt : α → α} {points centroids centroids' : List (List α)}

theorem assignPoint_ok {metrics : KMeansMetric → MetricFn (List α) α}
    (hl2 : metrics .l2norm = svecSvecL2norm sqrt) (hcentroids : ∀ c ∈ centroids, c.length = n)
    (hne : centroids ≠ []) {p : List α} (hp : p.length = n) :
    ∃ (position : ℕ) (centroid : List α),
      assignPoint metrics centroids 2 p = .ok (p, position + 1) ∧
      centroids[position]? = some centroid ∧
      ∀ other ∈ centroids, sqrt (squareDistance p centroid) ≤ sqrt (squareDistance p other) := by
  have hdist : ∀ c ∈ centroids, svecSvecL2norm sqrt p c = .ok (sqrt (squareDistance p c)) :=
    fun c hc => svecSvecL2norm_ok sqrt hp (hcentroids c hc)
  have hmetric : getMetricFn metrics 2 = .ok (svecSvecL2norm sqrt) := congrArg Except.ok hl2
  obtain ⟨position, centroid, hrun, hposition, hleast⟩ := closestCentroid_ok hmetric hdist hne
  refine ⟨position, centroid, ?_, hposition, hleast⟩
  unfold assignPoint
  rw [hrun]
  rfl

theorem assignPoints_ok {metrics : KMeansMetric → MetricFn (List α) α}
    (hl2 : metrics .l2norm = svecSvecL2norm sqrt) (hcentroids : ∀ c ∈ centroids, c.length = n)
    (hne : centroids ≠ []) (hpoints : ∀ p ∈ points, p.length = n) :
    ∃ assigned, assignPoints metrics points centroids 2 = .ok assigned ∧
      Assigns sqrt points centroids assigned := by
  induction points with
  | nil => exact ⟨[], rfl, rfl, fun row hrow => absurd hrow List.not_mem_nil⟩
  | cons p points ih =>
      obtain ⟨assigned, hrun, hassigns⟩ := ih fun q hq => hpoints q (List.mem_cons_of_mem p hq)
      obtain ⟨position, centroid, hpoint, hposition, hleast⟩ :=
        assignPoint_ok hl2 hcentroids hne (hpoints p List.mem_cons_self)
      refine ⟨(p, position + 1) :: assigned, ?_, ?_, ?_⟩
      · unfold assignPoints at hrun ⊢
        rw [List.mapM_cons, hpoint, ok_bind, hrun]
        rfl
      · rw [List.map_cons, hassigns.points_eq]
      · intro row hrow
        rcases List.mem_cons.mp hrow with rfl | hrow
        · exact ⟨position, centroid, rfl, hposition, hleast⟩
        · exact hassigns.closest row hrow

/-! ## The round -/

variable [IsStrictOrderedRing α]

theorem squareDistance_nonneg (p c : List α) : 0 ≤ squareDistance p c := by
  refine List.sum_nonneg fun x hx => ?_
  obtain ⟨i, hi, rfl⟩ := List.mem_iff_getElem.mp hx
  rw [List.getElem_zipWith]
  exact sq_nonneg _

/-- The mean of some points is a best center for them. -/
theorem sum_squareDistance_means_le {rows : Multiset (List α)} (hrows : ∀ p ∈ rows, p.length = n)
    {c : List α} (hc : c.length = n) :
    (rows.map fun p => squareDistance p (coordinateMeans n rows)).sum ≤
      (rows.map fun p => squareDistance p c).sum := by
  have hsum : ∀ d : List α, d.length = n → (rows.map fun p => squareDistance p d).sum =
      ∑ i ∈ Finset.range n, ((rows.map fun p => p.getD i 0).map fun x => (x - d.getD i 0) ^ 2).sum := by
    intro d hd
    rw [Multiset.map_congr rfl fun p hp => squareDistance_eq (hrows p hp) hd,
      Multiset.sum_map_sum]
    simp only [Multiset.map_map]
    rfl
  rw [hsum _ length_coordinateMeans, hsum c hc]
  refine Finset.sum_le_sum fun i hi => ?_
  have hmean : (coordinateMeans n rows).getD i 0 =
      (rows.map fun p => p.getD i 0).sum / (rows.map fun p => p.getD i 0).card := by
    simp [coordinateMeans, Finset.mem_range.mp hi]
  rw [hmean]
  exact sum_square_mean_le _ _

/-- The refreshed centroids do not cost more. -/
theorem cost_refreshed_le (hsqrt : ∀ x y, 0 ≤ x → 0 ≤ y → (sqrt x < sqrt y ↔ x < y))
    {assigned : List (List α × ℤ)} (hassigns : Assigns sqrt points centroids assigned)
    (hpoints : ∀ p ∈ points, p.length = n) (hcentroids : ∀ c ∈ centroids, c.length = n)
    (hrefreshed : RefreshesCentroids assigned centroids centroids') :
    cost points centroids' ≤ cost points centroids := by
  have hrow : ∀ row ∈ assigned, row.1.length = n := by
    intro row hrow
    refine hpoints row.1 ?_
    rw [← hassigns.points_eq]
    exact List.mem_map_of_mem hrow
  have hold : ∀ row ∈ assigned, ∃ (position : ℕ) (centroid : List α), row.2 = position + 1 ∧
      centroids[position]? = some centroid ∧
        nearestSquare centroids row.1 = squareDistance row.1 centroid := by
    intro row hrow
    obtain ⟨position, centroid, hcid, hposition, hleast⟩ := hassigns.closest row hrow
    refine ⟨position, centroid, hcid, hposition, ?_⟩
    refine nearestSquare_eq (List.mem_of_getElem? hposition) fun other hother => ?_
    by_contra hlt
    have hroots := (hsqrt _ _ (squareDistance_nonneg _ _) (squareDistance_nonneg _ _)).mpr
      (not_le.mp hlt)
    exact (hleast other hother).not_gt hroots
  rw [cost_eq hassigns.points_eq, cost_eq hassigns.points_eq]
  -- the center of a cluster before and behind the round
  refine sum_nearest_le Prod.snd (fun row c => squareDistance row.1 c)
    (fun cid => centroids.getD (cid - 1).toNat [])
    (fun cid => centroids'.getD (cid - 1).toNat []) ?_ ?_ ?_
  · intro row hmem
    obtain ⟨position, centroid, hcid, hposition, hnearest⟩ := hold row hmem
    have hindex : (row.2 - 1).toNat = position := by omega
    rw [hnearest, hindex, List.getD_eq_getElem?_getD, hposition]
    rfl
  · intro row hmem
    obtain ⟨position, centroid, hcid, hposition, -⟩ := hold row hmem
    obtain ⟨coords, -, hposition'⟩ := hrefreshed.2 position centroid hposition
    have hindex : (row.2 - 1).toNat = position := by omega
    have hmem' := List.mem_of_getElem? hposition'
    rw [hindex, List.getD_eq_getElem?_getD, hposition']
    exact (nearestSquare_spec (List.ne_nil_of_mem hmem') row.1).2 _ hmem'
  · intro cid
    rw [sum_cluster, sum_cluster]
    by_cases hempty : cluster assigned cid = 0
    · rw [hempty]
      rfl
    · obtain ⟨p, hp⟩ := Multiset.exists_mem_of_ne_zero hempty
      obtain ⟨row, hfilter, rfl⟩ := List.mem_map.mp (Multiset.mem_coe.mp hp)
      obtain ⟨hmem, hrowCid⟩ := List.mem_filter.mp hfilter
      obtain ⟨position, centroid, hcid, hposition, -⟩ := hold row hmem
      have heq : cid = position + 1 := (of_decide_eq_true hrowCid).symm.trans hcid
      have hindex : (cid - 1).toNat = position := by omega
      obtain ⟨coords, hjoins, hposition'⟩ := hrefreshed.2 position centroid hposition
      have hlength : ∀ q ∈ cluster assigned cid, q.length = n := by
        intro q hq
        obtain ⟨row', hfilter', rfl⟩ := List.mem_map.mp (Multiset.mem_coe.mp hq)
        exact hrow row' (List.mem_filter.mp hfilter').1
      rw [← heq] at hjoins
      rw [joinsMean_unique hlength hjoins hempty] at hposition'
      rw [hindex, List.getD_eq_getElem?_getD, List.getD_eq_getElem?_getD, hposition, hposition']
      exact sum_squareDistance_means_le hlength
        (hcentroids centroid (List.mem_of_getElem? hposition))

/-- One round assigns every point to a centroid at the least distance, and the means it returns do
not increase the sum of the squared distances to the nearest centroid. -/
theorem lloyd_round (hsqrt : ∀ x y, 0 ≤ x → 0 ≤ y → (sqrt x < sqrt y ↔ x < y))
    {metrics : KMeansMetric → MetricFn (List α) α}
    (hl2 : metrics .l2norm = svecSvecL2norm sqrt) (hpoints : ∀ p ∈ points, p.length = n)
    (hcentroids : ∀ c ∈ centroids, c.length = n) (hne : centroids ≠ []) :
    ∃ assigned, assignPoints metrics points centroids 2 = .ok assigned ∧
      Assigns sqrt points centroids assigned ∧
      (∃ centroids', RefreshesCentroids assigned centroids centroids') ∧
      ∀ centroids', RefreshesCentroids assigned centroids centroids' →
        cost points centroids' ≤ cost points centroids := by
  obtain ⟨assigned, hrun, hassigns⟩ := assignPoints_ok hl2 hcentroids hne hpoints
  refine ⟨assigned, hrun, hassigns, ?_, ?_⟩
  · refine exists_refreshes (n := n) (fun row hrow => hpoints row.1 ?_) centroids
    rw [← hassigns.points_eq]
    exact List.mem_map_of_mem hrow
  · intro centroids' hrefreshed
    exact cost_refreshed_le hsqrt hassigns hpoints hcentroids hrefreshed

end Distances

/-- Three points of a line and two centroids, the second of which is closest to one point only. -/
theorem lloyd_round_line :
    ∃ assigned, assignPoints (fun _ => svecSvecL2norm Real.sqrt) [[0], [1], [5]] [[0], [4]] 2 =
        .ok assigned ∧
      Assigns Real.sqrt [[0], [1], [5]] [[0], [4]] assigned ∧
      (∃ centroids', RefreshesCentroids assigned [[0], [4]] centroids') ∧
      ∀ centroids', RefreshesCentroids assigned [[0], [4]] centroids' →
        cost [[0], [1], [5]] centroids' ≤ cost [[0], [1], [(5 : ℝ)]] [[0], [4]] :=
  lloyd_round (n := 1) (fun _ _ hx _ => Real.sqrt_lt_sqrt_iff hx) rfl (by simp) (by simp) (by simp)

end Madlib.Kmeans
