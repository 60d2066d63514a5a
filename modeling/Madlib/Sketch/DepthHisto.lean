import Madlib.Lib.Intervals
import Madlib.Sketch.Centile

/-!
# Equi-depth histograms of a sketch

`__do_depth_histo` of `countmin.py_in` ends a bucket at every centile of a spanning set that is
above the one before, and starts the last bucket one past the border that came last.  `none`
stands for an exception.
-/

namespace Madlib.Sketch

open Madlib.Lib.Bisection Madlib.Lib.Intervals Madlib.Lib.Rounding

structure Bucket where
  lo : Int
  hi : Int
  count : Int
deriving DecidableEq, Repr

/-- `int(..)` of a double -/
def truncate (a : ℚ) : Int := if 0 ≤ a then ⌊a⌋ else ⌈a⌉

def depthStep (buckets : Int) : Int :=
  let step := truncate (nearest (100 / nearest buckets))
  if step < 1 then 1 else step

/-- The bucket is appended and counted, and the next one starts one past it. -/
def appendBucket (fuel : Nat) (md5 : Md5) (allSketches : List UInt8) (histo : List Bucket)
    (lo hi : Int) : Option (Int × List Bucket) := do
  let count ← doRangecount fuel md5 allSketches lo hi
  pure (hi + 1, histo ++ [⟨lo, hi, count⟩])

/-- One round of the loop over `binlo` and `histo`. -/
def depthRound (fuel : Nat) (md5 : Md5) (allSketches : List UInt8) (buckets step total : Int)
    (state : Int × List Bucket) (i : Nat) : Option (Int × List Bucket) := do
  let (binlo, histo) := state
  if i < buckets - 1 then
    let cent ← doCentile fuel md5 allSketches ((i + 1) * step) total
    if 0 < i then
      let previous ← histo.getLast?
      if cent ≤ previous.hi then pure (binlo, histo)
      else appendBucket fuel md5 allSketches histo binlo cent
    else appendBucket fuel md5 allSketches histo binlo cent
  else appendBucket fuel md5 allSketches histo binlo maxInt64

def doDepthHisto (fuel : Nat) (md5 : Md5) (allSketches : List UInt8) (buckets : Int) :
    Option (List Bucket) :=
  if buckets = 0 then none
  else do
    let step := depthStep buckets
    let total ← doRangecount fuel md5 allSketches minInt64 maxInt64
    let (_, histo) ← (List.range buckets.toNat).foldlM
      (depthRound fuel md5 allSketches buckets step total) (minInt64, [])
    pure histo

/-! ## Range counts -/

/-- What a range is counted as. -/
def rangeCount (md5 : Md5) (allSketches : List UInt8) (bot top : Int) : Int :=
  (doRangecount recursionDepth md5 allSketches bot top).getD 0

/-- An empty range has no spans. -/
theorem doRangecount_empty (md5 : Md5) (allSketches : List UInt8) {bot top : Int} (h : top < bot)
    {fuel : Nat} (hfuel : recursionDepth ≤ fuel) :
    doRangecount fuel md5 allSketches bot top = some 0 := by
  have hspans : findRanges fuel bot top = some [] := by
    cases fuel with
    | zero => exact absurd hfuel (by decide)
    | succ fuel => rw [findRanges, findRangesRecursive, if_pos (.inl h)]
  rw [doRangecount, hspans]
  rfl

section

variable {md5 : Md5} {typeOutput : Nat → Nat} {stream : List Int64} {transval : CmTransval}

theorem doRangecount_eq (h : sketchStream md5 typeOutput stream = .ok transval) {bot top : Int}
    (hmin : minInt64 ≤ bot) (hmax : top ≤ maxInt64) {fuel : Nat} (hfuel : recursionDepth ≤ fuel) :
    doRangecount fuel md5 (sketchBytes transval.sketches) bot top =
      some (rangeCount md5 (sketchBytes transval.sketches) bot top) := by
  unfold rangeCount
  rcases le_or_gt bot top with hle | hlt
  · have ⟨_, n, hn, _⟩ := doRangecount_le h hmin hle hmax
    rw [(hn fuel hfuel).2, (hn recursionDepth (le_refl _)).2, Option.getD_some]
  · rw [doRangecount_empty md5 _ hlt hfuel, doRangecount_empty md5 _ hlt (le_refl _),
      Option.getD_some]

theorem rangeCount_nonneg (h : sketchStream md5 typeOutput stream = .ok transval) {bot top : Int}
    (hmin : minInt64 ≤ bot) (hle : bot ≤ top) (hmax : top ≤ maxInt64) :
    0 ≤ rangeCount md5 (sketchBytes transval.sketches) bot top := by
  have ⟨_, n, hn, _, hcount⟩ := doRangecount_le h hmin hle hmax
  have heq := doRangecount_eq h hmin hmax (le_refl recursionDepth)
  rw [(hn recursionDepth (le_refl _)).2] at heq
  cases heq
  omega

/-! ## Borders -/

/-- The centile that is searched in round `i`. -/
def border (md5 : Md5) (allSketches : List UInt8) (step total : Int) (i : Nat) : Int :=
  bisect (fun top => (rangeCount md5 allSketches minInt64 top : ℚ))
    (centileCnt total ((i + 1) * step)) 63 0

theorem border_bounds (md5 : Md5) (allSketches : List UInt8) (step total : Int) (i : Nat) :
    minInt64 ≤ border md5 allSketches step total i ∧
      border md5 allSketches step total i ≤ maxInt64 := by
  have hmin := minInt64_eq
  have hmax := maxInt64_eq
  have hbounds := bisect_bounds (fun top => (rangeCount md5 allSketches minInt64 top : ℚ))
    (centileCnt total ((i + 1) * step)) 63 0
  unfold border
  omega

theorem doCentile_border (h : sketchStream md5 typeOutput stream = .ok transval)
    (step total : Int) (i : Nat) {fuel : Nat} (hfuel : recursionDepth ≤ fuel) :
    doCentile fuel md5 (sketchBytes transval.sketches) ((i + 1) * step) total =
      some (border md5 (sketchBytes transval.sketches) step total i) :=
  doCentile_eq (fun _ _ hmax => doRangecount_eq h (le_refl _) hmax hfuel) _ _

/-- After `n` rounds the next bucket starts one past the largest border so far. -/
structure Bordered (border : Nat → Int) (count : Int → Int → Int) (n : Nat)
    (state : Int × List Bucket) : Prop where
  consecutive : Consecutive Bucket.lo Bucket.hi minInt64 state.2 state.1
  started : 0 < n → state.2 ≠ []
  counted : ∀ bucket ∈ state.2, bucket.count = count bucket.lo bucket.hi
  above : ∀ i < n, border i < state.1
  reached : state.1 = minInt64 ∨ ∃ i < n, border i + 1 = state.1

theorem bordered_zero (border : Nat → Int) (count : Int → Int → Int) :
    Bordered border count 0 (minInt64, []) where
  consecutive := rfl
  started := fun h => absurd h (lt_irrefl 0)
  counted := fun _ h => absurd h List.not_mem_nil
  above := fun i h => absurd h (Nat.not_lt_zero i)
  reached := .inl rfl

theorem Bordered.append {border : Nat → Int} {count : Int → Int → Int} {n : Nat} {binlo : Int}
    {histo : List Bucket} (h : Bordered border count n (binlo, histo)) (hle : binlo ≤ border n) :
    Bordered border count (n + 1)
      (border n + 1, histo ++ [⟨binlo, border n, count binlo (border n)⟩]) where
  consecutive := h.consecutive.append rfl hle
  started := fun _ => List.append_ne_nil_of_right_ne_nil _ (List.cons_ne_nil _ _)
  counted := by
    intro bucket hbucket
    rcases List.mem_append.mp hbucket with hold | hnew
    · exact h.counted bucket hold
    · rw [List.mem_singleton.mp hnew]
  above := by
    intro i hi
    rcases Nat.lt_succ_iff_lt_or_eq.mp hi with hlt | heq
    · have hbelow := h.above i hlt
      dsimp only at hbelow ⊢
      omega
    · rw [heq]
      exact lt_add_one _
  reached := .inr ⟨n, Nat.lt_succ_self n, rfl⟩

/-- A border that is not above the others is skipped. -/
theorem Bordered.skip {border : Nat → Int} {count : Int → Int → Int} {n : Nat}
    {state : Int × List Bucket} (h : Bordered border count n state) (hn : 0 < n)
    (hle : border n < state.1) : Bordered border count (n + 1) state where
  consecutive := h.consecutive
  started := fun _ => h.started hn
  counted := h.counted
  above := by
    intro i hi
    rcases Nat.lt_succ_iff_lt_or_eq.mp hi with hlt | heq
    · exact h.above i hlt
    · rw [heq]
      exact hle
  reached := h.reached.imp id fun ⟨i, hi, heq⟩ => ⟨i, Nat.lt_succ_of_lt hi, heq⟩

theorem appendBucket_eq (h : sketchStream md5 typeOutput stream = .ok transval)
    (histo : List Bucket) {lo hi : Int} (hmin : minInt64 ≤ lo) (hmax : hi ≤ maxInt64) {fuel : Nat}
    (hfuel : recursionDepth ≤ fuel) :
    appendBucket fuel md5 (sketchBytes transval.sketches) histo lo hi =
      some (hi + 1,
        histo ++ [⟨lo, hi, rangeCount md5 (sketchBytes transval.sketches) lo hi⟩]) := by
  unfold appendBucket
  rw [doRangecount_eq h hmin hmax hfuel]
  rfl

/-- A round before the last one appends a bucket up to its border or leaves it out. -/
theorem depthRound_bordered (h : sketchStream md5 typeOutput stream = .ok transval)
    {buckets step total : Int} {n : Nat} (hn : n < buckets - 1) {state : Int × List Bucket}
    (hstate : Bordered (border md5 (sketchBytes transval.sketches) step total)
      (rangeCount md5 (sketchBytes transval.sketches)) n state) :
    ∃ state', (∀ fuel, recursionDepth ≤ fuel → depthRound fuel md5 (sketchBytes transval.sketches)
        buckets step total state n = some state') ∧
      Bordered (border md5 (sketchBytes transval.sketches) step total)
        (rangeCount md5 (sketchBytes transval.sketches)) (n + 1) state' := by
  have ⟨binlo, histo⟩ := state
  have ⟨hlow, hhigh⟩ := border_bounds md5 (sketchBytes transval.sketches) step total n
  have ⟨hstart, _⟩ := hstate.consecutive.bounds
  have happend := fun fuel (hfuel : recursionDepth ≤ fuel) =>
    appendBucket_eq h histo hstart hhigh hfuel
  have hcent := fun fuel (hfuel : recursionDepth ≤ fuel) =>
    doCentile_border h step total n hfuel
  generalize border md5 (sketchBytes transval.sketches) step total = borders at *
  rcases Nat.eq_zero_or_pos n with hzero | hpos
  · have hbinlo : binlo = minInt64 := by
      rcases hstate.reached with heq | ⟨i, hi, _⟩
      · exact heq
      · omega
    refine ⟨_, fun fuel hfuel => ?_, hstate.append (hbinlo ▸ hlow)⟩
    rw [depthRound, if_pos hn, hcent fuel hfuel, Option.bind_eq_bind, Option.bind_some,
      if_neg (by omega)]
    exact happend fuel hfuel
  · have hlast := hstate.consecutive.hi_getLast (hstate.started hpos)
    have ⟨previous, hprevious, hhi⟩ := Option.map_eq_some_iff.mp hlast
    by_cases hskip : borders n ≤ previous.hi
    · refine ⟨_, fun fuel hfuel => ?_, hstate.skip hpos (by dsimp only at hhi ⊢; omega)⟩
      rw [depthRound, if_pos hn, hcent fuel hfuel, Option.bind_eq_bind, Option.bind_some,
        if_pos hpos, hprevious, Option.bind_eq_bind, Option.bind_some, if_pos hskip]
      rfl
    · refine ⟨_, fun fuel hfuel => ?_, hstate.append (by dsimp only at hhi; omega)⟩
      rw [depthRound, if_pos hn, hcent fuel hfuel, Option.bind_eq_bind, Option.bind_some,
        if_pos hpos, hprevious, Option.bind_eq_bind, Option.bind_some, if_neg hskip]
      exact happend fuel hfuel

/-- The rounds before the last one. -/
theorem foldlM_bordered (h : sketchStream md5 typeOutput stream = .ok transval)
    {buckets : Int} (step total : Int) {n : Nat} (hn : n ≤ buckets - 1) :
    ∃ state, (∀ fuel, recursionDepth ≤ fuel → (List.range n).foldlM
        (depthRound fuel md5 (sketchBytes transval.sketches) buckets step total)
        (minInt64, []) = some state) ∧
      Bordered (border md5 (sketchBytes transval.sketches) step total)
        (rangeCount md5 (sketchBytes transval.sketches)) n state := by
  induction n with
  | zero => exact ⟨(minInt64, []), fun _ _ => rfl, bordered_zero _ _⟩
  | succ n ih =>
      have ⟨state, hrun, hstate⟩ := ih (by omega)
      have hlt : n < buckets - 1 := by omega
      have ⟨state', hround, hstate'⟩ := depthRound_bordered h hlt hstate
      refine ⟨state', fun fuel hfuel => ?_, hstate'⟩
      rw [List.range_succ, List.foldlM_append, hrun fuel hfuel, Option.bind_eq_bind,
        Option.bind_some, List.foldlM_cons, hround fuel hfuel]
      rfl

theorem doDepthHisto_spec (h : sketchStream md5 typeOutput stream = .ok transval) {buckets : Int}
    (hbuckets : 1 ≤ buckets) :
    ∃ binlo histo, (∀ fuel, recursionDepth ≤ fuel →
        doDepthHisto fuel md5 (sketchBytes transval.sketches) buckets = some (histo ++
          [⟨binlo, maxInt64, rangeCount md5 (sketchBytes transval.sketches) binlo maxInt64⟩])) ∧
      Bordered (border md5 (sketchBytes transval.sketches) (depthStep buckets)
          (rangeCount md5 (sketchBytes transval.sketches) minInt64 maxInt64))
        (rangeCount md5 (sketchBytes transval.sketches)) (buckets - 1).toNat (binlo, histo) := by
  have hrounds : ((buckets - 1).toNat : Int) = buckets - 1 := Int.toNat_of_nonneg (by omega)
  have hcount : buckets.toNat = (buckets - 1).toNat + 1 := by omega
  have ⟨⟨binlo, histo⟩, hrun, hstate⟩ := foldlM_bordered h (depthStep buckets)
    (rangeCount md5 (sketchBytes transval.sketches) minInt64 maxInt64) (le_of_eq hrounds)
  have ⟨hmin, _⟩ := hstate.consecutive.bounds
  refine ⟨binlo, histo, fun fuel hfuel => ?_, hstate⟩
  have hround : depthRound fuel md5 (sketchBytes transval.sketches) buckets (depthStep buckets)
      (rangeCount md5 (sketchBytes transval.sketches) minInt64 maxInt64) (binlo, histo)
      (buckets - 1).toNat = some (maxInt64 + 1, histo ++
        [⟨binlo, maxInt64, rangeCount md5 (sketchBytes transval.sketches) binlo maxInt64⟩]) := by
    rw [depthRound, if_neg (by omega)]
    exact appendBucket_eq h histo hmin (le_refl _) hfuel
  have hloop : (List.range buckets.toNat).foldlM
      (depthRound fuel md5 (sketchBytes transval.sketches) buckets (depthStep buckets)
        (rangeCount md5 (sketchBytes transval.sketches) minInt64 maxInt64)) (minInt64, []) =
      some (maxInt64 + 1, histo ++
        [⟨binlo, maxInt64, rangeCount md5 (sketchBytes transval.sketches) binlo maxInt64⟩]) := by
    rw [hcount, List.range_succ, List.foldlM_append, hrun fuel hfuel, Option.bind_eq_bind,
      Option.bind_some, List.foldlM_cons, hround]
    rfl
  rw [doDepthHisto, if_neg (by omega), doRangecount_eq h (le_refl _) (le_refl _) hfuel,
    Option.bind_eq_bind, Option.bind_some, hloop]
  rfl

end

/-! ## Partitions of the value range -/

/-- The buckets run from the smallest to the largest value without gaps, and count the values of
the stream if ranges are counted exactly. -/
structure PartitionsRange (exact : Prop) (stream : List Int64) (histo : List Bucket) : Prop where
  nonempty : histo ≠ []
  ordered : ∀ bucket ∈ histo, bucket.lo ≤ bucket.hi
  first : histo.head?.map Bucket.lo = some minInt64
  following : histo.IsChain fun bucket bucket' => bucket'.lo = bucket.hi + 1
  last : histo.getLast?.map Bucket.hi = some maxInt64
  total : exact → (histo.map Bucket.count).sum = stream.length

def ExactRanges (md5 : Md5) (allSketches : List UInt8) (stream : List Int64) : Prop :=
  ∀ bot, minInt64 ≤ bot → ExactFrom md5 allSketches stream bot

/-- The search for the largest border that is wanted has a guess that is not too low. -/
def LeavesTop (md5 : Md5) (allSketches : List UInt8) (buckets : Int) : Prop :=
  buckets = 1 ∨ ∃ d : Nat, 1 ≤ d ∧ d ≤ 63 ∧
    centileCnt (rangeCount md5 allSketches minInt64 maxInt64)
        ((buckets - 1) * depthStep buckets) ≤
      rangeCount md5 allSketches minInt64 (2 ^ 63 - 2 ^ d)

theorem one_le_depthStep (buckets : Int) : 1 ≤ depthStep buckets := by
  unfold depthStep
  dsimp only
  split_ifs <;> omega

theorem centileCnt_mono {total intcentile intcentile' : Int} (htotal : 0 ≤ total)
    (hnonneg : 0 ≤ intcentile) (hle : intcentile ≤ intcentile') :
    centileCnt total intcentile ≤ centileCnt total intcentile' := by
  have hproduct : total * intcentile ≤ total * intcentile' := mul_le_mul_of_nonneg_left hle htotal
  have hpos : 0 ≤ total * intcentile := mul_nonneg htotal hnonneg
  have hpos' : (0 : ℚ) ≤ ((total * intcentile : Int) : ℚ) := Int.cast_nonneg hpos
  have hfirst := nearest_mono hpos' (Int.cast_le.mpr hproduct)
  have hnearest : 0 ≤ nearest ((total * intcentile : Int) : ℚ) := by
    have hzero := nearest_mono (le_refl 0) hpos'
    rwa [nearest_zero] at hzero
  unfold centileCnt
  apply nearest_mono
  · positivity
  · exact div_le_div_of_nonneg_right hfirst (by norm_num)

/-- A border is the largest value only if all guesses that lead there are too low. -/
theorem border_eq_max_iff (md5 : Md5) (allSketches : List UInt8) (step total : Int) (i : Nat) :
    border md5 allSketches step total i = maxInt64 ↔ ∀ d : Nat, 1 ≤ d → d ≤ 63 →
      (rangeCount md5 allSketches minInt64 (2 ^ 63 - 2 ^ d) : ℚ) <
        centileCnt total ((i + 1) * step) := by
  have hlast := bisect_eq_last_iff
    (fun top => (rangeCount md5 allSketches minInt64 top : ℚ)) (centileCnt total ((i + 1) * step))
    63 0
  rw [zero_add] at hlast
  exact hlast

theorem leavesTop_iff {md5 : Md5} {typeOutput : Nat → Nat} {stream : List Int64}
    {transval : CmTransval} (h : sketchStream md5 typeOutput stream = .ok transval) {buckets : Int}
    (hbuckets : 1 ≤ buckets) :
    LeavesTop md5 (sketchBytes transval.sketches) buckets ↔ ∀ i < (buckets - 1).toNat,
      border md5 (sketchBytes transval.sketches) (depthStep buckets)
        (rangeCount md5 (sketchBytes transval.sketches) minInt64 maxInt64) i ≠ maxInt64 := by
  have hmin := minInt64_eq
  have hmax := maxInt64_eq
  have hstep := one_le_depthStep buckets
  have htotal := rangeCount_nonneg h (le_refl minInt64) (by omega) (le_refl maxInt64)
  unfold LeavesTop
  simp only [Ne, border_eq_max_iff]
  generalize rangeCount md5 (sketchBytes transval.sketches) minInt64 maxInt64 = total at *
  constructor
  · intro hleaves i hi hall
    rcases hleaves with hone | ⟨d, hd, hd', hcount⟩
    · omega
    · have hlow := hall d hd hd'
      have hmono : centileCnt total ((i + 1) * depthStep buckets) ≤
          centileCnt total ((buckets - 1) * depthStep buckets) := by
        apply centileCnt_mono htotal (by positivity)
        apply mul_le_mul_of_nonneg_right _ (by omega)
        omega
      linarith
  · intro hnone
    by_cases hone : buckets = 1
    · exact .inl hone
    · have hlast := hnone (buckets - 2).toNat (by omega)
      have hindex : ((buckets - 2).toNat : Int) + 1 = buckets - 1 := by omega
      rw [hindex] at hlast
      push Not at hlast
      exact .inr hlast

theorem Bordered.next_le_max_iff {border : Nat → Int} {count : Int → Int → Int} {n : Nat}
    {state : Int × List Bucket} (h : Bordered border count n state)
    (hmax : ∀ i, border i ≤ maxInt64) :
    state.1 ≤ maxInt64 ↔ ∀ i < n, border i ≠ maxInt64 := by
  constructor
  · intro hle i hi heq
    have hbelow := h.above i hi
    omega
  · intro hnone
    rcases h.reached with heq | ⟨i, hi, heq⟩
    · have hmin := minInt64_eq
      have hmax := maxInt64_eq
      omega
    · have hle := hmax i
      have hne := hnone i hi
      omega

theorem countInRange_empty (stream : List Int64) (bot : Int) :
    countInRange stream bot (bot - 1) = 0 := by
  unfold countInRange
  rw [List.countP_eq_zero]
  intro x _
  rw [decide_eq_true_iff]
  omega

theorem countInRange_add (stream : List Int64) {bot mid top : Int} (hlo : bot ≤ mid)
    (hhi : mid ≤ top) :
    countInRange stream bot mid + countInRange stream (mid + 1) top =
      countInRange stream bot top := by
  unfold countInRange
  induction stream with
  | nil => rfl
  | cons x stream ih =>
      simp only [List.countP_cons, decide_eq_true_eq]
      split_ifs <;> omega

theorem rangeCount_of_exact {md5 : Md5} {allSketches : List UInt8} {stream : List Int64}
    (h : ExactRanges md5 allSketches stream) {bot top : Int} (hmin : minInt64 ≤ bot)
    (hle : bot ≤ top) (hmax : top ≤ maxInt64) :
    rangeCount md5 allSketches bot top = countInRange stream bot top := by
  unfold rangeCount
  rw [h bot hmin top hle hmax recursionDepth (le_refl _), Option.getD_some]

/-- The last bucket is what decides whether the buckets partition the range. -/
theorem Bordered.partitions_iff {md5 : Md5} {allSketches : List UInt8} {stream : List Int64}
    (hdomain : InDomain stream) {border : Nat → Int} {n : Nat} {binlo : Int} {histo : List Bucket}
    (h : Bordered border (rangeCount md5 allSketches) n (binlo, histo)) :
    PartitionsRange (ExactRanges md5 allSketches stream) stream
        (histo ++ [⟨binlo, maxInt64, rangeCount md5 allSketches binlo maxInt64⟩]) ↔
      binlo ≤ maxInt64 := by
  constructor
  · intro hpartition
    exact hpartition.ordered _ (List.mem_append_right _ (List.mem_singleton.mpr rfl))
  · intro hle
    generalize hlast : (⟨binlo, maxInt64, rangeCount md5 allSketches binlo maxInt64⟩ : Bucket) =
      bucket
    have hlo : bucket.lo = binlo := by rw [← hlast]
    have hhi : bucket.hi = maxInt64 := by rw [← hlast]
    have hne : histo ++ [bucket] ≠ [] :=
      List.append_ne_nil_of_right_ne_nil _ (List.cons_ne_nil _ _)
    have hconsecutive := h.consecutive.append hlo (hhi ▸ hle)
    rw [hhi] at hconsecutive
    have ⟨_, hbounds⟩ := hconsecutive.bounds
    have hcounted : ∀ part ∈ histo ++ [bucket],
        part.count = rangeCount md5 allSketches part.lo part.hi := by
      intro part hpart
      rcases List.mem_append.mp hpart with hold | hnew
      · exact h.counted part hold
      · rw [List.mem_singleton.mp hnew, ← hlast]
    refine ⟨hne, fun part hpart => (hbounds part hpart).2.1, hconsecutive.lo_head hne,
      hconsecutive.isChain, ?_, fun hexact => ?_⟩
    · rw [hconsecutive.hi_getLast hne, Int.add_sub_cancel]
    · have hmap : (histo ++ [bucket]).map Bucket.count =
          (histo ++ [bucket]).map fun part => (countInRange stream part.lo part.hi : Int) := by
        apply List.map_congr_left
        intro part hpart
        have ⟨hmin, horder, hmax⟩ := hbounds part hpart
        rw [hcounted part hpart, rangeCount_of_exact hexact hmin horder (by omega)]
      have hsum := hconsecutive.sum_eq (fun bot top => (countInRange stream bot top : Int))
        (fun bot => by exact_mod_cast countInRange_empty stream bot)
        (fun bot mid top hlo hhi => by exact_mod_cast countInRange_add stream hlo hhi)
      rw [hmap, hsum, Int.add_sub_cancel, countInRange_min hdomain, countLe_of_max_le (le_refl _)]

/-- The buckets partition the range of the values exactly if no border is the largest of them. -/
theorem doDepthHisto_partitions_iff (md5 : Md5) (typeOutput : Nat → Nat) (stream : List Int64)
    (transval : CmTransval) (h : sketchStream md5 typeOutput stream = .ok transval)
    (hdomain : InDomain stream) (buckets : Int) (hbuckets : 1 ≤ buckets) :
    ∃ histo, (∀ fuel, recursionDepth ≤ fuel →
        doDepthHisto fuel md5 (sketchBytes transval.sketches) buckets = some histo) ∧
      (PartitionsRange (ExactRanges md5 (sketchBytes transval.sketches) stream) stream histo ↔
        LeavesTop md5 (sketchBytes transval.sketches) buckets) := by
  have ⟨binlo, histo, hrun, hstate⟩ := doDepthHisto_spec h hbuckets
  refine ⟨_, hrun, ?_⟩
  rw [hstate.partitions_iff hdomain, leavesTop_iff h hbuckets]
  exact hstate.next_le_max_iff fun i => (border_bounds md5 _ _ _ i).2

/-- Exactly counted, enough values have to be below the largest one. -/
theorem leavesTop_of_exact {md5 : Md5} {allSketches : List UInt8} {stream : List Int64}
    (hdomain : InDomain stream) (hexact : ExactFrom md5 allSketches stream minInt64)
    (buckets : Int) :
    LeavesTop md5 allSketches buckets ↔ buckets = 1 ∨
      centileCnt stream.length ((buckets - 1) * depthStep buckets) ≤
        countLe stream (2 ^ 63 - 2) := by
  have hmin := minInt64_eq
  have hmax := maxInt64_eq
  have hcount : ∀ top, minInt64 ≤ top → top ≤ maxInt64 →
      rangeCount md5 allSketches minInt64 top = countLe stream top := by
    intro top hle hle'
    rw [rangeCount, hexact top hle hle' recursionDepth (le_refl _), countInRange_min hdomain,
      Option.getD_some]
  unfold LeavesTop
  rw [hcount maxInt64 (by omega) (le_refl _), countLe_of_max_le (le_refl _)]
  apply or_congr_right
  constructor
  · intro ⟨d, hd, hd', hle⟩
    have hpow : (2 : Int) ^ 1 ≤ 2 ^ d := pow_le_pow_right₀ (by norm_num) hd
    have hpow' : (2 : Int) ^ d ≤ 2 ^ 63 := pow_le_pow_right₀ (by norm_num) hd'
    rw [hcount _ (by omega) (by omega), Int.cast_natCast] at hle
    exact le_trans hle (countLe_cast_mono stream (by omega))
  · intro hle
    refine ⟨1, le_refl 1, by norm_num, ?_⟩
    rw [pow_one, hcount _ (by omega) (by omega), Int.cast_natCast]
    exact hle

theorem doDepthHisto_partitions_iff_two : ∃ transval histo,
    sketchStream (pathMd5 0) (fun _ => 0) [0] = .ok transval ∧
      doDepthHisto recursionDepth (pathMd5 0) (sketchBytes transval.sketches) 2 = some histo ∧
      (PartitionsRange (ExactRanges (pathMd5 0) (sketchBytes transval.sketches) [0]) [0] histo ↔
        LeavesTop (pathMd5 0) (sketchBytes transval.sketches) 2) := by
  have ⟨transval, h, _⟩ := pathMd5_exactFrom minInt64_le_zero
  have ⟨histo, hrun, hiff⟩ := doDepthHisto_partitions_iff (pathMd5 0) (fun _ => 0) [0] transval h
    (inDomain_singleton minInt64_le_zero) 2 (by norm_num)
  exact ⟨transval, histo, h, hrun recursionDepth (le_refl _), hiff⟩

theorem depthStep_two : depthStep 2 = 50 := by
  have htwo : nearest ((2 : Int) : ℚ) = 2 := by
    rw [nearest_intCast (by norm_num)]
    norm_num
  have hfifty : nearest ((50 : Int) : ℚ) = 50 := by
    rw [nearest_intCast (by norm_num)]
    norm_num
  have hquotient : (100 : ℚ) / 2 = ((50 : Int) : ℚ) := by norm_num
  have htruncate : truncate 50 = 50 := by
    unfold truncate
    norm_num
  unfold depthStep
  rw [htwo, hquotient, hfifty, htruncate]
  rfl

/-- If the sketch finds nothing below the largest int64, that is every border. -/
theorem border_eq_max_of_none_below {md5 : Md5} {allSketches : List UInt8} {step total : Int}
    {i : Nat}
    (hnone : ∀ top, minInt64 ≤ top → top < maxInt64 → rangeCount md5 allSketches minInt64 top = 0)
    (hpos : 0 < centileCnt total ((i + 1) * step)) :
    border md5 allSketches step total i = maxInt64 := by
  have hmin := minInt64_eq
  have hmax := maxInt64_eq
  rw [border_eq_max_iff]
  intro d hd hd'
  have hpow : (2 : Int) ^ 1 ≤ 2 ^ d := pow_le_pow_right₀ (by norm_num) hd
  have hpow' : (2 : Int) ^ d ≤ 2 ^ 63 := pow_le_pow_right₀ (by norm_num) hd'
  rw [hnone _ (by omega) (by omega), Int.cast_zero]
  exact hpos

/-- For a column of the largest value, the last of two buckets starts past the end. -/
theorem doDepthHisto_maxValue : ∃ transval,
    sketchStream (pathMd5 maxInt64) (fun _ => 0) [Int64.maxValue] = .ok transval ∧
      InDomain [Int64.maxValue] ∧
      doDepthHisto recursionDepth (pathMd5 maxInt64) (sketchBytes transval.sketches) 2 =
        some [⟨minInt64, maxInt64, 1⟩, ⟨2 ^ 63, maxInt64, 0⟩] ∧
      ∀ exact, ¬ PartitionsRange exact [Int64.maxValue]
        [⟨minInt64, maxInt64, 1⟩, ⟨2 ^ 63, maxInt64, 0⟩] := by
  have hmax := maxInt64_eq
  have hvalue : Int64.maxValue.toInt = maxInt64 := by decide
  have hmin : minInt64 ≤ Int64.maxValue.toInt := by decide
  have hdomain := inDomain_singleton hmin
  have ⟨transval, h, hexact⟩ := pathMd5_exactFrom hmin
  rw [hvalue] at h hexact
  refine ⟨transval, h, hdomain, ?_, fun exact hpartition => ?_⟩
  · have hmin' := minInt64_eq
    have hcount : ∀ top, minInt64 ≤ top → top ≤ maxInt64 →
        rangeCount (pathMd5 maxInt64) (sketchBytes transval.sketches) minInt64 top =
          if top = maxInt64 then 1 else 0 := by
      intro top hlo hhi
      rw [rangeCount, hexact top hlo hhi recursionDepth (le_refl _), Option.getD_some]
      simp only [countInRange, List.countP_singleton, hvalue, decide_eq_true_eq]
      split_ifs <;> omega
    have htotal := hcount maxInt64 (by omega) (le_refl _)
    rw [if_pos rfl] at htotal
    have hstep := depthStep_two
    have hborder : border (pathMd5 maxInt64) (sketchBytes transval.sketches) 50 1 0 =
        maxInt64 := by
      have ⟨hpos, _⟩ := centileCnt_bounds (show (0 : Int) < 1 by norm_num)
        (show (1 : Int) ≤ (0 + 1) * 50 by norm_num) (by norm_num)
      refine border_eq_max_of_none_below (fun top hlo hlt => ?_) hpos
      rw [hcount top hlo hlt.le, if_neg hlt.ne]
    have hfirst : depthRound recursionDepth (pathMd5 maxInt64) (sketchBytes transval.sketches) 2 50
        1 (minInt64, []) 0 = some (maxInt64 + 1, [⟨minInt64, maxInt64, 1⟩]) := by
      rw [depthRound, if_pos (by norm_num), doCentile_border h 50 1 0 (le_refl _), hborder,
        Option.bind_eq_bind, Option.bind_some, if_neg (lt_irrefl 0),
        appendBucket_eq h [] (le_refl _) (le_refl _) (le_refl _), htotal]
      rfl
    have hempty : rangeCount (pathMd5 maxInt64) (sketchBytes transval.sketches) (maxInt64 + 1)
        maxInt64 = 0 := by
      rw [rangeCount, doRangecount_empty _ _ (lt_add_one maxInt64) (le_refl _), Option.getD_some]
    have hsecond : depthRound recursionDepth (pathMd5 maxInt64) (sketchBytes transval.sketches) 2
        50 1 (maxInt64 + 1, [⟨minInt64, maxInt64, 1⟩]) 1 =
          some (maxInt64 + 1, [⟨minInt64, maxInt64, 1⟩, ⟨2 ^ 63, maxInt64, 0⟩]) := by
      rw [depthRound, if_neg (by norm_num),
        appendBucket_eq h _ (by omega) (le_refl _) (le_refl _), hempty]
      rfl
    rw [doDepthHisto, if_neg (by norm_num), doRangecount_eq h (le_refl _) (le_refl _) (le_refl _),
      Option.bind_eq_bind, Option.bind_some, htotal, hstep]
    have hrange : List.range (Int.toNat 2) = [0, 1] := rfl
    have hloop : (List.range (Int.toNat 2)).foldlM (depthRound recursionDepth (pathMd5 maxInt64)
        (sketchBytes transval.sketches) 2 50 1) (minInt64, []) =
          some (maxInt64 + 1, [⟨minInt64, maxInt64, 1⟩, ⟨2 ^ 63, maxInt64, 0⟩]) := by
      rw [hrange, List.foldlM_cons, hfirst, Option.bind_eq_bind, Option.bind_some,
        List.foldlM_cons, hsecond]
      rfl
    rw [hloop]
    rfl
  · have horder := hpartition.ordered ⟨2 ^ 63, maxInt64, 0⟩ (by simp)
    dsimp only at horder
    omega

end Madlib.Sketch
