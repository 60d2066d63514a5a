import Madlib.Cart.MergeUnit

/-!
# Attribute class statistic streams

The rows of one attribute come in a fixed order: the total count, the count of every
class, and for a discrete attribute the counts of its values.  After them the value
before the split is the impurity of the class counts.
-/

namespace Madlib.Cart

open Madlib.Backend Madlib.Lib.Impurity

variable {K : Type} [Field K]

theorem foldl_gini (total value : K) (counts : List K) :
    counts.foldl (fun value c => value - c / total * (c / total)) value =
      value - (counts.map fun c => c / total).sum +
        (counts.map fun c => c / total - c / total * (c / total)).sum := by
  induction counts generalizing value with
  | nil =>
      simp only [List.foldl_nil, List.map_nil, List.sum_nil]
      ring
  | cons c counts ih =>
      rw [List.foldl_cons, ih]
      simp only [List.map_cons, List.sum_cons]
      ring

variable [LinearOrder K]

/-- The elements of a row on both sides of the split value. -/
def AcsRow.count (row : AcsRow K) : K := if row.isContFeature then row.less + row.great else row.less

/-- The rows `ORDER BY fval desc, class desc` of one attribute and one split value, with
the total count and the counts of the classes. -/
inductive AcsStream (crit : Int) : List (AcsRow K) → K → List K → Prop where
  | discrete {total : AcsRow K} {classes values : List (AcsRow K)}
      (same : ∀ row ∈ total :: (classes ++ values),
        row.splitCriterion = crit ∧ row.isContFeature = false)
      (isTotal : total.featureVal = none ∧ total.cls = none ∧ 1 ≤ total.count)
      (isClass : ∀ row ∈ classes, row.featureVal = none ∧ 0 ≤ row.clsValue ∧ 0 ≤ row.count)
      (isValue : ∀ row ∈ values, row.featureVal.isSome)
      (sum : (classes.map AcsRow.count).sum = total.count) :
      AcsStream crit (total :: (classes ++ values)) total.count (classes.map AcsRow.count)
  | continuous {total : AcsRow K} {classes : List (AcsRow K)}
      (same : ∀ row ∈ total :: classes,
        row.splitCriterion = crit ∧ row.isContFeature = true ∧ row.featureVal.isSome)
      (isTotal : total.cls = none ∧ 1 ≤ total.count)
      (isClass : ∀ row ∈ classes, 0 ≤ row.clsValue ∧ 0 ≤ row.count)
      (sum : (classes.map AcsRow.count).sum = total.count) :
      AcsStream crit (total :: classes) total.count (classes.map AcsRow.count)

/-- The value before the split before any class is read. -/
def initialScv (crit : Int) : K := if crit = 3 then 1 else 0

/-- The value before the split after one more class. -/
def accumulated (log : K → K) (crit : Int) (total value count : K) : K :=
  if crit = 3 then value - count / total * (count / total)
  else value + preSplitEntropy log (count / total)

variable {log : K → K} {s : ScvState K} {row : AcsRow K} {crit : Int} {total : K}

theorem dtAccumulatePreSplitScv_ok {count : K} (hcrit : IsCriterion crit) (htotal : 0 < total)
    (hcount : 0 ≤ count) :
    dtAccumulatePreSplitScv log s count total crit =
      .ok { s with initScv := accumulated log crit total s.initScv count } := by
  unfold dtAccumulatePreSplitScv accumulated
  rw [if_neg (not_not.mpr hcrit), if_neg (not_not.mpr htotal), if_neg (not_not.mpr hcount)]
  rcases hcrit with rfl | rfl | rfl
  · rfl
  · rfl
  · rfl

/-! ## One row -/

theorem subTotalRow_discrete (log : K → K) (s : ScvState K) (hcont : row.isContFeature = false)
    (featureVal : K) :
    (subTotalRow log s row featureVal).totalElemCount = s.totalElemCount ∧
      (subTotalRow log s row featureVal).initScv = s.initScv := by
  unfold subTotalRow
  rw [hcont, if_neg Bool.false_ne_true]
  by_cases hratio : row.splitCriterion = 2
  · rw [if_pos hratio, addSplitInfo_eq]
    exact ⟨rfl, rfl⟩
  · rw [if_neg hratio]
    exact ⟨rfl, rfl⟩

theorem subTotalRow_continuous (log : K → K) (s : ScvState K) (hcont : row.isContFeature = true)
    (featureVal : K) :
    (subTotalRow log s row featureVal).totalElemCount = row.less + row.great ∧
      (subTotalRow log s row featureVal).initScv = s.initScv := by
  unfold subTotalRow
  rw [hcont, if_pos rfl]
  dsimp only
  by_cases hratio : row.splitCriterion = 2
  · rw [if_pos hratio, addSplitInfo_eq, addSplitInfo_eq log { s with lessElemCount := _, greatElemCount := _ }]
    exact ⟨rfl, rfl⟩
  · rw [if_neg hratio]
    exact ⟨rfl, rfl⟩

/-- `row` is read without an error, keeps the total count and takes the value before the
split to `f` of it. -/
def Takes (log : K → K) (total : K) (f : K → AcsRow K → K) (row : AcsRow K) : Prop :=
  ∀ s : ScvState K, s.totalElemCount = total →
    ∃ s', dtScvAggrSfunc log s row = .ok s' ∧ s'.totalElemCount = total ∧
      s'.initScv = f s.initScv row

theorem Takes.foldlM {f : K → AcsRow K → K} {rows : List (AcsRow K)}
    (hrows : ∀ row ∈ rows, Takes log total f row) (hs : s.totalElemCount = total) :
    ∃ s', rows.foldlM (dtScvAggrSfunc log) s = .ok s' ∧ s'.totalElemCount = total ∧
      s'.initScv = rows.foldl f s.initScv := by
  induction rows generalizing s with
  | nil => exact ⟨s, rfl, hs, rfl⟩
  | cons row rows ih =>
      have ⟨mid, hmid, htotal, hvalue⟩ := hrows row List.mem_cons_self s hs
      have hrest : ∀ row ∈ rows, Takes log total f row :=
        fun row hrow => hrows row (List.mem_cons_of_mem _ hrow)
      have ⟨s', hs', htotal', hvalue'⟩ := ih hrest htotal
      refine ⟨s', ?_, htotal', ?_⟩
      · rw [List.foldlM_cons, hmid, ok_bind, hs']
      · rw [hvalue', hvalue, List.foldl_cons]

theorem scvState_cons_of_total {rows : List (AcsRow K)} {value : K} {f : K → AcsRow K → K}
    (hfirst : ∃ s, dtScvAggrSfunc log scvInitcond row = .ok s ∧ s.totalElemCount = total ∧
      s.initScv = value)
    (hrows : ∀ row ∈ rows, Takes log total f row) :
    ∃ s, scvState log (row :: rows) = .ok s ∧ s.totalElemCount = total ∧
      s.initScv = rows.foldl f value := by
  have ⟨first, hok, htotal, hvalue⟩ := hfirst
  have ⟨s, hs, htotal', hvalue'⟩ := Takes.foldlM hrows htotal
  refine ⟨s, ?_, htotal', ?_⟩
  · unfold scvState
    rw [List.foldlM_cons, hok, ok_bind, hs]
  · rw [hvalue', hvalue]

theorem AcsStream.counts {rows : List (AcsRow K)} {counts : List K}
    (h : AcsStream crit rows total counts) :
    1 ≤ total ∧ (∀ c ∈ counts, 0 ≤ c) ∧ counts.sum = total := by
  cases h with
  | discrete same isTotal isClass isValue sum =>
      exact ⟨isTotal.2.2, List.forall_mem_map.mpr fun c hc => (isClass c hc).2.2, sum⟩
  | continuous same isTotal isClass sum =>
      exact ⟨isTotal.2, List.forall_mem_map.mpr fun c hc => (isClass c hc).2, sum⟩

theorem foldl_entropy (total value : K) (counts : List K) :
    counts.foldl (fun value c => value + preSplitEntropy log (c / total)) value =
      value + (counts.map fun c => preSplitEntropy log (c / total)).sum := by
  induction counts generalizing value with
  | nil => exact (add_zero value).symm
  | cons c counts ih => rw [List.foldl_cons, ih, List.map_cons, List.sum_cons, add_assoc]

variable [IsStrictOrderedRing K]

theorem initOnce_of_total (htotal : 1 ≤ s.totalElemCount) : initOnce s row = s := by
  unfold initOnce
  exact if_neg (not_dtIsFloatZero_of_one_le htotal)

theorem initOnce_initcond (row : AcsRow K) :
    initOnce scvInitcond row =
      { scvInitcond with
        splitCrit := row.splitCriterion
        initScv := initialScv row.splitCriterion
        isCont := if row.isContFeature then 1 else 0
        trueTotalCount := row.trueTotalCount } := by
  unfold initOnce
  exact if_pos dtIsFloatZero_zero

theorem clsValue_of_none (h : row.cls = none) : row.clsValue < 0 := by
  unfold AcsRow.clsValue
  rw [h]
  exact neg_lt_zero.mpr one_pos

/-- A class of a discrete attribute. -/
theorem takes_class_discrete (hcrit : IsCriterion crit) (hrow : row.splitCriterion = crit) (htotal : 1 ≤ total)
    (hcont : row.isContFeature = false) (hval : row.featureVal = none) (hcls : 0 ≤ row.clsValue)
    (hcount : 0 ≤ row.count) :
    Takes log total (fun value row => accumulated log crit total value row.count) row := by
  subst hrow
  intro s hs
  have hpos : 0 < total := one_pos.trans_le htotal
  have hless : row.count = row.less := by
    unfold AcsRow.count
    rw [hcont]
    rfl
  rw [hless] at hcount
  have hstep : dtScvAggrSfunc log s row =
      dtAccumulatePreSplitScv log (keepMaxClass s row.less row.clsValue) row.less total
        row.splitCriterion := by
    unfold dtScvAggrSfunc
    rw [if_neg (not_not.mpr hcrit), hval, initOnce_of_total (hs ▸ htotal), ← hs]
    unfold nullFeatureRow
    rw [hcont, if_neg Bool.false_ne_true, if_neg hcls.not_gt]
  rw [hstep, dtAccumulatePreSplitScv_ok hcrit hpos hcount]
  refine ⟨_, rfl, ?_, ?_⟩
  · exact (keepMaxClass_totalElemCount s _ _).trans hs
  · dsimp only
    rw [hless, keepMaxClass_initScv]

/-- A class of a continuous attribute. -/
theorem takes_class_continuous (hcrit : IsCriterion crit) (hrow : row.splitCriterion = crit) (htotal : 1 ≤ total)
    (hcont : row.isContFeature = true) (hval : row.featureVal.isSome) (hcls : 0 ≤ row.clsValue)
    (hcount : 0 ≤ row.count) :
    Takes log total (fun value row => accumulated log crit total value row.count) row := by
  subst hrow
  intro s hs
  have hpos : 0 < total := one_pos.trans_le htotal
  have hboth : row.count = row.less + row.great := by
    unfold AcsRow.count
    rw [hcont]
    rfl
  rw [hboth] at hcount
  have ⟨featureVal, hval⟩ := Option.isSome_iff_exists.mp hval
  have hstep : dtScvAggrSfunc log s row = classRow log s row := by
    unfold dtScvAggrSfunc
    rw [if_neg (not_not.mpr hcrit), hval, initOnce_of_total (hs ▸ htotal)]
    exact if_neg hcls.not_gt
  rw [hstep]
  unfold classRow
  rw [hcont, if_pos rfl, hs, dtAccumulatePreSplitScv_ok hcrit hpos hcount, ok_bind]
  refine ⟨_, rfl, ?_, ?_⟩
  · rw [addScv_eq, addScv_eq log { keepMaxClass s _ _ with initScv := _ }]
    exact (keepMaxClass_totalElemCount s _ _).trans hs
  · rw [addScv_eq, addScv_eq log { keepMaxClass s _ _ with initScv := _ }]
    dsimp only
    rw [hboth, keepMaxClass_initScv]

/-- A value of a discrete attribute, or a class under it. -/
theorem takes_value (hcrit : IsCriterion row.splitCriterion) (htotal : 1 ≤ total)
    (hcont : row.isContFeature = false) (hval : row.featureVal.isSome) :
    Takes log total (fun value _ => value) row := by
  intro s hs
  have ⟨featureVal, hval⟩ := Option.isSome_iff_exists.mp hval
  unfold dtScvAggrSfunc
  rw [if_neg (not_not.mpr hcrit), hval, initOnce_of_total (hs ▸ htotal)]
  dsimp only
  by_cases hcls : row.clsValue < 0
  · rw [if_pos hcls]
    have ⟨htotal', hvalue⟩ := subTotalRow_discrete log s hcont featureVal
    exact ⟨_, rfl, htotal'.trans hs, hvalue⟩
  · rw [if_neg hcls]
    unfold classRow
    rw [hcont, if_neg Bool.false_ne_true, addScv_eq]
    exact ⟨_, rfl, hs, rfl⟩

/-- The total count, which comes first. -/
theorem total_discrete (log : K → K) (hcrit : IsCriterion row.splitCriterion)
    (hcont : row.isContFeature = false) (hval : row.featureVal = none) (hcls : row.cls = none) :
    ∃ s, dtScvAggrSfunc log scvInitcond row = .ok s ∧ s.totalElemCount = row.count ∧
      s.initScv = initialScv row.splitCriterion := by
  have hless : row.count = row.less := by
    unfold AcsRow.count
    rw [hcont]
    rfl
  unfold dtScvAggrSfunc
  rw [if_neg (not_not.mpr hcrit), hval, initOnce_initcond, hless]
  unfold nullFeatureRow
  rw [hcont, if_neg Bool.false_ne_true, if_pos (clsValue_of_none hcls)]
  exact ⟨_, rfl, rfl, rfl⟩

theorem total_continuous (log : K → K) (hcrit : IsCriterion row.splitCriterion)
    (hcont : row.isContFeature = true) (hval : row.featureVal.isSome) (hcls : row.cls = none) :
    ∃ s, dtScvAggrSfunc log scvInitcond row = .ok s ∧ s.totalElemCount = row.count ∧
      s.initScv = initialScv row.splitCriterion := by
  have hboth : row.count = row.less + row.great := by
    unfold AcsRow.count
    rw [hcont]
    rfl
  have ⟨featureVal, hval⟩ := Option.isSome_iff_exists.mp hval
  unfold dtScvAggrSfunc
  rw [if_neg (not_not.mpr hcrit), hval, initOnce_initcond, hboth]
  dsimp only
  rw [if_pos (clsValue_of_none hcls)]
  have ⟨htotal, hvalue⟩ := subTotalRow_continuous log
    { scvInitcond with
      splitCrit := row.splitCriterion
      initScv := initialScv row.splitCriterion
      isCont := if row.isContFeature then 1 else 0
      trueTotalCount := row.trueTotalCount } hcont featureVal
  exact ⟨_, rfl, htotal, hvalue⟩

/-! ## The whole stream -/

/-- The value before the split of these classes. -/
def preSplitScv (log : K → K) (crit : Int) (total : K) (counts : List K) : K :=
  counts.foldl (accumulated log crit total) (initialScv crit)

/-- After a stream the state has the total count and the value before the split. -/
theorem AcsStream.scvState (log : K → K) {rows : List (AcsRow K)} {counts : List K} (hcrit : IsCriterion crit)
    (h : AcsStream crit rows total counts) :
    ∃ s, scvState log rows = .ok s ∧ s.totalElemCount = total ∧
      s.initScv = preSplitScv log crit total counts := by
  cases h with
  | @discrete row classes values same isTotal isClass isValue sum =>
      have ⟨hrow, hcont⟩ := same row List.mem_cons_self
      have hclasses : ∀ c ∈ classes, Takes log row.count
          (fun value c => accumulated log crit row.count value c.count) c := by
        intro c hc
        have ⟨hrow, hcont⟩ := same c (List.mem_cons_of_mem _ (List.mem_append_left _ hc))
        have ⟨hval, hcls, hcount⟩ := isClass c hc
        exact takes_class_discrete hcrit hrow isTotal.2.2 hcont hval hcls hcount
      have hvalues : ∀ v ∈ values, Takes log row.count (fun value _ => value) v := by
        intro v hv
        have ⟨hrow, hcont⟩ := same v (List.mem_cons_of_mem _ (List.mem_append_right _ hv))
        exact takes_value (hrow ▸ hcrit) isTotal.2.2 hcont (isValue v hv)
      have hfirst := total_discrete log (hrow ▸ hcrit) hcont isTotal.1 isTotal.2.1
      rw [hrow] at hfirst
      have ⟨mid, hmid, htotal, hvalue⟩ := scvState_cons_of_total hfirst hclasses
      have ⟨s, hs, htotal', hvalue'⟩ := Takes.foldlM hvalues htotal
      refine ⟨s, ?_, htotal', ?_⟩
      · unfold Cart.scvState at hmid ⊢
        rw [← List.cons_append, List.foldlM_append, hmid, ok_bind, hs]
      · rw [hvalue', List.foldl_fixed, hvalue]
        unfold preSplitScv
        rw [List.foldl_map]
  | @continuous row classes same isTotal isClass sum =>
      have ⟨hrow, hcont, hval⟩ := same row List.mem_cons_self
      have hclasses : ∀ c ∈ classes, Takes log row.count
          (fun value c => accumulated log crit row.count value c.count) c := by
        intro c hc
        have ⟨hrow, hcont, hval⟩ := same c (List.mem_cons_of_mem _ hc)
        have ⟨hcls, hcount⟩ := isClass c hc
        exact takes_class_continuous hcrit hrow isTotal.2 hcont hval hcls hcount
      have hfirst := total_continuous log (hrow ▸ hcrit) hcont hval isTotal.1
      rw [hrow] at hfirst
      have ⟨s, hs, htotal, hvalue⟩ := scvState_cons_of_total hfirst hclasses
      refine ⟨s, hs, htotal, ?_⟩
      rw [hvalue]
      unfold preSplitScv
      rw [List.foldl_map]

/-! ## The impurity before the split -/

theorem isImpurity_preSplitEntropy (hone : log 1 = 0) (hpos : ∀ x, 1 < x → 0 < log x) :
    IsImpurity (preSplitEntropy log) where
  zero := if_neg (lt_irrefl 0)
  one := by
    unfold preSplitEntropy
    rw [if_pos one_pos, div_one, hone, mul_zero]
  pos := by
    intro p hp hlt
    unfold preSplitEntropy
    rw [if_pos hp]
    exact mul_pos hp (hpos (1 / p) ((one_lt_div hp).mpr hlt))

/-- The value before the split is zero exactly where one class has all elements. -/
theorem preSplitScv_eq_zero_iff {counts : List K} (hone : log 1 = 0)
    (hpos : ∀ x, 1 < x → 0 < log x) (htotal : 0 < total)
    (hcounts : ∀ c ∈ counts, 0 ≤ c) (hsum : counts.sum = total) :
    preSplitScv log crit total counts = 0 ↔ total ∈ counts := by
  unfold preSplitScv initialScv accumulated
  by_cases hgini : crit = 3
  · simp only [if_pos hgini]
    rw [foldl_gini, sum_shares hsum htotal.ne', sub_self, zero_add]
    exact isImpurity_gini.sum_eq_zero_iff_mem hcounts hsum htotal
  · simp only [if_neg hgini]
    rw [foldl_entropy, zero_add]
    exact (isImpurity_preSplitEntropy hone hpos).sum_eq_zero_iff_mem hcounts hsum htotal

theorem not_finalFails_of_total {s : ScvState K} (htotal : 1 ≤ s.totalElemCount) :
    ¬ FinalFails s := by
  rintro (htrue | hzero)
  · apply htrue
    unfold ScvState.trueTotal
    by_cases hgiven : 0 < s.trueTotalCount
    · rw [if_pos hgiven]
      exact hgiven
    · rw [if_neg hgiven]
      exact one_pos.trans_le htotal
  · exact not_dtIsFloatZero_of_one_le htotal hzero

/-- Merging with the initial state leaves the result of a reached state as it is exactly
where its value before the split is zero (or the final function refuses it); after a stream,
exactly where one class has all elements. -/
theorem scv_initcond_unit_iff (log : K → K) (hone : log 1 = 0) (hpos : ∀ x, 1 < x → 0 < log x) :
    (∀ (rows : List (AcsRow K)) (s : ScvState K), scvState log rows = .ok s →
      (IsUnitFor log s ↔ s.initScv = 0 ∨ FinalFails s)) ∧
    ∀ (crit : Int) (rows : List (AcsRow K)) (total : K) (counts : List K),
      IsCriterion crit → AcsStream crit rows total counts →
        ∃ s, scvState log rows = .ok s ∧ (IsUnitFor log s ↔ total ∈ counts) := by
  constructor
  · intro rows s hs
    exact (scvReached_foldlM scvReached_initcond hs).isUnitFor_iff
  · intro crit rows total counts hcrit hstream
    have ⟨htotal, hcounts, hsum⟩ := hstream.counts
    have ⟨s, hs, hs_total, hs_value⟩ := hstream.scvState log hcrit
    have hreached := scvReached_foldlM scvReached_initcond hs
    have hfinal : ¬ FinalFails s := not_finalFails_of_total (hs_total ▸ htotal)
    refine ⟨s, hs, ?_⟩
    rw [hreached.isUnitFor_iff, or_iff_left hfinal, hs_value]
    exact preSplitScv_eq_zero_iff hone hpos (one_pos.trans_le htotal) hcounts hsum

/-- A row of a discrete attribute without missing values. -/
def discreteRow (crit : Int) (featureVal cls : Option ℕ) (less : ℕ) : AcsRow ℝ :=
  { splitCriterion := crit, featureVal := featureVal.map (↑), cls := cls.map (↑)
    isCont := some false, le := some less, gt := none, totalSize := none }

/-- Information gain, two records of class 1, one for each of two values. -/
def oneClassRows : List (AcsRow ℝ) :=
  discreteRow 1 none none 2 :: ([discreteRow 1 none (some 1) 2] ++
    [discreteRow 1 (some 2) none 1, discreteRow 1 (some 2) (some 1) 1,
      discreteRow 1 (some 1) none 1, discreteRow 1 (some 1) (some 1) 1])

theorem oneClassRows_stream : AcsStream 1 oneClassRows 2 [2] := by
  apply @AcsStream.discrete ℝ _ _ 1 (discreteRow 1 none none 2) [discreteRow 1 none (some 1) 2]
  · simp [discreteRow, AcsRow.isContFeature]
  · norm_num [discreteRow, AcsRow.count, AcsRow.isContFeature, AcsRow.less]
  · norm_num [discreteRow, AcsRow.count, AcsRow.isContFeature, AcsRow.less, AcsRow.clsValue]
  · simp [discreteRow]
  · simp [discreteRow, AcsRow.count, AcsRow.isContFeature, AcsRow.less]

theorem scv_initcond_unit_one_class :
    ∃ s, scvState Real.log oneClassRows = .ok s ∧ IsUnitFor Real.log s := by
  have ⟨s, hs, hunit⟩ := (scv_initcond_unit_iff Real.log Real.log_one fun _ => Real.log_pos).2
    1 oneClassRows 2 [2] (.inl rfl) oneClassRows_stream
  exact ⟨s, hs, hunit.mpr List.mem_cons_self⟩

/-- Gini gain, one record of each of two classes, told apart by the attribute. -/
def twoClassRows : List (AcsRow ℝ) :=
  discreteRow 3 none none 2 ::
    ([discreteRow 3 none (some 2) 1, discreteRow 3 none (some 1) 1] ++
    [discreteRow 3 (some 2) none 1, discreteRow 3 (some 2) (some 2) 1,
      discreteRow 3 (some 1) none 1, discreteRow 3 (some 1) (some 1) 1])

theorem twoClassRows_stream : AcsStream 3 twoClassRows 2 [(1 : ℕ), (1 : ℕ)] := by
  apply @AcsStream.discrete ℝ _ _ 3 (discreteRow 3 none none 2)
    [discreteRow 3 none (some 2) 1, discreteRow 3 none (some 1) 1]
  · simp [discreteRow, AcsRow.isContFeature]
  · norm_num [discreteRow, AcsRow.count, AcsRow.isContFeature, AcsRow.less]
  · norm_num [discreteRow, AcsRow.count, AcsRow.isContFeature, AcsRow.less, AcsRow.clsValue]
  · simp [discreteRow]
  · norm_num [discreteRow, AcsRow.count, AcsRow.isContFeature, AcsRow.less]

/-- The value before the split, one half, is lost in a merge with the initial state on the left. -/
theorem scv_initcond_not_unit_two_classes :
    AcsStream 3 twoClassRows 2 [(1 : ℕ), (1 : ℕ)] ∧
      ∃ s, scvState Real.log twoClassRows = .ok s ∧ ¬ IsUnitFor Real.log s := by
  have hcrit : IsCriterion 3 := .inr (.inr rfl)
  have ⟨s, hs, htotal, hvalue⟩ := twoClassRows_stream.scvState Real.log hcrit
  have hreached := scvReached_foldlM scvReached_initcond hs
  have hfinal : ¬ FinalFails s := not_finalFails_of_total (htotal ▸ one_le_two)
  have hmixed : preSplitScv Real.log 3 2 [((1 : ℕ) : ℝ), ((1 : ℕ) : ℝ)] ≠ 0 := by
    norm_num [preSplitScv, initialScv, accumulated]
  refine ⟨twoClassRows_stream, s, hs, ?_⟩
  rw [hreached.isUnitFor_iff, or_iff_left hfinal, hvalue]
  exact hmixed

end Madlib.Cart
