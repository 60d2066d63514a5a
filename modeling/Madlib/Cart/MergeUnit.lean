import Madlib.Cart.SplitCriterion

/-!
# Merging with the initial state

A merge carries every slot the final function reads except the criterion's value before
the split.  With the initial state on the left that value is lost, so the merge leaves
the result as it is exactly where the value is zero: where one class has all elements.
-/

namespace Madlib.Cart

open Madlib.Backend Madlib.Lib.Impurity

variable {K : Type}

section MaxClass

variable [LinearOrder K]

@[simp] theorem keepMaxClass_splitCrit (s : ScvState K) (count cls : K) :
    (keepMaxClass s count cls).splitCrit = s.splitCrit := by
  unfold keepMaxClass
  split <;> rfl

@[simp] theorem keepMaxClass_totalElemCount (s : ScvState K) (count cls : K) :
    (keepMaxClass s count cls).totalElemCount = s.totalElemCount := by
  unfold keepMaxClass
  split <;> rfl

@[simp] theorem keepMaxClass_initScv (s : ScvState K) (count cls : K) :
    (keepMaxClass s count cls).initScv = s.initScv := by
  unfold keepMaxClass
  split <;> rfl

variable [Zero K]

/-- The largest class is set only to a positive count. -/
def MaxSet (s : ScvState K) : Prop :=
  0 < s.maxClassElemCount ∨ s.maxClassElemCount = 0 ∧ s.maxClassId = 0

theorem MaxSet.keepMaxClass {s : ScvState K} (h : MaxSet s) (count cls : K) :
    MaxSet (keepMaxClass s count cls) := by
  unfold Cart.keepMaxClass
  by_cases hlt : s.maxClassElemCount < count
  · rw [if_pos hlt]
    rcases h with hpos | ⟨hzero, _⟩
    · exact .inl (hpos.trans hlt)
    · exact .inl (hzero ▸ hlt)
  · rw [if_neg hlt]
    exact h

theorem MaxSet.not_lt_zero {s : ScvState K} (h : MaxSet s) : ¬ s.maxClassElemCount < 0 := by
  rcases h with hpos | ⟨hzero, _⟩
  · exact hpos.le.not_gt
  · exact hzero.not_lt

end MaxClass

variable [Field K]

/-- A gain tells the value before the split from zero. -/
theorem gain_eq_zero_gain {value after ratio : K} (hratio : ratio ≠ 0) :
    (0 - after) * ratio = (value - after) * ratio ↔ value = 0 := by
  rw [mul_left_inj' hratio, sub_left_inj]
  exact eq_comm

variable [LinearOrder K]

/-- Merged with the initial state, on either side, `s` has the result it has alone. -/
def IsUnitFor (log : K → K) (s : ScvState K) : Prop :=
  dtScvAggrFfunc log (dtScvAggrPrefunc s scvInitcond) = dtScvAggrFfunc log s ∧
    dtScvAggrFfunc log (dtScvAggrPrefunc scvInitcond s) = dtScvAggrFfunc log s

/-- The final function raises an error: there are no elements. -/
def FinalFails (s : ScvState K) : Prop := ¬ 0 < s.trueTotal ∨ dtIsFloatZero s.totalElemCount

/-- What holds in every state the step function reaches. -/
structure ScvReached (s : ScvState K) : Prop where
  crit : s = scvInitcond ∨ ∃ n : Int, IsCriterion n ∧ s.splitCrit = n
  maxClass : MaxSet s

variable {log : K → K} {s s' : ScvState K} {row : AcsRow K}

/-! ## What a step leaves as it is -/

theorem addSplitInfo_eq (log : K → K) (s : ScvState K) (count : K) :
    addSplitInfo log s count = { s with splitInfoData := (addSplitInfo log s count).splitInfoData } := by
  unfold addSplitInfo
  split <;> rfl

theorem addScv_eq (log : K → K) (s : ScvState K) (splitCriterion : Int) (part count : K) :
    addScv log s splitCriterion part count =
      { s with
        entropyData := (addScv log s splitCriterion part count).entropyData
        giniData := (addScv log s splitCriterion part count).giniData } := by
  unfold addScv
  split
  · split <;> rfl
  · split <;> rfl

theorem dtAccumulatePreSplitScv_eq {currClassCount totalElemCount : K} {splitCriterion : Int}
    (h : dtAccumulatePreSplitScv log s currClassCount totalElemCount splitCriterion = .ok s') :
    s' = { s with initScv := s'.initScv } := by
  unfold dtAccumulatePreSplitScv at h
  split at h
  · cases h
  · split at h
    · cases h
    · split at h
      · cases h
      · split at h
        · cases h
          rfl
        · cases h
          rfl

theorem initOnce_max (s : ScvState K) (row : AcsRow K) :
    (initOnce s row).maxClassElemCount = s.maxClassElemCount ∧
      (initOnce s row).maxClassId = s.maxClassId := by
  unfold initOnce
  split
  · exact ⟨rfl, rfl⟩
  · exact ⟨rfl, rfl⟩

theorem subTotalRow_eq (log : K → K) (s : ScvState K) (row : AcsRow K) (featureVal : K) :
    (subTotalRow log s row featureVal).splitCrit = s.splitCrit ∧
      (subTotalRow log s row featureVal).maxClassElemCount = s.maxClassElemCount ∧
      (subTotalRow log s row featureVal).maxClassId = s.maxClassId := by
  unfold subTotalRow
  dsimp only
  split
  · split
    · rw [addSplitInfo_eq, addSplitInfo_eq log { s with lessElemCount := _, greatElemCount := _ }]
      exact ⟨rfl, rfl, rfl⟩
    · exact ⟨rfl, rfl, rfl⟩
  · split
    · rw [addSplitInfo_eq]
      exact ⟨rfl, rfl, rfl⟩
    · exact ⟨rfl, rfl, rfl⟩

theorem nullFeatureRow_keeps (h : nullFeatureRow log s row = .ok s') (hmax : MaxSet s) :
    s'.splitCrit = s.splitCrit ∧ MaxSet s' := by
  unfold nullFeatureRow at h
  split at h
  · cases h
  · split at h
    · cases h
      exact ⟨rfl, hmax⟩
    · have heq := dtAccumulatePreSplitScv_eq h
      rw [heq]
      exact ⟨keepMaxClass_splitCrit s _ _, hmax.keepMaxClass _ _⟩

theorem classRow_keeps (h : classRow log s row = .ok s') (hmax : MaxSet s) :
    s'.splitCrit = s.splitCrit ∧ MaxSet s' := by
  unfold classRow at h
  split at h
  · have ⟨mid, hmid, hrest⟩ := bind_eq_ok.mp h
    have heq := dtAccumulatePreSplitScv_eq hmid
    have hkept := hmax.keepMaxClass (row.less + row.great) row.clsValue
    cases hrest
    rw [addScv_eq, addScv_eq log mid, heq]
    exact ⟨keepMaxClass_splitCrit s _ _, hkept⟩
  · cases h
    rw [addScv_eq]
    exact ⟨rfl, hmax⟩

theorem dtScvAggrSfunc_keeps (h : dtScvAggrSfunc log s row = .ok s') (hmax : MaxSet s) :
    IsCriterion row.splitCriterion ∧ s'.splitCrit = (initOnce s row).splitCrit ∧ MaxSet s' := by
  have hinit : MaxSet (initOnce s row) := by
    have ⟨hcount, hid⟩ := initOnce_max s row
    unfold MaxSet
    rw [hcount, hid]
    exact hmax
  unfold dtScvAggrSfunc at h
  by_cases hcrit : IsCriterion row.splitCriterion
  · rw [if_neg (not_not.mpr hcrit)] at h
    refine ⟨hcrit, ?_⟩
    cases hval : row.featureVal with
    | none =>
        rw [hval] at h
        exact nullFeatureRow_keeps h hinit
    | some featureVal =>
        rw [hval] at h
        dsimp only at h
        split at h
        · cases h
          have ⟨hsub, hcount, hid⟩ := subTotalRow_eq log (initOnce s row) row featureVal
          refine ⟨hsub, ?_⟩
          unfold MaxSet
          rw [hcount, hid]
          exact hinit
        · exact classRow_keeps h hinit
  · rw [if_pos hcrit] at h
    cases h

/-! ## The final function -/

theorem ffunc_of_not_finalFails (log : K → K) (hs : ¬ FinalFails s) :
    dtScvAggrFfunc log s =
      if IsCode s.splitCrit 1 then .ok (finalInfoGain s (finalCommon s))
      else if IsCode s.splitCrit 2 then
        .ok (finalGainRatio log s (finalInfoGain s (finalCommon s)))
      else if IsCode s.splitCrit 3 then .ok (finalGini s (finalCommon s))
      else .error (.splitCriterion s.splitCrit) := by
  have ⟨htrue, htotal⟩ := not_or.mp hs
  unfold dtScvAggrFfunc
  rw [if_neg htrue, if_neg htotal]

theorem ffunc_of_finalFails (log : K → K) (hs : FinalFails s) (value : K) :
    dtScvAggrFfunc log { s with initScv := value } = dtScvAggrFfunc log s := by
  unfold dtScvAggrFfunc
  rcases hs with htrue | htotal
  · have htrue' : ¬ 0 < ScvState.trueTotal { s with initScv := value } := htrue
    rw [if_pos htrue, if_pos htrue']
  · have htotal' : dtIsFloatZero (ScvState.totalElemCount { s with initScv := value }) := htotal
    rw [if_pos htotal, if_pos htotal']
    rfl

/-! ## Reached states -/

theorem scvReached_initcond : ScvReached (scvInitcond : ScvState K) where
  crit := .inl rfl
  maxClass := .inr ⟨rfl, rfl⟩

variable [IsStrictOrderedRing K]

theorem dtEpsilon_pos : (0 : K) < dtEpsilon := by
  unfold dtEpsilon
  positivity

theorem dtIsFloatZero_zero : dtIsFloatZero (0 : K) :=
  ⟨dtEpsilon_pos, neg_lt_zero.mpr dtEpsilon_pos⟩

/-- The first row sets the criterion; later ones set it again or leave it. -/
theorem ScvReached.initOnce_splitCrit (hs : ScvReached s) (hrow : IsCriterion row.splitCriterion) :
    ∃ n : Int, IsCriterion n ∧ (initOnce s row).splitCrit = n := by
  unfold initOnce
  by_cases hzero : dtIsFloatZero s.totalElemCount
  · rw [if_pos hzero]
    exact ⟨row.splitCriterion, hrow, rfl⟩
  · rw [if_neg hzero]
    rcases hs.crit with hinit | hset
    · rw [hinit] at hzero
      exact absurd dtIsFloatZero_zero hzero
    · exact hset

theorem ScvReached.step (hs : ScvReached s) (h : dtScvAggrSfunc log s row = .ok s') :
    ScvReached s' := by
  have ⟨hrow, hcrit, hmax⟩ := dtScvAggrSfunc_keeps h hs.maxClass
  have hset := hs.initOnce_splitCrit hrow
  rw [← hcrit] at hset
  exact ⟨.inr hset, hmax⟩

theorem scvReached_foldlM {rows : List (AcsRow K)} (hs : ScvReached s)
    (h : rows.foldlM (dtScvAggrSfunc log) s = .ok s') : ScvReached s' := by
  induction rows generalizing s with
  | nil =>
      cases h
      exact hs
  | cons row rows ih =>
      rw [List.foldlM_cons] at h
      have ⟨mid, hmid, hrest⟩ := bind_eq_ok.mp h
      exact ih (hs.step hmid) hrest

/-! ## Merging with the initial state -/

theorem IsCriterion.one_le {n : Int} (h : IsCriterion n) : 1 ≤ n := by
  rcases h with rfl | rfl | rfl
  · decide
  · decide
  · decide

theorem not_dtIsFloatZero_of_one_le {count : K} (h : 1 ≤ count) : ¬ dtIsFloatZero count := by
  intro hzero
  have hlt : (dtEpsilon : K) < 1 := by
    unfold dtEpsilon
    norm_num
  exact absurd hzero.1 (not_lt.mpr (hlt.le.trans h))

theorem not_dtIsFloatZero_criterion {n : Int} (h : IsCriterion n) : ¬ dtIsFloatZero (n : K) := by
  apply not_dtIsFloatZero_of_one_le
  exact_mod_cast h.one_le

theorem ScvReached.takeInitialised (hs : ScvReached s) : takeInitialised s scvInitcond = s := by
  unfold Cart.takeInitialised
  rcases hs.crit with hinit | ⟨n, hn, hcrit⟩
  · rw [hinit]
    exact ite_self scvInitcond
  · rw [hcrit, if_neg (not_dtIsFloatZero_criterion hn)]

/-- On the right the initial state changes nothing. -/
theorem ScvReached.prefunc_right (hs : ScvReached s) : dtScvAggrPrefunc s scvInitcond = s := by
  have hsums : ({ s with
      totalElemCount := s.totalElemCount + 0, entropyData := s.entropyData + 0
      splitInfoData := s.splitInfoData + 0, giniData := s.giniData + 0 } : ScvState K) = s := by
    simp only [add_zero]
  unfold dtScvAggrPrefunc
  dsimp only [scvInitcond]
  rw [hsums]
  have htake := hs.takeInitialised
  dsimp only [scvInitcond] at htake
  rw [htake]
  exact if_neg hs.maxClass.not_lt_zero

/-- On the left it leaves what `s` has, less the branch counts and the value before the split. -/
theorem ScvReached.prefunc_left (hs : ScvReached s) :
    dtScvAggrPrefunc scvInitcond s =
      { s with
        currFeatureValue := 0, currFeatureElemCount := 0, lessElemCount := 0
        greatElemCount := 0, initScv := 0 } := by
  unfold dtScvAggrPrefunc Cart.takeInitialised keepMaxClass
  dsimp only [scvInitcond]
  rw [if_pos dtIsFloatZero_zero]
  simp only [zero_add]
  rcases hs.maxClass with hpos | ⟨hzero, hid⟩
  · rw [if_pos hpos]
  · rw [hzero, hid, if_neg (lt_irrefl 0)]

theorem ScvReached.ffunc_prefunc_left (hs : ScvReached s) :
    dtScvAggrFfunc log (dtScvAggrPrefunc scvInitcond s) =
      dtScvAggrFfunc log { s with initScv := 0 } := by
  rw [hs.prefunc_left]
  rfl

/-! ## The value before the split -/

theorem isCode_intCast {m n : Int} : IsCode (m : K) n ↔ m = n := by
  unfold IsCode
  constructor
  · intro ⟨hlo, hhi⟩
    have hle : n ≤ m := by exact_mod_cast hlo
    have hlt : m < n + 1 := by exact_mod_cast hhi
    omega
  · rintro rfl
    exact ⟨le_refl _, lt_add_one _⟩

theorem ratio_ne_zero (hs : ¬ FinalFails s) : s.totalElemCount / s.trueTotal ≠ 0 := by
  have ⟨htrue, htotal⟩ := not_or.mp hs
  apply div_ne_zero
  · intro hzero
    exact htotal (hzero ▸ dtIsFloatZero_zero)
  · exact (not_not.mp htrue).ne'

/-- The result tells the value before the split from zero. -/
theorem ffunc_initScv (hs : ¬ FinalFails s) {n : Int} (hn : IsCriterion n)
    (hcrit : s.splitCrit = n) :
    dtScvAggrFfunc log { s with initScv := 0 } = dtScvAggrFfunc log s ↔ s.initScv = 0 := by
  have hs' : ¬ FinalFails { s with initScv := 0 } := hs
  have hratio := ratio_ne_zero hs
  constructor
  · intro heq
    rw [ffunc_of_not_finalFails log hs, ffunc_of_not_finalFails log hs', hcrit] at heq
    simp only [isCode_intCast] at heq
    rcases hn with rfl | rfl | rfl
    · have hgain := congrArg ScvFinal.infoGain (Except.ok.inj heq)
      exact (gain_eq_zero_gain hratio).mp hgain
    · have hgain := congrArg ScvFinal.infoGain (Except.ok.inj heq)
      exact (gain_eq_zero_gain hratio).mp hgain
    · have hgain := congrArg ScvFinal.giniGain (Except.ok.inj heq)
      exact (gain_eq_zero_gain hratio).mp hgain
  · intro hzero
    rw [← hzero]

/-- The initial state is a unit for `s` exactly where nothing is lost: the value before the
split is zero, or the final function refuses `s` in any case. -/
theorem ScvReached.isUnitFor_iff (hs : ScvReached s) :
    IsUnitFor log s ↔ s.initScv = 0 ∨ FinalFails s := by
  unfold IsUnitFor
  rw [hs.prefunc_right, hs.ffunc_prefunc_left]
  simp only [true_and]
  by_cases hfails : FinalFails s
  · exact iff_of_true (ffunc_of_finalFails log hfails 0) (.inr hfails)
  · rw [or_iff_left hfails]
    rcases hs.crit with hinit | ⟨n, hn, hcrit⟩
    · rw [hinit]
      exact iff_of_true rfl rfl
    · exact ffunc_initScv hfails hn hcrit

end Madlib.Cart
