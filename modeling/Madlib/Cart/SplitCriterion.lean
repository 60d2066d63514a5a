import Madlib.Backend
import Madlib.Lib.Impurity

/-!
# Split criterion values

The aggregate that computes splitting criteria reads the attribute class statistic of
one attribute (and, for a continuous one, one split value): sub-total rows, whose class
is NULL, and one row for every class.  Its state has fourteen slots, its result eleven.
Arithmetic is that of an ordered field, and the logarithm a parameter.
-/

namespace Madlib.Cart

open Madlib.Backend

/-- The texts of the errors `dt_check_error` raises, with the value they name:
"invalid split criterion", "The total element count must be greater than 0",
"The current class count must be greater than or equal to 0", "continuous features must not
have null feature value", "true total count should be greater than 0" and
"number of total element counts". -/
inductive ScvError (K : Type) where
  | splitCriterion (value : K)
  | totalElemCount (value : K)
  | currClassCount (value : K)
  | contNullFeature
  | trueTotalCount
  | noElements (value : K)

/-- The state array, by the names of `DT_SCV_STATE_ARRAY_INDEX`. -/
@[ext] structure ScvState (K : Type) where
  currFeatureValue : K
  currFeatureElemCount : K
  lessElemCount : K
  greatElemCount : K
  totalElemCount : K
  entropyData : K
  splitInfoData : K
  giniData : K
  splitCrit : K
  isCont : K
  initScv : K
  trueTotalCount : K
  maxClassId : K
  maxClassElemCount : K

/-- The result array, by the names of `DT_SCV_FINAL_ARRAY_INDEX`. -/
@[ext] structure ScvFinal (K : Type) where
  entropy : K
  splitInfo : K
  gini : K
  splitCriterion : K
  infoGain : K
  gainRatio : K
  giniGain : K
  isContFeature : K
  classId : K
  classProb : K
  totalCount : K

/-- The arguments of one call of the step function; NULL is `none`. -/
structure AcsRow (K : Type) where
  splitCriterion : Int
  featureVal : Option K
  cls : Option K
  isCont : Option Bool
  le : Option K
  gt : Option K
  totalSize : Option K

variable {K : Type} [Field K] [LinearOrder K]

def AcsRow.isContFeature (row : AcsRow K) : Bool := row.isCont.getD false

def AcsRow.less (row : AcsRow K) : K := row.le.getD 0

def AcsRow.great (row : AcsRow K) : K := row.gt.getD 0

def AcsRow.trueTotalCount (row : AcsRow K) : K := row.totalSize.getD 0

/-- A NULL class is -1. -/
def AcsRow.clsValue (row : AcsRow K) : K := row.cls.getD (-1)

/-- `DT_EPSILON` -/
def dtEpsilon : K := 1 / 1000000000

def dtIsFloatZero (value : K) : Prop := value < dtEpsilon ∧ -dtEpsilon < value

instance (value : K) : Decidable (dtIsFloatZero value) :=
  inferInstanceAs (Decidable (_ ∧ _))

/-- 1 infogain, 2 gainratio, 3 gini -/
def IsCriterion (splitCriterion : Int) : Prop :=
  splitCriterion = 1 ∨ splitCriterion = 2 ∨ splitCriterion = 3

instance (splitCriterion : Int) : Decidable (IsCriterion splitCriterion) :=
  inferInstanceAs (Decidable (_ ∨ _))

/-- The initial state `{0,0,0,0,0,0,0,0,0,0,0,0,0,0}`. -/
def scvInitcond : ScvState K := ⟨0, 0, 0, 0, 0, 0, 0, 0, 0, 0, 0, 0, 0, 0⟩

/-! ## The step function -/

/-- The entropy of one class before the split. -/
def preSplitEntropy (log : K → K) (share : K) : K :=
  if 0 < share then share * log (1 / share) else 0

def dtAccumulatePreSplitScv (log : K → K) (s : ScvState K) (currClassCount totalElemCount : K)
    (splitCriterion : Int) : Except (ScvError K) (ScvState K) :=
  if ¬ IsCriterion splitCriterion then .error (.splitCriterion splitCriterion)
  else if ¬ 0 < totalElemCount then .error (.totalElemCount totalElemCount)
  else if ¬ 0 ≤ currClassCount then .error (.currClassCount currClassCount)
  else if splitCriterion = 1 ∨ splitCriterion = 2 then
    .ok { s with initScv := s.initScv + preSplitEntropy log (currClassCount / totalElemCount) }
  else
    .ok { s with
      initScv := s.initScv - currClassCount / totalElemCount * (currClassCount / totalElemCount) }

/-- What is set once, while the total count is still zero. -/
def initOnce (s : ScvState K) (row : AcsRow K) : ScvState K :=
  if dtIsFloatZero s.totalElemCount then
    { s with
      splitCrit := row.splitCriterion
      initScv := if row.splitCriterion = 3 then 1 else 0
      isCont := if row.isContFeature then 1 else 0
      trueTotalCount := row.trueTotalCount }
  else s

def keepMaxClass (s : ScvState K) (count cls : K) : ScvState K :=
  if s.maxClassElemCount < count then
    { s with maxClassElemCount := count, maxClassId := cls }
  else s

def addSplitInfo (log : K → K) (s : ScvState K) (count : K) : ScvState K :=
  if ¬ dtIsFloatZero count then
    { s with splitInfoData := s.splitInfoData + count * log count }
  else s

/-- The entropy or gini index of `part` of the `count` elements of a branch. -/
def addScv (log : K → K) (s : ScvState K) (splitCriterion : Int) (part count : K) : ScvState K :=
  if splitCriterion = 2 ∨ splitCriterion = 1 then
    if ¬ dtIsFloatZero (part - count) ∧ 0 < part ∧ 0 < count then
      { s with entropyData := s.entropyData + part * log (count / part) }
    else s
  else if 0 < count then { s with giniData := s.giniData + part * part / count }
  else s

/-- A row without a feature value has the total count, or that of one class. -/
def nullFeatureRow (log : K → K) (s : ScvState K) (row : AcsRow K) :
    Except (ScvError K) (ScvState K) :=
  if row.isContFeature then .error .contNullFeature
  else if row.clsValue < 0 then .ok { s with totalElemCount := row.less }
  else
    dtAccumulatePreSplitScv log (keepMaxClass s row.less row.clsValue) row.less s.totalElemCount
      row.splitCriterion

/-- The sub-total of one feature value, or of both sides of a split value. -/
def subTotalRow (log : K → K) (s : ScvState K) (row : AcsRow K) (featureVal : K) : ScvState K :=
  if row.isContFeature then
    let s := { s with lessElemCount := row.less, greatElemCount := row.great }
    let s := if row.splitCriterion = 2 then addSplitInfo log (addSplitInfo log s row.less) row.great
      else s
    { s with totalElemCount := row.less + row.great }
  else
    let s := { s with currFeatureValue := featureVal, currFeatureElemCount := row.less }
    if row.splitCriterion = 2 then addSplitInfo log s row.less else s

def classRow (log : K → K) (s : ScvState K) (row : AcsRow K) :
    Except (ScvError K) (ScvState K) :=
  if row.isContFeature then do
    let s ← dtAccumulatePreSplitScv log
      (keepMaxClass s (row.less + row.great) row.clsValue) (row.less + row.great)
      s.totalElemCount row.splitCriterion
    pure (addScv log (addScv log s row.splitCriterion row.less s.lessElemCount)
      row.splitCriterion row.great s.greatElemCount)
  else .ok (addScv log s row.splitCriterion row.less s.currFeatureElemCount)

def dtScvAggrSfunc (log : K → K) (s : ScvState K) (row : AcsRow K) :
    Except (ScvError K) (ScvState K) :=
  if ¬ IsCriterion row.splitCriterion then .error (.splitCriterion row.splitCriterion)
  else
    match row.featureVal with
    | none => nullFeatureRow log (initOnce s row) row
    | some featureVal =>
        if row.clsValue < 0 then .ok (subTotalRow log (initOnce s row) row featureVal)
        else classRow log (initOnce s row) row

/-- The state after these rows. -/
def scvState (log : K → K) (rows : List (AcsRow K)) : Except (ScvError K) (ScvState K) :=
  rows.foldlM (dtScvAggrSfunc log) scvInitcond

/-! ## Merging and the final function -/

/-- What is set once is taken from the second state when the first one has no criterion. -/
def takeInitialised (s s2 : ScvState K) : ScvState K :=
  if dtIsFloatZero s.splitCrit then
    { s with
      splitCrit := s2.splitCrit
      trueTotalCount := s2.trueTotalCount
      isCont := s2.isCont }
  else s

def dtScvAggrPrefunc (s s2 : ScvState K) : ScvState K :=
  let s := { s with
    totalElemCount := s.totalElemCount + s2.totalElemCount
    entropyData := s.entropyData + s2.entropyData
    splitInfoData := s.splitInfoData + s2.splitInfoData
    giniData := s.giniData + s2.giniData }
  keepMaxClass (takeInitialised s s2) s2.maxClassElemCount s2.maxClassId

/-- `(int) value` is the positive code `n`. -/
def IsCode (value : K) (n : Int) : Prop := (n : K) ≤ value ∧ value < n + 1

instance (value : K) (n : Int) : Decidable (IsCode value n) := inferInstanceAs (Decidable (_ ∧ _))

/-- The total count of the training set; without missing values that of the aggregate. -/
def ScvState.trueTotal (s : ScvState K) : K :=
  if 0 < s.trueTotalCount then s.trueTotalCount else s.totalElemCount

/-- The slots that do not depend on the criterion. -/
def finalCommon (s : ScvState K) : ScvFinal K :=
  { entropy := 0, splitInfo := 0, gini := 0, infoGain := 0, gainRatio := 0, giniGain := 0
    splitCriterion := s.splitCrit
    isContFeature := s.isCont
    classId := s.maxClassId
    classProb := s.maxClassElemCount / s.trueTotal
    totalCount := s.trueTotal }

def finalInfoGain (s : ScvState K) (result : ScvFinal K) : ScvFinal K :=
  let entropy := s.entropyData / s.totalElemCount
  { result with
    entropy
    infoGain := (s.initScv - entropy) * (s.totalElemCount / s.trueTotal) }

def finalGainRatio (log : K → K) (s : ScvState K) (result : ScvFinal K) : ScvFinal K :=
  let splitInfo := log s.totalElemCount - s.splitInfoData / s.totalElemCount
  { result with
    splitInfo
    gainRatio :=
      if ¬ dtIsFloatZero splitInfo ∧ ¬ dtIsFloatZero result.infoGain then
        result.infoGain / splitInfo
      else 0 }

def finalGini (s : ScvState K) (result : ScvFinal K) : ScvFinal K :=
  let gini := 1 - s.giniData / s.totalElemCount
  { result with
    gini
    giniGain := (s.initScv - gini) * (s.totalElemCount / s.trueTotal) }

def dtScvAggrFfunc (log : K → K) (s : ScvState K) : Except (ScvError K) (ScvFinal K) :=
  if ¬ 0 < s.trueTotal then .error .trueTotalCount
  else if dtIsFloatZero s.totalElemCount then .error (.noElements s.totalElemCount)
  else if IsCode s.splitCrit 1 then .ok (finalInfoGain s (finalCommon s))
  else if IsCode s.splitCrit 2 then
    .ok (finalGainRatio log s (finalInfoGain s (finalCommon s)))
  else if IsCode s.splitCrit 3 then .ok (finalGini s (finalCommon s))
  else .error (.splitCriterion s.splitCrit)

end Madlib.Cart
