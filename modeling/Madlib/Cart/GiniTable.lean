import Madlib.Cart.MergeUnit
import Madlib.Lib.GiniGain

/-!
# The Gini gain of a contingency table

The rows of a table reach the aggregate in one order: the total, the classes, and the values of
the feature with their classes; or both sides of a split value, and then the classes.
-/

namespace Madlib.Cart

open Madlib.Backend Madlib.Lib.GiniGain

variable {K : Type}

/-- A value of a discrete feature.  There may be no row for a class without elements. -/
structure FeatureValue (K : Type) where
  value : K
  count : ℕ → ℕ
  rowClasses : List ℕ

structure DiscreteTable (K : Type) where
  classes : List ℕ
  values : List (FeatureValue K)
  classes_nodup : classes.Nodup
  rowClasses_nodup : ∀ v ∈ values, v.rowClasses.Nodup
  rowClasses_subset : ∀ v ∈ values, v.rowClasses ⊆ classes
  mem_rowClasses : ∀ v ∈ values, ∀ c ∈ classes, v.count c ≠ 0 → c ∈ v.rowClasses

/-- The two sides of a split value of a continuous feature. -/
structure ContinuousTable (K : Type) where
  splitValue : K
  classes : List ℕ
  le : ℕ → ℕ
  gt : ℕ → ℕ

section Rows

variable [Field K]

def FeatureValue.branch (v : FeatureValue K) (c : ℕ) : K := v.count c

def DiscreteTable.branches (t : DiscreteTable K) : List (ℕ → K) := t.values.map FeatureValue.branch

def ContinuousTable.branches (t : ContinuousTable K) : List (ℕ → K) :=
  [fun c => t.le c, fun c => t.gt c]

/-- A row for the criterion gini. -/
def giniRow (isCont : Bool) (trueTotalCount : K) (featureVal cls : Option K) (le gt : K) :
    AcsRow K where
  splitCriterion := 3
  featureVal := featureVal
  cls := cls
  isCont := some isCont
  le := some le
  gt := some gt
  totalSize := some trueTotalCount

def FeatureValue.rows (v : FeatureValue K) (classes : List ℕ) (trueTotalCount : K) :
    List (AcsRow K) :=
  giniRow false trueTotalCount (some v.value) none (branchTotal classes v.branch) 0 ::
    v.rowClasses.map fun c : ℕ =>
      giniRow false trueTotalCount (some v.value) (some (c : K)) (v.count c) 0

def DiscreteTable.rows (t : DiscreteTable K) (trueTotalCount : K) : List (AcsRow K) :=
  giniRow false trueTotalCount none none (total t.classes t.branches) 0 ::
    (t.classes.map fun c : ℕ =>
      giniRow false trueTotalCount none (some (c : K)) (classTotal t.branches c) 0) ++
    t.values.flatMap fun v => v.rows t.classes trueTotalCount

def ContinuousTable.rows (t : ContinuousTable K) (trueTotalCount : K) : List (AcsRow K) :=
  giniRow true trueTotalCount (some t.splitValue) none (branchTotal t.classes fun c => t.le c)
      (branchTotal t.classes fun c => t.gt c) ::
    t.classes.map fun c : ℕ =>
      giniRow true trueTotalCount (some t.splitValue) (some (c : K)) (t.le c) (t.gt c)

/-- A class has one row at most, and none only without elements. -/
theorem sum_rowClasses (t : DiscreteTable K) {v : FeatureValue K} (hv : v ∈ t.values) {f : ℕ → K}
    (hf : ∀ c, v.count c = 0 → f c = 0) :
    (v.rowClasses.map f).sum = (t.classes.map f).sum := by
  rw [← List.sum_toFinset f (t.rowClasses_nodup v hv), ← List.sum_toFinset f t.classes_nodup]
  apply Finset.sum_subset
  · intro c hc
    rw [List.mem_toFinset] at hc ⊢
    exact t.rowClasses_subset v hv hc
  · intro c hc hrow
    rw [List.mem_toFinset] at hc hrow
    apply hf
    by_contra hne
    exact hrow (t.mem_rowClasses v hv c hc hne)

end Rows

variable [Field K] [LinearOrder K]

/-! ## What the state holds -/

/-- The largest class is one of those that have come. -/
def HoldsMax (s : ScvState K) (classes : List ℕ) (count : ℕ → K) : Prop :=
  (s.maxClassElemCount = 0 ∧ ∀ c ∈ classes, count c ≤ 0) ∨
    ∃ c ∈ classes, s.maxClassId = c ∧ s.maxClassElemCount = count c ∧
      ∀ c' ∈ classes, count c' ≤ count c

/-- The state when these classes have come, and the squares of these sums. -/
structure HoldsGini (s : ScvState K) (total trueTotalCount : K) (count : ℕ → K) (classes : List ℕ)
    (squares : K) : Prop where
  totalElemCount : s.totalElemCount = total
  trueTotalCount : s.trueTotalCount = trueTotalCount
  splitCrit : s.splitCrit = 3
  initScv : s.initScv = 1 - (classes.map fun c => (count c / total) ^ 2).sum
  giniData : s.giniData = squares
  max : HoldsMax s classes count

variable {s : ScvState K} {classes : List ℕ} {count : ℕ → K} {size trueTotalCount squares : K}

theorem HoldsMax.keepMaxClass (h : HoldsMax s classes count) (c : ℕ) :
    HoldsMax (keepMaxClass s (count c) c) (classes ++ [c]) count := by
  unfold Cart.keepMaxClass
  have hall : ∀ {x : K}, (∀ c' ∈ classes, count c' ≤ x) → count c ≤ x →
      ∀ c' ∈ classes ++ [c], count c' ≤ x := by
    intro x hclasses hc c' hc'
    rcases List.mem_append.mp hc' with hc' | hc'
    · exact hclasses c' hc'
    · rwa [List.mem_singleton.mp hc']
  by_cases hlt : s.maxClassElemCount < count c
  · rw [if_pos hlt]
    refine .inr ⟨c, List.mem_append_right _ (List.mem_singleton_self c), rfl, rfl, ?_⟩
    apply hall _ le_rfl
    rcases h with ⟨hzero, hle⟩ | ⟨m, -, -, hcount, hle⟩
    · rw [hzero] at hlt
      exact fun c' hc' => (hle c' hc').trans hlt.le
    · rw [hcount] at hlt
      exact fun c' hc' => (hle c' hc').trans hlt.le
  · rw [if_neg hlt]
    have hge := not_lt.mp hlt
    rcases h with ⟨hzero, hle⟩ | ⟨m, hm, hid, hcount, hle⟩
    · rw [hzero] at hge
      exact .inl ⟨hzero, hall hle hge⟩
    · rw [hcount] at hge
      exact .inr ⟨m, List.mem_append_left _ hm, hid, hcount, hall hle hge⟩

/-! ## One row -/

omit [Field K] in
theorem keepMaxClass_eq (s : ScvState K) (count cls : K) :
    keepMaxClass s count cls =
      { s with
        maxClassId := (keepMaxClass s count cls).maxClassId
        maxClassElemCount := (keepMaxClass s count cls).maxClassElemCount } := by
  unfold keepMaxClass
  split <;> rfl

/-- A square is added; without elements in the branch there is none. -/
theorem addScv_gini (log : K → K) (s : ScvState K) {part n : K} (hn : 0 ≤ n) :
    addScv log s 3 part n = { s with giniData := s.giniData + part ^ 2 / n } := by
  unfold addScv
  rw [if_neg (by decide)]
  rcases eq_or_lt_of_le hn with hzero | hpos
  · rw [← hzero, if_neg (lt_irrefl 0), div_zero, add_zero]
  · rw [if_pos hpos, sq]

theorem HoldsGini.addSquares (h : HoldsGini s size trueTotalCount count classes squares) (x : K) :
    HoldsGini { s with giniData := s.giniData + x } size trueTotalCount count classes
      (squares + x) :=
  ⟨h.totalElemCount, h.trueTotalCount, h.splitCrit, h.initScv, congrArg (· + x) h.giniData, h.max⟩

section Rows

variable [IsStrictOrderedRing K] {x v n m : K} {c : ℕ}

theorem HoldsGini.initOnce (h : HoldsGini s size trueTotalCount count classes squares)
    (htotal : 1 ≤ size) (row : AcsRow K) : initOnce s row = s := by
  unfold Cart.initOnce
  rw [h.totalElemCount, if_neg (not_dtIsFloatZero_of_one_le htotal)]

variable (log : K → K)

/-- The share of a class is taken from the value before the split. -/
theorem HoldsGini.accumulate (h : HoldsGini s size trueTotalCount count classes squares)
    (htotal : 1 ≤ size) (hcount : 0 ≤ count c) :
    ∃ s', dtAccumulatePreSplitScv log (Cart.keepMaxClass s (count c) c) (count c)
        s.totalElemCount 3 = .ok s' ∧
      HoldsGini s' size trueTotalCount count (classes ++ [c]) squares ∧
      s'.lessElemCount = s.lessElemCount ∧ s'.greatElemCount = s.greatElemCount := by
  have hpos : 0 < size := zero_lt_one.trans_le htotal
  have hkept := h.max.keepMaxClass c
  have heq := keepMaxClass_eq s (count c) c
  generalize Cart.keepMaxClass s (count c) c = kept at hkept heq ⊢
  unfold dtAccumulatePreSplitScv
  rw [h.totalElemCount, if_neg (by decide), if_neg (not_not.mpr hpos), if_neg (not_not.mpr hcount),
    if_neg (by decide)]
  refine ⟨_, rfl, ⟨?_, ?_, ?_, ?_, ?_, hkept⟩, ?_, ?_⟩
  · rw [heq]
    exact h.totalElemCount
  · rw [heq]
    exact h.trueTotalCount
  · rw [heq]
    exact h.splitCrit
  · rw [heq, List.map_append, List.sum_append, List.map_singleton, List.sum_singleton,
      ← sub_sub, ← h.initScv, sq]
  · rw [heq]
    exact h.giniData
  · rw [heq]
  · rw [heq]

/-- The five kinds of rows, behind the first one. -/
theorem sfunc_classTotal (h : Cart.initOnce s (giniRow false x none (some (c : K)) n 0) = s) :
    dtScvAggrSfunc log s (giniRow false x none (some (c : K)) n 0) =
      dtAccumulatePreSplitScv log (keepMaxClass s n c) n s.totalElemCount 3 := by
  have hcls : ¬(c : K) < 0 := not_lt.mpr (Nat.cast_nonneg c)
  rw [dtScvAggrSfunc, h]
  simp [giniRow, nullFeatureRow, AcsRow.isContFeature, AcsRow.clsValue, AcsRow.less, IsCriterion,
    hcls]

theorem sfunc_subTotal (h : Cart.initOnce s (giniRow false x (some v) none n 0) = s) :
    dtScvAggrSfunc log s (giniRow false x (some v) none n 0) =
      .ok { s with currFeatureValue := v, currFeatureElemCount := n } := by
  rw [dtScvAggrSfunc, h]
  simp [giniRow, subTotalRow, AcsRow.isContFeature, AcsRow.clsValue, AcsRow.less, IsCriterion]

theorem sfunc_featureClass (h : Cart.initOnce s (giniRow false x (some v) (some (c : K)) n 0) = s) :
    dtScvAggrSfunc log s (giniRow false x (some v) (some (c : K)) n 0) =
      .ok (addScv log s 3 n s.currFeatureElemCount) := by
  have hcls : ¬(c : K) < 0 := not_lt.mpr (Nat.cast_nonneg c)
  rw [dtScvAggrSfunc, h]
  simp [giniRow, classRow, AcsRow.isContFeature, AcsRow.clsValue, AcsRow.less, IsCriterion, hcls]

theorem sfunc_sideClass (h : Cart.initOnce s (giniRow true x (some v) (some (c : K)) n m) = s) :
    dtScvAggrSfunc log s (giniRow true x (some v) (some (c : K)) n m) = (do
      let s ← dtAccumulatePreSplitScv log (keepMaxClass s (n + m) c) (n + m) s.totalElemCount 3
      pure (addScv log (addScv log s 3 n s.lessElemCount) 3 m s.greatElemCount)) := by
  have hcls : ¬(c : K) < 0 := not_lt.mpr (Nat.cast_nonneg c)
  rw [dtScvAggrSfunc, h]
  simp [giniRow, classRow, AcsRow.isContFeature, AcsRow.clsValue, AcsRow.less, AcsRow.great,
    IsCriterion, hcls]

theorem holdsGini_total (size trueTotalCount : K) (count : ℕ → K) :
    ∃ s, dtScvAggrSfunc log scvInitcond (giniRow false trueTotalCount none none size 0) = .ok s ∧
      HoldsGini s size trueTotalCount count [] 0 := by
  have hzero : dtIsFloatZero (scvInitcond : ScvState K).totalElemCount := dtIsFloatZero_zero
  refine ⟨{ scvInitcond with
    totalElemCount := size, trueTotalCount := trueTotalCount, splitCrit := 3, initScv := 1 },
    ?_, rfl, rfl, rfl, ?_, rfl, .inl ⟨rfl, by simp⟩⟩
  · simp [dtScvAggrSfunc, nullFeatureRow, Cart.initOnce, hzero, giniRow, AcsRow.isContFeature,
      AcsRow.clsValue, AcsRow.less, AcsRow.trueTotalCount, IsCriterion]
    rfl
  · simp

theorem holdsGini_sides (le gt trueTotalCount v : K) (count : ℕ → K) :
    ∃ s, dtScvAggrSfunc log scvInitcond (giniRow true trueTotalCount (some v) none le gt) =
        .ok s ∧
      HoldsGini s (le + gt) trueTotalCount count [] 0 ∧ s.lessElemCount = le ∧
      s.greatElemCount = gt := by
  have hzero : dtIsFloatZero (scvInitcond : ScvState K).totalElemCount := dtIsFloatZero_zero
  refine ⟨{ scvInitcond with
    totalElemCount := le + gt, trueTotalCount := trueTotalCount, splitCrit := 3, initScv := 1
    isCont := 1, lessElemCount := le, greatElemCount := gt },
    ?_, ⟨rfl, rfl, rfl, ?_, rfl, .inl ⟨rfl, by simp⟩⟩, rfl, rfl⟩
  · simp [dtScvAggrSfunc, subTotalRow, Cart.initOnce, hzero, giniRow, AcsRow.isContFeature,
      AcsRow.clsValue, AcsRow.less, AcsRow.great, AcsRow.trueTotalCount, IsCriterion]
  · simp

/-! ## All rows -/

theorem HoldsGini.classTotals (h : HoldsGini s size trueTotalCount count classes squares)
    (htotal : 1 ≤ size) (x : K) (rest : List ℕ) (hcount : ∀ c ∈ rest, 0 ≤ count c) :
    ∃ s', (rest.map fun c : ℕ => giniRow false x none (some (c : K)) (count c) 0).foldlM
        (dtScvAggrSfunc log) s = .ok s' ∧
      HoldsGini s' size trueTotalCount count (classes ++ rest) squares := by
  induction rest generalizing s classes with
  | nil => exact ⟨s, rfl, by rwa [List.append_nil]⟩
  | cons c rest ih =>
      rw [List.forall_mem_cons] at hcount
      obtain ⟨mid, hmid, hholds, -⟩ := h.accumulate log htotal hcount.1
      obtain ⟨s', hrun, hholds'⟩ := ih hholds hcount.2
      refine ⟨s', ?_, by rwa [List.append_assoc] at hholds'⟩
      rw [List.map_cons, List.foldlM_cons, sfunc_classTotal log (h.initOnce htotal _), hmid,
        ok_bind, hrun]

theorem HoldsGini.featureClasses (h : HoldsGini s size trueTotalCount count classes squares)
    (htotal : 1 ≤ size) (x v : K) (hn : 0 ≤ s.currFeatureElemCount) (part : ℕ → K)
    (rest : List ℕ) :
    ∃ s', (rest.map fun c : ℕ => giniRow false x (some v) (some (c : K)) (part c) 0).foldlM
        (dtScvAggrSfunc log) s = .ok s' ∧
      HoldsGini s' size trueTotalCount count classes
        (squares + (rest.map fun c => part c ^ 2 / s.currFeatureElemCount).sum) := by
  induction rest generalizing s squares with
  | nil => exact ⟨s, rfl, by simpa using h⟩
  | cons c rest ih =>
      obtain ⟨s', hrun, hholds⟩ := ih (h.addSquares (part c ^ 2 / s.currFeatureElemCount)) hn
      refine ⟨s', ?_, by rwa [List.map_cons, List.sum_cons, ← add_assoc]⟩
      rw [List.map_cons, List.foldlM_cons, sfunc_featureClass log (h.initOnce htotal _),
        addScv_gini log s hn, ok_bind, hrun]

theorem branch_nonneg (v : FeatureValue K) (classes : List ℕ) :
    ∀ c ∈ classes, 0 ≤ v.branch c := fun _ _ => Nat.cast_nonneg _

theorem HoldsGini.featureValue (h : HoldsGini s size trueTotalCount count classes squares)
    (htotal : 1 ≤ size) (x : K) (t : DiscreteTable K) {v : FeatureValue K} (hv : v ∈ t.values) :
    ∃ s', (v.rows t.classes x).foldlM (dtScvAggrSfunc log) s = .ok s' ∧
      HoldsGini s' size trueTotalCount count classes
        (squares + branchSquares t.classes v.branch) := by
  have hmid : HoldsGini
      { s with
        currFeatureValue := v.value
        currFeatureElemCount := branchTotal t.classes v.branch }
      size trueTotalCount count classes squares :=
    ⟨h.totalElemCount, h.trueTotalCount, h.splitCrit, h.initScv, h.giniData, h.max⟩
  have hn := branchTotal_nonneg (branch_nonneg v t.classes)
  obtain ⟨s', hrun, hholds⟩ := hmid.featureClasses log htotal x v.value hn v.branch
    v.rowClasses
  refine ⟨s', ?_, ?_⟩
  · rw [FeatureValue.rows, List.foldlM_cons, sfunc_subTotal log (h.initOnce htotal _), ok_bind]
    exact hrun
  · rwa [sum_rowClasses t hv] at hholds
    intro c hc
    simp [FeatureValue.branch, hc]

theorem HoldsGini.featureValues (h : HoldsGini s size trueTotalCount count classes squares)
    (htotal : 1 ≤ size) (x : K) (t : DiscreteTable K) {values : List (FeatureValue K)}
    (hvalues : values ⊆ t.values) :
    ∃ s', (values.flatMap fun v => v.rows t.classes x).foldlM (dtScvAggrSfunc log) s = .ok s' ∧
      HoldsGini s' size trueTotalCount count classes
        (squares + (values.map fun v => branchSquares t.classes v.branch).sum) := by
  induction values generalizing s squares with
  | nil => exact ⟨s, rfl, by simpa using h⟩
  | cons v values ih =>
      rw [List.cons_subset] at hvalues
      obtain ⟨mid, hmid, hholds⟩ := h.featureValue log htotal x t hvalues.1
      obtain ⟨s', hrun, hholds'⟩ := ih hholds hvalues.2
      refine ⟨s', ?_, by rwa [List.map_cons, List.sum_cons, ← add_assoc]⟩
      rw [List.flatMap_cons, List.foldlM_append, hmid, ok_bind, hrun]

theorem HoldsGini.sideClasses (h : HoldsGini s size trueTotalCount count classes squares)
    (htotal : 1 ≤ size) (x v : K) (hle : 0 ≤ s.lessElemCount) (hgt : 0 ≤ s.greatElemCount)
    {le gt : ℕ → K} (hcount : ∀ c, le c + gt c = count c) (rest : List ℕ)
    (hnonneg : ∀ c ∈ rest, 0 ≤ count c) :
    ∃ s', (rest.map fun c : ℕ => giniRow true x (some v) (some (c : K)) (le c) (gt c)).foldlM
        (dtScvAggrSfunc log) s = .ok s' ∧
      HoldsGini s' size trueTotalCount count (classes ++ rest) (squares +
        ((rest.map fun c => le c ^ 2 / s.lessElemCount).sum +
          (rest.map fun c => gt c ^ 2 / s.greatElemCount).sum)) := by
  induction rest generalizing s classes squares with
  | nil => exact ⟨s, rfl, by simpa using h⟩
  | cons c rest ih =>
      rw [List.forall_mem_cons] at hnonneg
      obtain ⟨mid, hmid, hholds, hless, hgreat⟩ := h.accumulate log htotal hnonneg.1
      rw [← hless] at hle
      rw [← hgreat] at hgt
      have hboth := (hholds.addSquares (le c ^ 2 / mid.lessElemCount)).addSquares
        (gt c ^ 2 / mid.greatElemCount)
      obtain ⟨s', hrun, hholds'⟩ := ih hboth hle hgt hnonneg.2
      refine ⟨s', ?_, ?_⟩
      · rw [List.map_cons, List.foldlM_cons, sfunc_sideClass log (h.initOnce htotal _), hcount,
          hmid, ok_bind, addScv_gini log mid hle, addScv_gini log _ hgt]
        exact hrun
      · rw [List.append_assoc] at hholds'
        rw [← hless, ← hgreat, List.map_cons, List.sum_cons, List.map_cons, List.sum_cons]
        have hsquares : ∀ a b c d : K, squares + (a + b + (c + d)) = squares + a + c + (b + d) := by
          intro a b c d
          ring
        rw [hsquares]
        exact hholds'

end Rows

/-! ## The result -/

/-- The total count of the training set; 0 stands for that of the table. -/
def effectiveTotal (trueTotalCount total : K) : K :=
  if trueTotalCount = 0 then total else trueTotalCount

/-- The rows give the gain of the split, and a most frequent class. -/
def GiniCorrect (log : K → K) (rows : List (AcsRow K)) (classes : List ℕ) (branches : List (ℕ → K))
    (trueTotalCount : K) : Prop :=
  ∃ final, (scvState log rows >>= dtScvAggrFfunc log) = .ok final ∧
    final.giniGain = giniGain classes branches * total classes branches /
      effectiveTotal trueTotalCount (total classes branches) ∧
    0 ≤ final.giniGain ∧
    ∃ c ∈ classes, (∀ c' ∈ classes, classTotal branches c' ≤ classTotal branches c) ∧
      final.classId = c ∧
      final.classProb = classTotal branches c /
        effectiveTotal trueTotalCount (total classes branches)

section Result

variable [IsStrictOrderedRing K] {log : K → K} {branches : List (ℕ → K)}

theorem HoldsGini.giniCorrect {rows : List (AcsRow K)}
    (h : HoldsGini s (total classes branches) trueTotalCount (classTotal branches) classes
      (branches.map (branchSquares classes)).sum) (hrun : scvState log rows = .ok s)
    (hcounts : ∀ b ∈ branches, ∀ c ∈ classes, 0 ≤ b c) (htotal : 1 ≤ total classes branches)
    (htrue : trueTotalCount = 0 ∨ total classes branches ≤ trueTotalCount) :
    GiniCorrect log rows classes branches trueTotalCount := by
  have hpos : 0 < total classes branches := zero_lt_one.trans_le htotal
  have hnonneg := giniGain_nonneg hcounts hpos
  have heffective : s.trueTotal = effectiveTotal trueTotalCount (total classes branches) ∧
      0 < s.trueTotal := by
    rw [ScvState.trueTotal, effectiveTotal, h.trueTotalCount, h.totalElemCount]
    rcases htrue with hzero | hle
    · rw [hzero, if_neg (lt_irrefl 0), if_pos rfl]
      exact ⟨rfl, hpos⟩
    · have htrue := hpos.trans_le hle
      rw [if_pos htrue, if_neg htrue.ne']
      exact ⟨rfl, htrue⟩
  have hffunc : dtScvAggrFfunc log s = .ok (finalGini s (finalCommon s)) := by
    have hcode : ∀ n : ℤ, IsCode s.splitCrit n ↔ 3 = n := by
      intro n
      rw [h.splitCrit, ← isCode_intCast (K := K)]
      norm_num
    unfold dtScvAggrFfunc
    rw [if_neg (not_not.mpr heffective.2), h.totalElemCount,
      if_neg (not_dtIsFloatZero_of_one_le htotal), if_neg (by rw [hcode]; decide),
      if_neg (by rw [hcode]; decide), if_pos ((hcode 3).mpr rfl)]
  have hgain : (finalGini s (finalCommon s)).giniGain =
      giniGain classes branches * total classes branches /
        effectiveTotal trueTotalCount (total classes branches) := by
    rw [← heffective.1, mul_div_assoc, giniGain_eq hpos.ne']
    unfold finalGini
    dsimp only
    rw [h.initScv, h.giniData, h.totalElemCount]
    ring
  refine ⟨finalGini s (finalCommon s), by rw [hrun, ok_bind, hffunc], hgain, ?_, ?_⟩
  · rw [hgain, ← heffective.1]
    exact div_nonneg (mul_nonneg hnonneg hpos.le) heffective.2.le
  · rcases h.max with ⟨-, hle⟩ | ⟨c, hc, hid, hcount, hle⟩
    · have hnonpos : total classes branches ≤ 0 := by
        rw [← sum_classTotal]
        simpa using List.sum_le_sum hle
      exact absurd hnonpos (not_le.mpr hpos)
    · refine ⟨c, hc, hle, hid, ?_⟩
      have hprob : (finalGini s (finalCommon s)).classProb =
          s.maxClassElemCount / s.trueTotal := rfl
      rw [hprob, hcount, heffective.1]

theorem DiscreteTable.branches_nonneg (t : DiscreteTable K) :
    ∀ b ∈ t.branches, ∀ c ∈ t.classes, 0 ≤ b c := by
  intro b hb c hc
  obtain ⟨v, -, rfl⟩ := List.mem_map.mp hb
  exact branch_nonneg v t.classes c hc

theorem ContinuousTable.branches_nonneg (t : ContinuousTable K) :
    ∀ b ∈ t.branches, ∀ c ∈ t.classes, 0 ≤ b c := by
  intro b hb c _
  simp only [ContinuousTable.branches, List.mem_cons, List.not_mem_nil, or_false] at hb
  rcases hb with rfl | rfl
  · exact Nat.cast_nonneg _
  · exact Nat.cast_nonneg _

theorem classTotal_nonneg (hcounts : ∀ b ∈ branches, ∀ c ∈ classes, 0 ≤ b c) :
    ∀ c ∈ classes, 0 ≤ classTotal branches c := by
  intro c hc
  apply List.sum_nonneg
  intro n hn
  obtain ⟨b, hb, rfl⟩ := List.mem_map.mp hn
  exact hcounts b hb c hc

theorem DiscreteTable.giniCorrect (t : DiscreteTable K)
    (htotal : 1 ≤ total t.classes (t.branches : List (ℕ → K)))
    (htrue : trueTotalCount = 0 ∨ total t.classes t.branches ≤ trueTotalCount) :
    GiniCorrect log (t.rows trueTotalCount) t.classes t.branches trueTotalCount := by
  obtain ⟨s₀, hrun₀, h₀⟩ := holdsGini_total log (total t.classes t.branches) trueTotalCount
    (classTotal t.branches)
  obtain ⟨s₁, hrun₁, h₁⟩ := h₀.classTotals log htotal trueTotalCount t.classes
    (classTotal_nonneg t.branches_nonneg)
  obtain ⟨s₂, hrun₂, h₂⟩ := h₁.featureValues log htotal trueTotalCount t
    (List.Subset.refl t.values)
  have hsquares : (t.branches.map (branchSquares t.classes)).sum =
      0 + (t.values.map fun v => branchSquares t.classes (v.branch : ℕ → K)).sum := by
    rw [zero_add, DiscreteTable.branches, List.map_map]
    rfl
  rw [← hsquares, List.nil_append] at h₂
  apply h₂.giniCorrect _ t.branches_nonneg htotal htrue
  rw [scvState, DiscreteTable.rows, List.foldlM_append, List.foldlM_cons, hrun₀, ok_bind, hrun₁,
    ok_bind, hrun₂]

theorem ContinuousTable.giniCorrect (t : ContinuousTable K)
    (htotal : 1 ≤ total t.classes (t.branches : List (ℕ → K)))
    (htrue : trueTotalCount = 0 ∨ total t.classes t.branches ≤ trueTotalCount) :
    GiniCorrect log (t.rows trueTotalCount) t.classes t.branches trueTotalCount := by
  have hle : 0 ≤ branchTotal t.classes fun c => (t.le c : K) :=
    branchTotal_nonneg fun _ _ => Nat.cast_nonneg _
  have hgt : 0 ≤ branchTotal t.classes fun c => (t.gt c : K) :=
    branchTotal_nonneg fun _ _ => Nat.cast_nonneg _
  have hsides : total t.classes t.branches =
      (branchTotal t.classes fun c => (t.le c : K)) +
        branchTotal t.classes fun c => (t.gt c : K) := by
    simp [total, ContinuousTable.branches]
  have hcount : ∀ c, (t.le c : K) + t.gt c = classTotal t.branches c := by
    intro c
    simp [classTotal, ContinuousTable.branches]
  obtain ⟨s₀, hrun₀, h₀, hless, hgreat⟩ := holdsGini_sides log
    (branchTotal t.classes fun c => (t.le c : K)) (branchTotal t.classes fun c => (t.gt c : K))
    trueTotalCount t.splitValue (classTotal t.branches)
  rw [← hsides] at h₀
  obtain ⟨s₁, hrun₁, h₁⟩ := h₀.sideClasses log htotal trueTotalCount t.splitValue
    (hless ▸ hle) (hgreat ▸ hgt) hcount t.classes (classTotal_nonneg t.branches_nonneg)
  have hsquares : (t.branches.map (branchSquares t.classes)).sum =
      0 + ((t.classes.map fun c => (t.le c : K) ^ 2 / s₀.lessElemCount).sum +
        (t.classes.map fun c => (t.gt c : K) ^ 2 / s₀.greatElemCount).sum) := by
    rw [hless, hgreat]
    simp [ContinuousTable.branches, branchSquares]
  rw [← hsquares, List.nil_append] at h₁
  apply h₁.giniCorrect _ t.branches_nonneg htotal htrue
  rw [scvState, ContinuousTable.rows, List.foldlM_cons, hrun₀, ok_bind, hrun₁]

/-- The aggregate computes the gain, which is not negative, for both kinds of features. -/
theorem giniGain_correct (log : K → K) (trueTotalCount : K) :
    (∀ t : DiscreteTable K, 1 ≤ total t.classes (t.branches : List (ℕ → K)) →
      trueTotalCount = 0 ∨ total t.classes t.branches ≤ trueTotalCount →
        GiniCorrect log (t.rows trueTotalCount) t.classes t.branches trueTotalCount) ∧
    ∀ t : ContinuousTable K, 1 ≤ total t.classes (t.branches : List (ℕ → K)) →
      trueTotalCount = 0 ∨ total t.classes t.branches ≤ trueTotalCount →
        GiniCorrect log (t.rows trueTotalCount) t.classes t.branches trueTotalCount :=
  ⟨fun t => t.giniCorrect, fun t => t.giniCorrect⟩

end Result

/-- Two values with the classes 1 and 2; the first one has no row for the class 2. -/
def smallTable : DiscreteTable ℚ where
  classes := [1, 2]
  values := [⟨1, fun c => if c = 1 then 2 else 0, [1]⟩, ⟨2, fun _ => 1, [2, 1]⟩]
  classes_nodup := by decide
  rowClasses_nodup := by decide
  rowClasses_subset := by decide
  mem_rowClasses := by decide

theorem giniGain_correct_small :
    GiniCorrect id (smallTable.rows 5) smallTable.classes smallTable.branches 5 ∧
      GiniCorrect id ((⟨1, [1, 2], id, id⟩ : ContinuousTable ℚ).rows 0) [1, 2]
        (⟨1, [1, 2], id, id⟩ : ContinuousTable ℚ).branches 0 := by
  have htotal : total smallTable.classes (smallTable.branches : List (ℕ → ℚ)) = 4 := by
    norm_num [smallTable, DiscreteTable.branches, FeatureValue.branch, total, branchTotal]
  have htotal' : total [1, 2] ((⟨1, [1, 2], id, id⟩ : ContinuousTable ℚ).branches) = 6 := by
    norm_num [ContinuousTable.branches, total, branchTotal]
  constructor
  · exact (giniGain_correct id 5).1 smallTable (by rw [htotal]; norm_num)
      (.inr (by rw [htotal]; norm_num))
  · exact (giniGain_correct id 0).2 ⟨1, [1, 2], id, id⟩ (by rw [htotal']; norm_num) (.inl rfl)

end Madlib.Cart
