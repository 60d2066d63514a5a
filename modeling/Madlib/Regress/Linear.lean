import Madlib.Regress.SummedState

/-!
# Linear regression

The transition state of `linregr`: the number of rows, their width, the sums of `y` and `y * y`,
`X^T y` and the lower triangle of `X^T X`.  A row is a pair of `y` and `x`.  The elements of `x`
are finite, so the checks for that are left out.
-/

namespace Madlib.Regress

open Madlib.Backend Madlib.Dbal Madlib.Lib.MachineInt Madlib.Lib.Segments

/-- `LinRegrTransitionState` -/
def linRegrLayout : Layout where
  widthIndex := 1
  arraySize w := intIndex (4 + w + w % 2 + w * w)
  fields w := [(0, 1), (1, 1), (2, 1), (3, 1), (4, w), (intIndex (4 + w + w % 2), w * w)]
  numRows _ := 0

/-- The number of elements a state of width `w` needs. -/
def linRegrLength (w : Nat) : Nat := 4 + w + w % 2 + w * w

section Functions

variable {α : Type} [Field α]

/-- `LinRegrTransitionState::operator+=` -/
def linRegrPlusEq (_ _ : Nat) (stateLeft stateRight : List α) : Except Fault (List α) :=
  if stateLeft.length ≠ stateRight.length then
    .error (thrown "Internal error: Incompatible transition states")
  else do
    let storage := plusEq stateLeft fun i => stateRight.getD i 0
    -- Undo the addition of widthOfX
    let widthOfX ← elementAt stateRight 1
    pure (storage.set 1 widthOfX)

/-- What the transition step does once the state has a width. -/
def linregrAddRow (state : List α) (width : Nat) (y : α) (x : List α) :
    Except Fault (List α) := do
  let state := plusEq state (scalarTerm 0 1)
  let state := plusEq state (scalarTerm 2 y)
  let state := plusEq state (scalarTerm 3 (y * y))
  eigenAssert (x.length = width)
  let state ← mapPlusEq state 4 width (vectorTerm 4 (x.map fun a => a * y))
  mapPlusEq state (intIndex (4 + width + width % 2)) (width * width)
    (lowerTerm (intIndex (4 + width + width % 2)) width fun i j => x.getD i 0 * x.getD j 0)

variable [LinearOrder α] [FloorRing α]

def linregrTransition (state : List α) (y : α) (x : List α) : Except Fault (List α) := do
  let started ← linRegrLayout.start state (
    if 65535 < x.length then
      .error (thrown "Number of independent variables cannot be larger than 65535.")
    else linRegrLayout.initializeState x.length)
  linregrAddRow started.1 started.2 y x

/-- `linregr_merge_states` -/
def linregrMergeStates : List α → List α → Except Fault (List α) :=
  linRegrLayout.mergeStates linRegrPlusEq

/-- The aggregate `linregr` up to its final function. -/
def linregr : Aggregate Fault (α × List α) (List α) where
  init := List.replicate 5 0
  transition state row := linregrTransition state row.1 row.2
  merge := linregrMergeStates

end Functions

/-! ## Widths a state can have -/

section Layout

variable {w : Nat}

theorem linRegrLayout_arraySize :
    linRegrLayout.arraySize w = intIndex (4 + w + w % 2 + w * w) := rfl

theorem linRegrLayout_fits (hw : 0 < w) (halloc : 8 * linRegrLength w + 40 ≤ maxAllocSize) :
    linRegrLayout.Fits w (linRegrLength w) := by
  have hmax : maxAllocSize = 1073741823 := rfl
  have hsq : w * 1 ≤ w * w := Nat.mul_le_mul_left w hw
  unfold linRegrLength at halloc
  have hindex : intIndex (4 + w + w % 2) = 4 + w + w % 2 := intIndex_of_lt (by omega)
  apply Layout.Fits.of_fields
  · rw [linRegrLayout_arraySize, intIndex_of_lt (by omega), linRegrLength]
  · exact halloc
  · omega
  · simp only [linRegrLayout, linRegrLength]
    omega
  · simp only [linRegrLayout, linRegrLength]
    omega
  · simp only [linRegrLayout, linRegrLength, hindex, List.forall_mem_cons, List.not_mem_nil,
      IsEmpty.forall_iff, implies_true, and_true]
    omega

/-- A state is only initialized for a width that fits. -/
theorem linRegrLayout_fits_of_initialized {α : Type} [Field α] {fresh : List α × Nat}
    (hw : w < 65536) (h : linRegrLayout.initializeState w = .ok fresh) :
    0 < w ∧ 8 * linRegrLength w + 40 ≤ maxAllocSize := by
  obtain ⟨halloc, hfields, _⟩ := Layout.initializeState_eq_ok h
  rw [Nat.mod_eq_of_lt hw, linRegrLayout_arraySize] at halloc hfields
  have hsq : w * w ≤ 65535 * 65535 := Nat.mul_le_mul (by omega) (by omega)
  have hlt : 4 + w + w % 2 + w * w < 2147483648 := lt_of_intIndex_le (by omega) halloc
  rw [intIndex_of_lt hlt] at halloc hfields
  have hcoef := hfields (4, w) (by simp [linRegrLayout])
  constructor
  · by_contra hzero
    obtain rfl : w = 0 := by omega
    exact absurd hcoef (by decide)
  · exact halloc

end Layout

/-! ## What a row adds -/

section Rows

variable {α : Type} [Field α] {w : Nat}

def linRegrTerms (w : Nat) (row : α × List α) (k : Nat) : α :=
  scalarTerm 0 1 k + scalarTerm 2 row.1 k + scalarTerm 3 (row.1 * row.1) k +
    vectorTerm 4 (row.2.map fun a => a * row.1) k +
    lowerTerm (4 + w + w % 2) w (fun i j => row.2.getD i 0 * row.2.getD j 0) k

/-- The state before the first row of width `w`. -/
def linRegrBase (w : Nat) : List α := (List.replicate (linRegrLength w) 0).set 1 (w : α)

theorem linregrAddRow_ok (hfits : linRegrLayout.Fits w (linRegrLength w)) {state : List α}
    (hlen : state.length = linRegrLength w) {row : α × List α} (hrow : row.2.length = w) :
    linregrAddRow state w row.1 row.2 = .ok (plusEq state (linRegrTerms w row)) := by
  have hw := hfits.width_lt
  have hindex : intIndex (4 + w + w % 2) = 4 + w + w % 2 := intIndex_of_lt (by omega)
  unfold linRegrLength at hlen
  unfold linregrAddRow
  simp only [plusEq_plusEq, eigenAssert_true hrow, ok_bind, hindex]
  rw [mapPlusEq_ok (by rw [length_plusEq]; omega), ok_bind, plusEq_plusEq,
    mapPlusEq_ok (by rw [length_plusEq]; omega), plusEq_plusEq]
  rfl

theorem linRegr_sumsOver (hfits : linRegrLayout.Fits w (linRegrLength w)) :
    SumsOver linRegrLayout w (linRegrLength w) (linRegrBase w : List α) (linRegrTerms w)
      (fun k => !(k == 1)) fun row => row.2.length = w := by
  constructor
  · exact hfits
  · exact hfits.holds_initial
  · intro k hk hintra
    have hne : 1 ≠ k := by
      rintro rfl
      cases hintra
    unfold linRegrBase
    rw [List.getElem?_set_ne hne, List.getElem?_replicate, if_pos hk]
  · intro row k hrow hintra
    obtain rfl : k = 1 := by simpa using hintra
    simp (disch := omega) only [linRegrTerms, scalarTerm_ne, vectorTerm_lt, lowerTerm_lt, add_zero]
  · rfl
  · rfl
  · intro row hrow
    simp (disch := omega) only [linRegrTerms, linRegrLayout, scalarTerm_self, scalarTerm_ne,
      vectorTerm_lt, lowerTerm_lt, add_zero]

/-- Adding all elements and restoring the width is adding the elements rows add to. -/
theorem linRegrPlusEq_ok {l r : List α} (hl : linRegrLayout.Holds w (linRegrLength w) l)
    (hr : linRegrLayout.Holds w (linRegrLength w) r) :
    linRegrPlusEq w w l r = .ok (plusEq l (intraTerms (fun k => !(k == 1)) r)) := by
  have hl1 : l[1]? = some (w : α) := hl.width_eq
  have hr1 : r[1]? = some (w : α) := hr.width_eq
  unfold linRegrPlusEq
  rw [if_neg (not_not.mpr (hl.length_eq.trans hr.length_eq.symm)), elementAt_eq_ok hr1, ok_bind]
  refine congrArg Except.ok ?_
  apply List.ext_getElem?
  intro k
  by_cases hk : k = 1
  · rw [hk, List.getElem?_set_self, getElem?_plusEq, hl1]
    · simp [intraTerms]
    · rw [length_plusEq]
      exact (List.getElem?_eq_some_iff.mp hl1).1
  · rw [List.getElem?_set_ne (Ne.symm hk), getElem?_plusEq, getElem?_plusEq]
    simp [intraTerms, hk]

/-- What the fields of a state of width `w` are. -/
structure LinRegrSums (w : Nat) (rows : Multiset (α × List α)) (state : List α) : Prop where
  length_eq : state.length = linRegrLength w
  numRows : state[0]? = some (rows.card : α)
  widthOfX : state[1]? = some (w : α)
  y_sum : state[2]? = some (rows.map fun row => row.1).sum
  y_square_sum : state[3]? = some (rows.map fun row => row.1 * row.1).sum
  X_transp_Y : ∀ i, i < w →
    state[4 + i]? = some (rows.map fun row => row.2.getD i 0 * row.1).sum
  X_transp_X : ∀ i j, j ≤ i → i < w →
    state[4 + w + w % 2 + (j * w + i)]? =
      some (rows.map fun row => row.2.getD i 0 * row.2.getD j 0).sum

theorem linRegrSums_summed {rows : Multiset (α × List α)}
    (hfits : linRegrLayout.Fits w (linRegrLength w)) (hrows : ∀ row ∈ rows, row.2.length = w) :
    LinRegrSums w rows (summed (linRegrBase w) (linRegrTerms w) rows) := by
  have hsums := linRegr_sumsOver (α := α) hfits
  have hlength : linRegrLength w = 4 + w + w % 2 + w * w := rfl
  constructor
  · exact (hsums.holds_summed hrows).length_eq
  · exact hsums.numRows_summed hrows
  · exact (hsums.holds_summed hrows).width_eq
  · apply hsums.getElem?_summed (by omega) (by simp)
    intro row hrow
    simp (disch := omega) only [linRegrTerms, scalarTerm_self, scalarTerm_ne, vectorTerm_lt,
      lowerTerm_lt, add_zero, zero_add]
  · apply hsums.getElem?_summed (by omega) (by simp)
    intro row hrow
    simp (disch := omega) only [linRegrTerms, scalarTerm_self, scalarTerm_ne, vectorTerm_lt,
      lowerTerm_lt, add_zero, zero_add]
  · intro i hi
    apply hsums.getElem?_summed (by omega) (by simp; omega)
    intro row hrow
    simp (disch := omega) only [linRegrTerms, scalarTerm_ne, vectorTerm_add, lowerTerm_lt,
      add_zero, zero_add]
    exact getD_map_mul row.2 row.1 i
  · intro i j hji hi
    have hentry : j * w + w ≤ w * w := by
      rw [← Nat.succ_mul]
      exact Nat.mul_le_mul_right w (by omega)
    apply hsums.getElem?_summed (by omega) (by simp; omega)
    intro row hrow
    have hvector : (row.2.map fun a => a * row.1).length = w := by
      rw [List.length_map, hrows row hrow]
    simp only [linRegrTerms]
    rw [vectorTerm_ge (by omega), lowerTerm_add hji hi]
    simp (disch := omega) only [scalarTerm_ne, zero_add]

end Rows

/-! ## Segments -/

section Segments

variable {α : Type} [Field α] [LinearOrder α] [FloorRing α] {w : Nat}

theorem linregr_empty [IsStrictOrderedRing α] :
    Layout.Empty linRegrLayout (linregr (α := α)).init := by
  have hindex : intIndex (4 + 0 + 0 % 2) = 4 := intIndex_of_lt (by omega)
  apply Layout.Empty.replicate
  · decide
  · decide
  · simp [linRegrLayout, hindex]

theorem linregr_sumsRows [IsStrictOrderedRing α]
    (hfits : linRegrLayout.Fits w (linRegrLength w)) :
    SumsRows linregr linRegrLayout w (linRegrLength w) (linRegrBase w : List α) (linRegrTerms w)
      (fun k => !(k == 1)) fun row => row.2.length = w := by
  have hsums := linRegr_sumsOver (α := α) hfits
  constructor
  · exact hsums
  · exact linregr_empty
  · intro row hrow
    have hwidth : ¬65535 < row.2.length := by
      have hlt := hfits.width_lt
      omega
    have hinitialize : linRegrLayout.initializeState row.2.length = .ok ((linRegrBase w : List α), w) :=
      hfits.initializeState hrow
    change linregrTransition linregr.init row.1 row.2 = _
    unfold linregrTransition
    rw [linregr_empty.start, if_neg hwidth, hinitialize, ok_bind,
      linregrAddRow_ok hfits hsums.holds.length_eq hrow, summed_singleton]
  · intro rows row hne hrows hrow
    change linregrTransition _ row.1 row.2 = _
    unfold linregrTransition
    rw [hsums.start hrows hne, ok_bind,
      linregrAddRow_ok hfits (hsums.holds_summed hrows).length_eq hrow, summed_cons]
  · exact ⟨linRegrPlusEq, rfl, fun hl hr _ => linRegrPlusEq_ok hl hr⟩

variable [IsStrictOrderedRing α]

theorem linregr_merge_init : linregrMergeStates (linregr (α := α)).init linregr.init =
    .ok linregr.init :=
  mergeStates_empty_left linregr_empty linregr_empty.construct linregr_empty.numRows

/-- A first row is only accepted when its width fits. -/
theorem fits_of_linregrTransition {y : α} {x state : List α}
    (h : linregrTransition linregr.init y x = .ok state) :
    0 < x.length ∧ 8 * linRegrLength x.length + 40 ≤ maxAllocSize := by
  unfold linregrTransition at h
  rw [linregr_empty.start] at h
  obtain ⟨fresh, hfresh, _⟩ := bind_eq_ok.mp h
  split at hfresh
  case isTrue => cases hfresh
  case isFalse hwidth => exact linRegrLayout_fits_of_initialized (by omega) hfresh

theorem linregr_error {plan : Plan (α × List α)} (hrows : ∀ row ∈ plan.rows, row.2.length = w)
    (hne : plan.rows ≠ 0) (hw : ¬(0 < w ∧ 8 * linRegrLength w + 40 ≤ maxAllocSize)) :
    ∃ e, linregr.run plan = .error e := by
  have hfirst : ∀ row : α × List α, row.2.length = w →
      ∃ e, linregr.transition linregr.init row = .error e := by
    intro row hrow
    cases hstep : linregr.transition linregr.init row with
    | error e => exact ⟨e, rfl⟩
    | ok state =>
        have hfits := fits_of_linregrTransition hstep
        rw [hrow] at hfits
        exact absurd hfits hw
  exact Aggregate.run_error linregr_merge_init hfirst hrows hne

theorem linregr_summed {plan : Plan (α × List α)} (hrows : ∀ row ∈ plan.rows, row.2.length = w)
    (hne : plan.rows ≠ 0) (hfits : linRegrLayout.Fits w (linRegrLength w)) :
    linregr.run plan = .ok (summed (linRegrBase w) (linRegrTerms w) plan.rows) := by
  obtain ⟨state, hrun, _, ⟨hzero, _⟩ | ⟨_, hstate⟩⟩ := (linregr_sumsRows hfits).run hrows
  · exact absurd hzero hne
  · rw [hrun, hstate]

/-- States of different widths have different sizes. -/
theorem linRegrLength_lt {w' : Nat} (h : w < w') : linRegrLength w < linRegrLength w' := by
  have hsq : w * w ≤ w' * w' := Nat.mul_le_mul h.le h.le
  have hstep : (w + 1) * (w + 1) ≤ w' * w' := Nat.mul_le_mul h h
  unfold linRegrLength
  rw [Nat.succ_mul, Nat.mul_succ] at hstep
  omega

theorem linregr_merge_incompatible {w' : Nat} {left right : Multiset (α × List α)}
    (hfits : linRegrLayout.Fits w (linRegrLength w))
    (hfits' : linRegrLayout.Fits w' (linRegrLength w'))
    (hleft : ∀ row ∈ left, row.2.length = w) (hright : ∀ row ∈ right, row.2.length = w')
    (hne : left ≠ 0) (hne' : right ≠ 0) (hw : w ≠ w') :
    linregrMergeStates (summed (linRegrBase w) (linRegrTerms w) left)
      (summed (linRegrBase w') (linRegrTerms w') right) =
      .error (thrown "Internal error: Incompatible transition states") := by
  have hsums := linRegr_sumsOver (α := α) hfits
  have hsums' := linRegr_sumsOver (α := α) hfits'
  have hlength : linRegrLength w ≠ linRegrLength w' := by
    rcases Nat.lt_or_gt_of_ne hw with hlt | hgt
    · exact (linRegrLength_lt hlt).ne
    · exact (linRegrLength_lt hgt).ne'
  unfold linregrMergeStates
  rw [hsums.mergeStates hsums' hleft hright hne hne']
  unfold linRegrPlusEq
  rw [(hsums.holds_summed hleft).length_eq, (hsums'.holds_summed hright).length_eq, if_pos hlength]

/-- The state returned for rows of one width is that of all rows, however they are cut into
segments and the states are merged.  States of different widths are not merged. -/
theorem linregr_partition_independent (w : Nat) (plan : Plan (α × List α))
    (hrows : ∀ row ∈ plan.rows, row.2.length = w) :
    (plan.rows = 0 → linregr.run plan = .ok linregr.init) ∧
    (plan.rows ≠ 0 → 0 < w ∧ 8 * linRegrLength w + 40 ≤ maxAllocSize →
      ∃ state, linregr.run plan = .ok state ∧ LinRegrSums w plan.rows state) ∧
    (plan.rows ≠ 0 → ¬(0 < w ∧ 8 * linRegrLength w + 40 ≤ maxAllocSize) →
      ∃ e, linregr.run plan = .error e) ∧
    ∀ w' other stateLeft stateRight, plan.rows ≠ 0 → other.rows ≠ 0 →
      (∀ row ∈ other.rows, row.2.length = w') → w ≠ w' →
      linregr.run plan = .ok stateLeft → linregr.run other = .ok stateRight →
      linregrMergeStates stateLeft stateRight =
        .error (thrown "Internal error: Incompatible transition states") := by
  have hfits : ∀ {w : Nat} {plan : Plan (α × List α)} {state : List α}, (∀ row ∈ plan.rows, row.2.length = w) → plan.rows ≠ 0 →
      linregr.run plan = .ok state → linRegrLayout.Fits w (linRegrLength w) := by
    intro w plan state hrows hne hrun
    by_cases hw : 0 < w ∧ 8 * linRegrLength w + 40 ≤ maxAllocSize
    · exact linRegrLayout_fits hw.1 hw.2
    · obtain ⟨e, he⟩ := linregr_error hrows hne hw
      rw [he] at hrun
      cases hrun
  constructor
  · exact Aggregate.run_of_rows_eq_zero linregr_merge_init
  constructor
  · intro hne hw
    have hlayout := linRegrLayout_fits hw.1 hw.2
    exact ⟨_, linregr_summed hrows hne hlayout, linRegrSums_summed hlayout hrows⟩
  constructor
  · exact linregr_error hrows
  · intro w' other stateLeft stateRight hne hne' hother hww hleft hright
    have hl := hfits hrows hne hleft
    have hr := hfits hother hne' hright
    rw [linregr_summed hrows hne hl] at hleft
    rw [linregr_summed hother hne' hr] at hright
    cases hleft
    cases hright
    exact linregr_merge_incompatible hl hr hrows hother hne hne' hww

end Segments

theorem linregr_three_segments :
    ∃ state, linregr.run (.merged (.segment [((1 : ℚ), [2])])
        (.merged (.segment []) (.segment [(3, [5])]))) = .ok state ∧
      LinRegrSums 1 {(1, [2]), (3, [5])} state := by
  have hrows : (Plan.merged (.segment [((1 : ℚ), [(2 : ℚ)])])
      (.merged (.segment []) (.segment [(3, [5])]))).rows = {(1, [2]), (3, [5])} := rfl
  rw [← hrows]
  exact (linregr_partition_independent 1 _ (by rw [hrows]; simp)).2.1 (by rw [hrows]; simp)
    (by decide)

end Madlib.Regress
