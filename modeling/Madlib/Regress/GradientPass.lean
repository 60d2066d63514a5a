import Madlib.Regress.LogisticAverage

/-!
# Passes of the incremental-gradient method

A segment's pass over the rows is a fold of gradient steps, with the step size that is in the
state.  Statistics are summed at the coefficients of the previous iteration.
-/

namespace Madlib.Regress

open Madlib.Backend Madlib.Dbal Madlib.Lib.MachineInt Madlib.Lib.Segments

/-- The coefficients in a state of width `w` -/
def igdCoef {α : Type} (w : Nat) (state : List α) : List α := (state.drop 2).take w

theorem length_igdCoef {α : Type} {w : Nat} {storage : List α}
    (hlength : storage.length = logRegrIGDLength w) : (igdCoef w storage).length = w := by
  unfold logRegrIGDLength at hlength
  rw [igdCoef, List.length_take, List.length_drop]
  omega

theorem getElem?_igdCoef {α : Type} (w : Nat) (state : List α) (i : Nat) :
    (igdCoef w state)[i]? = if i < w then state[2 + i]? else none :=
  getElem?_mapElements state 2 w i

section Definitions

variable {α : Type} [Field α]

/-- `x^T c` -/
def linearPredictor (x c : List α) : α := (List.zipWith (fun a b => a * b) x c).sum

/-- One step along the gradient of a row. -/
def gradientStep (stepsize : α) (sigma : α → α) (c : List α) (row : Bool × List α) : List α :=
  List.zipWith (fun a b => a + b) c (row.2.map fun b =>
    stepsize * sigma (-signOf row.1 * linearPredictor row.2 c) * signOf row.1 * b)

/-- The coefficients an iteration starts from -/
def startCoef (previous : Option (List α)) (w : Nat) : List α :=
  match previous with
  | none => List.replicate w 0
  | some previousState => igdCoef w previousState

/-- An entry of `x * trans(x) * a` -/
def crossEntry (sigma : α → α) (c : List α) (i j : Nat) (row : Bool × List α) : α :=
  row.2.getD i 0 * row.2.getD j 0 *
    (sigma (linearPredictor row.2 c) * sigma (-linearPredictor row.2 c))

def logLikelihoodEntry (logOnePlusExp : α → α) (c : List α) (row : Bool × List α) : α :=
  -logOnePlusExp (-signOf row.1 * linearPredictor row.2 c)

/-- The statistics are summed at the coefficients of the previous iteration. -/
structure PreviousSums (sigma logOnePlusExp : α → α) (w : Nat) (rows : List (Bool × List α))
    (previousState state : List α) : Prop where
  matrix : ∀ i j, j ≤ i → i < w → state[3 + w + (j * w + i)]? =
    some (rows.map (crossEntry sigma (igdCoef w previousState) i j)).sum
  logLikelihood : state[3 + w * w + w]? =
    some (rows.map (logLikelihoodEntry logOnePlusExp (igdCoef w previousState))).sum

/-- A pass with the step size 1/10 over the rows, from the previous iteration's coefficients. -/
structure FoldsGradient (sigma logOnePlusExp : α → α) (previous : Option (List α)) (w : Nat)
    (rows : List (Bool × List α)) (state : List α) : Prop where
  coef : igdCoef w state = rows.foldl (gradientStep (1 / 10) sigma) (startCoef previous w)
  numRows : state[2 + w]? = some (rows.length : α)
  sums : ∀ previousState, previous = some previousState →
    PreviousSums sigma logOnePlusExp w rows previousState state

end Definitions

/-! ## One row -/

section Row

variable {α : Type} [Field α] {w : Nat} {storage state : List α}
  {previous : Option (List α)} {sigma logOnePlusExp : α → α} {row : Bool × List α}

/-- What a row adds to a state with this step size. -/
def igdTerms (sigma logOnePlusExp : α → α) (previous : Option (List α)) (w : Nat) (stepsize : α)
    (storage : List α) (row : Bool × List α) (k : Nat) : α :=
  scalarTerm (2 + w) 1 k +
    vectorTerm 2 (row.2.map fun b =>
      stepsize * sigma (-linearPredictor row.2 (igdCoef w storage) * signOf row.1) *
        signOf row.1 * b) k +
    match previous with
    | none => 0
    | some previousState =>
        crossTerm (3 + w) row.2 (sigma (linearPredictor row.2 (igdCoef w previousState)) *
          sigma (-linearPredictor row.2 (igdCoef w previousState))) k +
          scalarTerm (3 + w * w + w)
            (logLikelihoodEntry logOnePlusExp (igdCoef w previousState) row) k

variable [LinearOrder α] [IsStrictOrderedRing α] [FloorRing α]

theorem logregrIGDAddRow_ok (hfits : logRegrIGDLayout.Fits w (logRegrIGDLength w))
    (hprevious : ∀ s, previous = some s → logRegrIGDLayout.Holds w (logRegrIGDLength w) s)
    {stepsize : α} (hlength : storage.length = logRegrIGDLength w)
    (hstepsize : storage[1]? = some stepsize) (hrow : row.2.length = w) :
    logregrIGDAddRow sigma logOnePlusExp previous storage w (signOf row.1) row.2 =
      .ok (plusEq storage (igdTerms sigma logOnePlusExp previous w stepsize storage row)) := by
  have hmax : maxAllocSize = 1073741823 := rfl
  have halloc := hfits.allocates
  have hcoefLength := length_igdCoef hlength
  unfold logRegrIGDLength at halloc hlength
  have hkeep : ((plusEq storage (scalarTerm (2 + w) 1)).drop 2).take w = igdCoef w storage := by
    apply mapElements_plusEq
    intro k _ hk
    exact scalarTerm_ne (by omega)
  have hstep : (plusEq storage (scalarTerm (2 + w) 1))[1]? = some stepsize := by
    rw [getElem?_plusEq_zero (scalarTerm_ne (by omega)), hstepsize]
  unfold logregrIGDAddRow
  simp (disch := omega) only [intIndex_of_lt]
  rw [mapAt_ok (by rw [length_plusEq]; omega), ok_bind, hkeep,
    dot_ok (hrow.trans hcoefLength.symm), ok_bind, elementAt_eq_ok hstep, ok_bind,
    mapPlusEq_ok (by rw [length_plusEq]; omega), ok_bind]
  cases previous with
  | none =>
      simp only [plusEq_plusEq, pure_eq_ok]
      refine congrArg Except.ok (plusEq_congr fun k _ => ?_)
      exact (add_zero _).symm
  | some previousState =>
      have hholds := hprevious previousState rfl
      have hprevLength := length_igdCoef hholds.length_eq
      have hlen : previousState.length = 4 + w * w + w := hholds.length_eq
      dsimp only
      rw [hfits.construct hholds, ok_bind, mapAt_ok (by omega), ok_bind,
        show (previousState.drop 2).take w = igdCoef w previousState from rfl,
        dot_ok (hrow.trans hprevLength.symm), ok_bind,
        mapPlusEq_ok (by rw [length_plusEq, length_plusEq]; omega), ok_bind]
      simp only [plusEq_plusEq, pure_eq_ok]
      refine congrArg Except.ok (plusEq_congr fun k _ => ?_)
      exact add_assoc _ _ _

end Row

/-! ## The rows of a pass -/

section Rows

variable {α : Type} [Field α] {w : Nat} {storage state : List α}
  {previous : Option (List α)} {sigma logOnePlusExp : α → α} {row : Bool × List α}
  {rows : List (Bool × List α)}

/-- The state of a pass after some rows, whatever its step size is. -/
structure GradientState (sigma logOnePlusExp : α → α) (previous : Option (List α)) (w : Nat)
    (rows : List (Bool × List α)) (state : List α) : Prop where
  hasRows : HasRows w previous rows.length state
  coef : igdCoef w state =
    rows.foldl (gradientStep (stepsizeOf previous) sigma) (startCoef previous w)
  sums : ∀ previousState, previous = some previousState →
    PreviousSums sigma logOnePlusExp w rows previousState state

theorem logRegrIGDReset_ok (hfits : logRegrIGDLayout.Fits w (logRegrIGDLength w))
    (hlength : storage.length = logRegrIGDLength w) :
    logRegrIGDReset storage w = .ok (storage.mapIdx fun k a =>
      if k = 1 then igdStepsize else if k < 2 + w then a else 0) := by
  have hmax : maxAllocSize = 1073741823 := rfl
  have halloc := hfits.allocates
  unfold logRegrIGDLength at hlength halloc
  unfold logRegrIGDReset
  simp (disch := omega) only [intIndex_of_lt]
  rw [fillZero_ok (by simp only [List.length_set]; omega), ok_bind, pure_eq_ok]
  simp only [set_eq_mapIdx, List.mapIdx_mapIdx, Except.ok.injEq, List.mapIdx_eq_mapIdx_iff,
    Function.comp_apply]
  intro k hk
  split_ifs <;> first | rfl | omega

/-- A row adds to a coefficient what the gradient step does. -/
theorem igdTerms_coef (stepsize : α) {i : Nat} (hi : i < w) (hrow : row.2.length = w) :
    igdTerms sigma logOnePlusExp previous w stepsize storage row (2 + i) =
      (row.2.map fun b => stepsize *
        sigma (-signOf row.1 * linearPredictor row.2 (igdCoef w storage)) *
          signOf row.1 * b).getD i 0 := by
  have hcomm : -linearPredictor row.2 (igdCoef w storage) * signOf row.1 =
      -signOf row.1 * linearPredictor row.2 (igdCoef w storage) := by ring
  unfold igdTerms
  rw [scalarTerm_ne (by omega), zero_add, vectorTerm_add, hcomm]
  cases previous with
  | none => exact add_zero _
  | some previousState =>
      simp (disch := omega) only [crossTerm, lowerTerm_lt, scalarTerm_ne, add_zero]

theorem igdTerms_matrix (stepsize : α) {i j : Nat} (hji : j ≤ i) (hi : i < w)
    (hrow : row.2.length = w) (previousState : List α) :
    igdTerms sigma logOnePlusExp (some previousState) w stepsize storage row
        (3 + w + (j * w + i)) =
      crossEntry sigma (igdCoef w previousState) i j row := by
  have hentry : j * w + w ≤ w * w := by
    rw [← Nat.succ_mul]
    exact Nat.mul_le_mul_right w (by omega)
  unfold igdTerms
  dsimp only
  rw [scalarTerm_ne (by omega), vectorTerm_ge (by rw [List.length_map]; omega), crossTerm, hrow,
    lowerTerm_add hji hi, scalarTerm_ne (by omega), add_zero, add_zero, zero_add]
  rfl

theorem igdTerms_logLikelihood (stepsize : α) (hrow : row.2.length = w)
    (previousState : List α) :
    igdTerms sigma logOnePlusExp (some previousState) w stepsize storage row
        (3 + w * w + w) =
      logLikelihoodEntry logOnePlusExp (igdCoef w previousState) row := by
  have hbehind : 3 + w ≤ 3 + w * w + w := by omega
  unfold igdTerms
  dsimp only
  rw [scalarTerm_ne (by omega), vectorTerm_ge (by rw [List.length_map]; omega), crossTerm, hrow,
    lowerTerm_ge (by omega), scalarTerm_self, add_zero, zero_add, zero_add]

variable [LinearOrder α] [IsStrictOrderedRing α] [FloorRing α]

/-- What the first row makes of the initial state. -/
theorem gradientState_first (sigma logOnePlusExp : α → α)
    (hfits : logRegrIGDLayout.Fits w (logRegrIGDLength w))
    (hprevious : ∀ s, previous = some s → logRegrIGDLayout.Holds w (logRegrIGDLength w) s) :
    ∃ storage, logRegrIGDLayout.initializeFrom logRegrIGDReset previous w = .ok (storage, w) ∧
      GradientState sigma logOnePlusExp previous w [] storage := by
  have hlen : logRegrIGDLength w = 4 + w * w + w := rfl
  cases previous with
  | none =>
      have hinitialize : logRegrIGDLayout.initializeFrom logRegrIGDReset (α := α) none w = .ok
          ((List.replicate (logRegrIGDLength w) 0).set logRegrIGDLayout.widthIndex (w : α), w) := by
        unfold Layout.initializeFrom
        rw [hfits.initializeState rfl, ok_bind]
        rfl
      refine ⟨_, hinitialize, hasRows_first hfits hprevious hinitialize, ?_, nofun⟩
      apply List.ext_getElem?
      intro i
      rw [getElem?_igdCoef, List.foldl_nil, startCoef, List.getElem?_replicate,
        List.getElem?_set_ne (by simp [logRegrIGDLayout]; omega), List.getElem?_replicate]
      by_cases hi : i < w
      · rw [if_pos hi, if_pos hi, if_pos (by omega)]
      · rw [if_neg hi, if_neg hi]
  | some previousState =>
      have hholds := hprevious previousState rfl
      have hlength : previousState.length = 4 + w * w + w := hholds.length_eq
      have hinitialize : logRegrIGDLayout.initializeFrom logRegrIGDReset (some previousState) w =
          .ok (previousState.mapIdx fun k a =>
            if k = 1 then igdStepsize else if k < 2 + w then a else 0, w) := by
        unfold Layout.initializeFrom
        rw [hfits.initializeState rfl, ok_bind]
        dsimp only
        have htake : previousState.take (logRegrIGDLength w) = previousState :=
          List.take_of_length_le hholds.length_eq.le
        rw [hfits.construct hholds, ok_bind, assignFrom, List.length_set, List.length_replicate,
          if_neg (by rw [hholds.length_eq]; omega), ok_bind, htake,
          logRegrIGDReset_ok hfits hholds.length_eq, ok_bind]
        rfl
      refine ⟨_, hinitialize, hasRows_first hfits hprevious hinitialize, ?_, ?_⟩
      · apply List.ext_getElem?
        intro i
        rw [getElem?_igdCoef, List.foldl_nil, startCoef, getElem?_igdCoef]
        by_cases hi : i < w
        · rw [if_pos hi, if_pos hi, List.getElem?_mapIdx]
          simp (disch := omega) only [if_pos, if_neg, Option.map_id']
        · rw [if_neg hi, if_neg hi]
      · intro _ _
        constructor
        · intro i j hji hi
          have hentry : j * w + w ≤ w * w := by
            rw [← Nat.succ_mul]
            exact Nat.mul_le_mul_right w (by omega)
          rw [List.getElem?_mapIdx, List.getElem?_eq_getElem (by omega), Option.map_some,
            if_neg (by omega), if_neg (by omega)]
          rfl
        · rw [List.getElem?_mapIdx, List.getElem?_eq_getElem (by omega), Option.map_some,
            if_neg (by omega), if_neg (by omega)]
          rfl

/-- A row's step leads to the state of the rows with that one more. -/
theorem GradientState.addRow (hfits : logRegrIGDLayout.Fits w (logRegrIGDLength w))
    (hprevious : ∀ s, previous = some s → logRegrIGDLayout.Holds w (logRegrIGDLength w) s)
    (h : GradientState sigma logOnePlusExp previous w rows storage) (hrow : row.2.length = w) :
    ∃ storage', logregrIGDAddRow sigma logOnePlusExp previous storage w (signOf row.1) row.2 =
        .ok storage' ∧
      GradientState sigma logOnePlusExp previous w (rows ++ [row]) storage' := by
  have hlength := h.hasRows.1.length_eq
  have hlen : storage.length = 4 + w * w + w := hlength
  have hadd : logregrIGDAddRow sigma logOnePlusExp previous storage w (signOf row.1) row.2 = _ :=
    logregrIGDAddRow_ok hfits hprevious hlength h.hasRows.2.2 hrow
  refine ⟨_, hadd, ?_, ?_, ?_⟩
  · rw [List.length_append]
    exact h.hasRows.addRow hfits hadd
  · rw [List.foldl_append, ← h.coef]
    apply List.ext_getElem?
    intro i
    rw [List.foldl_cons, List.foldl_nil, gradientStep, List.getElem?_zipWith, getElem?_igdCoef,
      getElem?_igdCoef]
    by_cases hi : i < w
    · rw [if_pos hi, if_pos hi, getElem?_plusEq, igdTerms_coef _ hi hrow,
        List.getElem?_eq_getElem (by omega), List.getD_eq_getElem?_getD,
        List.getElem?_eq_getElem (by rw [List.length_map]; omega)]
      rfl
    · rw [if_neg hi, if_neg hi]
  · intro previousState hsome
    have ⟨hmatrix, hlog⟩ := h.sums previousState hsome
    subst hsome
    constructor
    · intro i j hji hi
      rw [getElem?_plusEq, hmatrix i j hji hi, igdTerms_matrix _ hji hi hrow, List.map_append,
        List.sum_append, List.map_singleton, List.sum_singleton]
      rfl
    · rw [getElem?_plusEq, hlog, igdTerms_logLikelihood _ hrow, List.map_append,
        List.sum_append, List.map_singleton, List.sum_singleton]
      rfl

theorem GradientState.start (hfits : logRegrIGDLayout.Fits w (logRegrIGDLength w))
    (h : GradientState sigma logOnePlusExp previous w rows state) (hne : rows ≠ [])
    (first : Except Fault (List α × Nat)) :
    logRegrIGDLayout.start state first = .ok (state, w) := by
  have hindex : logRegrIGDLayout.numRows w = 2 + w :=
    intIndex_of_lt (by have hlt := hfits.width_lt; omega)
  have hnumRows : state[logRegrIGDLayout.numRows w]? = some (rows.length : α) := by
    rw [hindex]
    exact h.hasRows.2.1
  have hcount : (rows.length : α) ≠ 0 :=
    Nat.cast_ne_zero.mpr fun hzero => hne (List.length_eq_zero_iff.mp hzero)
  unfold Layout.start
  rw [hfits.construct h.hasRows.1, ok_bind, elementAt_eq_ok hnumRows, ok_bind, if_neg hcount]
  rfl

theorem GradientState.foldlM (hfits : logRegrIGDLayout.Fits w (logRegrIGDLength w))
    (hprevious : ∀ s, previous = some s → logRegrIGDLayout.Holds w (logRegrIGDLength w) s)
    {rest : List (Bool × List α)} (hrest : ∀ row ∈ rest, row.2.length = w) (hne : rows ≠ [])
    (h : GradientState sigma logOnePlusExp previous w rows state) :
    ∃ state', rest.foldlM ((logregrIGD sigma logOnePlusExp).aggregate previous).transition state =
        .ok state' ∧
      GradientState sigma logOnePlusExp previous w (rows ++ rest) state' := by
  induction rest generalizing rows state with
  | nil =>
      rw [List.append_nil]
      exact ⟨state, rfl, h⟩
  | cons row rest ih =>
      have ⟨next, hnext, hstate⟩ := h.addRow hfits hprevious (hrest row List.mem_cons_self)
      have ⟨state', hrun, hlast⟩ := ih
        (fun row' hrow' => hrest row' (List.mem_cons_of_mem row hrow')) (by simp) hstate
      refine ⟨state', ?_, ?_⟩
      · have hstep : ((logregrIGD sigma logOnePlusExp).aggregate previous).transition state row =
            .ok next := by
          unfold IterationMethod.aggregate
          simp only [logregrIGD, h.start hfits hne, ok_bind]
          exact hnext
        rw [List.foldlM_cons, hstep]
        exact hrun
      · rwa [List.append_assoc] at hlast

/-- A pass returns, and its state is the one of the rows. -/
theorem gradientState_pass (sigma logOnePlusExp : α → α)
    (hfits : logRegrIGDLayout.Fits w (logRegrIGDLength w))
    (hprevious : ∀ s, previous = some s → logRegrIGDLayout.Holds w (logRegrIGDLength w) s)
    (hrows : ∀ row ∈ rows, row.2.length = w) (hne : rows ≠ []) :
    ∃ state, ((logregrIGD sigma logOnePlusExp).aggregate previous).pass rows = .ok state ∧
      GradientState sigma logOnePlusExp previous w rows state := by
  cases rows with
  | nil => exact absurd rfl hne
  | cons row rows =>
      have hrow : row.2.length = w := hrows row List.mem_cons_self
      have ⟨storage, hfirst, hstart⟩ := gradientState_first sigma logOnePlusExp hfits hprevious
      have ⟨next, hnext, hstate⟩ := hstart.addRow hfits hprevious hrow
      have ⟨state, hrun, hlast⟩ := hstate.foldlM hfits hprevious
        (fun row' hrow' => hrows row' (List.mem_cons_of_mem row hrow')) (by simp)
      refine ⟨state, ?_, hlast⟩
      have hstep : ((logregrIGD sigma logOnePlusExp).aggregate previous).transition
          (logregrIGD sigma logOnePlusExp).initial row = .ok next := by
        unfold IterationMethod.aggregate
        simp only [logregrIGD, logRegrIGDLayout_empty.start, hrow, hfirst, ok_bind]
        exact hnext
      unfold Aggregate.pass
      rw [List.foldlM_cons]
      change ((logregrIGD sigma logOnePlusExp).aggregate previous).transition
        (logregrIGD sigma logOnePlusExp).initial row >>= _ = _
      rw [hstep]
      exact hrun

omit [LinearOrder α] [IsStrictOrderedRing α] [FloorRing α] in
/-- Without a step size the coefficients stay where they are. -/
theorem foldl_gradientStep_zero (sigma : α → α) (hrows : ∀ row ∈ rows, row.2.length = w) :
    rows.foldl (gradientStep 0 sigma) (List.replicate w 0) = List.replicate w 0 := by
  induction rows with
  | nil => rfl
  | cons row rows ih =>
      have ⟨hrow, hrest⟩ := List.forall_mem_cons.mp hrows
      have hstep : gradientStep 0 sigma (List.replicate w 0) row = List.replicate w 0 := by
        unfold gradientStep
        simp only [zero_mul, List.map_const', hrow, List.zipWith_replicate, add_zero, min_self]
      rw [List.foldl_cons, hstep]
      exact ih hrest

omit [LinearOrder α] [IsStrictOrderedRing α] [FloorRing α] in
theorem GradientState.folds_iff (h : GradientState sigma logOnePlusExp previous w rows state)
    (hrows : ∀ row ∈ rows, row.2.length = w) :
    FoldsGradient sigma logOnePlusExp previous w rows state ↔
      previous ≠ none ∨
        rows.foldl (gradientStep (1 / 10) sigma) (List.replicate w 0) = List.replicate w 0 := by
  have hcoef := h.coef
  cases previous with
  | none =>
      have hzero : igdCoef w state = List.replicate w 0 :=
        hcoef.trans (foldl_gradientStep_zero sigma hrows)
      rw [or_iff_right (fun hne => hne rfl)]
      constructor
      · intro hfolds
        exact hfolds.coef.symm.trans hzero
      · intro hfixed
        exact ⟨hzero.trans hfixed.symm, h.hasRows.2.1, nofun⟩
  | some previousState =>
      exact iff_of_true ⟨hcoef, h.hasRows.2.1, h.sums⟩ (.inl (Option.some_ne_none _))

/-- Every pass over rows of one width returns when the width fits.  Its coefficients are the
fold of gradient steps exactly if there is a previous state or these steps lead back to zero:
the first iteration has no step size. -/
theorem logregrIGD_pass_folds_iff (sigma logOnePlusExp : α → α)
    (hprevious : ∀ s, previous = some s → logRegrIGDLayout.Holds w (logRegrIGDLength w) s)
    (hrows : ∀ row ∈ rows, row.2.length = w) (hne : rows ≠ []) :
    (8 * logRegrIGDLength w + 40 ≤ maxAllocSize →
      ∃ state, ((logregrIGD sigma logOnePlusExp).aggregate previous).pass rows = .ok state) ∧
    ∀ state, ((logregrIGD sigma logOnePlusExp).aggregate previous).pass rows = .ok state →
      (FoldsGradient sigma logOnePlusExp previous w rows state ↔
        previous ≠ none ∨
          rows.foldl (gradientStep (1 / 10) sigma) (List.replicate w 0) =
            List.replicate w 0) := by
  constructor
  · intro halloc
    have ⟨state, hpass, _⟩ := gradientState_pass sigma logOnePlusExp
      (logRegrIGDLayout_fits halloc) hprevious hrows hne
    exact ⟨state, hpass⟩
  · intro state hpass
    have hfits : logRegrIGDLayout.Fits w (logRegrIGDLength w) :=
      logregrIGD_guards.fits_of_pass hrows hne hpass
    have ⟨state', hpass', hstate⟩ := gradientState_pass sigma logOnePlusExp hfits hprevious hrows hne
    rw [Except.ok.inj (hpass.symm.trans hpass')]
    exact hstate.folds_iff hrows

end Rows

/-- A state of one coefficient, 2. -/
def igdTwo : List ℚ := [1, 1 / 10, 2, 0, 0, 0]

theorem logregrIGD_pass_folds_two :
    ∃ state, ((logregrIGD (fun _ : ℚ => 1 / 2) fun _ => 0).aggregate (some igdTwo)).pass
        [(true, [3]), (false, [5])] = .ok state ∧
      FoldsGradient (fun _ => 1 / 2) (fun _ => 0) (some igdTwo) 1 [(true, [3]), (false, [5])]
        state := by
  have hholds : ∀ s, some igdTwo = some s → logRegrIGDLayout.Holds 1 (logRegrIGDLength 1) s := by
    intro s hs
    rw [← Option.some.inj hs]
    exact ⟨rfl, by norm_num [logRegrIGDLayout, igdTwo]⟩
  have hrows : ∀ row ∈ [((true, [3]) : Bool × List ℚ), (false, [5])], row.2.length = 1 := by simp
  obtain ⟨hreturns, hiff⟩ := logregrIGD_pass_folds_iff (fun _ : ℚ => 1 / 2) (fun _ => 0) hholds
    hrows (by simp)
  obtain ⟨state, hpass⟩ := hreturns (by decide)
  exact ⟨state, hpass, (hiff state hpass).mpr (.inl (by simp))⟩

/-- The first pass over a single row leaves the coefficient at zero. -/
theorem logregrIGD_first_pass :
    ∃ state, ((logregrIGD (fun _ : ℚ => 1 / 2) fun _ => 0).aggregate none).pass
        [(true, [1])] = .ok state ∧
      igdCoef 1 state = [0] ∧
      ¬ FoldsGradient (fun _ => 1 / 2) (fun _ => 0) none 1 [(true, [1])] state := by
  have hrows : ∀ row ∈ [((true, [1]) : Bool × List ℚ)], row.2.length = 1 := by simp
  have hnone : ∀ s : List ℚ, none = some s →
      logRegrIGDLayout.Holds 1 (logRegrIGDLength 1) s := nofun
  have ⟨state, hpass, hstate⟩ := gradientState_pass (fun _ : ℚ => 1 / 2) (fun _ => 0)
    (logRegrIGDLayout_fits (by decide)) hnone hrows (by simp)
  refine ⟨state, hpass, hstate.coef.trans (foldl_gradientStep_zero _ hrows), fun hfolds => ?_⟩
  rcases (hstate.folds_iff hrows).mp hfolds with hne | hfixed
  · exact hne rfl
  · simp [gradientStep, signOf] at hfixed

end Madlib.Regress
