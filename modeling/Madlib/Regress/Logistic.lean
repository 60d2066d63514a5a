import Madlib.Regress.IterationStep

/-!
# Logistic regression

The transition states of the conjugate-gradient, the iteratively-reweighted-least-squares and the
incremental-gradient method.  A row is a pair of `y` and `x`.  The logistic function and the
logarithm of `1 + exp` are parameters.
-/

namespace Madlib.Regress

open Madlib.Backend Madlib.Dbal Madlib.Lib.MachineInt Madlib.Lib.Segments

/-! ## Layouts -/

/-- `LogRegrCGTransitionState`, whose elements are iteration, widthOfX, coef, dir, grad, beta,
numRows, gradNew, X_transp_AX and logLikelihood -/
def logRegrCGLayout : Layout where
  widthIndex := 1
  arraySize w := intIndex (5 + w * w + 4 * w)
  fields w := [(0, 1), (1, 1), (2, w), (intIndex (2 + w), w), (intIndex (2 + 2 * w), w),
    (intIndex (2 + 3 * w), 1), (intIndex (3 + 3 * w), 1), (intIndex (4 + 3 * w), w),
    (intIndex (4 + 4 * w), w * w), (intIndex (4 + w * w + 4 * w), 1)]
  numRows w := intIndex (3 + 3 * w)

/-- `LogRegrIRLSTransitionState`, whose elements are widthOfX, coef, numRows, X_transp_Az,
X_transp_AX and logLikelihood -/
def logRegrIRLSLayout : Layout where
  widthIndex := 0
  arraySize w := uint32Size (3 + w * w + 2 * w)
  fields w := [(0, 1), (1, w), (intIndex (1 + w), 1), (intIndex (2 + w), w),
    (intIndex (2 + 2 * w), w * w), (intIndex (2 + w * w + 2 * w), 1)]
  numRows w := intIndex (1 + w)

/-- `LogRegrIGDTransitionState`, whose elements are widthOfX, stepsize, coef, numRows,
X_transp_AX and logLikelihood -/
def logRegrIGDLayout : Layout where
  widthIndex := 0
  arraySize w := uint32Size (4 + w * w + w)
  fields w := [(0, 1), (1, 1), (2, w), (intIndex (2 + w), 1), (intIndex (3 + w), w * w),
    (intIndex (3 + w * w + w), 1)]
  numRows w := intIndex (2 + w)

/-- The number of elements a state of width `w` needs. -/
def logRegrCGLength (w : Nat) : Nat := 5 + w * w + 4 * w

def logRegrIRLSLength (w : Nat) : Nat := 3 + w * w + 2 * w

def logRegrIGDLength (w : Nat) : Nat := 4 + w * w + w

section Functions

variable {α : Type} [Field α]

/-- `y` -/
def signOf (y : Bool) : α := if y then 1 else -1

/-- The lower triangle of `x * trans(x) * a` -/
def crossTerm (offset : Nat) (x : List α) (a : α) : Nat → α :=
  lowerTerm offset x.length fun i j => x.getD i 0 * x.getD j 0 * a

/-! ## Conjugate gradient and iteratively reweighted least squares -/

/-- The offsets of the coefficients and of the elements rows add to. -/
structure SumFields where
  coef : Nat → Nat
  numRows : Nat → Nat
  /-- gradNew or X_transp_Az -/
  vector : Nat → Nat
  /-- X_transp_AX -/
  matrix : Nat → Nat
  logLikelihood : Nat → Nat

def logRegrCGFields : SumFields where
  coef _ := 2
  numRows w := intIndex (3 + 3 * w)
  vector w := intIndex (4 + 3 * w)
  matrix w := intIndex (4 + 4 * w)
  logLikelihood w := intIndex (4 + w * w + 4 * w)

def logRegrIRLSFields : SumFields where
  coef _ := 1
  numRows w := intIndex (1 + w)
  vector w := intIndex (2 + w)
  matrix w := intIndex (2 + 2 * w)
  logLikelihood w := intIndex (2 + w * w + 2 * w)

/-- `reset` -/
def SumFields.reset (fields : SumFields) (storage : List α) (w : Nat) :
    Except Fault (List α) := do
  let storage := storage.set (fields.numRows w) 0
  let storage ← fillZero storage (fields.vector w) w
  let storage ← fillZero storage (fields.matrix w) (w * w)
  pure (storage.set (fields.logLikelihood w) 0)

/-- What the transition steps do once the state has a width.  `factor` says what `x` is
multiplied by before it is added to the vector. -/
def SumFields.addRow (fields : SumFields) (sigma logOnePlusExp : α → α) (factor : α → α → α)
    (storage : List α) (w : Nat) (y : α) (x : List α) : Except Fault (List α) := do
  let storage := plusEq storage (scalarTerm (fields.numRows w) 1)
  let coef ← mapAt storage (fields.coef w) w
  let xc ← dot x coef
  let storage ← mapPlusEq storage (fields.vector w) w
    (vectorTerm (fields.vector w) (x.map fun b => b * factor y xc))
  let a := sigma xc * sigma (-xc)
  let storage ← mapPlusEq storage (fields.matrix w) (w * w) (crossTerm (fields.matrix w) x a)
  pure (plusEq storage (scalarTerm (fields.logLikelihood w) (-logOnePlusExp (-y * xc))))

/-- `LogRegrCGTransitionState::reset` -/
def logRegrCGReset : List α → Nat → Except Fault (List α) := logRegrCGFields.reset

/-- `LogRegrIRLSTransitionState::reset` -/
def logRegrIRLSReset : List α → Nat → Except Fault (List α) := logRegrIRLSFields.reset

/-- What `logregr_cg_step_transition` does once the state has a width. -/
def logregrCGAddRow (sigma logOnePlusExp : α → α) :
    List α → Nat → α → List α → Except Fault (List α) :=
  logRegrCGFields.addRow sigma logOnePlusExp fun y xc => sigma (-y * xc) * y

/-- What `logregr_irls_step_transition` does once the state has a width. -/
def logregrIRLSAddRow (sigma logOnePlusExp : α → α) :
    List α → Nat → α → List α → Except Fault (List α) :=
  logRegrIRLSFields.addRow sigma logOnePlusExp
    fun y xc => xc * (sigma xc * sigma (-xc)) + sigma (-y * xc) * y

/-! ## Incremental gradient -/

local instance atLeastTwo_ten : Nat.AtLeastTwo 10 := ⟨by decide⟩

/-- The step size, which is hard-coded. -/
def igdStepsize : α := 1 / 10

/-- `LogRegrIGDTransitionState::reset` -/
def logRegrIGDReset (storage : List α) (w : Nat) : Except Fault (List α) := do
  let storage := storage.set 1 igdStepsize
  let storage := storage.set (intIndex (2 + w)) 0
  let storage ← fillZero storage (intIndex (3 + w)) (w * w)
  pure (storage.set (intIndex (3 + w * w + w)) 0)

variable [LinearOrder α] [FloorRing α]

/-- What `logregr_igd_step_transition` does once the state has a width. -/
def logregrIGDAddRow (sigma logOnePlusExp : α → α) (previous : Option (List α))
    (storage : List α) (w : Nat) (y : α) (x : List α) : Except Fault (List α) := do
  let storage := plusEq storage (scalarTerm (intIndex (2 + w)) 1)
  let coef ← mapAt storage 2 w
  let xc ← dot x coef
  let stepsize ← elementAt storage 1
  let scale := stepsize * sigma (-xc * y) * y
  let storage ← mapPlusEq storage 2 w (vectorTerm 2 (x.map fun b => scale * b))
  match previous with
  | none => pure storage
  | some previousState => do
      let previousWidth ← logRegrIGDLayout.construct previousState
      let previousCoef ← mapAt previousState 2 previousWidth
      let previousXc ← dot x previousCoef
      let a := sigma previousXc * sigma (-previousXc)
      let storage ← mapPlusEq storage (intIndex (3 + w)) (w * w)
        (crossTerm (intIndex (3 + w)) x a)
      pure (plusEq storage
        (scalarTerm (intIndex (3 + w * w + w)) (-logOnePlusExp (-y * previousXc))))

/-! ## Aggregates -/

/-- `operator+=`; `widthIndex` is where the width is. -/
def SumFields.plusEqState (fields : SumFields) (widthIndex widthLeft widthRight : Nat)
    (stateLeft stateRight : List α) : Except Fault (List α) := do
  let widthOfX ← elementAt stateLeft widthIndex
  if stateLeft.length ≠ stateRight.length ∨ widthOfX ≠ (widthRight : α) then
    .error (thrown "Internal error: Incompatible transition states")
  else do
    let numRows ← elementAt stateRight (fields.numRows widthRight)
    let storage := plusEq stateLeft (scalarTerm (fields.numRows widthLeft) (⌊numRows⌋₊ : α))
    let vector ← mapAt stateRight (fields.vector widthRight) widthRight
    let storage ← mapPlusEq storage (fields.vector widthLeft) widthLeft
      (vectorTerm (fields.vector widthLeft) vector)
    let matrix ← mapAt stateRight (fields.matrix widthRight) (widthRight * widthRight)
    let storage ← mapPlusEq storage (fields.matrix widthLeft) (widthLeft * widthLeft)
      (vectorTerm (fields.matrix widthLeft) matrix)
    let logLikelihood ← elementAt stateRight (fields.logLikelihood widthRight)
    pure (plusEq storage (scalarTerm (fields.logLikelihood widthLeft) logLikelihood))

/-- `LogRegrCGTransitionState::operator+=` -/
def logRegrCGPlusEq : Nat → Nat → List α → List α → Except Fault (List α) :=
  logRegrCGFields.plusEqState 1

/-- `LogRegrIRLSTransitionState::operator+=` -/
def logRegrIRLSPlusEq : Nat → Nat → List α → List α → Except Fault (List α) :=
  logRegrIRLSFields.plusEqState 0

/-- `LogRegrIGDTransitionState::operator+=` -/
def logRegrIGDPlusEq (widthLeft widthRight : Nat) (stateLeft stateRight : List α) :
    Except Fault (List α) := do
  let widthOfX ← elementAt stateLeft 0
  if stateLeft.length ≠ stateRight.length ∨ widthOfX ≠ (widthRight : α) then
    .error (thrown "Internal error: Incompatible transition states")
  else do
    let numRowsLeft ← elementAt stateLeft (intIndex (2 + widthLeft))
    let numRows ← elementAt stateRight (intIndex (2 + widthRight))
    let totalNumRows := numRowsLeft + (⌊numRows⌋₊ : α)
    let coefLeft ← mapAt stateLeft 2 widthLeft
    let coefRight ← mapAt stateRight 2 widthRight
    eigenAssert (coefLeft.length = coefRight.length)
    let storage ← mapAssign stateLeft 2 (List.zipWith
      (fun a b => numRowsLeft / totalNumRows * a + (⌊numRows⌋₊ : α) / totalNumRows * b)
      coefLeft coefRight)
    let storage := plusEq storage (scalarTerm (intIndex (2 + widthLeft)) (⌊numRows⌋₊ : α))
    let xTranspAX ← mapAt stateRight (intIndex (3 + widthRight)) (widthRight * widthRight)
    let storage ← mapPlusEq storage (intIndex (3 + widthLeft)) (widthLeft * widthLeft)
      (vectorTerm (intIndex (3 + widthLeft)) xTranspAX)
    let logLikelihood ← elementAt stateRight (intIndex (3 + widthRight * widthRight + widthRight))
    pure (plusEq storage
      (scalarTerm (intIndex (3 + widthLeft * widthLeft + widthLeft)) logLikelihood))

/-- The functions of `logregr_cg_step` -/
def logregrCG (sigma logOnePlusExp : α → α) : IterationMethod α where
  layout := logRegrCGLayout
  length := logRegrCGLength
  initial := List.replicate 6 0
  reset := logRegrCGReset
  addRow _ storage w row := logregrCGAddRow sigma logOnePlusExp storage w (signOf row.1) row.2
  plusEqState := logRegrCGPlusEq

/-- The functions of `logregr_irls_step` -/
def logregrIRLS (sigma logOnePlusExp : α → α) : IterationMethod α where
  layout := logRegrIRLSLayout
  length := logRegrIRLSLength
  initial := List.replicate 3 0
  reset := logRegrIRLSReset
  addRow _ storage w row := logregrIRLSAddRow sigma logOnePlusExp storage w (signOf row.1) row.2
  plusEqState := logRegrIRLSPlusEq

/-- The functions of `logregr_igd_step` -/
def logregrIGD (sigma logOnePlusExp : α → α) : IterationMethod α where
  layout := logRegrIGDLayout
  length := logRegrIGDLength
  initial := List.replicate 4 0
  reset := logRegrIGDReset
  addRow previous storage w row :=
    logregrIGDAddRow sigma logOnePlusExp previous storage w (signOf row.1) row.2
  plusEqState := logRegrIGDPlusEq

end Functions

/-! ## Widths a state can have -/

section Layouts

variable {w : Nat}

theorem logRegrCGLayout_arraySize :
    logRegrCGLayout.arraySize w = intIndex (5 + w * w + 4 * w) := rfl

theorem logRegrIRLSLayout_arraySize :
    logRegrIRLSLayout.arraySize w = (3 + w * w + 2 * w) % 4294967296 :=
  uint32Size_eq _

theorem logRegrIGDLayout_arraySize :
    logRegrIGDLayout.arraySize w = (4 + w * w + w) % 4294967296 :=
  uint32Size_eq _

theorem logRegrCGLayout_fits (halloc : 8 * logRegrCGLength w + 40 ≤ maxAllocSize) :
    logRegrCGLayout.Fits w (logRegrCGLength w) := by
  have hmax : maxAllocSize = 1073741823 := rfl
  unfold logRegrCGLength at halloc
  apply Layout.Fits.of_fields
  · rw [logRegrCGLayout_arraySize, intIndex_of_lt (by omega), logRegrCGLength]
  · exact halloc
  · omega
  · simp only [logRegrCGLayout, logRegrCGLength]
    omega
  · simp (disch := omega) only [logRegrCGLayout, logRegrCGLength, intIndex_of_lt]
    omega
  · simp (disch := omega) only [logRegrCGLayout, logRegrCGLength, intIndex_of_lt,
      List.forall_mem_cons, List.not_mem_nil, IsEmpty.forall_iff, implies_true, and_true]
    omega

theorem logRegrIRLSLayout_fits (halloc : 8 * logRegrIRLSLength w + 40 ≤ maxAllocSize) :
    logRegrIRLSLayout.Fits w (logRegrIRLSLength w) := by
  have hmax : maxAllocSize = 1073741823 := rfl
  unfold logRegrIRLSLength at halloc
  apply Layout.Fits.of_fields
  · rw [logRegrIRLSLayout_arraySize, Nat.mod_eq_of_lt (by omega), logRegrIRLSLength]
  · exact halloc
  · omega
  · simp only [logRegrIRLSLayout, logRegrIRLSLength]
    omega
  · simp (disch := omega) only [logRegrIRLSLayout, logRegrIRLSLength, intIndex_of_lt]
    omega
  · simp (disch := omega) only [logRegrIRLSLayout, logRegrIRLSLength, intIndex_of_lt,
      List.forall_mem_cons, List.not_mem_nil, IsEmpty.forall_iff, implies_true, and_true]
    omega

theorem logRegrIGDLayout_fits (halloc : 8 * logRegrIGDLength w + 40 ≤ maxAllocSize) :
    logRegrIGDLayout.Fits w (logRegrIGDLength w) := by
  have hmax : maxAllocSize = 1073741823 := rfl
  unfold logRegrIGDLength at halloc
  apply Layout.Fits.of_fields
  · rw [logRegrIGDLayout_arraySize, Nat.mod_eq_of_lt (by omega), logRegrIGDLength]
  · exact halloc
  · omega
  · simp only [logRegrIGDLayout, logRegrIGDLength]
    omega
  · simp (disch := omega) only [logRegrIGDLayout, logRegrIGDLength, intIndex_of_lt]
    omega
  · simp (disch := omega) only [logRegrIGDLayout, logRegrIGDLength, intIndex_of_lt,
      List.forall_mem_cons, List.not_mem_nil, IsEmpty.forall_iff, implies_true, and_true]
    omega

variable {α : Type} [Field α] {fresh : List α × Nat}

/-- A state is only initialized for a width that fits. -/
theorem logRegrCGLayout_fits_of_initialized (hw : w < 65536)
    (h : logRegrCGLayout.initializeState w = .ok fresh) :
    8 * logRegrCGLength w + 40 ≤ maxAllocSize := by
  obtain ⟨halloc, hfields, _⟩ := Layout.initializeState_eq_ok h
  rw [Nat.mod_eq_of_lt hw, logRegrCGLayout_arraySize] at halloc hfields
  have hbeta := hfields (intIndex (2 + 3 * w), 1) (by simp [logRegrCGLayout])
  simp (disch := omega) only [intIndex_of_lt] at hbeta
  have hsq : w * w ≤ w * 65535 := Nat.mul_le_mul_left w (by omega)
  by_cases hlt : 5 + w * w + 4 * w < 4294967296
  · have hexact := lt_of_intIndex_le hlt halloc
    rwa [intIndex_of_lt hexact] at halloc
  · -- the two widths whose size wraps around to a small one
    obtain rfl | rfl : w = 65534 ∨ w = 65535 := by omega
    · exact absurd hbeta (by unfold intIndex; decide)
    · exact absurd hbeta (by unfold intIndex; decide)

theorem logRegrIRLSLayout_fits_of_initialized (hw : w < 65536)
    (h : logRegrIRLSLayout.initializeState w = .ok fresh) :
    8 * logRegrIRLSLength w + 40 ≤ maxAllocSize := by
  obtain ⟨halloc, hfields, _⟩ := Layout.initializeState_eq_ok h
  rw [Nat.mod_eq_of_lt hw, logRegrIRLSLayout_arraySize] at halloc hfields
  have hnumRows := hfields (intIndex (1 + w), 1) (by simp [logRegrIRLSLayout])
  simp (disch := omega) only [intIndex_of_lt] at hnumRows
  have hsq : w * w ≤ w * 65535 := Nat.mul_le_mul_left w (by omega)
  by_cases hlt : 3 + w * w + 2 * w < 4294967296
  · rwa [Nat.mod_eq_of_lt hlt] at halloc
  · obtain rfl : w = 65535 := by omega
    exact absurd hnumRows (by decide)

theorem logRegrIGDLayout_fits_of_initialized (hw : w < 65536)
    (h : logRegrIGDLayout.initializeState w = .ok fresh) :
    8 * logRegrIGDLength w + 40 ≤ maxAllocSize := by
  obtain ⟨halloc, _⟩ := Layout.initializeState_eq_ok h
  rw [Nat.mod_eq_of_lt hw, logRegrIGDLayout_arraySize] at halloc
  have hsq : w * w ≤ w * 65535 := Nat.mul_le_mul_left w (by omega)
  rwa [Nat.mod_eq_of_lt (by omega)] at halloc

end Layouts

/-! ## Rows of another width -/

section Guards

variable {α : Type} [Field α] {sigma logOnePlusExp : α → α} {storage storage' : List α} {w : Nat}
  {y : α} {x : List α}

/-- `dot` refuses a row that does not have as many elements as there are coefficients. -/
theorem length_of_coef {offset : Nat} {rest : α → Except Fault (List α)}
    (h : (do let coef ← mapAt storage offset w; let xc ← dot x coef; rest xc) = .ok storage') :
    x.length = w := by
  obtain ⟨coef, hcoef, hrest⟩ := bind_eq_ok.mp h
  obtain ⟨xc, hxc, _⟩ := bind_eq_ok.mp hrest
  rw [length_of_dot hxc, length_of_mapAt hcoef]

theorem length_of_logregrCGAddRow
    (h : logregrCGAddRow sigma logOnePlusExp storage w y x = .ok storage') : x.length = w :=
  length_of_coef h

theorem length_of_logregrIRLSAddRow
    (h : logregrIRLSAddRow sigma logOnePlusExp storage w y x = .ok storage') : x.length = w :=
  length_of_coef h

variable [LinearOrder α] [FloorRing α]

theorem length_of_logregrIGDAddRow {previous : Option (List α)}
    (h : logregrIGDAddRow sigma logOnePlusExp previous storage w y x = .ok storage') :
    x.length = w :=
  length_of_coef h

variable [IsStrictOrderedRing α]

theorem logregrCG_guards : Guards (logregrCG sigma logOnePlusExp) where
  empty := by
    apply Layout.Empty.replicate
    · simp [logregrCG, logRegrCGLayout]
    · simp (disch := omega) [logregrCG, logRegrCGLayout, intIndex_of_lt]
    · simp (disch := omega) [logregrCG, logRegrCGLayout, intIndex_of_lt]
  fits := logRegrCGLayout_fits
  allocates := logRegrCGLayout_fits_of_initialized
  addRow_width := length_of_logregrCGAddRow

theorem logregrIRLS_guards : Guards (logregrIRLS sigma logOnePlusExp) where
  empty := by
    apply Layout.Empty.replicate
    · simp [logregrIRLS, logRegrIRLSLayout]
    · simp (disch := omega) [logregrIRLS, logRegrIRLSLayout, intIndex_of_lt]
    · simp (disch := omega) [logregrIRLS, logRegrIRLSLayout, intIndex_of_lt]
  fits := logRegrIRLSLayout_fits
  allocates := logRegrIRLSLayout_fits_of_initialized
  addRow_width := length_of_logregrIRLSAddRow

theorem logRegrIGDLayout_empty : Layout.Empty logRegrIGDLayout (List.replicate 4 (0 : α)) := by
  apply Layout.Empty.replicate
  · simp [logRegrIGDLayout]
  · simp (disch := omega) [logRegrIGDLayout, intIndex_of_lt]
  · simp (disch := omega) [logRegrIGDLayout, intIndex_of_lt]

theorem logregrIGD_guards : Guards (logregrIGD sigma logOnePlusExp) where
  empty := logRegrIGDLayout_empty
  fits := logRegrIGDLayout_fits
  allocates := logRegrIGDLayout_fits_of_initialized
  addRow_width := length_of_logregrIGDAddRow

end Guards

end Madlib.Regress
