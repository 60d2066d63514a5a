import Madlib.Lib.Segments
import Madlib.Regress.Logistic

/-!
# The final function of the incremental gradient

Its argument is read with the layout of the least-squares method.  Coefficients can overflow
here, so the arithmetic is not exact: nothing is assumed of sums, products and quotients, but that
a count of rows stays one.
-/

namespace Madlib.Regress

open Madlib.Backend Madlib.Dbal Madlib.Lib.Segments

section Definitions

/-- The arithmetic of doubles, of which no law is assumed. -/
class DoubleArithmetic (α : Type) extends Zero α, One α, Neg α, Add α, Sub α, Mul α, Div α

/-- What is done with doubles besides arithmetic.  `toUInt16` and `toUInt64` are conversions of
doubles, `dot` is Eigen's. -/
structure DoubleOps (α : Type) where
  isFinite : α → Bool
  equal : α → α → Bool
  toUInt16 : α → Nat
  toUInt64 : α → Nat
  ofUInt64 : Nat → α
  /-- the literal .1 -/
  tenth : α
  dot : List α → List α → α
  sigma : α → α
  logOnePlusExp : α → α

variable {α : Type}

/-- The elements of a map of `n` elements change, by their places in it. -/
def updateMap (storage : List α) (offset n : Nat) (f : Nat → α → α) : Except Fault (List α) :=
  if storage.length < offset + n then .error .outOfBounds
  else .ok (storage.mapIdx fun k a => if offset ≤ k ∧ k < offset + n then f (k - offset) a else a)

namespace DoubleOps

/-- The constructor of a state with this layout; its width is returned. -/
def construct (ops : DoubleOps α) (layout : Layout) (storage : List α) : Except Fault Nat := do
  let width ← elementAt storage layout.widthIndex
  layout.rebind storage (ops.toUInt16 width)
  pure (ops.toUInt16 width)

variable [DoubleArithmetic α] (ops : DoubleOps α)

/-- `LogRegrIGDTransitionState::initialize` -/
def initializeState (size : Nat) : Except Fault (List α × Nat) := do
  let storage ← allocateArray (logRegrIGDLayout.arraySize (size % 65536))
  logRegrIGDLayout.rebind storage (size % 65536)
  pure (storage.set 0 (ops.ofUInt64 (size % 65536)), size % 65536)

/-- `LogRegrIGDTransitionState::reset` -/
def reset (storage : List α) (w : Nat) : Except Fault (List α) := do
  let storage := storage.set 1 ops.tenth
  let storage := storage.set (intIndex (2 + w)) 0
  let storage ← fillZero storage (intIndex (3 + w)) (w * w)
  pure (storage.set (intIndex (3 + w * w + w)) 0)

/-- What the first row makes of the initial state. -/
def firstState (previous : Option (List α)) (size : Nat) : Except Fault (List α × Nat) := do
  let fresh ← ops.initializeState size
  match previous with
  | none => pure fresh
  | some previousState => do
      let _ ← ops.construct logRegrIGDLayout previousState
      let storage ← assignFrom fresh.1 previousState
      let storage ← ops.reset storage fresh.2
      pure (storage, fresh.2)

/-- The statistics at the previous coefficients. -/
def addStatistics (previousState storage : List α) (w : Nat) (y : α) (x : List α) :
    Except Fault (List α) := do
  let previousWidth ← ops.construct logRegrIGDLayout previousState
  let previousCoef ← mapAt previousState 2 previousWidth
  eigenAssert (x.length = previousCoef.length)
  let previousXc := ops.dot x previousCoef
  let a := ops.sigma previousXc * ops.sigma (-previousXc)
  let storage ← updateMap storage (intIndex (3 + w)) (w * w) fun k entry =>
    if k / w ≤ k % w then entry + x.getD (k % w) 0 * x.getD (k / w) 0 * a else entry
  pure (storage.modify (intIndex (3 + w * w + w)) fun logLikelihood =>
    logLikelihood - ops.logOnePlusExp (-y * previousXc))

/-- What a row does to a state of width `w`. -/
def addRow (previous : Option (List α)) (storage : List α) (w : Nat) (y : α) (x : List α) :
    Except Fault (List α) := do
  let storage := storage.modify (intIndex (2 + w)) fun numRows => numRows + 1
  let coef ← mapAt storage 2 w
  eigenAssert (x.length = coef.length)
  let xc := ops.dot x coef
  let stepsize ← elementAt storage 1
  let scale := stepsize * ops.sigma (-xc * y) * y
  let storage ← updateMap storage 2 w fun k c => c + scale * x.getD k 0
  match previous with
  | none => pure storage
  | some previousState => ops.addStatistics previousState storage w y x

/-- Where the transition function starts from. -/
def startState (previous : Option (List α)) (state : List α) (width size : Nat) :
    Except Fault (List α × Nat) := do
  let numRows ← elementAt state (intIndex (2 + width))
  if ops.equal numRows 0 then ops.firstState previous size else pure (state, width)

/-- `logregr_igd_step_transition` -/
def stepTransition (previous : Option (List α)) (state : List α) (row : Bool × List α) :
    Except Fault (List α) := do
  let width ← ops.construct logRegrIGDLayout state
  if row.2.all ops.isFinite then do
    let started ← ops.startState previous state width row.2.length
    ops.addRow previous started.1 started.2 (if row.1 then 1 else -1) row.2
  else .error (thrown "Design matrix is not finite.")

/-- `LogRegrIGDTransitionState::operator+=` -/
def plusEqState (widthLeft widthRight : Nat) (stateLeft stateRight : List α) :
    Except Fault (List α) := do
  let widthOfX ← elementAt stateLeft 0
  if stateLeft.length = stateRight.length ∧ ops.equal widthOfX (ops.ofUInt64 widthRight) then do
    let numRowsLeft ← elementAt stateLeft (intIndex (2 + widthLeft))
    let numRowsRight ← elementAt stateRight (intIndex (2 + widthRight))
    let numRows := ops.ofUInt64 (ops.toUInt64 numRowsRight)
    let totalNumRows := numRowsLeft + numRows
    let coefLeft ← mapAt stateLeft 2 widthLeft
    let coefRight ← mapAt stateRight 2 widthRight
    eigenAssert (coefLeft.length = coefRight.length)
    let storage ← updateMap stateLeft 2 widthLeft fun k c =>
      numRowsLeft / totalNumRows * c + numRows / totalNumRows * coefRight.getD k 0
    let storage := storage.modify (intIndex (2 + widthLeft)) fun n => n + numRows
    let xTranspAX ← mapAt stateRight (intIndex (3 + widthRight)) (widthRight * widthRight)
    let storage ← updateMap storage (intIndex (3 + widthLeft)) (widthLeft * widthLeft)
      fun k entry => entry + xTranspAX.getD k 0
    let logLikelihood ← elementAt stateRight (intIndex (3 + widthRight * widthRight + widthRight))
    pure (storage.modify (intIndex (3 + widthLeft * widthLeft + widthLeft)) fun l =>
      l + logLikelihood)
  else .error (thrown "Internal error: Incompatible transition states")

/-- `logregr_igd_step_merge_states` -/
def stepMergeStates (stateLeft stateRight : List α) : Except Fault (List α) := do
  let widthLeft ← ops.construct logRegrIGDLayout stateLeft
  let widthRight ← ops.construct logRegrIGDLayout stateRight
  let numRowsLeft ← elementAt stateLeft (intIndex (2 + widthLeft))
  let numRowsRight ← elementAt stateRight (intIndex (2 + widthRight))
  if ops.equal numRowsLeft 0 then pure stateRight
  else if ops.toUInt64 numRowsRight = 0 then pure stateLeft
  else ops.plusEqState widthLeft widthRight stateLeft stateRight

/-- `logregr_igd_step`, up to its final function. -/
def logregrIGDStep (previous : Option (List α)) : Aggregate Fault (Bool × List α) (List α) where
  init := [0, 0, 0, 0]
  transition := ops.stepTransition previous
  merge := ops.stepMergeStates

def igdNoSolution : Fault :=
  thrown ("Over- or underflow in incremental-gradient iteration. Input data is likely of poor " ++
    "numerical condition.")

omit [DoubleArithmetic α] in
/-- `logregr_igd_step_final`, whose state is a `LogRegrIRLSTransitionState`. -/
def stepFinal (state : List α) : Except Fault (Option (List α)) := do
  let width ← ops.construct logRegrIRLSLayout state
  let coef ← mapAt state 1 width
  if coef.all ops.isFinite then do
    let numRows ← elementAt state (intIndex (1 + width))
    if ops.toUInt64 numRows = 0 then pure none else pure (some state)
  else .error igdNoSolution

end DoubleOps

/-! ## What the final function should do -/

/-- The number of rows and the coefficients of a state. -/
def DoubleOps.igdView (ops : DoubleOps α) (state : List α) : Except Fault (α × List α) := do
  let width ← ops.construct logRegrIGDLayout state
  let numRows ← elementAt state (intIndex (2 + width))
  let coef ← mapAt state 2 width
  pure (numRows, coef)

/-- NULL for a state without rows, the error for a coefficient that is not finite, otherwise the
state. -/
structure DoubleOps.KeepsModel [DoubleArithmetic α] (ops : DoubleOps α) (numRows : α) (coef state : List α) :
    Prop where
  null_iff : ops.stepFinal state = .ok none ↔ ops.equal numRows 0 = true
  error_iff : ops.stepFinal state = .error igdNoSolution ↔ ∃ c ∈ coef, ops.isFinite c = false
  otherwise : ops.equal numRows 0 = false → (∀ c ∈ coef, ops.isFinite c = true) →
    ops.stepFinal state = .ok (some state)

/-- No rows, or a single coefficient that is finite and no zero as an unsigned integer. -/
def DoubleOps.ReadsRight [DoubleArithmetic α] (ops : DoubleOps α) (numRows : α) (coef : List α) : Prop :=
  ops.equal numRows 0 = true ∨
    ∃ c, coef = [c] ∧ ops.isFinite c = true ∧ ops.toUInt64 c ≠ 0

/-- What is documented of doubles: `isCount` are those that are at least one. -/
structure DoubleOps.Lawful [DoubleArithmetic α] (ops : DoubleOps α) (isCount : α → Prop) :
    Prop where
  toUInt16_zero : ops.toUInt16 0 = 0
  toUInt16_ofUInt64 : ∀ n, n < 65536 → ops.toUInt16 (ops.ofUInt64 n) = n
  toUInt64_zero : ops.toUInt64 0 = 0
  toUInt64_tenth : ops.toUInt64 ops.tenth = 0
  isFinite_zero : ops.isFinite 0 = true
  isFinite_tenth : ops.isFinite ops.tenth = true
  equal_zero : ops.equal 0 0 = true
  isCount_one : isCount (0 + 1)
  isCount_succ : ∀ a, isCount a → isCount (a + 1)
  isCount_add : ∀ a n, isCount a → isCount (a + ops.ofUInt64 n)
  not_zero_of_isCount : ∀ a, isCount a → ops.equal a 0 = false

end Definitions

/-! ## Maps that change -/

section Updates

variable {α : Type} {storage storage' : List α} {offset n : Nat} {f : Nat → α → α}

theorem updateMap_eq_ok (h : updateMap storage offset n f = .ok storage') :
    storage'.length = storage.length ∧
      ∀ k, ¬(offset ≤ k ∧ k < offset + n) → storage'[k]? = storage[k]? := by
  unfold updateMap at h
  split at h
  case isTrue => cases h
  case isFalse =>
    cases h
    refine ⟨List.length_mapIdx, fun k hk => ?_⟩
    rw [List.getElem?_mapIdx]
    simp only [if_neg hk, Option.map_id']

theorem fillZero_eq_ok [Zero α] (h : fillZero storage offset n = .ok storage') :
    storage'.length = storage.length ∧
      ∀ k, ¬(offset ≤ k ∧ k < offset + n) → storage'[k]? = storage[k]? := by
  unfold fillZero at h
  split at h
  case isTrue => cases h
  case isFalse =>
    cases h
    refine ⟨List.length_mapIdx, fun k hk => ?_⟩
    rw [List.getElem?_mapIdx]
    simp only [if_neg hk, Option.map_id']

end Updates

/-! ## States of a run -/

section States

variable {α : Type} [DoubleArithmetic α] {ops : DoubleOps α} {isCount : α → Prop} {w : Nat} {state storage storage' : List α}
  {previous : Option (List α)}

/-- A state of width `w`. -/
structure IgdHolds (ops : DoubleOps α) (w : Nat) (state : List α) : Prop where
  fits : logRegrIGDLayout.Fits w (logRegrIGDLength w)
  length_eq : state.length = logRegrIGDLength w
  width : ∃ a, state[0]? = some a ∧ ops.toUInt16 a = w

/-- A state of width `w` that has counted rows. -/
structure IgdCounted (ops : DoubleOps α) (isCount : α → Prop) (w : Nat) (state : List α) : Prop
    extends IgdHolds ops w state where
  stepsize : ∃ a, state[1]? = some a ∧ ops.isFinite a = true ∧ ops.toUInt64 a = 0
  numRows : ∃ a, state[2 + w]? = some a ∧ isCount a

/-- What a row and another state's sums leave as it is. -/
structure IgdUpdated (w : Nat) (f : α → α) (storage storage' : List α) : Prop where
  length_eq : storage'.length = storage.length
  keeps : ∀ k, k < 2 → storage'[k]? = storage[k]?
  numRows : storage'[2 + w]? = storage[2 + w]?.map f

theorem intIndex_of_fits (hfits : logRegrIGDLayout.Fits w (logRegrIGDLength w)) {n : Nat}
    (hn : n ≤ 4 + w * w + w) : intIndex n = n := by
  have hmax : maxAllocSize = 1073741823 := rfl
  have halloc := hfits.allocates
  unfold logRegrIGDLength at halloc
  exact intIndex_of_lt (by omega)

theorem addStatistics_eq_ok (hfits : logRegrIGDLayout.Fits w (logRegrIGDLength w))
    {previousState : List α} {y : α} {x : List α}
    (h : ops.addStatistics previousState storage w y x = .ok storage') :
    storage'.length = storage.length ∧ ∀ k, k < 3 + w → storage'[k]? = storage[k]? := by
  have hmatrix := intIndex_of_fits hfits (show 3 + w ≤ 4 + w * w + w by omega)
  have hlast := intIndex_of_fits hfits (show 3 + w * w + w ≤ 4 + w * w + w by omega)
  unfold DoubleOps.addStatistics at h
  rw [hmatrix, hlast] at h
  have ⟨_, _, h⟩ := bind_eq_ok.mp h
  have ⟨_, _, h⟩ := bind_eq_ok.mp h
  have ⟨_, _, h⟩ := bind_eq_ok.mp h
  have ⟨updated, hupdate, h⟩ := bind_eq_ok.mp h
  have ⟨hlength, hkeeps⟩ := updateMap_eq_ok hupdate
  rw [← Except.ok.inj h]
  refine ⟨(List.length_modify ..).trans hlength, fun k hk => ?_⟩
  rw [List.getElem?_modify_ne _ _ (by omega), hkeeps k (by omega)]

theorem addRow_eq_ok (hfits : logRegrIGDLayout.Fits w (logRegrIGDLength w)) {y : α} {x : List α}
    (h : ops.addRow previous storage w y x = .ok storage') :
    IgdUpdated w (fun a => a + 1) storage storage' ∧ x.length = w := by
  have hnumRows := intIndex_of_fits hfits (show 2 + w ≤ 4 + w * w + w by omega)
  unfold DoubleOps.addRow at h
  rw [hnumRows] at h
  have ⟨coef, hcoef, h⟩ := bind_eq_ok.mp h
  have ⟨_, hassert, h⟩ := bind_eq_ok.mp h
  have ⟨_, _, h⟩ := bind_eq_ok.mp h
  have ⟨updated, hupdate, h⟩ := bind_eq_ok.mp h
  have ⟨hlength, hkeeps⟩ := updateMap_eq_ok hupdate
  rw [List.length_modify] at hlength
  have hwidth : x.length = w := (eigenAssert_eq_ok hassert).trans (length_of_mapAt hcoef)
  have hupdated : IgdUpdated w (fun a => a + 1) storage updated := by
    refine ⟨hlength, fun k hk => ?_, ?_⟩
    · rw [hkeeps k (by omega), List.getElem?_modify_ne _ _ (by omega)]
    · rw [hkeeps (2 + w) (by omega), List.getElem?_modify_eq]
      rfl
  refine ⟨?_, hwidth⟩
  cases previous with
  | none =>
      rw [← Except.ok.inj h]
      exact hupdated
  | some previousState =>
      have ⟨hlength', hkeeps'⟩ := addStatistics_eq_ok hfits h
      refine ⟨hlength'.trans hupdated.length_eq, fun k hk => ?_, ?_⟩
      · rw [hkeeps' k (by omega), hupdated.keeps k hk]
      · rw [hkeeps' (2 + w) (by omega), hupdated.numRows]

omit [DoubleArithmetic α] in
/-- A counted state stays one when its count is changed to a count. -/
theorem IgdUpdated.counted {f : α → α} (h : IgdUpdated w f storage storage')
    (hcounted : IgdCounted ops isCount w storage) (hf : ∀ a, isCount a → isCount (f a)) :
    IgdCounted ops isCount w storage' := by
  have ⟨a, ha, hcount⟩ := hcounted.numRows
  refine ⟨⟨hcounted.fits, h.length_eq.trans hcounted.length_eq, ?_⟩, ?_, f a, ?_, hf a hcount⟩
  · rw [h.keeps 0 (by omega)]
    exact hcounted.width
  · rw [h.keeps 1 (by omega)]
    exact hcounted.stepsize
  · rw [h.numRows, ha]
    rfl

/-- A state is only initialized for a width that fits. -/
theorem initializeState_eq_ok {size : Nat} {fresh : List α × Nat}
    (h : ops.initializeState size = .ok fresh) :
    logRegrIGDLayout.Fits fresh.2 (logRegrIGDLength fresh.2) ∧ fresh.2 = size % 65536 ∧
      fresh.1 = (List.replicate (logRegrIGDLength fresh.2) 0).set 0 (ops.ofUInt64 fresh.2) := by
  have hlt : size % 65536 < 65536 := Nat.mod_lt _ (by decide)
  unfold DoubleOps.initializeState at h
  have ⟨storage, hstorage, h⟩ := bind_eq_ok.mp h
  have ⟨_, _, h⟩ := bind_eq_ok.mp h
  have ⟨halloc, hzero⟩ := allocateArray_eq_ok hstorage
  have hsq : size % 65536 * (size % 65536) ≤ size % 65536 * 65535 :=
    Nat.mul_le_mul_left _ (by omega)
  have hsize : logRegrIGDLayout.arraySize (size % 65536) = logRegrIGDLength (size % 65536) := by
    rw [logRegrIGDLayout_arraySize, logRegrIGDLength, Nat.mod_eq_of_lt (by omega)]
  rw [hsize] at halloc hzero
  rw [← Except.ok.inj h]
  refine ⟨logRegrIGDLayout_fits halloc, rfl, ?_⟩
  rw [hzero]

theorem reset_eq_ok (hfits : logRegrIGDLayout.Fits w (logRegrIGDLength w))
    (hlength : storage.length = logRegrIGDLength w) (h : ops.reset storage w = .ok storage') :
    storage'.length = storage.length ∧ storage'[0]? = storage[0]? ∧
      storage'[1]? = some ops.tenth ∧ storage'[2 + w]? = some 0 := by
  have hnumRows := intIndex_of_fits hfits (show 2 + w ≤ 4 + w * w + w by omega)
  have hmatrix := intIndex_of_fits hfits (show 3 + w ≤ 4 + w * w + w by omega)
  have hlast := intIndex_of_fits hfits (show 3 + w * w + w ≤ 4 + w * w + w by omega)
  unfold logRegrIGDLength at hlength
  unfold DoubleOps.reset at h
  rw [hnumRows, hmatrix, hlast] at h
  have ⟨filled, hfill, h⟩ := bind_eq_ok.mp h
  have ⟨hfilled, hkeeps⟩ := fillZero_eq_ok hfill
  rw [List.length_set, List.length_set] at hfilled
  rw [← Except.ok.inj h]
  refine ⟨(List.length_set ..).trans hfilled, ?_, ?_, ?_⟩
  · rw [List.getElem?_set_ne (by omega), hkeeps 0 (by omega), List.getElem?_set_ne (by omega),
      List.getElem?_set_ne (by omega)]
  · rw [List.getElem?_set_ne (by omega), hkeeps 1 (by omega), List.getElem?_set_ne (by omega),
      List.getElem?_set_self (by omega)]
  · rw [List.getElem?_set_ne (by omega), hkeeps (2 + w) (by omega),
      List.getElem?_set_self (by rw [List.length_set]; omega)]

omit [DoubleArithmetic α] in
theorem IgdHolds.construct (h : IgdHolds ops w state) :
    ops.construct logRegrIGDLayout state = .ok w := by
  have ⟨a, ha, hwidth⟩ := h.width
  have hrebind : logRegrIGDLayout.rebind state w = .ok () := by
    apply Layout.rebind_ok
    rw [h.length_eq]
    exact h.fits.field_lt
  unfold DoubleOps.construct
  rw [show logRegrIGDLayout.widthIndex = 0 from rfl, elementAt_eq_ok ha, ok_bind, hwidth, hrebind,
    ok_bind]
  rfl

omit [DoubleArithmetic α] in
/-- A state that is too short for the width it holds cannot be constructed. -/
theorem construct_error_of_short {p : Nat} (hfits : logRegrIGDLayout.Fits p (logRegrIGDLength p))
    {a : α} (ha : state[0]? = some a) (hwidth : ops.toUInt16 a = p)
    (hshort : state.length < logRegrIGDLength p) :
    ∃ e, ops.construct logRegrIGDLayout state = .error e := by
  have hlast := intIndex_of_fits hfits (show 3 + p * p + p ≤ 4 + p * p + p by omega)
  unfold logRegrIGDLength at hshort
  cases hrebind : logRegrIGDLayout.rebind state p with
  | error e =>
      refine ⟨e, ?_⟩
      unfold DoubleOps.construct
      rw [show logRegrIGDLayout.widthIndex = 0 from rfl, elementAt_eq_ok ha, ok_bind, hwidth,
        hrebind]
      rfl
  | ok u =>
      have hfield := Layout.rebind_eq_ok hrebind (intIndex (3 + p * p + p), 1)
        (by simp [logRegrIGDLayout])
      rw [hlast] at hfield
      omega

/-- What the first row starts from; the width is the previous state's. -/
structure IgdFirst (ops : DoubleOps α) (w : Nat) (storage : List α) : Prop where
  fits : logRegrIGDLayout.Fits w (logRegrIGDLength w)
  length_eq : storage.length = logRegrIGDLength w
  width : ∃ a p, storage[0]? = some a ∧ ops.toUInt16 a = p ∧
    logRegrIGDLayout.Fits p (logRegrIGDLength p) ∧ w ≤ p
  stepsize : ∃ a, storage[1]? = some a ∧ ops.isFinite a = true ∧ ops.toUInt64 a = 0
  numRows : storage[2 + w]? = some 0

theorem firstState_eq_ok (hops : ops.Lawful isCount)
    (hprevious : ∀ s, previous = some s → ∃ p, IgdHolds ops p s) {size : Nat}
    {started : List α × Nat} (h : ops.firstState previous size = .ok started) :
    IgdFirst ops started.2 started.1 := by
  unfold DoubleOps.firstState at h
  have ⟨fresh, hfresh, h⟩ := bind_eq_ok.mp h
  have ⟨hfits, _, hstorage⟩ := initializeState_eq_ok hfresh
  have hlen : logRegrIGDLength fresh.2 = 4 + fresh.2 * fresh.2 + fresh.2 := rfl
  have hlength : fresh.1.length = logRegrIGDLength fresh.2 := by
    rw [hstorage, List.length_set, List.length_replicate]
  cases previous with
  | none =>
      rw [← Except.ok.inj h]
      refine ⟨hfits, hlength, ⟨ops.ofUInt64 fresh.2, fresh.2, ?_,
        hops.toUInt16_ofUInt64 _ hfits.width_lt, hfits, le_refl _⟩,
        ⟨0, ?_, hops.isFinite_zero, hops.toUInt64_zero⟩, ?_⟩
      · rw [hstorage, List.getElem?_set_self (by rw [List.length_replicate]; omega)]
      · rw [hstorage, List.getElem?_set_ne (by omega), List.getElem?_replicate,
          if_pos (by omega)]
      · rw [hstorage, List.getElem?_set_ne (by omega), List.getElem?_replicate,
          if_pos (by omega)]
  | some previousState =>
      have ⟨p, hholds⟩ := hprevious previousState rfl
      have ⟨a, ha, hwidth⟩ := hholds.width
      dsimp only at h
      rw [hholds.construct, ok_bind] at h
      have ⟨copied, hcopied, h⟩ := bind_eq_ok.mp h
      have ⟨storage, hreset, h⟩ := bind_eq_ok.mp h
      rw [← Except.ok.inj h]
      have ⟨hle, htake⟩ := assignFrom_eq_ok hcopied
      rw [hlength, hholds.length_eq] at hle
      have hcopiedLength : copied.length = logRegrIGDLength fresh.2 := by
        rw [htake, List.length_take, hlength, hholds.length_eq, Nat.min_eq_left hle]
      have ⟨hresetLength, hresetWidth, hresetStep, hresetRows⟩ :=
        reset_eq_ok hfits hcopiedLength hreset
      refine ⟨hfits, hresetLength.trans hcopiedLength, ⟨a, p, ?_, hwidth, hholds.fits, ?_⟩,
        ⟨ops.tenth, hresetStep, hops.isFinite_tenth, hops.toUInt64_tenth⟩, hresetRows⟩
      · rw [hresetWidth, htake, List.getElem?_take_of_lt (by omega), ha]
      · by_contra hlt
        have hsq : p * p ≤ fresh.2 * fresh.2 := Nat.mul_le_mul (by omega) (by omega)
        have hp : logRegrIGDLength p = 4 + p * p + p := rfl
        omega

/-- The first row makes a counted state, or one that is too short for its width. -/
theorem IgdFirst.addRow (hops : ops.Lawful isCount) (h : IgdFirst ops w storage) {y : α}
    {x : List α} (hrow : ops.addRow previous storage w y x = .ok state) :
    IgdCounted ops isCount w state ∨ ∃ e, ops.construct logRegrIGDLayout state = .error e := by
  have ⟨a, p, ha, hwidth, hfits, hle⟩ := h.width
  have ⟨hupdated, _⟩ := addRow_eq_ok h.fits hrow
  have hwidth' : state[0]? = some a := (hupdated.keeps 0 (by omega)).trans ha
  have hlength := hupdated.length_eq.trans h.length_eq
  rcases Nat.lt_or_eq_of_le hle with hlt | heq
  · right
    apply construct_error_of_short hfits hwidth' hwidth
    have hsq : w * w ≤ p * p := Nat.mul_le_mul hle hle
    rw [hlength, logRegrIGDLength, logRegrIGDLength]
    omega
  · left
    refine ⟨⟨h.fits, hlength, a, hwidth', hwidth.trans heq.symm⟩, ?_, 0 + 1, ?_,
      hops.isCount_one⟩
    · rw [hupdated.keeps 1 (by omega)]
      exact h.stepsize
    · rw [hupdated.numRows, h.numRows]
      rfl

theorem IgdCounted.plusEqState (hops : ops.Lawful isCount) {v : Nat} {other : List α}
    (h : IgdCounted ops isCount w state)
    (hplus : ops.plusEqState w v state other = .ok storage) :
    IgdCounted ops isCount w storage := by
  have hnumRows := intIndex_of_fits h.fits (show 2 + w ≤ 4 + w * w + w by omega)
  have hmatrix := intIndex_of_fits h.fits (show 3 + w ≤ 4 + w * w + w by omega)
  have hlast := intIndex_of_fits h.fits (show 3 + w * w + w ≤ 4 + w * w + w by omega)
  unfold DoubleOps.plusEqState at hplus
  have ⟨widthOfX, _, hplus⟩ := bind_eq_ok.mp hplus
  split at hplus
  case isFalse => cases hplus
  case isTrue =>
    rw [hnumRows, hmatrix, hlast] at hplus
    have ⟨numRowsLeft, _, hplus⟩ := bind_eq_ok.mp hplus
    have ⟨numRowsRight, _, hplus⟩ := bind_eq_ok.mp hplus
    have ⟨coefLeft, _, hplus⟩ := bind_eq_ok.mp hplus
    have ⟨coefRight, _, hplus⟩ := bind_eq_ok.mp hplus
    have ⟨_, _, hplus⟩ := bind_eq_ok.mp hplus
    have ⟨averaged, haveraged, hplus⟩ := bind_eq_ok.mp hplus
    have ⟨xTranspAX, _, hplus⟩ := bind_eq_ok.mp hplus
    have ⟨added, hadded, hplus⟩ := bind_eq_ok.mp hplus
    have ⟨logLikelihood, _, hplus⟩ := bind_eq_ok.mp hplus
    have ⟨hlength, hkeeps⟩ := updateMap_eq_ok haveraged
    have ⟨hlength', hkeeps'⟩ := updateMap_eq_ok hadded
    rw [List.length_modify] at hlength'
    have hupdated : IgdUpdated w (fun n => n + ops.ofUInt64 (ops.toUInt64 numRowsRight)) state
        storage := by
      rw [← Except.ok.inj hplus]
      refine ⟨(List.length_modify ..).trans (hlength'.trans hlength), fun k hk => ?_, ?_⟩
      · rw [List.getElem?_modify_ne _ _ (by omega), hkeeps' k (by omega),
          List.getElem?_modify_ne _ _ (by omega), hkeeps k (by omega)]
      · rw [List.getElem?_modify_ne _ _ (by omega), hkeeps' (2 + w) (by omega),
          List.getElem?_modify_eq, hkeeps (2 + w) (by omega)]
        rfl
    exact hupdated.counted h fun a ha => hops.isCount_add a _ ha

/-- What every state of a run is. -/
def IgdReached (ops : DoubleOps α) (isCount : α → Prop) (rows : Multiset (Bool × List α))
    (state : List α) : Prop :=
  (rows = 0 ∧ state = [0, 0, 0, 0]) ∨
    (rows ≠ 0 ∧ ((∃ w, IgdCounted ops isCount w state) ∨
      ∃ e, ops.construct logRegrIGDLayout state = .error e))

theorem construct_initial (hops : ops.Lawful isCount) :
    ops.construct logRegrIGDLayout [(0 : α), 0, 0, 0] = .ok 0 := by
  have hrebind : logRegrIGDLayout.rebind [(0 : α), 0, 0, 0] 0 = .ok () := by
    apply Layout.rebind_ok
    simp (disch := omega) [logRegrIGDLayout, intIndex_of_lt]
  unfold DoubleOps.construct
  rw [show logRegrIGDLayout.widthIndex = 0 from rfl, elementAt_eq_ok (by rfl), ok_bind,
    hops.toUInt16_zero, hrebind]
  rfl

theorem startState_initial (hops : ops.Lawful isCount) (size : Nat) :
    ops.startState previous [0, 0, 0, 0] 0 size = ops.firstState previous size := by
  unfold DoubleOps.startState
  rw [intIndex_of_lt (by decide), elementAt_eq_ok (by rfl), ok_bind, if_pos hops.equal_zero]

theorem IgdCounted.startState (hops : ops.Lawful isCount) (h : IgdCounted ops isCount w state)
    (size : Nat) : ops.startState previous state w size = .ok (state, w) := by
  have ⟨a, ha, hcount⟩ := h.numRows
  unfold DoubleOps.startState
  rw [intIndex_of_fits h.fits (show 2 + w ≤ 4 + w * w + w by omega), elementAt_eq_ok ha, ok_bind,
    if_neg (by rw [hops.not_zero_of_isCount a hcount]; exact Bool.false_ne_true)]
  rfl

theorem igdReached_keeps (hops : ops.Lawful isCount)
    (hprevious : ∀ s, previous = some s → ∃ p, IgdHolds ops p s) :
    Keeps (ops.logregrIGDStep previous) (fun _ => True) (IgdReached ops isCount) := by
  constructor
  · exact .inl ⟨rfl, rfl⟩
  · intro rows s row s' _ hs hstep
    refine .inr ⟨Multiset.cons_ne_zero, ?_⟩
    have hstep : ops.stepTransition previous s row = .ok s' := hstep
    unfold DoubleOps.stepTransition at hstep
    have ⟨width, hwidth, hstep⟩ := bind_eq_ok.mp hstep
    split at hstep
    case isFalse => cases hstep
    case isTrue =>
      have ⟨started, hstart, hrow⟩ := bind_eq_ok.mp hstep
      rcases hs with ⟨_, hinitial⟩ | ⟨_, ⟨w, hcounted⟩ | ⟨e, herror⟩⟩
      · rw [hinitial, construct_initial hops] at hwidth
        rw [hinitial, ← Except.ok.inj hwidth, startState_initial hops] at hstart
        rcases (firstState_eq_ok hops hprevious hstart).addRow hops hrow with hnext | herror
        · exact .inl ⟨started.2, hnext⟩
        · exact .inr herror
      · rw [hcounted.construct] at hwidth
        rw [← Except.ok.inj hwidth, hcounted.startState hops] at hstart
        rw [← Except.ok.inj hstart] at hrow
        exact .inl ⟨w, (addRow_eq_ok hcounted.fits hrow).1.counted hcounted hops.isCount_succ⟩
      · rw [herror] at hwidth
        cases hwidth
  · intro rows s rows' s' t hs hs' hmerge
    have hmerge : ops.stepMergeStates s s' = .ok t := hmerge
    unfold DoubleOps.stepMergeStates at hmerge
    have ⟨widthLeft, hleft, hmerge⟩ := bind_eq_ok.mp hmerge
    have ⟨widthRight, hright, hmerge⟩ := bind_eq_ok.mp hmerge
    have ⟨numRowsLeft, hnumRowsLeft, hmerge⟩ := bind_eq_ok.mp hmerge
    have ⟨numRowsRight, hnumRowsRight, hmerge⟩ := bind_eq_ok.mp hmerge
    rcases hs with ⟨hzero, hinitial⟩ | ⟨hne, ⟨w, hcounted⟩ | ⟨e, herror⟩⟩
    · rw [hinitial, construct_initial hops] at hleft
      rw [← Except.ok.inj hleft, hinitial, intIndex_of_lt (by decide),
        elementAt_eq_ok (x := 0) (by rfl)] at hnumRowsLeft
      rw [← Except.ok.inj hnumRowsLeft, if_pos hops.equal_zero] at hmerge
      rw [hzero, zero_add, ← Except.ok.inj hmerge]
      exact hs'
    · have hsum : rows + rows' ≠ 0 := fun h => hne (add_eq_zero.mp h).1
      refine .inr ⟨hsum, .inl ⟨w, ?_⟩⟩
      have ⟨a, ha, hcount⟩ := hcounted.numRows
      rw [hcounted.construct] at hleft
      rw [← Except.ok.inj hleft,
        intIndex_of_fits hcounted.fits (show 2 + w ≤ 4 + w * w + w by omega),
        elementAt_eq_ok ha] at hnumRowsLeft
      rw [← Except.ok.inj hnumRowsLeft, if_neg (by
        rw [hops.not_zero_of_isCount a hcount]
        exact Bool.false_ne_true)] at hmerge
      split at hmerge
      case isTrue =>
        rw [← Except.ok.inj hmerge]
        exact hcounted
      case isFalse =>
        rw [← Except.ok.inj hleft] at hmerge
        exact hcounted.plusEqState hops hmerge
    · rw [herror] at hleft
      cases hleft

end States

/-! ## The final function -/

section Final

variable {α : Type} [DoubleArithmetic α] {ops : DoubleOps α} {isCount : α → Prop} {w : Nat}
  {state : List α} {previous : Option (List α)}

omit [DoubleArithmetic α] in
/-- The width is where the least-squares layout has it. -/
theorem stepFinal_construct {a : α} (ha : state[0]? = some a) (hwidth : ops.toUInt16 a = w)
    (hfields : ∀ field ∈ logRegrIRLSLayout.fields w, field.1 < state.length) :
    ops.construct logRegrIRLSLayout state = .ok w := by
  unfold DoubleOps.construct
  rw [show logRegrIRLSLayout.widthIndex = 0 from rfl, elementAt_eq_ok ha, ok_bind, hwidth,
    Layout.rebind_ok hfields, ok_bind]
  rfl

omit [DoubleArithmetic α] in
/-- The least-squares layout needs more elements than the state has from two coefficients on. -/
theorem stepFinal_wide (h : IgdCounted ops isCount w state) (hw : 2 ≤ w) :
    ops.stepFinal state = .error (thrown "Out-of-bounds array access detected.") := by
  have hmax : maxAllocSize = 1073741823 := rfl
  have halloc := h.fits.allocates
  have hlength := h.length_eq
  unfold logRegrIGDLength at halloc hlength
  have ⟨a, ha, hwidth⟩ := h.width
  have hlast : (intIndex (2 + w * w + 2 * w), 1) ∈ logRegrIRLSLayout.fields w := by
    simp [logRegrIRLSLayout]
  have hrebind : logRegrIRLSLayout.rebind state w =
      .error (thrown "Out-of-bounds array access detected.") := by
    apply Layout.rebind_error hlast
    rw [intIndex_of_lt (by omega)]
    omega
  unfold DoubleOps.stepFinal DoubleOps.construct
  rw [show logRegrIRLSLayout.widthIndex = 0 from rfl, elementAt_eq_ok ha, ok_bind, hwidth, hrebind]
  rfl

omit [DoubleArithmetic α] in
/-- With one coefficient that coefficient is taken for the number of rows. -/
theorem stepFinal_single (h : IgdCounted ops isCount 1 state) {c : α} (hc : state[2]? = some c) :
    ops.stepFinal state = if ops.toUInt64 c = 0 then .ok none else .ok (some state) := by
  have hlength : state.length = 6 := h.length_eq
  have ⟨a, ha, hwidth⟩ := h.width
  have ⟨s, hs, hfinite, _⟩ := h.stepsize
  have hconstruct : ops.construct logRegrIRLSLayout state = .ok 1 := by
    apply stepFinal_construct ha hwidth
    simp (disch := omega) [logRegrIRLSLayout, intIndex_of_lt, hlength]
  have hcoef : (state.drop 1).take 1 = [s] := by
    rw [List.take_one, List.head?_drop, hs]
    rfl
  unfold DoubleOps.stepFinal
  rw [hconstruct, ok_bind, mapAt_ok (by omega), ok_bind, hcoef, intIndex_of_lt (by decide),
    if_pos (by simp [hfinite]), elementAt_eq_ok hc]
  rfl

omit [DoubleArithmetic α] in
/-- Without coefficients the step size is taken for it. -/
theorem stepFinal_empty (h : IgdCounted ops isCount 0 state) : ops.stepFinal state = .ok none := by
  have hlength : state.length = 4 := h.length_eq
  have ⟨a, ha, hwidth⟩ := h.width
  have ⟨s, hs, _, hzero⟩ := h.stepsize
  have hconstruct : ops.construct logRegrIRLSLayout state = .ok 0 := by
    apply stepFinal_construct ha hwidth
    simp (disch := omega) [logRegrIRLSLayout, intIndex_of_lt, hlength]
  unfold DoubleOps.stepFinal
  rw [hconstruct, ok_bind, mapAt_ok (by omega), ok_bind, intIndex_of_lt (by decide),
    if_pos (by simp), elementAt_eq_ok hs, ok_bind, if_pos hzero]
  rfl

theorem stepFinal_initial (hops : ops.Lawful isCount) :
    ops.stepFinal [0, 0, 0, 0] = .ok none := by
  have hconstruct : ops.construct logRegrIRLSLayout [(0 : α), 0, 0, 0] = .ok 0 := by
    apply stepFinal_construct (by rfl) hops.toUInt16_zero
    simp (disch := omega) [logRegrIRLSLayout, intIndex_of_lt]
  unfold DoubleOps.stepFinal
  rw [hconstruct, ok_bind, mapAt_ok (by simp), ok_bind, intIndex_of_lt (by decide),
    if_pos (by simp), elementAt_eq_ok (x := 0) (by rfl), ok_bind, if_pos hops.toUInt64_zero]
  rfl

omit [DoubleArithmetic α] in
theorem IgdCounted.view (h : IgdCounted ops isCount w state) {a : α}
    (ha : state[2 + w]? = some a) :
    ops.igdView state = .ok (a, (state.drop 2).take w) := by
  have hlength := h.length_eq
  unfold logRegrIGDLength at hlength
  unfold DoubleOps.igdView
  rw [h.construct, ok_bind, intIndex_of_fits h.fits (show 2 + w ≤ 4 + w * w + w by omega),
    elementAt_eq_ok ha, ok_bind, mapAt_ok (by omega)]
  rfl

theorem outOfBounds_ne_igdNoSolution :
    thrown "Out-of-bounds array access detected." ≠ DoubleOps.igdNoSolution := by decide

theorem keepsModel_initial (hops : ops.Lawful isCount) :
    ops.KeepsModel 0 [] [(0 : α), 0, 0, 0] := by
  constructor
  · exact iff_of_true (stepFinal_initial hops) hops.equal_zero
  · rw [stepFinal_initial hops]
    simp
  · intro hne
    rw [hops.equal_zero] at hne
    cases hne

/-- A state with rows is kept only if it has one coefficient that reads as a number of rows. -/
theorem IgdCounted.keepsModel_iff (hops : ops.Lawful isCount)
    (h : IgdCounted ops isCount w state) {a : α} (hcount : isCount a) :
    ops.KeepsModel a ((state.drop 2).take w) state ↔
      ops.ReadsRight a ((state.drop 2).take w) := by
  have hlength := h.length_eq
  have hne := hops.not_zero_of_isCount a hcount
  have hlengthCoef : ((state.drop 2).take w).length = w := by
    rw [List.length_take, List.length_drop, hlength, logRegrIGDLength]
    omega
  have hrows : ¬ops.equal a 0 = true := by
    rw [hne]
    exact Bool.false_ne_true
  generalize hcoef : (state.drop 2).take w = coef at hlengthCoef
  unfold DoubleOps.ReadsRight
  rw [or_iff_right hrows]
  rcases Nat.lt_or_ge w 2 with hlt | hge
  · obtain rfl | rfl : w = 0 ∨ w = 1 := by omega
    · rw [List.length_eq_zero_iff.mp hlengthCoef]
      constructor
      · intro hkeeps
        exact absurd (hkeeps.null_iff.mp (stepFinal_empty h)) hrows
      · rintro ⟨c, hsingle, _⟩
        cases hsingle
    · obtain ⟨c, rfl⟩ := List.length_eq_one_iff.mp hlengthCoef
      have hc : state[2]? = some c := by
        have helement := congrArg (fun l : List α => l[0]?) hcoef
        rwa [getElem?_mapElements, if_pos (by omega)] at helement
      have hfinal := stepFinal_single h hc
      constructor
      · intro hkeeps
        refine ⟨c, rfl, ?_, ?_⟩
        · by_contra hnot
          have herror := hkeeps.error_iff.mpr
            ⟨c, List.mem_singleton_self c, Bool.not_eq_true _ ▸ hnot⟩
          rw [hfinal] at herror
          split at herror <;> cases herror
        · intro hzero
          rw [if_pos hzero] at hfinal
          exact hrows (hkeeps.null_iff.mp hfinal)
      · rintro ⟨c', hsame, hfinite, hnonzero⟩
        rw [← List.singleton_inj.mp hsame] at hfinite hnonzero
        rw [if_neg hnonzero] at hfinal
        constructor
        · rw [hfinal]
          exact iff_of_false (by simp) hrows
        · rw [hfinal]
          simp [hfinite]
        · intro _ _
          exact hfinal
  · have hfinal := stepFinal_wide h hge
    constructor
    · intro hkeeps
      have hfinite : ∀ c ∈ coef, ops.isFinite c = true := by
        intro c hc
        by_contra hnot
        have herror := hkeeps.error_iff.mpr ⟨c, hc, Bool.not_eq_true _ ▸ hnot⟩
        rw [hfinal] at herror
        exact outOfBounds_ne_igdNoSolution (Except.error.inj herror)
      have hok := hkeeps.otherwise hne hfinite
      rw [hfinal] at hok
      cases hok
    · rintro ⟨c, hsingle, _⟩
      rw [hsingle, List.length_singleton] at hlengthCoef
      omega

/-- The final function keeps the model of a reached state exactly if that has no rows, or a
single finite coefficient that is not zero as an unsigned integer. -/
theorem logregrIGDStepFinal_keeps_iff (hops : ops.Lawful isCount)
    (hprevious : ∀ s, previous = some s → ∃ p, IgdHolds ops p s) {plan : Plan (Bool × List α)}
    (hrun : (ops.logregrIGDStep previous).run plan = .ok state) :
    (∃ numRows coef, ops.igdView state = .ok (numRows, coef) ∧
      ops.KeepsModel numRows coef state) ↔
    ∃ numRows coef, ops.igdView state = .ok (numRows, coef) ∧ ops.ReadsRight numRows coef := by
  have hreached := (igdReached_keeps hops hprevious).run (fun _ _ => trivial) hrun
  rcases hreached with ⟨_, hinitial⟩ | ⟨_, ⟨w, hcounted⟩ | ⟨e, herror⟩⟩
  · have hview : ops.igdView state = .ok (0, []) := by
      unfold DoubleOps.igdView
      rw [hinitial, construct_initial hops, ok_bind, intIndex_of_lt (by decide),
        elementAt_eq_ok (x := 0) (by rfl)]
      rfl
    constructor
    · intro _
      exact ⟨0, [], hview, .inl hops.equal_zero⟩
    · intro _
      refine ⟨0, [], hview, ?_⟩
      rw [hinitial]
      exact keepsModel_initial hops
  · have ⟨a, ha, hcount⟩ := hcounted.numRows
    have hview := hcounted.view ha
    constructor
    · intro ⟨numRows, coef, hview', hkeeps⟩
      have hpair := Except.ok.inj (hview.symm.trans hview')
      rw [← (Prod.mk.inj hpair).1, ← (Prod.mk.inj hpair).2] at hkeeps
      exact ⟨_, _, hview, (hcounted.keepsModel_iff hops hcount).mp hkeeps⟩
    · intro ⟨numRows, coef, hview', hreads⟩
      have hpair := Except.ok.inj (hview.symm.trans hview')
      rw [← (Prod.mk.inj hpair).1, ← (Prod.mk.inj hpair).2] at hreads
      exact ⟨_, _, hview, (hcounted.keepsModel_iff hops hcount).mpr hreads⟩
  · have hview : ops.igdView state = .error e := by
      unfold DoubleOps.igdView
      rw [herror]
      rfl
    rw [hview]
    constructor
    · intro ⟨_, _, hok, _⟩
      cases hok
    · intro ⟨_, _, hok, _⟩
      cases hok

end Final

/-! ## Exact numbers beside one that is not finite -/

/-- A rational number, or none for what is not finite. -/
def ExactDouble := Option ℚ

instance : DecidableEq ExactDouble := inferInstanceAs (DecidableEq (Option ℚ))

instance : DoubleArithmetic ExactDouble where
  zero := some 0
  one := some 1
  neg := Option.map fun a => -a
  add := Option.map₂ fun a b => a + b
  sub := Option.map₂ fun a b => a - b
  mul := Option.map₂ fun a b => a * b
  div a b := Option.bind a fun x => Option.bind b fun y => if y = 0 then none else some (x / y)

/-- The literal .1 as a double, the logistic function and the logarithm at 0. -/
def exactOps : DoubleOps ExactDouble where
  isFinite a := a.isSome
  equal a b := a.isSome && a = b
  toUInt16 a := ⌊a.getD 0⌋₊ % 65536
  toUInt64 a := ⌊a.getD 0⌋₊
  ofUInt64 n := some (n : ℚ)
  tenth := some (3602879701896397 / 36028797018963968)
  dot x y := (List.zipWith (fun a b => a * b) x y).foldl (fun a b => a + b) 0
  sigma _ := some (1 / 2)
  logOnePlusExp _ := some (6243314768165359 / 9007199254740992)

def ExactDouble.isCount (a : ExactDouble) : Prop := ∃ q : ℚ, 1 ≤ q ∧ a = some q

theorem exactOps_lawful : exactOps.Lawful ExactDouble.isCount where
  toUInt16_zero := by rfl
  toUInt16_ofUInt64 n hn := by
    change ⌊(n : ℚ)⌋₊ % 65536 = n
    rw [Nat.floor_natCast, Nat.mod_eq_of_lt hn]
  toUInt64_zero := by rfl
  toUInt64_tenth := by
    change ⌊(3602879701896397 / 36028797018963968 : ℚ)⌋₊ = 0
    norm_num
  isFinite_zero := rfl
  isFinite_tenth := rfl
  equal_zero := by rfl
  isCount_one := ⟨0 + 1, by norm_num, rfl⟩
  isCount_succ := by
    intro a ⟨q, hq, ha⟩
    exact ⟨q + 1, by linarith, by rw [ha]; rfl⟩
  isCount_add := by
    intro a n ⟨q, hq, ha⟩
    have hn : (0 : ℚ) ≤ n := Nat.cast_nonneg n
    exact ⟨q + n, by linarith, by rw [ha]; rfl⟩
  not_zero_of_isCount := by
    intro a ⟨q, hq, ha⟩
    have hne : a ≠ 0 := by
      intro heq
      have hzero : q = 0 := Option.some.inj (ha.symm.trans heq)
      linarith
    unfold exactOps
    dsimp only
    rw [decide_eq_false hne, Bool.and_false]

/-- A state of one coefficient before its first row. -/
def exactState (c : ℚ) : List ExactDouble := [some 1, exactOps.tenth, some c, some 0, some 0, some 0]

theorem exactState_holds (c : ℚ) (s : List ExactDouble) (hs : some (exactState c) = some s) :
    ∃ p, IgdHolds exactOps p s := by
  refine ⟨1, logRegrIGDLayout_fits (by decide), ?_, some 1, ?_, ?_⟩
  · rw [← Option.some.inj hs]
    rfl
  · rw [← Option.some.inj hs]
    rfl
  · change ⌊(1 : ℚ)⌋₊ % 65536 = 1
    rw [Nat.floor_one]

/-- The coefficient 2 is read as two rows. -/
theorem logregrIGDStepFinal_keeps_two :
    ∃ state, (exactOps.logregrIGDStep (some (exactState 2))).run (.segment [(true, [some 0])]) =
        .ok state ∧
      ∃ numRows coef, exactOps.igdView state = .ok (numRows, coef) ∧
        exactOps.KeepsModel numRows coef state := by
  have hrun : (exactOps.logregrIGDStep (some (exactState 2))).run (.segment [(true, [some 0])]) =
      .ok [some 1, exactOps.tenth, some 2, some 1, some 0,
        some (-6243314768165359 / 9007199254740992)] := by
    decide +kernel
  refine ⟨_, hrun, (logregrIGDStepFinal_keeps_iff exactOps_lawful (exactState_holds 2) hrun).mpr
    ⟨some 1, [some 2], by decide +kernel, .inr ⟨some 2, rfl, rfl, ?_⟩⟩⟩
  decide +kernel

/-- The coefficient 1/2 is read as no rows. -/
theorem logregrIGDStepFinal_null :
    ∃ state numRows coef,
      (exactOps.logregrIGDStep (some (exactState (1 / 2)))).run (.segment [(true, [some 0])]) =
        .ok state ∧
      exactOps.igdView state = .ok (numRows, coef) ∧ numRows = some 1 ∧
      exactOps.stepFinal state = .ok none ∧ ¬exactOps.KeepsModel numRows coef state := by
  have hfinal : exactOps.stepFinal [some 1, exactOps.tenth, some (1 / 2), some 1, some 0,
      some (-6243314768165359 / 9007199254740992)] = .ok none := by
    decide +kernel
  refine ⟨[some 1, exactOps.tenth, some (1 / 2), some 1, some 0,
      some (-6243314768165359 / 9007199254740992)], some 1, [some (1 / 2)], by decide +kernel,
    by decide +kernel, rfl, hfinal, fun hkeeps => ?_⟩
  have hzero := hkeeps.null_iff.mp hfinal
  exact absurd hzero (by decide +kernel)

end Madlib.Regress
