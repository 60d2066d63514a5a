import Madlib.Backend
import Madlib.Lib.MachineInt

/-!
# Online support vector machines

The three update functions read the model, evaluate it on the example and add the example to the
support vectors if the error is large.  Weights and vectors are stored in arrays of doubles, which
are replaced by larger ones whenever a block is full and written in place otherwise.
-/

namespace Madlib.KernelMachines

open Madlib.Backend Madlib.Lib.MachineInt

/-- A `float8[]` argument: its number of elements, and the values of those that are not NULL,
which have been allocated with a header. -/
structure FloatArray (α : Type) where
  nullBitmap : Bool
  ndim : Nat
  items : Nat
  values : List α
  items_eq : nullBitmap = false → items = values.length
  size_le : 8 * values.length + 24 ≤ maxAllocSize

/-- `svm_model_rec`, but for the kernel's oid -/
structure SvmModel (α : Type) where
  inds : Int
  cumErr : α
  epsilon : α
  rho : α
  b : α
  nsvs : Nat
  indDim : Nat
  weights : List α
  individuals : List α
  deriving DecidableEq

section Memory

variable {α : Type}

/-- `construct_zero_array` of doubles, whose sizes are an `int` product and a header of 24 bytes;
the elements there is room for are returned. -/
def constructZeroArray [Zero α] (inNumElements : Int) : Except Fault (List α) :=
  let size := toInt32 (8 * inNumElements) + 24
  if size < 0 ∨ (maxAllocSize : Int) < size then
    .error (.elog "invalid memory alloc request size")
  else if size < 24 then .error .outOfBounds
  else .ok (List.replicate (size / 8 - 3).toNat 0)

/-- `count` elements from an offset on are read. -/
def readAt (array : List α) (offset : Int) (count : Nat) : Except Fault (List α) :=
  if offset < 0 ∨ (array.length : Int) < offset + count then .error .outOfBounds
  else .ok ((array.drop offset.toNat).take count)

/-- `count` elements from the beginning of `source` are written from an offset on. -/
def storeAt (array source : List α) (offset : Int) (count : Nat) : Except Fault (List α) :=
  if offset < 0 ∨ (array.length : Int) < offset + count ∨ source.length < count then
    .error .outOfBounds
  else .ok (array.take offset.toNat ++ source.take count ++ array.drop (offset.toNat + count))

variable [Zero α]

def blocksize : Nat := 100

def addNewWeight (weights : List α) (weight : α) (nsvs : Nat) : Except Fault (List α) :=
  if nsvs % blocksize = 0 then do
    let ret ← constructZeroArray (toInt32 (nsvs + blocksize))
    let ret ← storeAt ret weights 0 nsvs
    storeAt ret [weight] nsvs 1
  else storeAt weights [weight] nsvs 1

def addNewSV (spvs ind : List α) (nsvs dim : Nat) : Except Fault (List α) :=
  if nsvs % blocksize = 0 then do
    let ret ← constructZeroArray (toInt32 ((nsvs + blocksize) * dim))
    let ret ← storeAt ret spvs 0 (nsvs * dim)
    storeAt ret ind (toInt32 (nsvs * dim)) dim
  else storeAt spvs ind (toInt32 (nsvs * dim)) dim

/-- All weights but those that are too small are multiplied. -/
def rescaleWeights [Mul α] (tooSmall : α → Bool) (factor : α) (weights : List α) (nsvs : Nat) :
    Except Fault (List α) :=
  if weights.length < nsvs then .error .outOfBounds
  else .ok (weights.mapIdx fun i w =>
    if i < nsvs then if tooSmall w then 0 else w * factor else w)

end Memory

section Functions

variable {α : Type} [Field α] [LinearOrder α]

/-- The inner product, as `svm_dot` sums it up. -/
def dotSum (x1 x2 : List α) : α := (x1.zip x2).foldl (fun ret p => ret + p.1 * p.2) 0

/-- `svm_dot`, a kernel function -/
def svmDot (x1 x2 : List α) : Except Fault α :=
  if x1.length ≠ x2.length then
    .error (.ereport .invalidParameterValue "function \"%s\" called with invalid parameters")
  else .ok (dotSum x1 x2)

/-- `svm_predict_eval` -/
def svmPredictEval (kernel : List α → List α → Except Fault α) (weights suppVectors ind : List α)
    (nsvs indDim : Nat) : Except Fault α := do
  let sppVec ← constructZeroArray indDim
  (List.range nsvs).foldlM (fun ret (i : Nat) => do
    let relevant ← readAt suppVectors (toInt32 ((indDim : Int) * i)) indDim
    let sppVec ← storeAt sppVec relevant 0 indDim
    let weight ← readAt weights i 1
    let value ← kernel sppVec ind
    pure (ret + weight.headD 0 * value)) 0

def invalidParameter : Fault :=
  .ereport .invalidParameterValue "function \"%s\" called with invalid parameter"

/-- What all three functions do first: the arguments are checked, the first example says what the
dimension is, and the model is evaluated. -/
def svmPredict (kernel : List α → List α → Except Fault α) (accepted : Bool) (model : SvmModel α)
    (ind : FloatArray α) : Except Fault (Nat × α) := do
  if accepted = false ∨ ind.nullBitmap ∨ ind.ndim ≠ 1 then .error invalidParameter
  let indDim := if model.indDim = 0 then ind.items else model.indDim
  let p ← svmPredictEval kernel model.weights model.individuals ind.values model.nsvs indDim
  pure (indDim, p)

/-- The rescaled weights and the vectors, with the example as one more. -/
def addSupportVector (model : SvmModel α) (tooSmall : α → Bool) (factor weight : α)
    (ind : List α) (indDim : Nat) : Except Fault (List α × List α) := do
  let weights ← rescaleWeights tooSmall factor model.weights model.nsvs
  let weights ← addNewWeight weights weight model.nsvs
  let individuals ← addNewSV model.individuals ind model.nsvs indDim
  pure (weights, individuals)

/-- `svm_reg_update`; `dblMin` is `DBL_MIN`. -/
def svmRegUpdate (kernel : List α → List α → Except Fault α) (dblMin eta nu slambda : α)
    (model : SvmModel α) (row : FloatArray α × α) : Except Fault (SvmModel α) := do
  let accepted := !(eta ≤ 0 || 1 < eta || nu ≤ 0 || 1 < nu || 1 < eta * slambda)
  let (indDim, p) ← svmPredict kernel accepted model row.1
  let diff := row.2 - (p + model.b)
  let error := |diff|
  let inds := toInt32 (model.inds + 1)
  let cumErr := model.cumErr + error
  let cap := 1 / 10 + 1 / (1 - eta * slambda)
  if model.epsilon < error then do
    let weight := if diff < 0 then -eta else eta
    let (weights, individuals) ← addSupportVector model (fun w => |w| < (cap + 1 / 10) * dblMin)
      (1 - eta * slambda) weight row.1.values indDim
    pure { model with
      inds := inds, cumErr := cumErr, epsilon := model.epsilon + (1 - nu) * eta,
      b := model.b + weight, nsvs := model.nsvs + 1, indDim := indDim,
      weights := weights, individuals := individuals }
  else
    pure { model with
      inds := inds, cumErr := cumErr, epsilon := model.epsilon - eta * nu, indDim := indDim }

/-- `svm_cls_update` -/
def svmClsUpdate (kernel : List α → List α → Except Fault α) (sqrt : α → α) (dblMin eta nu : α)
    (model : SvmModel α) (row : FloatArray α × α) : Except Fault (SvmModel α) := do
  let accepted := !(eta ≤ 0 || 1 < eta || nu ≤ 0 || 1 < nu)
  let (indDim, p) ← svmPredict kernel accepted model row.1
  let p := row.2 * (p + model.b)
  let inds := toInt32 (model.inds + 1)
  let eta := eta / sqrt inds
  let cumErr := if p ≤ 0 then model.cumErr + 1 else model.cumErr
  if p ≤ model.rho then do
    let (weights, individuals) ← addSupportVector model (fun w => |w| < 23 / 20 * dblMin)
      (1 - 1 / 10 * eta) (row.2 * eta) row.1.values indDim
    pure { model with
      inds := inds, cumErr := cumErr, rho := model.rho - eta * (1 - nu),
      b := model.b + eta * row.2, nsvs := model.nsvs + 1, indDim := indDim,
      weights := weights, individuals := individuals }
  else
    pure { model with
      inds := inds, cumErr := cumErr, rho := model.rho + eta * nu, indDim := indDim }

/-- `svm_nd_update` -/
def svmNdUpdate (kernel : List α → List α → Except Fault α) (dblMin eta nu : α)
    (model : SvmModel α) (row : FloatArray α) : Except Fault (SvmModel α) := do
  let accepted := !(eta ≤ 0 || 1 < eta || nu ≤ 0 || 1 < nu)
  let (indDim, p) ← svmPredict kernel accepted model row
  let inds := toInt32 (model.inds + 1)
  if p < model.rho then do
    let (weights, individuals) ← addSupportVector model (fun w => w < 23 / 20 * dblMin)
      (1 - 1 / 10 * eta) eta row.values indDim
    pure { model with
      inds := inds, rho := model.rho - eta * (1 - nu), nsvs := model.nsvs + 1,
      indDim := indDim, weights := weights, individuals := individuals }
  else
    pure { model with inds := inds, rho := model.rho + eta * nu, indDim := indDim }

/-- The initial state of the aggregates -/
def svmInit : SvmModel α := ⟨0, 0, 0, 0, 0, 0, 0, [], []⟩

end Functions

end Madlib.KernelMachines
