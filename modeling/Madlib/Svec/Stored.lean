import Madlib.Lib.Call
import Madlib.Svec.Median
import Madlib.Svec.Operators
import Madlib.Svec.Slices

/-!
# Svecs where they are stored

`PG_GETARG_SVECTYPE_P` hands a function a pointer to the argument's own storage, unless the datum
is compressed, out of line or has a short header, and `sdata_from_svec` a pointer into it.  Here
every function works on memory: datums and SparseData are objects at addresses, copies are made
where the source makes them, and helpers that work in place write to the object they are given.
What the functions compute is taken from the modules before.
-/

namespace Madlib.Svec.Stored

open Madlib.Backend Madlib.Lib Madlib.Lib.MachineInt Madlib.Svec CountCode

/-! ## Memory -/

/-- A stored svec.  `slack` are the bytes of the value buffer behind the values in use, in front
of the index; a datum that is not `plain` has to be detoasted first. -/
structure Datum where
  svec : SvecType
  slack : List UInt8
  plain : Bool
  length_slack : slack.length = svec.valsMaxlen - 8 * svec.vals.length

/-- A datum whose headers have been overwritten is no svec any more. -/
structure Memory where
  datums : List (Option Datum)
  sdatas : List SparseData

/-- A `SparseData`: in an svec, or a structure of its own. -/
inductive SdataPtr where
  | inDatum (address : Nat)
  | own (address : Nat)

/-- What the functions take from their surroundings: the arithmetic, the random pivots, what
newly allocated memory holds, and the rounds a loop is given. -/
structure Runtime where
  arith : Arith
  float8 : Float8Arith
  pow : Float8 → Float8 → Float8
  log : Float8 → Float8
  randomInt : Nat → Int → Int → Int
  leftover : Nat → UInt8
  fuel : Nat

abbrev Action (α : Type) := Call Memory Fault α

def readDatum (address : Nat) : Action Datum :=
  Call.look fun mem =>
    match mem.datums[address]? with
    | some (some datum) => .ok datum
    | _ => .error .outOfBounds

def writeDatum (address : Nat) (datum : Option Datum) : Action Unit :=
  Call.modify fun mem => { mem with datums := mem.datums.set address datum }

def allocDatum (datum : Datum) : Action Nat := do
  let address ← Call.look fun mem => .ok mem.datums.length
  Call.modify fun mem => { mem with datums := mem.datums ++ [some datum] }
  return address

/-- A datum as `svec_from_sparsedata` leaves it, in memory of its own. -/
def Datum.new (leftover : Nat → UInt8) (svec : SvecType) : Datum where
  svec
  slack := (List.range (svec.valsMaxlen - 8 * svec.vals.length)).map leftover
  plain := true
  length_slack := by rw [List.length_map, List.length_range]

def readSdata : SdataPtr → Action SparseData
  | .inDatum address => do
      let datum ← readDatum address
      return sdataFromSvec datum.svec
  | .own address => Call.look fun mem =>
      match mem.sdatas[address]? with
      | some sdata => .ok sdata
      | none => .error .outOfBounds

def allocSdata (sdata : SparseData) : Action SdataPtr := do
  let address ← Call.look fun mem => .ok mem.sdatas.length
  Call.modify fun mem => { mem with sdatas := mem.sdatas ++ [sdata] }
  return .own address

/-- The values of an svec are overwritten by as many other values. -/
def Datum.overwrite (datum : Datum) (vals : List Float8)
    (h : vals.length = datum.svec.vals.length) : Datum :=
  { datum with
    svec := { datum.svec with vals, vals_le := h.symm ▸ datum.svec.vals_le }
    length_slack := by
      show datum.slack.length = datum.svec.valsMaxlen - 8 * vals.length
      rw [h]
      exact datum.length_slack }

def Datum.writeVals (datum : Datum) (vals : List Float8) : Except Fault Datum :=
  if h : vals.length = datum.svec.vals.length then .ok (datum.overwrite vals h)
  else .error .outOfBounds

def writeSdataVals (sdata : SdataPtr) (vals : List Float8) : Action Unit :=
  match sdata with
  | .inDatum address => do
      let datum ← readDatum address
      let datum ← Call.lift (datum.writeVals vals)
      writeDatum address (some datum)
  | .own address => Call.modify fun mem =>
      { mem with sdatas := mem.sdatas.modify address fun s => { s with vals } }

/-! ## Arguments -/

/-- `PG_GETARG_SVECTYPE_P_COPY` -/
def getargSvectypePCopy (address : Nat) : Action Nat := do
  let datum ← readDatum address
  allocDatum { datum with plain := true }

/-- `PG_GETARG_SVECTYPE_P` -/
def getargSvectypeP (address : Nat) : Action Nat := do
  let datum ← readDatum address
  if datum.plain then return address else getargSvectypePCopy address

/-! ## Serializing -/

/-- The headers of a trimmed svec: the index is now looked for right behind the values in use,
where the slack was. -/
def Datum.trim (datum : Datum) : Datum where
  svec :=
    { datum.svec with
      valsMaxlen := 8 * datum.svec.vals.length
      index := (datum.slack ++ datum.svec.index).take datum.svec.index.length
      indexMaxlen := datum.svec.index.length
      vals_le := le_refl _
      index_le := by
        rw [List.length_take]
        exact Nat.min_le_left _ _
      size_le := by
        have hvals := datum.svec.vals_le
        have hindex := datum.svec.index_le
        have hsize := datum.svec.size_le
        unfold svecSize at hsize ⊢
        omega }
  slack := []
  plain := datum.plain
  length_slack := (Nat.sub_self _).symm

/-- `svec_from_sparsedata` trims the SparseData it is given, wherever that is. -/
def trimSdata : SdataPtr → Bool → Action Unit
  | _, false => pure ()
  | .inDatum address, true => do
      let datum ← readDatum address
      writeDatum address (some datum.trim)
  | .own address, true => Call.modify fun mem =>
      { mem with sdatas := mem.sdatas.modify address SparseData.trim }

def svecFromSparsedata (leftover : Nat → UInt8) (sdata : SdataPtr) (trim : Bool) :
    Action Nat := do
  -- the two data pointers are read before the lengths behind them change
  let source ← readSdata sdata
  trimSdata sdata trim
  let svec ← Call.lift (Svec.svecFromSparsedata source trim)
  allocDatum (Datum.new leftover svec)

/-- A function that builds its result in a SparseData of its own. -/
def serializeNew (leftover : Nat → UInt8) (result : Except Fault SparseData) : Action Nat := do
  let sdata ← Call.lift result
  let sdata ← allocSdata sdata
  svecFromSparsedata leftover sdata true

/-! ## Arithmetic -/

def opSdataByScalarInplace (arith : Arith) (operation : Operation) (scalar : List Float8)
    (sdata : SdataPtr) (scalarIsRight : Bool) : Action Unit := do
  let source ← readSdata sdata
  let result ← Call.lift
    (Svec.opSdataByScalarInplace arith operation scalar source scalarIsRight)
  writeSdataVals sdata result.vals

def makeSparseDataCopy (sdata : SdataPtr) : Action SdataPtr := do
  let source ← readSdata sdata
  allocSdata (Svec.makeSparseDataCopy source)

def opSdataByScalarCopy (arith : Arith) (operation : Operation) (scalar : List Float8)
    (sourceSdata : SdataPtr) (scalarIsRight : Bool) : Action SdataPtr := do
  let sdata ← makeSparseDataCopy sourceSdata
  opSdataByScalarInplace arith operation scalar sdata scalarIsRight
  return sdata

/-- A loop that is still running has no result. -/
def finished {α : Type} : Option (Except Fault α) → Except Fault α
  | some result => result
  | none => .error .unfinished

def svecMakeScalar (leftover : Nat → UInt8) (value : Except Fault Float8) : Action Nat := do
  let value ← Call.lift value
  let svec ← Call.lift (Svec.svecMakeScalar value)
  allocDatum (Datum.new leftover svec)

/-- The `scalar_args` of the four cases are those of `check_scalar`. -/
def svecOperateOnSdataPair (rt : Runtime) (scalarArgs : Nat) (operation : Operation)
    (left right : SdataPtr) : Action Nat := do
  let leftSdata ← readSdata left
  let rightSdata ← readSdata right
  match scalarArgs with
  | 0 =>
      serializeNew rt.leftover
        (finished (opSdataBySdata rt.fuel rt.arith operation leftSdata rightSdata))
  | 1 =>
      let sdata ← opSdataByScalarCopy rt.arith operation leftSdata.vals right false
      svecFromSparsedata rt.leftover sdata true
  | 2 =>
      let sdata ← opSdataByScalarCopy rt.arith operation rightSdata.vals left true
      svecFromSparsedata rt.leftover sdata true
  | _ =>
      svecMakeScalar rt.leftover do
        let x ← valref leftSdata 0
        let y ← valref rightSdata 0
        pure (rt.arith operation x y)

/-- Two arguments whose headers go together. -/
def getargPair (name : String) (l r : Nat) : Action (Nat × Nat × Nat) := do
  let svec1 ← getargSvectypeP l
  let svec2 ← getargSvectypeP r
  let datum1 ← readDatum svec1
  let datum2 ← readDatum svec2
  Call.lift (checkDimension datum1.svec datum2.svec name)
  return (checkScalar datum1.svec.isScalar datum2.svec.isScalar, svec1, svec2)

def svecBySvec (name : String) (operation : Operation) (rt : Runtime) (l r : Nat) :
    Action Nat := do
  let (scalarArgs, svec1, svec2) ← getargPair name l r
  svecOperateOnSdataPair rt scalarArgs operation (.inDatum svec1) (.inDatum svec2)

def svecMinus : Runtime → Nat → Nat → Action Nat := svecBySvec "svec_minus" .subtract
def svecPlus : Runtime → Nat → Nat → Action Nat := svecBySvec "svec_plus" .add
def svecMult : Runtime → Nat → Nat → Action Nat := svecBySvec "svec_mult" .multiply
def svecDiv : Runtime → Nat → Nat → Action Nat := svecBySvec "svec_div" .divide

/-! ## Powers -/

/-- `square_sdata` and its siblings: a copy takes the results. -/
def applyFunctionSdata (f : Float8 → Float8) (sdata : SdataPtr) : Action SdataPtr := do
  let result ← makeSparseDataCopy sdata
  let source ← readSdata sdata
  let vals ← Call.lift (applyToVals f source.uniqueValueCount source.vals)
  writeSdataVals result vals
  return result

section Powers

variable (rt : Runtime) (sdata : SdataPtr)

def valsquare (val : Float8) : Float8 := rt.float8.mul val val

def squareSdata : Action SdataPtr := applyFunctionSdata (valsquare rt) sdata

def cubeSdata : Action SdataPtr :=
  applyFunctionSdata (fun val => rt.float8.mul val (valsquare rt val)) sdata

def quadSdata : Action SdataPtr :=
  applyFunctionSdata (fun val => valsquare rt (valsquare rt val)) sdata

def powSdataByScalar (scalar : Float8) : Action SdataPtr :=
  applyFunctionSdata (fun val => rt.pow val scalar) sdata

end Powers

/-- The exponents 2, 3 and 4 have loops of their own. -/
def powSdata (rt : Runtime) (left : SdataPtr) (exponent : Float8) : Action SdataPtr :=
  if float8Eq exponent 0x4000000000000000 then squareSdata rt left
  else if float8Eq exponent 0x4008000000000000 then cubeSdata rt left
  else if float8Eq exponent 0x4010000000000000 then quadSdata rt left
  else powSdataByScalar rt left exponent

def powSvecByScalarInternal (rt : Runtime) (scalarArgs : Nat) (left right : SdataPtr) :
    Action Nat := do
  let leftSdata ← readSdata left
  let rightSdata ← readSdata right
  match scalarArgs with
  | 2 =>
      let exponent ← Call.lift (valref rightSdata 0)
      let sdata ← powSdata rt left exponent
      svecFromSparsedata rt.leftover sdata true
  | 3 =>
      svecMakeScalar rt.leftover do
        let x ← valref leftSdata 0
        let y ← valref rightSdata 0
        pure (rt.pow x y)
  | _ =>
      Call.fail (.ereport .invalidParameterValue
        "Svec exponentiation is undefined when the right argument is a vector")

def svecPow (rt : Runtime) (l r : Nat) : Action Nat := do
  let (scalarArgs, svec1, svec2) ← getargPair "svec_pow" l r
  powSvecByScalarInternal rt scalarArgs (.inDatum svec1) (.inDatum svec2)

/-! ## Functions of one svec -/

/-- The SparseData in the datum is divided and serialized. -/
def normalizeInPlace (rt : Runtime) (svec : Nat) : Action Nat := do
  let sdata ← readSdata (.inDatum svec)
  let norm ← Call.lift (l2normSdataValuesDouble rt.float8 sdata)
  opSdataByScalarInplace rt.arith .divide [norm] (.inDatum svec) true
  svecFromSparsedata rt.leftover (.inDatum svec) true

def svecNormalize (rt : Runtime) (v : Nat) : Action Nat := do
  let svec ← getargSvectypeP v
  normalizeInPlace rt svec

def svecLog (rt : Runtime) (v : Nat) : Action Nat := do
  let svec ← getargSvectypePCopy v
  let sdata ← readSdata (.inDatum svec)
  let vals ← Call.lift (applyToVals rt.log sdata.uniqueValueCount sdata.vals)
  writeSdataVals (.inDatum svec) vals
  return svec

/-- The changes made to the SparseData in an svec. -/
def writeSdata (leftover : Nat → UInt8) (svec : Nat) (sdata : SparseData) : Action Unit := do
  let datum ← readDatum svec
  let changed ← Call.lift (writeBack datum.svec sdata)
  writeDatum svec (some (Datum.new leftover changed))

/-- The values and the index of the copy are left permuted. -/
def selectInDatum (rt : Runtime) (svec : Nat) : Action (Option Float8) := do
  let sdata ← readSdata (.inDatum svec)
  let (selected, index) ← Call.lift (finished (selectMedian rt.fuel rt.randomInt sdata))
  writeSdata rt.leftover svec selected
  Call.lift (medianValue selected index)

def svecMedian (rt : Runtime) (v : Nat) : Action (Option Float8) := do
  let svec ← getargSvectypePCopy v
  let sdata ← readSdata (.inDatum svec)
  if (sdata.vals.take sdata.uniqueValueCount).contains NVP then return none
  else selectInDatum rt svec

def svecReverse (rt : Runtime) (v : Nat) : Action Nat := do
  let svec ← getargSvectypeP v
  let sdata ← readSdata (.inDatum svec)
  serializeNew rt.leftover (reverse sdata)

def svecSubvec (rt : Runtime) (v : Nat) (start stop : Int32) : Action Nat := do
  let svec ← getargSvectypeP v
  let sdata ← readSdata (.inDatum svec)
  serializeNew rt.leftover (subarr sdata start.toInt stop.toInt)

/-! ## svec_pivot -/

/-- The state is copied, or an empty one is made in the first call. -/
def pivotStateCopy (rt : Runtime) : Option Nat → Action Nat
  | some state => getargSvectypePCopy state
  | none => do
      let svec ← Call.lift (makeEmptySvec 1)
      allocDatum (Datum.new rt.leftover svec)

/-- `reallocSvec` enters the new buffers into the headers of its source. -/
def reallocSvec (rt : Runtime) (source : Nat) : Action Nat := do
  let datum ← readDatum source
  writeDatum source none
  let svec ← Call.lift (Svec.reallocSvec datum.svec)
  allocDatum (Datum.new rt.leftover svec)

def makeRoom (rt : Runtime) (svec : Nat) : Action Nat := do
  let datum ← readDatum svec
  if HasRoom datum.svec then return svec else reallocSvec rt svec

def svecPivot (rt : Runtime) (state : Option Nat) (value : Option Float8) : Action Nat := do
  let svec ← pivotStateCopy rt state
  let svec ← makeRoom rt svec
  let sdata ← readSdata (.inDatum svec)
  let sdata ← Call.lift (addValue sdata (value.getD NVP))
  writeSdata rt.leftover svec sdata
  return svec

/-! ## Functions that join svecs -/

/-- A SparseData that is missing cannot be serialized. -/
def present {α : Type} : Option α → Except Fault α
  | some a => .ok a
  | none => .error .nullPointer

def svecChange (rt : Runtime) (v : Nat) (idx : Int32) (changed : Nat) : Action Nat := do
  let svec ← getargSvectypeP v
  let middle ← getargSvectypeP changed
  let indata ← readSdata (.inDatum svec)
  let middle ← readSdata (.inDatum middle)
  serializeNew rt.leftover (changeSdata indata middle idx >>= present)

def svecConcat (rt : Runtime) : Option Nat → Option Nat → Action (Option Nat)
  | none, none => return none
  | none, some r => do
      let svec ← getargSvectypeP r
      return some svec
  | some l, none => do
      let svec ← getargSvectypeP l
      return some svec
  | some l, some r => do
      let svec1 ← getargSvectypeP l
      let svec2 ← getargSvectypeP r
      let left ← readSdata (.inDatum svec1)
      let right ← readSdata (.inDatum svec2)
      let svec ← serializeNew rt.leftover (concat (some left) (some right) >>= present)
      return some svec

/-- The SparseData `svec_append` adds its run to. -/
def appendSdata : Option Nat → Action SdataPtr
  | none => allocSdata makeSparseData
  | some v => do
      let svec ← getargSvectypeP v
      makeSparseDataCopy (.inDatum svec)

def svecAppend (rt : Runtime) (v : Option Nat) (newele : Option Float8) (count : Option Int64) :
    Action Nat :=
  match count with
  | none => Call.fail (.ereport .invalidParameterValue "count argument cannot be null")
  | some runLen => do
      let base ← appendSdata v
      let sdata ← readSdata base
      serializeNew rt.leftover (addRunToSdata (newele.getD NVP) runLen.toInt sdata)

end Madlib.Svec.Stored
