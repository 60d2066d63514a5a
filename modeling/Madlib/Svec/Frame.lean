import Mathlib
import Madlib.Svec.Stored

/-!
# Arguments are left alone

What is in memory before a call stays as it is, as long as every in-place step of the function
works on an object the function has allocated.  All functions but one do that; `svec_normalize`
divides the values of its argument where they are stored, and trims it.
-/

namespace Madlib.Svec.Stored

open Madlib.Backend Madlib.Lib Madlib.Lib.Call Madlib.Lib.MachineInt Madlib.Svec CountCode

/-! ## Calls -/

/-- A call of a function, with the addresses of its svec arguments; `none` is NULL. -/
inductive SvecCall where
  | svecPlus (svec1 svec2 : Nat)
  | svecMinus (svec1 svec2 : Nat)
  | svecMult (svec1 svec2 : Nat)
  | svecDiv (svec1 svec2 : Nat)
  | svecPow (svec1 svec2 : Nat)
  | svecLog (svec : Nat)
  | svecNormalize (svec : Nat)
  | svecMedian (svec : Nat)
  | svecPivot (state : Option Nat) (value : Option Float8)
  | svecReverse (svec : Nat)
  | svecSubvec (svec : Nat) (start stop : Int32)
  | svecChange (svec : Nat) (idx : Int32) (changed : Nat)
  | svecConcat (svec1 svec2 : Option Nat)
  | svecAppend (svec : Option Nat) (newele : Option Float8) (count : Option Int64)

def SvecCall.arguments : SvecCall → List Nat
  | .svecPlus svec1 svec2 => [svec1, svec2]
  | .svecMinus svec1 svec2 => [svec1, svec2]
  | .svecMult svec1 svec2 => [svec1, svec2]
  | .svecDiv svec1 svec2 => [svec1, svec2]
  | .svecPow svec1 svec2 => [svec1, svec2]
  | .svecLog svec => [svec]
  | .svecNormalize svec => [svec]
  | .svecMedian svec => [svec]
  | .svecPivot state _ => state.toList
  | .svecReverse svec => [svec]
  | .svecSubvec svec _ _ => [svec]
  | .svecChange svec _ changed => [svec, changed]
  | .svecConcat svec1 svec2 => svec1.toList ++ svec2.toList
  | .svecAppend svec _ _ => svec.toList

/-- What a function returns: an svec, where NULL is none, or a number. -/
inductive Returned where
  | svec (address : Option Nat)
  | float8 (value : Option Float8)

def returnSvec (call : Action Nat) : Action Returned := do
  let address ← call
  return .svec (some address)

def SvecCall.run (rt : Runtime) : SvecCall → Action Returned
  | .svecPlus svec1 svec2 => returnSvec (Stored.svecPlus rt svec1 svec2)
  | .svecMinus svec1 svec2 => returnSvec (Stored.svecMinus rt svec1 svec2)
  | .svecMult svec1 svec2 => returnSvec (Stored.svecMult rt svec1 svec2)
  | .svecDiv svec1 svec2 => returnSvec (Stored.svecDiv rt svec1 svec2)
  | .svecPow svec1 svec2 => returnSvec (Stored.svecPow rt svec1 svec2)
  | .svecLog svec => returnSvec (Stored.svecLog rt svec)
  | .svecNormalize svec => returnSvec (Stored.svecNormalize rt svec)
  | .svecMedian svec => do
      let value ← Stored.svecMedian rt svec
      return .float8 value
  | .svecPivot state value => returnSvec (Stored.svecPivot rt state value)
  | .svecReverse svec => returnSvec (Stored.svecReverse rt svec)
  | .svecSubvec svec start stop => returnSvec (Stored.svecSubvec rt svec start stop)
  | .svecChange svec idx changed => returnSvec (Stored.svecChange rt svec idx changed)
  | .svecConcat svec1 svec2 => do
      let address ← Stored.svecConcat rt svec1 svec2
      return .svec address
  | .svecAppend svec newele count => returnSvec (Stored.svecAppend rt svec newele count)

/-! ## The frame -/

section Frame

variable {old : List (Option Datum)}

/-- The datums that were there before are still there. -/
def Untouched (old : List (Option Datum)) (mem : Memory) : Prop := HasPrefix old mem.datums

/-- The object is not part of any of the first `count` datums. -/
def SdataPtr.Fresh (count : Nat) : SdataPtr → Prop
  | .inDatum address => count ≤ address
  | .own _ => True

theorem keeps_readDatum (address : Nat) :
    Keeps (Untouched old) (readDatum address) fun _ => True :=
  keeps_look fun _ _ _ _ => trivial

theorem keeps_writeDatum {address : Nat} (h : old.length ≤ address) (datum : Option Datum) :
    Keeps (Untouched old) (writeDatum address datum) fun _ => True := by
  apply keeps_modify
  intro mem hmem
  exact hmem.set h datum

theorem keeps_allocDatum (datum : Datum) :
    Keeps (Untouched old) (allocDatum datum) fun address => old.length ≤ address := by
  have hlook : Keeps (Untouched old)
      (Call.look fun mem => .ok mem.datums.length : Action Nat)
      fun address => old.length ≤ address := by
    apply keeps_look
    intro mem address hmem haddress
    cases haddress
    exact hmem.length_le
  apply Keeps.bind hlook
  intro address haddress
  apply Keeps.bind
  · apply keeps_modify
    intro mem hmem
    exact hmem.append [some datum]
  · intro _ _
    exact keeps_pure haddress

theorem keeps_readSdata (sdata : SdataPtr) :
    Keeps (Untouched old) (readSdata sdata) fun _ => True := by
  cases sdata with
  | own address => exact keeps_look fun _ _ _ _ => trivial
  | inDatum address =>
      apply Keeps.bind (keeps_readDatum address)
      intro _ _
      exact keeps_pure trivial

theorem keeps_allocSdata (sdata : SparseData) :
    Keeps (Untouched old) (allocSdata sdata) fun ptr => ptr.Fresh old.length := by
  unfold allocSdata
  apply Keeps.bind (keeps_look fun _ _ _ _ => trivial)
  intro address _
  apply Keeps.bind
  · exact keeps_modify fun mem hmem => hmem
  · intro _ _
    exact keeps_pure trivial

theorem keeps_writeSdataVals {sdata : SdataPtr} (h : sdata.Fresh old.length)
    (vals : List Float8) :
    Keeps (Untouched old) (writeSdataVals sdata vals) fun _ => True := by
  cases sdata with
  | own address => exact keeps_modify fun mem hmem => hmem
  | inDatum address =>
      apply Keeps.bind (keeps_readDatum address)
      intro datum _
      apply Keeps.bind (keeps_lift _)
      intro changed _
      exact keeps_writeDatum h (some changed)

theorem keeps_getargSvectypePCopy (address : Nat) :
    Keeps (Untouched old) (getargSvectypePCopy address) fun svec => old.length ≤ svec := by
  apply Keeps.bind (keeps_readDatum address)
  intro datum _
  exact keeps_allocDatum _

theorem keeps_getargSvectypeP (address : Nat) :
    Keeps (Untouched old) (getargSvectypeP address) fun _ => True := by
  apply Keeps.bind (keeps_readDatum address)
  intro datum _
  split
  · exact keeps_pure trivial
  · exact (keeps_getargSvectypePCopy address).true

theorem keeps_trimSdata {sdata : SdataPtr} (h : sdata.Fresh old.length) (trim : Bool) :
    Keeps (Untouched old) (trimSdata sdata trim) fun _ => True := by
  cases trim with
  | false =>
      unfold trimSdata
      exact keeps_pure trivial
  | true =>
      cases sdata with
      | own address => exact keeps_modify fun mem hmem => hmem
      | inDatum address =>
          apply Keeps.bind (keeps_readDatum address)
          intro datum _
          exact keeps_writeDatum h _

theorem keeps_svecFromSparsedata (leftover : Nat → UInt8) {sdata : SdataPtr}
    (h : sdata.Fresh old.length) (trim : Bool) :
    Keeps (Untouched old) (svecFromSparsedata leftover sdata trim) fun _ => True := by
  apply Keeps.bind (keeps_readSdata sdata)
  intro source _
  apply Keeps.bind (keeps_trimSdata h trim)
  intro _ _
  apply Keeps.bind (keeps_lift _)
  intro svec _
  exact (keeps_allocDatum _).true

theorem keeps_serializeNew (leftover : Nat → UInt8) (result : Except Fault SparseData) :
    Keeps (Untouched old) (serializeNew leftover result) fun _ => True := by
  apply Keeps.bind (keeps_lift result)
  intro sdata _
  apply Keeps.bind (keeps_allocSdata sdata)
  intro ptr hptr
  exact keeps_svecFromSparsedata leftover hptr true

theorem keeps_opSdataByScalarInplace (arith : Arith) (operation : Operation)
    (scalar : List Float8) {sdata : SdataPtr} (h : sdata.Fresh old.length)
    (scalarIsRight : Bool) :
    Keeps (Untouched old) (opSdataByScalarInplace arith operation scalar sdata scalarIsRight)
      fun _ => True := by
  apply Keeps.bind (keeps_readSdata sdata)
  intro source _
  apply Keeps.bind (keeps_lift _)
  intro result _
  exact keeps_writeSdataVals h result.vals

theorem keeps_makeSparseDataCopy (sdata : SdataPtr) :
    Keeps (Untouched old) (makeSparseDataCopy sdata) fun ptr => ptr.Fresh old.length := by
  apply Keeps.bind (keeps_readSdata sdata)
  intro source _
  exact keeps_allocSdata _

/-! ## Functions on a pair -/

theorem keeps_opSdataByScalarCopy (arith : Arith) (operation : Operation)
    (scalar : List Float8) (sdata : SdataPtr) (scalarIsRight : Bool) :
    Keeps (Untouched old) (opSdataByScalarCopy arith operation scalar sdata scalarIsRight)
      fun ptr => ptr.Fresh old.length := by
  apply Keeps.bind (keeps_makeSparseDataCopy sdata)
  intro copy hcopy
  apply Keeps.bind (keeps_opSdataByScalarInplace arith operation scalar hcopy scalarIsRight)
  intro _ _
  exact keeps_pure hcopy

theorem keeps_svecMakeScalar (leftover : Nat → UInt8) (value : Except Fault Float8) :
    Keeps (Untouched old) (svecMakeScalar leftover value) fun _ => True := by
  apply Keeps.bind (keeps_lift value)
  intro v _
  apply Keeps.bind (keeps_lift _)
  intro svec _
  exact (keeps_allocDatum _).true

theorem keeps_svecOperateOnSdataPair (rt : Runtime) (scalarArgs : Nat) (operation : Operation)
    (left right : SdataPtr) :
    Keeps (Untouched old) (svecOperateOnSdataPair rt scalarArgs operation left right)
      fun _ => True := by
  apply Keeps.bind (keeps_readSdata left)
  intro leftSdata _
  apply Keeps.bind (keeps_readSdata right)
  intro rightSdata _
  split
  · exact keeps_serializeNew rt.leftover _
  · apply Keeps.bind (keeps_opSdataByScalarCopy rt.arith operation leftSdata.vals right false)
    intro sdata hsdata
    exact keeps_svecFromSparsedata rt.leftover hsdata true
  · apply Keeps.bind (keeps_opSdataByScalarCopy rt.arith operation rightSdata.vals left true)
    intro sdata hsdata
    exact keeps_svecFromSparsedata rt.leftover hsdata true
  · exact keeps_svecMakeScalar rt.leftover _

theorem keeps_getargPair (name : String) (l r : Nat) :
    Keeps (Untouched old) (getargPair name l r) fun _ => True := by
  apply Keeps.bind (keeps_getargSvectypeP l)
  intro svec1 _
  apply Keeps.bind (keeps_getargSvectypeP r)
  intro svec2 _
  apply Keeps.bind (keeps_readDatum svec1)
  intro datum1 _
  apply Keeps.bind (keeps_readDatum svec2)
  intro datum2 _
  apply Keeps.bind (keeps_lift _)
  intro _ _
  exact keeps_pure trivial

theorem keeps_svecBySvec (name : String) (operation : Operation) (rt : Runtime) (l r : Nat) :
    Keeps (Untouched old) (svecBySvec name operation rt l r) fun _ => True := by
  apply Keeps.bind (keeps_getargPair name l r)
  intro args _
  exact keeps_svecOperateOnSdataPair rt args.1 operation _ _

theorem keeps_applyFunctionSdata (f : Float8 → Float8) (sdata : SdataPtr) :
    Keeps (Untouched old) (applyFunctionSdata f sdata) fun ptr => ptr.Fresh old.length := by
  apply Keeps.bind (keeps_makeSparseDataCopy sdata)
  intro result hresult
  apply Keeps.bind (keeps_readSdata sdata)
  intro source _
  apply Keeps.bind (keeps_lift _)
  intro vals _
  apply Keeps.bind (keeps_writeSdataVals hresult vals)
  intro _ _
  exact keeps_pure hresult

theorem keeps_powSdata (rt : Runtime) (left : SdataPtr) (exponent : Float8) :
    Keeps (Untouched old) (powSdata rt left exponent) fun ptr => ptr.Fresh old.length := by
  unfold powSdata
  split_ifs
  · exact keeps_applyFunctionSdata _ left
  · exact keeps_applyFunctionSdata _ left
  · exact keeps_applyFunctionSdata _ left
  · exact keeps_applyFunctionSdata _ left

theorem keeps_svecPow (rt : Runtime) (l r : Nat) :
    Keeps (Untouched old) (svecPow rt l r) fun _ => True := by
  apply Keeps.bind (keeps_getargPair "svec_pow" l r)
  intro args _
  apply Keeps.bind (keeps_readSdata _)
  intro leftSdata _
  apply Keeps.bind (keeps_readSdata _)
  intro rightSdata _
  split
  · apply Keeps.bind (keeps_lift _)
    intro exponent _
    apply Keeps.bind (keeps_powSdata rt _ exponent)
    intro sdata hsdata
    exact keeps_svecFromSparsedata rt.leftover hsdata true
  · exact keeps_svecMakeScalar rt.leftover _
  · exact keeps_fail _

/-! ## Functions on a copy -/

theorem keeps_svecLog (rt : Runtime) (v : Nat) :
    Keeps (Untouched old) (svecLog rt v) fun _ => True := by
  apply Keeps.bind (keeps_getargSvectypePCopy v)
  intro svec hsvec
  apply Keeps.bind (keeps_readSdata _)
  intro sdata _
  apply Keeps.bind (keeps_lift _)
  intro vals _
  have hfresh : (SdataPtr.inDatum svec).Fresh old.length := hsvec
  apply Keeps.bind (keeps_writeSdataVals hfresh vals)
  intro _ _
  exact keeps_pure trivial

theorem keeps_writeSdata (leftover : Nat → UInt8) {svec : Nat} (h : old.length ≤ svec)
    (sdata : SparseData) :
    Keeps (Untouched old) (writeSdata leftover svec sdata) fun _ => True := by
  apply Keeps.bind (keeps_readDatum svec)
  intro datum _
  apply Keeps.bind (keeps_lift _)
  intro changed _
  exact keeps_writeDatum h _

theorem keeps_svecMedian (rt : Runtime) (v : Nat) :
    Keeps (Untouched old) (svecMedian rt v) fun _ => True := by
  apply Keeps.bind (keeps_getargSvectypePCopy v)
  intro svec hsvec
  apply Keeps.bind (keeps_readSdata _)
  intro sdata _
  split
  · exact keeps_pure trivial
  · apply Keeps.bind (keeps_readSdata _)
    intro source _
    apply Keeps.bind (keeps_lift _)
    intro selected _
    apply Keeps.bind (keeps_writeSdata rt.leftover hsvec selected.1)
    intro _ _
    exact (keeps_lift _).true

theorem keeps_pivotStateCopy (rt : Runtime) (state : Option Nat) :
    Keeps (Untouched old) (pivotStateCopy rt state) fun svec => old.length ≤ svec := by
  cases state with
  | some state => exact keeps_getargSvectypePCopy state
  | none =>
      apply Keeps.bind (keeps_lift _)
      intro svec _
      exact keeps_allocDatum _

theorem keeps_makeRoom (rt : Runtime) {svec : Nat} (h : old.length ≤ svec) :
    Keeps (Untouched old) (makeRoom rt svec) fun svec => old.length ≤ svec := by
  apply Keeps.bind (keeps_readDatum svec)
  intro datum _
  split
  · exact keeps_pure h
  · apply Keeps.bind (keeps_readDatum svec)
    intro source _
    apply Keeps.bind (keeps_writeDatum h none)
    intro _ _
    apply Keeps.bind (keeps_lift _)
    intro svec' _
    exact keeps_allocDatum _

theorem keeps_svecPivot (rt : Runtime) (state : Option Nat) (value : Option Float8) :
    Keeps (Untouched old) (svecPivot rt state value) fun _ => True := by
  apply Keeps.bind (keeps_pivotStateCopy rt state)
  intro copy hcopy
  apply Keeps.bind (keeps_makeRoom rt hcopy)
  intro svec hsvec
  apply Keeps.bind (keeps_readSdata _)
  intro sdata _
  apply Keeps.bind (keeps_lift _)
  intro added _
  apply Keeps.bind (keeps_writeSdata rt.leftover hsvec added)
  intro _ _
  exact keeps_pure trivial

/-! ## Functions that build a result -/

theorem keeps_svecReverse (rt : Runtime) (v : Nat) :
    Keeps (Untouched old) (svecReverse rt v) fun _ => True := by
  apply Keeps.bind (keeps_getargSvectypeP v)
  intro svec _
  apply Keeps.bind (keeps_readSdata _)
  intro sdata _
  exact keeps_serializeNew rt.leftover _

theorem keeps_svecSubvec (rt : Runtime) (v : Nat) (start stop : Int32) :
    Keeps (Untouched old) (svecSubvec rt v start stop) fun _ => True := by
  apply Keeps.bind (keeps_getargSvectypeP v)
  intro svec _
  apply Keeps.bind (keeps_readSdata _)
  intro sdata _
  exact keeps_serializeNew rt.leftover _

theorem keeps_svecChange (rt : Runtime) (v : Nat) (idx : Int32) (changed : Nat) :
    Keeps (Untouched old) (svecChange rt v idx changed) fun _ => True := by
  apply Keeps.bind (keeps_getargSvectypeP v)
  intro svec _
  apply Keeps.bind (keeps_getargSvectypeP changed)
  intro middle _
  apply Keeps.bind (keeps_readSdata _)
  intro indata _
  apply Keeps.bind (keeps_readSdata _)
  intro middleSdata _
  exact keeps_serializeNew rt.leftover _

theorem keeps_svecConcat (rt : Runtime) (l r : Option Nat) :
    Keeps (Untouched old) (svecConcat rt l r) fun _ => True := by
  cases l with
  | none =>
      cases r with
      | none => exact keeps_pure trivial
      | some r =>
          apply Keeps.bind (keeps_getargSvectypeP r)
          intro svec _
          exact keeps_pure trivial
  | some l =>
      cases r with
      | none =>
          apply Keeps.bind (keeps_getargSvectypeP l)
          intro svec _
          exact keeps_pure trivial
      | some r =>
          apply Keeps.bind (keeps_getargSvectypeP l)
          intro svec1 _
          apply Keeps.bind (keeps_getargSvectypeP r)
          intro svec2 _
          apply Keeps.bind (keeps_readSdata _)
          intro left _
          apply Keeps.bind (keeps_readSdata _)
          intro right _
          apply Keeps.bind (keeps_serializeNew rt.leftover _)
          intro svec _
          exact keeps_pure trivial

theorem keeps_appendSdata (v : Option Nat) :
    Keeps (Untouched old) (appendSdata v) fun ptr => ptr.Fresh old.length := by
  cases v with
  | none => exact keeps_allocSdata _
  | some v =>
      apply Keeps.bind (keeps_getargSvectypeP v)
      intro svec _
      exact keeps_makeSparseDataCopy _

theorem keeps_svecAppend (rt : Runtime) (v : Option Nat) (newele : Option Float8)
    (count : Option Int64) :
    Keeps (Untouched old) (svecAppend rt v newele count) fun _ => True := by
  cases count with
  | none => exact keeps_fail _
  | some runLen =>
      apply Keeps.bind (keeps_appendSdata v)
      intro base _
      apply Keeps.bind (keeps_readSdata base)
      intro sdata _
      exact keeps_serializeNew rt.leftover _

theorem keeps_returnSvec {call : Action Nat} (h : Keeps (Untouched old) call fun _ => True) :
    Keeps (Untouched old) (returnSvec call) fun _ => True := by
  apply Keeps.bind h
  intro address _
  exact keeps_pure trivial

/-- Every function but `svec_normalize` leaves all of the memory it found as it was. -/
theorem keeps_run (rt : Runtime) {call : SvecCall} (h : ∀ v, call ≠ .svecNormalize v) :
    Keeps (Untouched old) (call.run rt) fun _ => True := by
  cases call with
  | svecPlus svec1 svec2 => exact keeps_returnSvec (keeps_svecBySvec _ _ rt svec1 svec2)
  | svecMinus svec1 svec2 => exact keeps_returnSvec (keeps_svecBySvec _ _ rt svec1 svec2)
  | svecMult svec1 svec2 => exact keeps_returnSvec (keeps_svecBySvec _ _ rt svec1 svec2)
  | svecDiv svec1 svec2 => exact keeps_returnSvec (keeps_svecBySvec _ _ rt svec1 svec2)
  | svecPow svec1 svec2 => exact keeps_returnSvec (keeps_svecPow rt svec1 svec2)
  | svecLog svec => exact keeps_returnSvec (keeps_svecLog rt svec)
  | svecNormalize svec => exact absurd rfl (h svec)
  | svecMedian svec =>
      apply Keeps.bind (keeps_svecMedian rt svec)
      intro value _
      exact keeps_pure trivial
  | svecPivot state value => exact keeps_returnSvec (keeps_svecPivot rt state value)
  | svecReverse svec => exact keeps_returnSvec (keeps_svecReverse rt svec)
  | svecSubvec svec start stop => exact keeps_returnSvec (keeps_svecSubvec rt svec start stop)
  | svecChange svec idx changed => exact keeps_returnSvec (keeps_svecChange rt svec idx changed)
  | svecConcat svec1 svec2 =>
      apply Keeps.bind (keeps_svecConcat rt svec1 svec2)
      intro address _
      exact keeps_pure trivial
  | svecAppend svec newele count =>
      exact keeps_returnSvec (keeps_svecAppend rt svec newele count)

end Frame

/-! ## svec_normalize -/

theorem applyToVals_ok {f : Float8 → Float8} {count : Nat} {vals : List Float8}
    (h : count ≤ vals.length) :
    applyToVals f count vals = .ok ((vals.take count).map f ++ vals.drop count) := by
  induction count generalizing vals with
  | zero => rfl
  | succ count ih =>
      cases vals with
      | nil => cases h
      | cons v vals =>
          rw [applyToVals, ih (Nat.le_of_succ_le_succ h)]
          rfl

/-- A norm is computed from all of the values that are counted. -/
theorem accumRounds_ok {arith : Float8Arith} {func : Float8 → Float8} {sdata : SparseData}
    {rounds i : Nat} {ix : IndexPtr} {accum norm : Float8} (hi : i ≤ sdata.vals.length)
    (h : accumRounds arith func sdata rounds i ix accum = .ok norm) :
    i + rounds ≤ sdata.vals.length := by
  induction rounds generalizing i ix accum with
  | zero => exact hi
  | succ rounds ih =>
      rw [accumRounds] at h
      have ⟨runLength, _, h⟩ := bind_eq_ok.mp h
      have ⟨v, hv, h⟩ := bind_eq_ok.mp h
      have ⟨ix', _, h⟩ := bind_eq_ok.mp h
      have hlt : i < sdata.vals.length := by
        by_contra hge
        unfold valref at hv
        rw [List.getElem?_eq_none (Nat.le_of_not_lt hge)] at hv
        cases hv
      have hle := ih hlt h
      omega

theorem l2norm_ok {arith : Float8Arith} {sdata : SparseData} {norm : Float8}
    (h : l2normSdataValuesDouble arith sdata = .ok norm) :
    sdata.uniqueValueCount ≤ sdata.vals.length := by
  unfold l2normSdataValuesDouble accumSdataValuesDouble at h
  have ⟨accum, haccum, _⟩ := bind_eq_ok.mp h
  have hle := accumRounds_ok (Nat.zero_le _) haccum
  omega

/-- The counted values divided by the norm. -/
def normalizedVals (rt : Runtime) (norm : Float8) (svec : SvecType) : List Float8 :=
  (svec.vals.take svec.uniqueValueCount).map (fun v => rt.arith .divide v norm) ++
    svec.vals.drop svec.uniqueValueCount

theorem length_normalizedVals (rt : Runtime) (norm : Float8) (svec : SvecType) :
    (normalizedVals rt norm svec).length = svec.vals.length := by
  unfold normalizedVals
  rw [List.length_append, List.length_map, ← List.length_append, List.take_append_drop]

theorem opSdataByScalarInplace_divide (rt : Runtime) {norm : Float8} {svec : SvecType}
    (h : svec.uniqueValueCount ≤ svec.vals.length) :
    Svec.opSdataByScalarInplace rt.arith .divide [norm] (sdataFromSvec svec) true =
      .ok { sdataFromSvec svec with vals := normalizedVals rt norm svec } := by
  unfold Svec.opSdataByScalarInplace
  by_cases hzero : (sdataFromSvec svec).uniqueValueCount = 0
  · have hzero' : svec.uniqueValueCount = 0 := hzero
    rw [if_pos hzero, normalizedVals, hzero', List.take_zero, List.drop_zero]
    rfl
  · rw [if_neg hzero]
    dsimp only
    have happly := applyToVals_ok (f := fun v => rt.arith .divide v norm) h
    show (applyToVals (fun v => rt.arith .divide v norm) svec.uniqueValueCount svec.vals >>=
      fun vals => _) = _
    rw [happly, ok_bind]
    rfl

theorem readDatum_eq {mem : Memory} {v : Nat} {d : Datum} (h : mem.datums[v]? = some (some d)) :
    readDatum v mem = (.ok d, mem) := by
  unfold readDatum Call.look
  dsimp only
  rw [h]

theorem readSdata_eq {mem : Memory} {v : Nat} {d : Datum} (h : mem.datums[v]? = some (some d)) :
    readSdata (.inDatum v) mem = (.ok (sdataFromSvec d.svec), mem) := by
  show (readDatum v >>= fun datum => pure (sdataFromSvec datum.svec)) mem = _
  rw [bind_ok (readDatum_eq h)]
  rfl

theorem getargSvectypeP_plain {mem : Memory} {v : Nat} {d : Datum}
    (h : mem.datums[v]? = some (some d)) (hplain : d.plain = true) :
    getargSvectypeP v mem = (.ok v, mem) := by
  unfold getargSvectypeP
  rw [bind_ok (readDatum_eq h), if_pos hplain]
  rfl

theorem getargSvectypeP_copy {mem : Memory} {v : Nat} {d : Datum}
    (h : mem.datums[v]? = some (some d)) (hplain : d.plain ≠ true) :
    getargSvectypeP v mem = getargSvectypePCopy v mem := by
  unfold getargSvectypeP
  rw [bind_ok (readDatum_eq h), if_neg hplain]

/-- A datum that has to be detoasted is normalized in a copy. -/
theorem keeps_normalizeInPlace {old : List (Option Datum)} (rt : Runtime) {svec : Nat}
    (h : old.length ≤ svec) :
    Keeps (Untouched old) (normalizeInPlace rt svec) fun _ => True := by
  have hfresh : (SdataPtr.inDatum svec).Fresh old.length := h
  apply Keeps.bind (keeps_readSdata _)
  intro sdata _
  apply Keeps.bind (keeps_lift _)
  intro norm _
  apply Keeps.bind (keeps_opSdataByScalarInplace rt.arith .divide [norm] hfresh true)
  intro _ _
  exact keeps_svecFromSparsedata rt.leftover hfresh true

/-- The argument of `svec_normalize` as the call leaves it, when it is not detoasted. -/
def Datum.normalized (rt : Runtime) (norm : Float8) (d : Datum) : Datum :=
  (d.overwrite (normalizedVals rt norm d.svec) (length_normalizedVals rt norm d.svec)).trim

def Memory.write (mem : Memory) (address : Nat) (d : Datum) : Memory :=
  { mem with datums := mem.datums.set address (some d) }

theorem getElem?_write {mem : Memory} {v : Nat} {d : Datum} (h : mem.datums[v]? = some (some d))
    (d' : Datum) : (mem.write v d').datums[v]? = some (some d') := by
  have hlt := (List.getElem?_eq_some_iff.mp h).1
  exact List.getElem?_set_self hlt

theorem svecNormalize_plain (rt : Runtime) {mem : Memory} {v : Nat} {d : Datum}
    (h : mem.datums[v]? = some (some d)) (hplain : d.plain = true) {norm : Float8}
    (hnorm : l2normSdataValuesDouble rt.float8 (sdataFromSvec d.svec) = .ok norm) :
    (svecNormalize rt v mem).2.datums[v]? = some (some (d.normalized rt norm)) := by
  have hlt := (List.getElem?_eq_some_iff.mp h).1
  have hunique : d.svec.uniqueValueCount ≤ d.svec.vals.length := l2norm_ok hnorm
  let divided := d.overwrite (normalizedVals rt norm d.svec) (length_normalizedVals rt norm d.svec)
  have hdivided := getElem?_write h divided
  have hlift : Call.lift (l2normSdataValuesDouble rt.float8 (sdataFromSvec d.svec)) mem =
      (.ok norm, mem) := by
    rw [hnorm]
    rfl
  have hinplace : opSdataByScalarInplace rt.arith .divide [norm] (.inDatum v) true mem =
      (.ok (), mem.write v divided) := by
    have hwrite : d.writeVals (normalizedVals rt norm d.svec) = .ok divided :=
      dif_pos (length_normalizedVals rt norm d.svec)
    unfold opSdataByScalarInplace
    rw [bind_ok (readSdata_eq h), opSdataByScalarInplace_divide rt hunique]
    show writeSdataVals (.inDatum v) (normalizedVals rt norm d.svec) mem = _
    unfold writeSdataVals
    dsimp only
    rw [bind_ok (readDatum_eq h), hwrite]
    rfl
  have htrim : trimSdata (.inDatum v) true (mem.write v divided) =
      (.ok (), (mem.write v divided).write v divided.trim) := by
    show (readDatum v >>= fun datum => writeDatum v (some datum.trim)) _ = _
    rw [bind_ok (readDatum_eq hdivided)]
    rfl
  have hrest := getElem?_write hdivided divided.trim
  have hkeeps : Keeps (Untouched ((mem.write v divided).write v divided.trim).datums)
      (do let svec ← Call.lift (Svec.svecFromSparsedata (sdataFromSvec divided.svec) true)
          allocDatum (Datum.new rt.leftover svec) : Action Nat) fun _ => True := by
    apply Keeps.bind (keeps_lift _)
    intro svec _
    exact (keeps_allocDatum _).true
  have hlt' := (List.getElem?_eq_some_iff.mp hrest).1
  have hdone := ((hkeeps _ (hasPrefix_refl _)).1).getElem? hlt'
  unfold svecNormalize
  rw [bind_ok (getargSvectypeP_plain h hplain)]
  unfold normalizeInPlace
  rw [bind_ok (readSdata_eq h), bind_ok hlift, bind_ok hinplace]
  unfold svecFromSparsedata
  rw [bind_ok (readSdata_eq hdivided), bind_ok htrim]
  exact hdone.trans hrest

/-! ## Arguments after a call -/

/-- The serialized values, the run index, the counts and the dimension header agree. -/
def SameSvec (s t : SvecType) : Prop :=
  SameData (sdataFromSvec s) (sdataFromSvec t) ∧ s.dimension = t.dimension

/-- The datum is detoasted into a copy, or has no norm, or is divided to itself and has its index
right behind the values in use. -/
def NormalizedToItself (rt : Runtime) (d : Datum) : Prop :=
  d.plain = true → ∀ norm, l2normSdataValuesDouble rt.float8 (sdataFromSvec d.svec) = .ok norm →
    (∀ x ∈ d.svec.vals.take d.svec.uniqueValueCount, rt.arith .divide x norm = x) ∧
      (sdataFromSvec d.trim.svec).index.data = (sdataFromSvec d.svec).index.data

theorem sameSvec_normalized_iff (rt : Runtime) (norm : Float8) (d : Datum) :
    SameSvec (d.normalized rt norm).svec d.svec ↔
      (∀ x ∈ d.svec.vals.take d.svec.uniqueValueCount, rt.arith .divide x norm = x) ∧
        (sdataFromSvec d.trim.svec).index.data = (sdataFromSvec d.svec).index.data := by
  have hvals : normalizedVals rt norm d.svec = d.svec.vals ↔
      ∀ x ∈ d.svec.vals.take d.svec.uniqueValueCount, rt.arith .divide x norm = x := by
    have hsplit := List.take_append_drop d.svec.uniqueValueCount d.svec.vals
    unfold normalizedVals
    constructor
    · intro heq
      have hmap := List.append_cancel_right (heq.trans hsplit.symm)
      rw [← List.map_id' (List.take _ _), List.map_map] at hmap
      exact List.map_inj_left.mp hmap
    · intro hself
      rw [List.map_congr_left hself, List.map_id']
      exact hsplit
  rw [← hvals]
  constructor
  · intro h
    exact ⟨h.1.vals, h.1.index⟩
  · intro h
    exact ⟨⟨rfl, rfl, h.1, h.2⟩, rfl⟩

/-- A call leaves an svec argument as it was exactly if it does not normalize it, or normalizes
it to itself. -/
theorem svecCall_keepsArgument_iff (rt : Runtime) (call : SvecCall) {mem : Memory} {v : Nat}
    (hv : v ∈ call.arguments) {d : Datum} (hd : mem.datums[v]? = some (some d)) :
    (∃ d', (call.run rt mem).2.datums[v]? = some (some d') ∧ SameSvec d'.svec d.svec) ↔
      ((∃ svec, call = .svecNormalize svec) → NormalizedToItself rt d) := by
  have hlt := (List.getElem?_eq_some_iff.mp hd).1
  have hself : SameSvec d.svec d.svec := ⟨⟨rfl, rfl, rfl, rfl⟩, rfl⟩
  have hframe : ∀ c : Action Returned, Keeps (Untouched mem.datums) c (fun _ => True) →
      (c mem).2.datums[v]? = some (some d) := by
    intro c hc
    rw [((hc mem (hasPrefix_refl _)).1).getElem? hlt, hd]
  by_cases hnormalize : ∃ svec, call = .svecNormalize svec
  · have ⟨svec, hcall⟩ := hnormalize
    rw [hcall] at hv ⊢
    have hsvec : v = svec := List.mem_singleton.mp hv
    subst hsvec
    have hrun : (SvecCall.run rt (.svecNormalize v) mem).2 = (svecNormalize rt v mem).2 := by
      show (returnSvec (Stored.svecNormalize rt v) mem).2 = _
      unfold returnSvec
      cases hcall : Stored.svecNormalize rt v mem with
      | mk result mem' =>
          cases result with
          | ok address => rw [bind_ok hcall]; rfl
          | error e => rw [bind_error hcall]
    rw [hrun, imp_iff_right ⟨v, rfl⟩]
    unfold NormalizedToItself
    by_cases hplain : d.plain = true
    · rw [imp_iff_right hplain]
      cases hnorm : l2normSdataValuesDouble rt.float8 (sdataFromSvec d.svec) with
      | error e =>
          have hdone : svecNormalize rt v mem = (.error e, mem) := by
            unfold svecNormalize
            rw [bind_ok (getargSvectypeP_plain hd hplain)]
            unfold normalizeInPlace
            rw [bind_ok (readSdata_eq hd), hnorm]
            rfl
          rw [hdone]
          constructor
          · intro _ norm heq
            cases heq
          · intro _
            exact ⟨d, hd, hself⟩
      | ok norm =>
          have hdone := svecNormalize_plain rt hd hplain hnorm
          rw [hdone]
          constructor
          · intro h norm' heq
            have ⟨d', hd', hsame⟩ := h
            cases heq
            cases hd'
            exact (sameSvec_normalized_iff rt norm d).mp hsame
          · intro h
            exact ⟨_, rfl, (sameSvec_normalized_iff rt norm d).mpr (h norm rfl)⟩
    · have hkept : (svecNormalize rt v mem).2.datums[v]? = some (some d) := by
        have hkeeps : Keeps (Untouched mem.datums)
            (do let svec ← getargSvectypePCopy v
                normalizeInPlace rt svec) fun _ => True := by
          apply Keeps.bind (keeps_getargSvectypePCopy v)
          intro svec hsvec
          exact keeps_normalizeInPlace rt hsvec
        have hcopied : svecNormalize rt v mem =
            (do let svec ← getargSvectypePCopy v
                normalizeInPlace rt svec : Action Nat) mem := by
          exact bind_congr (getargSvectypeP_copy hd hplain)
        rw [hcopied, ((hkeeps mem (hasPrefix_refl _)).1).getElem? hlt, hd]
      constructor
      · intro _ h
        exact absurd h hplain
      · intro _
        exact ⟨d, hkept, hself⟩
  · constructor
    · intro _ h
      exact absurd h hnormalize
    · intro _
      refine ⟨d, hframe _ (keeps_run rt ?_), hself⟩
      intro svec heq
      exact hnormalize ⟨svec, heq⟩

/-! ## Two runs -/

/-- Double arithmetic as far as the numbers 0, 1/2, 1, 2 and 4 below need it. -/
def smallRuntime : Runtime where
  arith := fun _ v w =>
    if v = 0x3FF0000000000000 ∧ w = 0x4000000000000000 then 0x3FE0000000000000 else v
  float8 :=
    { add := fun v w => if v = 0 then w else v
      mul := fun v w => if v = 0x3FF0000000000000 then w else v
      sqrt := fun v => if v = 0x4010000000000000 then 0x4000000000000000 else v
      ofInt64 := fun n => if n = 4 then 0x4010000000000000 else 0x3FF0000000000000 }
  pow := fun v _ => v
  log := fun v => v
  randomInt := fun _ x _ => x
  leftover := fun _ => 0
  fuel := 0

/-- The datum of `{1}:{1}`. -/
def unitDatum : Datum where
  svec := tightSvec (-1) 1 [0x3FF0000000000000] [255] (by decide)
  slack := []
  plain := true
  length_slack := rfl

theorem svecCall_keepsArgument_unit :
    ∃ d', ((SvecCall.svecNormalize 0).run smallRuntime ⟨[some unitDatum], []⟩).2.datums[0]? =
      some (some d') ∧ SameSvec d'.svec unitDatum.svec := by
  apply (svecCall_keepsArgument_iff smallRuntime (.svecNormalize 0) (v := 0) (by decide) rfl).mpr
  intro _ _ norm hnorm
  have hone : (0x3FF0000000000000 : Float8) = norm := Except.ok.inj hnorm
  rw [← hone]
  exact ⟨List.all_iff_forall_prop.mp (by decide), rfl⟩

/-- The datum of `{4}:{1}`. -/
def onesDatum : Datum where
  svec := tightSvec 4 4 [0x3FF0000000000000] [252] (by decide)
  slack := []
  plain := true
  length_slack := rfl

/-- `svec_normalize` turns its argument `{4}:{1}` into `{4}:{0.5}`. -/
theorem svecNormalize_changes_argument :
    ¬ ∀ (rt : Runtime) (call : SvecCall) (mem : Memory) (v : Nat) (d : Datum),
      v ∈ call.arguments → mem.datums[v]? = some (some d) →
      ∃ d', (call.run rt mem).2.datums[v]? = some (some d') ∧ SameSvec d'.svec d.svec := by
  intro h
  have ⟨d', hd', hsame⟩ := h smallRuntime (.svecNormalize 0) ⟨[some onesDatum], []⟩ 0 onesDatum
    (by decide) rfl
  have hhalf : d'.svec.vals = [0x3FE0000000000000] := by
    cases hd'
    rfl
  have hone : d'.svec.vals = [0x3FF0000000000000] := hsame.1.vals
  rw [hhalf] at hone
  exact absurd hone (by decide)

end Madlib.Svec.Stored
