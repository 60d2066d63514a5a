import Madlib.Kmeans.SvecMean
import Madlib.Svec.Canonical
import Madlib.Svec.Frame
import Madlib.Svec.Nonbase
import Madlib.Svec.Reductions

/-!
# The mean of svecs

The state of the aggregate `mean` is a float8[] of the sums of the elements with the number of
svecs behind them; it is NULL before the first svec.  Whatever the segments and the order of
merging, the final function divides the sums by the number.
-/

namespace Madlib.Svec

open Madlib.Backend Madlib.Lib Madlib.Lib.MachineInt Madlib.Lib.RunLength Madlib.Lib.Segments
open CountCode
open Madlib.AssocRules (one HoldsRuns Packed.of_sameData)
open Madlib.Kmeans (coordinateSums coordinateMeans length_coordinateSums coordinateSums_single
  zipWith_coordinateSums)

/-! ## The functions -/

/-- `ARR_DIMS(array)[0]` -/
def ArrayType.firstDim (array : ArrayType) : Except Fault Nat :=
  match array.dims with
  | [] => .error .outOfBounds
  | dim :: _ => .ok dim

/-- The elements are overwritten by as many others. -/
def ArrayType.overwrite (array : ArrayType) (data : List Float8)
    (h : data.length = array.data.length) : ArrayType :=
  { array with
    data
    length_data := h.trans array.length_data
    size_le := h.symm ▸ array.size_le }

def ArrayType.writeData (array : ArrayType) (data : List Float8) : Except Fault ArrayType :=
  if h : data.length = array.data.length then .ok (array.overwrite data h)
  else .error .outOfBounds

section Functions

variable (ops : Arith) (constructArray : List Float8 → Except Fault ArrayType)

/-- The first `count` elements of the other array are added. -/
def addElements : Nat → List Float8 → List Float8 → Except Fault (List Float8)
  | 0, array1, _ => .ok array1
  | count + 1, x :: array1, y :: array2 =>
      (addElements count array1 array2).map (ops .add x y :: ·)
  | _ + 1, _, _ => .error .outOfBounds

/-- `array[i]++` -/
def incrementElement (array : List Float8) (i : Nat) : Except Fault (List Float8) :=
  match array[i]? with
  | none => .error .outOfBounds
  | some x => .ok (array.set i (ops .add x one))

def svecMeanTransition (state : Option ArrayType) (svec : Option SvecType) :
    Except Fault (Option ArrayType) :=
  match svec with
  | none => .ok state
  | some svec => do
      let svecDim := svec.totalValueCount.toInt
      let svecArray ← sdataToFloat8arr (sdataFromSvec svec)
      match state with
      | none => do
          palloc (sizeT (8 * toInt32 (svecDim + 1)))
          let outArray ← constructArray (svecArray ++ [one])
          pure (some outArray)
      | some transarray => do
          let stateDim ← transarray.firstDim
          if (stateDim : Int) ≠ toInt32 (svecDim + 1) then
            .error (.ereport .invalidParameterValue
              ("svec_mean_transition: input dimensions should be dim1=dim2+1, but are: " ++
                s!"dim1={stateDim}, dim2={svecDim}\n"))
          else do
            let stateArray ← addElements ops svecDim.toNat transarray.data svecArray
            let stateArray ← incrementElement ops stateArray svecDim.toNat
            let transarray ← transarray.writeData stateArray
            pure (some transarray)

def svecMeanPrefunc (state1 state2 : Option ArrayType) : Except Fault (Option ArrayType) :=
  match state1, state2 with
  | none, state2 => .ok state2
  | state1, none => .ok state1
  | some transarray1, some transarray2 => do
      let dim1 ← transarray1.firstDim
      let dim2 ← transarray2.firstDim
      if dim1 ≠ dim2 then
        .error (.ereport .invalidParameterValue
          ("svec_mean_prefunc: input dimensions should be the same, but are: " ++
            s!"dim1={dim1}, dim2={dim2}\n"))
      else do
        let array1 ← addElements ops dim1 transarray1.data transarray2.data
        let transarray1 ← transarray1.writeData array1
        pure (some transarray1)

/-- `float8arr_to_sdata` of the first `count` elements.  The first run is written out even if
there is none. -/
def firstToSdata (array : List Float8) (count : Nat) : Except Fault SparseData :=
  if count = 0 then do
    let sdata ← float8arrToSdata (array.take 1)
    pure { sdata with totalValueCount := 0 }
  else float8arrToSdata (array.take count)

/-- The last element is read in every round. -/
def divideElements (array : List Float8) (dim : Nat) : Except Fault (List Float8) :=
  if dim - 1 = 0 then .ok array
  else
    match array[dim - 1]? with
    | none => .error .outOfBounds
    | some last => applyToVals (fun x => ops .divide x last) (dim - 1) array

def svecMeanFinal (state : Option ArrayType) : Except Fault (Option SvecType) :=
  match state with
  | none => .ok none
  | some transarray => do
      let dim ← transarray.firstDim
      let array ← divideElements ops transarray.data dim
      let sdata ← firstToSdata array (dim - 1)
      let svec ← svecFromSparsedata sdata true
      pure (some svec)

/-- The states of the aggregate `mean`, before its final function. -/
def meanStates : Aggregate Fault (Option SvecType) (Option ArrayType) where
  init := none
  transition := svecMeanTransition ops constructArray
  merge := svecMeanPrefunc ops

/-- The aggregate `mean` over the segments of a plan. -/
def svecMean (plan : Plan (Option SvecType)) : Except Fault (Option SvecType) := do
  let state ← (meanStates ops constructArray).run plan
  svecMeanFinal ops state

end Functions

/-! ## Arrays -/

theorem writeData_eq {array : ArrayType} {data : List Float8}
    (h : data.length = array.data.length) : array.writeData data = .ok (array.overwrite data h) :=
  dif_pos h

theorem addElements_eq (ops : Arith) {count : Nat} {array1 array2 : List Float8}
    (h1 : count ≤ array1.length) (h2 : count = array2.length) :
    addElements ops count array1 array2 =
      .ok (List.zipWith (ops .add) array1 array2 ++ array1.drop count) := by
  induction count generalizing array1 array2 with
  | zero =>
      rw [addElements, List.eq_nil_of_length_eq_zero h2.symm, List.zipWith_nil_right]
      rfl
  | succ count ih =>
      cases array1 with
      | nil => cases h1
      | cons x array1 =>
          cases array2 with
          | nil => cases h2
          | cons y array2 =>
              rw [addElements, ih (Nat.le_of_succ_le_succ h1) (Nat.succ.inj h2)]
              rfl

/-- Adding an svec and counting it is adding the state that holds it alone. -/
theorem increment_addElements (ops : Arith) {sums svecArray : List Float8} (last : Float8)
    (h : sums.length = svecArray.length) :
    (addElements ops svecArray.length (sums ++ [last]) svecArray >>= fun stateArray =>
        incrementElement ops stateArray svecArray.length) =
      .ok (List.zipWith (ops .add) (sums ++ [last]) (svecArray ++ [one])) := by
  have hlength : (List.zipWith (ops .add) sums svecArray).length = svecArray.length := by
    rw [List.length_zipWith, h, Nat.min_self]
  have hzip : List.zipWith (ops .add) (sums ++ [last]) svecArray =
      List.zipWith (ops .add) sums svecArray := by
    conv_lhs => rw [← List.append_nil svecArray]
    rw [List.zipWith_append h, List.zipWith_nil_right, List.append_nil]
  have hadd : addElements ops svecArray.length (sums ++ [last]) svecArray =
      .ok (List.zipWith (ops .add) sums svecArray ++ [last]) := by
    rw [addElements_eq ops (by rw [List.length_append]; omega) rfl, hzip, ← h, List.drop_left]
  have hread : (List.zipWith (ops .add) sums svecArray ++ [last])[svecArray.length]? =
      some last := by
    rw [← hlength]
    exact List.getElem?_concat_length
  rw [hadd, ok_bind, incrementElement, hread, List.zipWith_append h]
  dsimp only
  rw [← hlength, List.set_append_right _ _ (le_refl _), Nat.sub_self]
  rfl

/-! ## The states -/

def SvecType.numbers (svec : SvecType) : List ℚ := (sdataFromSvec svec).numbers

/-- No sum and no count of the aggregate is rounded, whichever svecs are added. -/
structure MeanSums (n : Nat) (svecs : Multiset SvecType) : Prop where
  numbers : ∀ svec ∈ svecs, AllNumbers (sdataFromSvec svec).dense
  sums : ∀ added ≤ svecs, ∀ a ∈ coordinateSums n (added.map SvecType.numbers), Double.IsDouble a
  counts : ∀ added ≤ svecs, Double.IsDouble (Multiset.card added)

theorem MeanSums.mono {n : Nat} {svecs added : Multiset SvecType} (h : MeanSums n svecs)
    (hle : added ≤ svecs) : MeanSums n added where
  numbers svec hsvec := h.numbers svec (Multiset.mem_of_le hle hsvec)
  sums added' hle' := h.sums added' (hle'.trans hle)
  counts added' hle' := h.counts added' (hle'.trans hle)

/-- The sums and the number of some svecs. -/
def sumsAndCount (n : Nat) (svecs : Multiset SvecType) : List ℚ :=
  coordinateSums n (svecs.map SvecType.numbers) ++ [(Multiset.card svecs : ℚ)]

/-- The array is the state behind some svecs of `n` elements. -/
structure MeanState (n : Nat) (svecs : Multiset SvecType) (array : ArrayType) : Prop where
  dims_eq : array.dims = [n + 1]
  length_data : array.data.length = n + 1
  values : MeanSums n svecs → Double.Values array.data (sumsAndCount n svecs)

/-- The count is behind the sums. -/
theorem MeanState.exists_sums {n : Nat} {svecs : Multiset SvecType} {array : ArrayType}
    (h : MeanState n svecs array) :
    ∃ sums last, array.data = sums ++ [last] ∧ sums.length = n := by
  have hlength := h.length_data
  have hne : array.data ≠ [] := by
    apply List.ne_nil_of_length_pos
    omega
  refine ⟨_, _, (List.dropLast_append_getLast hne).symm, ?_⟩
  rw [List.length_dropLast, hlength]
  rfl

theorem zipWith_sumsAndCount (n : Nat) (svecs svecs' : Multiset SvecType) :
    List.zipWith (· + ·) (sumsAndCount n svecs) (sumsAndCount n svecs') =
      sumsAndCount n (svecs + svecs') := by
  unfold sumsAndCount
  rw [List.zipWith_append (by rw [length_coordinateSums, length_coordinateSums]),
    zipWith_coordinateSums, Multiset.map_add, Multiset.card_add, Nat.cast_add]
  rfl

theorem MeanSums.isDouble {n : Nat} {svecs : Multiset SvecType} (h : MeanSums n svecs) :
    ∀ a ∈ sumsAndCount n svecs, Double.IsDouble a := by
  intro a ha
  rcases List.mem_append.mp ha with hsum | hcount
  · exact h.sums svecs (le_refl _) a hsum
  · rw [List.mem_singleton.mp hcount]
    exact h.counts svecs (le_refl _)

theorem value_one : Double.value one = some 1 := value_small.1

theorem sumsAndCount_single {svec : SvecType} {n : Nat}
    (hlength : (sdataFromSvec svec).dense.length = n) :
    sumsAndCount n {svec} = svec.numbers ++ [1] := by
  have hnumbers : svec.numbers.length = n := by
    rw [SvecType.numbers, SparseData.numbers, List.length_map, hlength]
  rw [sumsAndCount, Multiset.map_singleton, coordinateSums_single hnumbers, Multiset.card_singleton,
    Nat.cast_one]

/-- The elements of an svec, with the count 1 behind them. -/
theorem values_single {svec : SvecType} {n : Nat} {svecs : Multiset SvecType}
    (hlength : (sdataFromSvec svec).dense.length = n) (h : MeanSums n svecs)
    (hmem : svec ∈ svecs) :
    Double.Values ((sdataFromSvec svec).dense ++ [one]) (sumsAndCount n {svec}) := by
  rw [sumsAndCount_single hlength]
  refine (h.numbers svec hmem).values.append ?_
  exact Double.values_cons.mpr ⟨value_one, Double.values_nil⟩

theorem MeanState.add {ops : Arith} (hadd : Double.RoundsTo (ops .add) (· + ·)) {n : Nat}
    {svecs svecs' : Multiset SvecType} {xs ys : List Float8}
    (hxs : MeanSums n svecs → Double.Values xs (sumsAndCount n svecs))
    (hys : MeanSums n svecs' → Double.Values ys (sumsAndCount n svecs'))
    (h : MeanSums n (svecs + svecs')) :
    Double.Values (List.zipWith (ops .add) xs ys) (sumsAndCount n (svecs + svecs')) := by
  have hxs' := hxs (h.mono (Multiset.le_add_right _ _))
  have hys' := hys (h.mono (Multiset.le_add_left _ _))
  have hexact := h.isDouble
  rw [← zipWith_sumsAndCount] at hexact ⊢
  exact hadd.values_zipWith hxs' hys' hexact

/-! ## What the functions do to the states -/

section Steps

variable (ops : Arith) (constructArray : List Float8 → Except Fault ArrayType)
  (hadd : Double.RoundsTo (ops .add) (· + ·))
  (hconstruct : Constructs constructArray ArrayType.data ArrayType.shape float8Oid)
  {svec : SvecType} {n m : Nat} {svecs svecs' : Multiset SvecType} {array array' : ArrayType}

/-- The array of an svec and its count are allocated. -/
def MeanFits (svec : SvecType) : Prop :=
  24 + 8 * (svec.totalValueCount.toInt + 1) ≤ maxAllocSize

section First

include hconstruct

theorem svecMeanTransition_first (h : WellFormed (sdataFromSvec svec))
    (htotal : svec.totalValueCount.toInt = n) (hfits : MeanFits svec) :
    ∃ array, svecMeanTransition ops constructArray none (some svec) = .ok (some array) ∧
      MeanState n {svec} array := by
  have hlength : ((sdataFromSvec svec).dense.length : Int) = n :=
    h.truthful.length_dense.trans htotal
  unfold MeanFits at hfits
  have hsize : 8 * (sdataFromSvec svec).totalValueCount.toInt ≤ maxAllocSize := by
    show 8 * svec.totalValueCount.toInt ≤ maxAllocSize
    omega
  have hpalloc : sizeT (8 * toInt32 (svec.totalValueCount.toInt + 1)) ≤ maxAllocSize := by
    unfold maxAllocSize at hfits ⊢
    rw [toInt32_of_mem (by omega) (by omega)]
    unfold sizeT
    omega
  have helems : ((sdataFromSvec svec).dense ++ [one]).length = n + 1 := by
    rw [List.length_append, List.length_singleton]
    omega
  have ⟨array, harray⟩ := hconstruct.ok ((sdataFromSvec svec).dense ++ [one]) (by omega)
  have hshape := hconstruct.shape _ array (List.append_ne_nil_of_right_ne_nil _ (by simp)) harray
  have hdata := hconstruct.data _ array harray
  refine ⟨array, ?_, ?_, ?_, ?_⟩
  · unfold svecMeanTransition
    dsimp only
    rw [sdataToFloat8arr_eq h.truthful hsize, ok_bind, palloc_ok hpalloc, ok_bind, harray]
    rfl
  · rw [helems] at hshape
    exact congrArg (fun shape => shape.2.1) hshape
  · rw [hdata, helems]
  · intro hsums
    rw [hdata]
    exact values_single (by omega) hsums (Multiset.mem_singleton_self svec)

/-- An allocation fails. -/
theorem svecMeanTransition_first_error (h : WellFormed (sdataFromSvec svec))
    (hfits : ¬ MeanFits svec) :
    ∃ e, svecMeanTransition ops constructArray none (some svec) = .error e ∧ e.isRaised = true := by
  have hlength := h.truthful.length_dense
  have hone := h.one_le_total
  unfold MeanFits at hfits
  unfold svecMeanTransition
  dsimp only
  by_cases hsize : 8 * (sdataFromSvec svec).totalValueCount.toInt ≤ maxAllocSize
  · rw [sdataToFloat8arr_eq h.truthful hsize, ok_bind]
    by_cases hpalloc : sizeT (8 * toInt32 (svec.totalValueCount.toInt + 1)) ≤ maxAllocSize
    · have helems : maxAllocSize < 24 + 8 * ((sdataFromSvec svec).dense ++ [one]).length := by
        have htotal : (sdataFromSvec svec).totalValueCount = svec.totalValueCount := rfl
        rw [List.length_append, List.length_singleton]
        rw [htotal] at hlength
        omega
      have ⟨e, he, hraised⟩ := hconstruct.error _ helems
      rw [palloc_ok hpalloc, ok_bind, he, error_bind]
      exact ⟨e, rfl, hraised⟩
    · rw [palloc_error (Nat.lt_of_not_le hpalloc), error_bind]
      exact ⟨_, rfl, rfl⟩
  · rw [sdataToFloat8arr_error (lt_of_not_ge hsize), error_bind]
    exact ⟨_, rfl, rfl⟩

end First

theorem MeanState.firstDim_eq (h : MeanState n svecs array) : array.firstDim = .ok (n + 1) := by
  rw [ArrayType.firstDim, h.dims_eq]

/-- An array of sums and a count is no larger than an allocation. -/
theorem MeanState.fits (h : MeanState n svecs array) : 8 * (n : ℤ) ≤ maxAllocSize := by
  have hsize := array.size_le
  rw [h.length_data] at hsize
  omega

include hadd in
theorem svecMeanTransition_next (h : WellFormed (sdataFromSvec svec))
    (htotal : svec.totalValueCount.toInt = n) (hstate : MeanState n svecs array) :
    ∃ array', svecMeanTransition ops constructArray (some array) (some svec) =
      .ok (some array') ∧ MeanState n (svec ::ₘ svecs) array' := by
  have hlength : (sdataFromSvec svec).dense.length = n := by
    have hdense := h.truthful.length_dense.trans htotal
    omega
  have hsize : 8 * (sdataFromSvec svec).totalValueCount.toInt ≤ maxAllocSize := by
    show 8 * svec.totalValueCount.toInt ≤ maxAllocSize
    rw [htotal]
    exact hstate.fits
  have hmax := (int32_mem svec.totalValueCount).2
  have hfits := hstate.fits
  have ⟨sums, last, hdata, hcount⟩ := hstate.exists_sums
  have hsums : sums.length = (sdataFromSvec svec).dense.length := hcount.trans hlength.symm
  have hnew := increment_addElements ops last hsums
  rw [← hdata, hlength] at hnew
  have hnewlength : (List.zipWith (ops .add) array.data
      ((sdataFromSvec svec).dense ++ [one])).length = array.data.length := by
    rw [List.length_zipWith, List.length_append, hlength, hstate.length_data]
    exact Nat.min_self _
  refine ⟨array.overwrite _ hnewlength, ?_, hstate.dims_eq, ?_, ?_⟩
  · unfold svecMeanTransition
    dsimp only
    rw [sdataToFloat8arr_eq h.truthful hsize, ok_bind, hstate.firstDim_eq, ok_bind, htotal,
      if_neg (by unfold maxAllocSize at hfits; rw [toInt32_of_mem (by omega) (by omega)]; simp),
      Int.toNat_natCast, ← bind_assoc, hnew, ok_bind, writeData_eq hnewlength]
    rfl
  · exact hnewlength.trans hstate.length_data
  · rw [← Multiset.singleton_add, add_comm]
    intro hexact
    refine MeanState.add hadd hstate.values (fun hsingle => ?_) hexact
    exact values_single hlength hsingle (Multiset.mem_singleton_self svec)

theorem svecMeanTransition_mismatch (h : WellFormed (sdataFromSvec svec))
    (htotal : svec.totalValueCount.toInt ≠ n) (hstate : MeanState n svecs array) :
    ∃ e, svecMeanTransition ops constructArray (some array) (some svec) = .error e ∧
      e.isRaised = true := by
  have hone : 1 ≤ svec.totalValueCount.toInt := h.one_le_total
  unfold svecMeanTransition
  dsimp only
  by_cases hsize : 8 * (sdataFromSvec svec).totalValueCount.toInt ≤ maxAllocSize
  · have hdim : ((n + 1 : ℕ) : ℤ) ≠ toInt32 (svec.totalValueCount.toInt + 1) := by
      have hsmall : 8 * svec.totalValueCount.toInt ≤ maxAllocSize := hsize
      unfold maxAllocSize at hsmall
      rw [toInt32_of_mem (by omega) (by omega)]
      omega
    rw [sdataToFloat8arr_eq h.truthful hsize, ok_bind, hstate.firstDim_eq, ok_bind, if_pos hdim]
    exact ⟨_, rfl, rfl⟩
  · rw [sdataToFloat8arr_error (lt_of_not_ge hsize), error_bind]
    exact ⟨_, rfl, rfl⟩

include hadd in
theorem svecMeanPrefunc_same (hstate : MeanState n svecs array)
    (hstate' : MeanState n svecs' array') :
    ∃ merged, svecMeanPrefunc ops (some array) (some array') = .ok (some merged) ∧
      MeanState n (svecs + svecs') merged := by
  have hadded : addElements ops (n + 1) array.data array'.data =
      .ok (List.zipWith (ops .add) array.data array'.data) := by
    rw [addElements_eq ops hstate.length_data.ge hstate'.length_data.symm, ← hstate.length_data,
      List.drop_length, List.append_nil]
  have hlength : (List.zipWith (ops .add) array.data array'.data).length = array.data.length := by
    rw [List.length_zipWith, hstate.length_data, hstate'.length_data, Nat.min_self]
  refine ⟨array.overwrite _ hlength, ?_, hstate.dims_eq, hlength.trans hstate.length_data, ?_⟩
  · unfold svecMeanPrefunc
    dsimp only
    rw [hstate.firstDim_eq, ok_bind, hstate'.firstDim_eq, ok_bind, if_neg (not_not_intro rfl),
      hadded, ok_bind, writeData_eq hlength]
    rfl
  · exact MeanState.add hadd hstate.values hstate'.values

theorem svecMeanPrefunc_mismatch (hne : n ≠ m) (hstate : MeanState n svecs array)
    (hstate' : MeanState m svecs' array') :
    ∃ e, svecMeanPrefunc ops (some array) (some array') = .error e ∧ e.isRaised = true := by
  unfold svecMeanPrefunc
  dsimp only
  rw [hstate.firstDim_eq, ok_bind, hstate'.firstDim_eq, ok_bind, if_pos (by omega)]
  exact ⟨_, rfl, rfl⟩

end Steps

/-! ## Runs of the aggregate -/

/-- All svecs have this number of elements. -/
def AllOfDim (n : Nat) (svecs : Multiset SvecType) : Prop :=
  ∀ svec ∈ svecs, svec.totalValueCount.toInt = n

/-- What the state says of the svecs that have been seen. -/
def Tracked (svecs : Multiset SvecType) : Option ArrayType → Prop
  | none => svecs = 0
  | some array => ∃ n, svecs ≠ 0 ∧ AllOfDim n svecs ∧ MeanState n svecs array

/-- What an error says of them. -/
def Refused (svecs : Multiset SvecType) (e : Fault) : Prop :=
  e.isRaised = true ∧ ((¬ ∃ n, AllOfDim n svecs) ∨ ∃ svec ∈ svecs, ¬ MeanFits svec)

theorem AllOfDim.cons {n : Nat} {svec : SvecType} {svecs : Multiset SvecType} :
    AllOfDim n (svec ::ₘ svecs) ↔ svec.totalValueCount.toInt = n ∧ AllOfDim n svecs :=
  Multiset.forall_mem_cons

theorem AllOfDim.add {n : Nat} {svecs svecs' : Multiset SvecType} :
    AllOfDim n (svecs + svecs') ↔ AllOfDim n svecs ∧ AllOfDim n svecs' := by
  unfold AllOfDim
  simp only [Multiset.mem_add, or_imp, forall_and]

/-- A number of elements is that of the svecs there are. -/
theorem AllOfDim.unique {n m : Nat} {svecs : Multiset SvecType} (hne : svecs ≠ 0)
    (hn : AllOfDim n svecs) (hm : AllOfDim m svecs) : n = m := by
  have ⟨svec, hsvec⟩ := Multiset.exists_mem_of_ne_zero hne
  have hn' := hn svec hsvec
  have hm' := hm svec hsvec
  omega

theorem Refused.mono {svecs svecs' : Multiset SvecType} {e : Fault} (hle : svecs ≤ svecs')
    (h : Refused svecs e) : Refused svecs' e := by
  have ⟨hraised, hcause⟩ := h
  refine ⟨hraised, ?_⟩
  rcases hcause with hdims | ⟨svec, hsvec, hfits⟩
  · left
    intro ⟨n, hn⟩
    exact hdims ⟨n, fun svec hsvec => hn svec (Multiset.mem_of_le hle hsvec)⟩
  · exact .inr ⟨svec, Multiset.mem_of_le hle hsvec, hfits⟩

/-- The svecs that are not NULL. -/
def notNull (rows : Multiset (Option SvecType)) : Multiset SvecType := rows.filterMap id

theorem mem_notNull {rows : Multiset (Option SvecType)} {svec : SvecType} :
    svec ∈ notNull rows ↔ some svec ∈ rows := by
  unfold notNull
  rw [Multiset.mem_filterMap]
  simp

section Runs

variable {ops : Arith} {constructArray : List Float8 → Except Fault ArrayType}
  (hadd : Double.RoundsTo (ops .add) (· + ·))
  (hconstruct : Constructs constructArray ArrayType.data ArrayType.shape float8Oid)
include hadd

include hconstruct in
theorem svecMeanTransition_tracked {svecs : Multiset SvecType} {state : Option ArrayType}
    {svec : SvecType} (hwell : WellFormed (sdataFromSvec svec)) (hstate : Tracked svecs state) :
    (∃ state', svecMeanTransition ops constructArray state (some svec) = .ok state' ∧
        Tracked (svec ::ₘ svecs) state') ∨
      ∃ e, svecMeanTransition ops constructArray state (some svec) = .error e ∧
        Refused (svec ::ₘ svecs) e := by
  have hone : 1 ≤ svec.totalValueCount.toInt := hwell.one_le_total
  have htotal : svec.totalValueCount.toInt = svec.totalValueCount.toInt.toNat := by omega
  cases state with
  | none =>
      have hzero : svecs = 0 := hstate
      subst hzero
      by_cases hfits : MeanFits svec
      · have ⟨array, hstep, hfirst⟩ :=
          svecMeanTransition_first ops constructArray hconstruct hwell htotal hfits
        have hdims : AllOfDim svec.totalValueCount.toInt.toNat {svec} :=
          AllOfDim.cons.mpr ⟨htotal, fun _ hmem => absurd hmem (Multiset.notMem_zero _)⟩
        exact .inl ⟨some array, hstep, _, Multiset.singleton_ne_zero svec, hdims, hfirst⟩
      · have ⟨e, hstep, hraised⟩ :=
          svecMeanTransition_first_error ops constructArray hconstruct hwell hfits
        exact .inr ⟨e, hstep, hraised, .inr ⟨svec, Multiset.mem_cons_self _ _, hfits⟩⟩
  | some array =>
      have ⟨n, hne, hdims, harray⟩ := hstate
      by_cases hsame : svec.totalValueCount.toInt = n
      · have ⟨array', hstep, hnext⟩ := svecMeanTransition_next ops constructArray hadd hwell
          hsame harray
        exact .inl ⟨some array', hstep, n, Multiset.cons_ne_zero, AllOfDim.cons.mpr ⟨hsame, hdims⟩,
          hnext⟩
      · have ⟨e, hstep, hraised⟩ := svecMeanTransition_mismatch ops constructArray hwell
          hsame harray
        refine .inr ⟨e, hstep, hraised, .inl ?_⟩
        intro ⟨m, hm⟩
        have ⟨hsvec, hsvecs⟩ := AllOfDim.cons.mp hm
        rw [hdims.unique hne hsvecs] at hsame
        exact hsame hsvec

theorem svecMeanPrefunc_tracked {svecs svecs' : Multiset SvecType}
    {state state' : Option ArrayType} (hstate : Tracked svecs state)
    (hstate' : Tracked svecs' state') :
    (∃ merged, svecMeanPrefunc ops state state' = .ok merged ∧
        Tracked (svecs + svecs') merged) ∨
      ∃ e, svecMeanPrefunc ops state state' = .error e ∧ Refused (svecs + svecs') e := by
  cases state with
  | none =>
      have hzero : svecs = 0 := hstate
      rw [hzero, zero_add]
      exact .inl ⟨state', rfl, hstate'⟩
  | some array =>
      cases state' with
      | none =>
          have hzero : svecs' = 0 := hstate'
          rw [hzero, add_zero]
          exact .inl ⟨some array, rfl, hstate⟩
      | some array' =>
          have ⟨n, hne, hdims, harray⟩ := hstate
          have ⟨m, hne', hdims', harray'⟩ := hstate'
          by_cases hsame : n = m
          · subst hsame
            have ⟨merged, hstep, hmerged⟩ := svecMeanPrefunc_same ops hadd harray harray'
            have hsum : svecs + svecs' ≠ 0 := fun hzero => hne (add_eq_zero.mp hzero).1
            exact .inl ⟨some merged, hstep, n, hsum, AllOfDim.add.mpr ⟨hdims, hdims'⟩, hmerged⟩
          · have ⟨e, hstep, hraised⟩ := svecMeanPrefunc_mismatch ops hsame harray harray'
            refine .inr ⟨e, hstep, hraised, .inl ?_⟩
            intro ⟨k, hk⟩
            have ⟨hleft, hright⟩ := AllOfDim.add.mp hk
            exact hsame ((hdims.unique hne hleft).trans (hdims'.unique hne' hright).symm)

include hconstruct in
theorem explains_meanStates : Explains (meanStates ops constructArray)
    (fun r => ∀ svec, r = some svec → WellFormed (sdataFromSvec svec))
    (fun rows => Tracked (notNull rows)) fun rows => Refused (notNull rows) where
  init := Multiset.filterMap_zero id
  transition := by
    intro rows state r hr hstate
    cases r with
    | none =>
        have hsame : notNull (none ::ₘ rows) = notNull rows := Multiset.filterMap_cons_none _ _ rfl
        rw [hsame]
        exact .inl ⟨state, rfl, hstate⟩
    | some svec =>
        have hnew : notNull (some svec ::ₘ rows) = svec ::ₘ notNull rows :=
          Multiset.filterMap_cons_some _ _ _ rfl
        rw [hnew]
        exact svecMeanTransition_tracked hadd hconstruct (hr svec rfl) hstate
  merge := by
    intro rows state rows' state' hstate hstate'
    have hsum : notNull (rows + rows') = notNull rows + notNull rows' :=
      Multiset.filterMap_add id rows rows'
    rw [hsum]
    exact svecMeanPrefunc_tracked hadd hstate hstate'
  mono _ _ _ hle herror := herror.mono (Multiset.filterMap_le_filterMap id hle)

end Runs

/-! ## The final function -/

theorem Packed.holdsRuns {s : SparseData} {values : List Float8} (h : Packed s values)
    (hsize : packedSize values ≤ maxAllocSize) :
    ∃ svec, svecFromSparsedata s true = .ok svec ∧ HoldsRuns svec values := by
  rw [← h.trimmedSize_eq] at hsize
  have ⟨svec, hsvec, hdimension, hsame⟩ := svecFromSparsedata_wellFormed h.wellFormed hsize
  refine ⟨svec, hsvec, Packed.of_sameData h hsame, ?_⟩
  rw [hdimension, ← hsame.total]
  rfl

/-- No operation of the aggregate rounds. -/
structure MeanExact (n : Nat) (svecs : Multiset SvecType) : Prop where
  sums : MeanSums n svecs
  means : ∀ a ∈ coordinateMeans n (svecs.map SvecType.numbers), Double.IsDouble a

theorem svecMeanFinal_eq (ops : Arith) {n : Nat} {svecs : Multiset SvecType} {array : ArrayType}
    (hpositive : 1 ≤ n) (hstate : MeanState n svecs array) :
    ∃ means : List Float8, means.length = n ∧
      (packedSize means ≤ maxAllocSize →
        ∃ svec, svecMeanFinal ops (some array) = .ok (some svec) ∧ HoldsRuns svec means) ∧
      (Double.RoundsTo (ops .divide) (· / ·) → MeanExact n svecs →
        Double.Values means (coordinateMeans n (svecs.map SvecType.numbers))) := by
  have ⟨sums, last, hdata, hlength⟩ := hstate.exists_sums
  have hmeans : (sums.map fun x => ops .divide x last).length = n := by
    rw [List.length_map, hlength]
  refine ⟨sums.map fun x => ops .divide x last, hmeans, ?_, ?_⟩
  · intro hsize
    have hfits := hstate.fits
    unfold maxAllocSize at hfits
    have hne : (sums.map fun x => ops .divide x last) ≠ [] := by
      apply List.ne_nil_of_length_pos
      omega
    have ⟨s, hs, hpacked⟩ := float8arrToSdata_spec hne (by omega)
    have ⟨svec, hsvec, hholds⟩ := hpacked.holdsRuns hsize
    have hread : (sums ++ [last])[n]? = some last := by
      rw [← hlength]
      exact List.getElem?_concat_length
    have hdivide : divideElements ops array.data (n + 1) =
        .ok ((sums.map fun x => ops .divide x last) ++ [last]) := by
      rw [divideElements, Nat.add_sub_cancel, if_neg (Nat.ne_of_gt hpositive), hdata, hread]
      dsimp only
      rw [Stored.applyToVals_ok (by rw [List.length_append, hlength]; omega), ← hlength,
        List.take_left, List.drop_left]
    have hfirst : firstToSdata ((sums.map fun x => ops .divide x last) ++ [last]) n = .ok s := by
      rw [firstToSdata, if_neg (Nat.ne_of_gt hpositive), ← hs]
      conv_lhs => rw [← hmeans]
      rw [List.take_left]
    refine ⟨svec, ?_, hholds⟩
    unfold svecMeanFinal
    dsimp only
    rw [hstate.firstDim_eq, ok_bind, hdivide, ok_bind, Nat.add_sub_cancel, hfirst, ok_bind, hsvec]
    rfl
  · intro hdivide hexact
    have hvalues := hstate.values hexact.sums
    rw [hdata, sumsAndCount] at hvalues
    have ⟨hsums, hlast⟩ := hvalues.of_append (by rw [hlength, length_coordinateSums])
    have ⟨hcount, _⟩ := Double.values_cons.mp hlast
    have hmap : coordinateMeans n (svecs.map SvecType.numbers) =
        (coordinateSums n (svecs.map SvecType.numbers)).map
          fun a => a / (Multiset.card svecs : ℚ) := by
      unfold coordinateMeans coordinateSums
      rw [List.map_map, Multiset.card_map]
      rfl
    have hdoubles := hexact.means
    rw [hmap] at hdoubles ⊢
    exact hdivide.values_map hsums hcount hdoubles

/-! ## Sizes and whole numbers -/

theorem length_rleBytes_le (runs : List Nat) : (rleBytes runs).length ≤ 9 * runs.length := by
  induction runs with
  | nil => exact Nat.le_refl 0
  | cons n runs ih =>
      have hnine := length_int8ToCompword_le n
      rw [rleBytes, List.flatMap_cons, List.length_append, List.length_cons]
      rw [rleBytes] at ih
      omega

/-- A run takes no more bytes than seventeen. -/
theorem Packed.packedSize_le {s : SparseData} {values : List Float8} (h : Packed s values) :
    packedSize values ≤ 88 + 17 * values.length := by
  have ⟨runs, hruns, hpositive, _⟩ := h.wellFormed.exists_runs
  have hsame := hruns.unique h.hasRuns
  have hlength := hruns.length_dense
  rw [h.dense_eq] at hlength
  have hle := length_le_sum hpositive
  have hbytes := length_rleBytes_le runs
  rw [packedSize, ← hsame, svecSize]
  omega

theorem packedSize_le_length {values : List Float8} (hne : values ≠ [])
    (hlength : values.length < 2147483648) : packedSize values ≤ 88 + 17 * values.length := by
  have ⟨s, _, hpacked⟩ := float8arrToSdata_spec hne hlength
  exact hpacked.packedSize_le

/-- Sums of whole numbers are whole. -/
theorem coordinateSums_whole {n bound : ℕ} {svecs : Multiset SvecType}
    (hwhole : ∀ svec ∈ svecs, ∃ ns : List ℕ, svec.numbers = ns.map Nat.cast ∧
      ∀ k ∈ ns, k ≤ bound) :
    ∀ a ∈ coordinateSums n (svecs.map SvecType.numbers),
      ∃ m : ℕ, a = m ∧ m ≤ Multiset.card svecs * bound := by
  intro a ha
  have ⟨i, _, hi⟩ := List.mem_map.mp ha
  subst hi
  clear ha
  induction svecs using Multiset.induction with
  | empty => exact ⟨0, by simp, Nat.zero_le _⟩
  | cons svec svecs ih =>
      have ⟨hsvec, hsvecs⟩ := Multiset.forall_mem_cons.mp hwhole
      have ⟨ns, hns, hbound⟩ := hsvec
      have ⟨m, hm, hle⟩ := ih hsvecs
      have hentry : svec.numbers.getD i 0 = (ns.getD i 0 : ℕ) := by
        rw [hns, List.getD_eq_getElem?_getD, List.getElem?_map, List.getD_eq_getElem?_getD]
        cases ns[i]? with
        | none => exact Nat.cast_zero.symm
        | some k => rfl
      have hsmall : ns.getD i 0 ≤ bound := by
        by_cases hlt : i < ns.length
        · rw [List.getD_eq_getElem _ _ hlt]
          exact hbound _ (List.getElem_mem hlt)
        · rw [List.getD_eq_default _ _ (Nat.le_of_not_lt hlt)]
          exact Nat.zero_le _
      refine ⟨ns.getD i 0 + m, ?_, ?_⟩
      · rw [Multiset.map_cons, Multiset.map_cons, Multiset.sum_cons, hentry, hm, Nat.cast_add]
      · rw [Multiset.card_cons, Nat.add_mul]
        omega

theorem meanSums_of_whole {n : ℕ} (bound : ℕ) {svecs : Multiset SvecType}
    (hnumbers : ∀ svec ∈ svecs, AllNumbers (sdataFromSvec svec).dense)
    (hwhole : ∀ svec ∈ svecs, ∃ ns : List ℕ, svec.numbers = ns.map Nat.cast ∧
      ∀ k ∈ ns, k ≤ bound)
    (hcard : Multiset.card svecs < 2 ^ 53) (hbound : Multiset.card svecs * bound < 2 ^ 53) :
    MeanSums n svecs where
  numbers := hnumbers
  sums added hle a ha := by
    have ⟨m, hm, hsmall⟩ :=
      coordinateSums_whole (fun svec hsvec => hwhole svec (Multiset.mem_of_le hle hsvec)) a ha
    have hmul := Nat.mul_le_mul_right bound (Multiset.card_le_card hle)
    rw [hm]
    exact Double.isDouble_natCast (by omega)
  counts added hle :=
    Double.isDouble_natCast (lt_of_le_of_lt (Multiset.card_le_card hle) hcard)

/-! ## The mean -/

/-- Whatever the segments, the NULLs and the order of merging, `mean` is the elementwise mean of
svecs of one dimension, as long as its arrays can be allocated; svecs of different dimensions are
refused. -/
theorem svecMean_elementwise {ops : Arith} (hadd : Double.RoundsTo (ops .add) (· + ·))
    (hdivide : Double.RoundsTo (ops .divide) (· / ·))
    {constructArray : List Float8 → Except Fault ArrayType}
    (hconstruct : Constructs constructArray ArrayType.data ArrayType.shape float8Oid)
    {plan : Plan (Option SvecType)}
    (hrows : ∀ svec, some svec ∈ plan.rows → WellFormed (sdataFromSvec svec)) :
    (∀ n : Nat, notNull plan.rows ≠ 0 → AllOfDim n (notNull plan.rows) →
      24 + 8 * (n + 1) ≤ maxAllocSize →
      ∃ means : List Float8, means.length = n ∧
        (packedSize means ≤ maxAllocSize →
          ∃ svec, svecMean ops constructArray plan = .ok (some svec) ∧ HoldsRuns svec means) ∧
        (MeanExact n (notNull plan.rows) → Double.Values means
          (coordinateMeans n ((notNull plan.rows).map SvecType.numbers)))) ∧
    ((∃ u v, some u ∈ plan.rows ∧ some v ∈ plan.rows ∧ u.totalValueCount ≠ v.totalValueCount) →
      ∃ e, svecMean ops constructArray plan = .error e ∧ e.isRaised = true) := by
  have hrun := (explains_meanStates hadd hconstruct).run fun r hr svec hsvec =>
    hrows svec (hsvec ▸ hr)
  constructor
  · intro n hne hdims hsize
    obtain ⟨svec, hsvec⟩ := Multiset.exists_mem_of_ne_zero hne
    have hpositive : 1 ≤ n := by
      have hone := (hrows svec (mem_notNull.mp hsvec)).one_le_total
      have htotal : (sdataFromSvec svec).totalValueCount.toInt = n := hdims svec hsvec
      omega
    rcases hrun with ⟨state, hstate, htracked⟩ | ⟨e, _, _, hcause⟩
    · cases state with
      | none => exact absurd htracked hne
      | some array =>
          obtain ⟨m, _, hdims', harray⟩ := htracked
          have hsame : m = n := hdims'.unique hne hdims
          subst hsame
          obtain ⟨means, hlength, hfinal, hvalues⟩ := svecMeanFinal_eq ops hpositive harray
          refine ⟨means, hlength, fun hpacked => ?_, hvalues hdivide⟩
          obtain ⟨svec, hsvec, hholds⟩ := hfinal hpacked
          refine ⟨svec, ?_, hholds⟩
          rw [svecMean, hstate, ok_bind, hsvec]
    · exfalso
      rcases hcause with hnodim | ⟨svec, hsvec, hfits⟩
      · exact hnodim ⟨n, hdims⟩
      · refine hfits ?_
        rw [MeanFits, hdims svec hsvec]
        exact_mod_cast hsize
  · intro ⟨u, v, hu, hv, hne⟩
    have hnodim : ¬ ∃ n, AllOfDim n (notNull plan.rows) := by
      intro ⟨n, hdims⟩
      have hu' := hdims u (mem_notNull.mpr hu)
      have hv' := hdims v (mem_notNull.mpr hv)
      exact hne (Int32.toInt_inj.mp (hu'.trans hv'.symm))
    rcases hrun with ⟨state, _, htracked⟩ | ⟨e, herror, hraised, _⟩
    · cases state with
      | none =>
          have hzero : notNull plan.rows = 0 := htracked
          have hmem := mem_notNull.mpr hu
          rw [hzero] at hmem
          exact absurd hmem (Multiset.notMem_zero u)
      | some array =>
          obtain ⟨n, _, hdims, _⟩ := htracked
          exact absurd ⟨n, hdims⟩ hnodim
    · refine ⟨e, ?_, hraised⟩
      rw [svecMean, herror, error_bind]

/-- `{2,1}:{2,1}` and `{1,2}:{1,4}` in two segments, with a segment of NULLs between them. -/
def twoSegments : Plan (Option SvecType) :=
  .merged (.segment [some twosOne, none]) (.merged (.segment [none]) (.segment [some oneFours]))

theorem notNull_twoSegments : notNull twoSegments.rows = {twosOne, oneFours} := rfl

theorem mem_twoSegments {svec : SvecType} (h : svec ∈ notNull twoSegments.rows) :
    svec = twosOne ∨ svec = oneFours := by
  rw [notNull_twoSegments] at h
  simpa using h

theorem means_twoSegments : coordinateMeans 3 ((notNull twoSegments.rows).map SvecType.numbers) =
    [3 / 2, 3, 5 / 2] := by
  have htwosOne : twosOne.numbers = [2, 2, 1] := numbers_twosOne.2
  have honeFours : oneFours.numbers = [1, 4, 4] := numbers_oneFours.2
  rw [notNull_twoSegments, coordinateMeans]
  simp [htwosOne, honeFours, List.range_succ]
  norm_num

theorem isDouble_halves : Double.IsDouble (3 / 2) ∧ Double.IsDouble (5 / 2) := by
  constructor
  · refine ⟨0x3FF8000000000000, ?_⟩
    rw [@Double.value_of_toNat _ 0x3FF8000000000000 rfl (by norm_num)]
    norm_num [Double.magnitude, Double.significand]
  · refine ⟨0x4004000000000000, ?_⟩
    rw [@Double.value_of_toNat _ 0x4004000000000000 rfl (by norm_num)]
    norm_num [Double.magnitude, Double.significand]

theorem meanExact_twoSegments : MeanExact 3 (notNull twoSegments.rows) := by
  have ⟨htwosOne, hnumbers⟩ := numbers_twosOne
  have ⟨honeFours, hnumbers'⟩ := numbers_oneFours
  constructor
  · refine meanSums_of_whole 4 ?_ ?_ (by decide) (by decide)
    · intro svec hsvec
      rcases mem_twoSegments hsvec with rfl | rfl
      · exact htwosOne
      · exact honeFours
    · intro svec hsvec
      rcases mem_twoSegments hsvec with rfl | rfl
      · refine ⟨[2, 2, 1], ?_, by decide⟩
        rw [SvecType.numbers, hnumbers]
        norm_num
      · refine ⟨[1, 4, 4], ?_, by decide⟩
        rw [SvecType.numbers, hnumbers']
        norm_num
  · rw [means_twoSegments]
    have hthree : Double.IsDouble 3 := by
      exact_mod_cast Double.isDouble_natCast (n := 3) (by norm_num)
    intro a ha
    simp only [List.mem_cons, List.not_mem_nil, or_false] at ha
    rcases ha with rfl | rfl | rfl
    · exact isDouble_halves.1
    · exact hthree
    · exact isDouble_halves.2

theorem svecMean_elementwise_two : ∃ means svec,
    svecMean exactOps (makeArray emptyValues plainArray) twoSegments = .ok (some svec) ∧
      HoldsRuns svec means ∧ Double.Values means [3 / 2, 3, 5 / 2] := by
  have hwell : ∀ svec, some svec ∈ twoSegments.rows → WellFormed (sdataFromSvec svec) := by
    intro svec hsvec
    rcases mem_twoSegments (mem_notNull.mpr hsvec) with rfl | rfl
    · exact wellFormed_twosOne
    · exact wellFormed_oneFours
  have hdims : AllOfDim 3 (notNull twoSegments.rows) := by
    intro svec hsvec
    rcases mem_twoSegments hsvec with rfl | rfl <;> rfl
  have hne : notNull twoSegments.rows ≠ 0 := by
    rw [notNull_twoSegments]
    exact Multiset.cons_ne_zero
  have hops : Double.RoundsTo (exactOps .add) (· + ·) := Double.roundsTo_exactOp (· + ·)
  have hdivide : Double.RoundsTo (exactOps .divide) (· / ·) := Double.roundsTo_exactOp (· / ·)
  obtain ⟨means, hlength, hsvec, hvalues⟩ :=
    (svecMean_elementwise hops hdivide constructs_values hwell).1 3 hne hdims (by decide)
  have hvalues := hvalues meanExact_twoSegments
  rw [means_twoSegments] at hvalues
  have hpacked : packedSize means ≤ maxAllocSize := by
    have hle := packedSize_le_length (List.ne_nil_of_length_pos (by omega))
      (show means.length < 2147483648 by omega)
    rw [hlength] at hle
    exact hle.trans (by decide)
  obtain ⟨svec, hok, hholds⟩ := hsvec hpacked
  exact ⟨means, svec, hok, hholds, hvalues⟩

/-- The state for a long svec is not allocated. -/
theorem svecMean_not_longSvec :
    ¬ ∀ (plan : Plan (Option SvecType)) (n : Nat),
      (∀ svec, some svec ∈ plan.rows → WellFormed (sdataFromSvec svec)) →
      notNull plan.rows ≠ 0 → AllOfDim n (notNull plan.rows) →
      ∃ svec, svecMean exactOps (makeArray emptyValues plainArray) plan = .ok (some svec) ∧
        (sdataFromSvec svec).dense.length = n := by
  intro h
  have hrows : notNull (Plan.segment [some longSvec]).rows = {longSvec} := rfl
  obtain ⟨svec, hsvec, _⟩ := h (.segment [some longSvec]) 134217728
    (by
      intro svec hsvec
      rw [← mem_notNull, hrows, Multiset.mem_singleton] at hsvec
      rw [hsvec]
      exact wellFormed_longSvec)
    (by rw [hrows]; exact Multiset.singleton_ne_zero _)
    (by
      rw [hrows]
      intro svec hsvec
      rw [Multiset.mem_singleton.mp hsvec]
      rfl)
  have hfits : ¬ MeanFits longSvec := by
    unfold MeanFits
    decide
  obtain ⟨e, he, _⟩ := svecMeanTransition_first_error exactOps _ constructs_values
    wellFormed_longSvec hfits
  have hrun : svecMean exactOps (makeArray emptyValues plainArray) (.segment [some longSvec]) =
      .error e := by
    rw [svecMean, Aggregate.run, Aggregate.pass, List.foldlM_cons]
    show ((svecMeanTransition exactOps _ none (some longSvec) >>= _) >>= _) = _
    rw [he, error_bind, error_bind]
  cases hrun.symm.trans hsvec

end Madlib.Svec
