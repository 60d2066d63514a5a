import Mathlib
import Madlib.Svec.BinaryIO
import Madlib.Svec.Constructors
import Madlib.Svec.Elementwise

/-!
# Casts between float8[] and svec

`svec_cast_float8arr` unpacks the NULLs of an array into NVPs and compresses the result;
`svec_return_array` expands the runs again.  The way back makes an array of float8s without
NULLs, so an NVP comes back as the number it is.
-/

namespace Madlib.Svec

open Madlib.Backend Madlib.Lib.MachineInt Madlib.Lib.RunLength CountCode

/-! ## Backend arrays -/

/-- The elements that are not NULL stand one behind the other, `present` tells which these are. -/
def placeNulls : List Bool → List Float8 → List (Option Float8)
  | [], _ => []
  | false :: present, data => none :: placeNulls present data
  | true :: present, data => data.head? :: placeNulls present data.tail

/-- Bit `i` of a bitmap, which is set for an element that is not NULL. -/
def bitmapBit (bitmap : List UInt8) (i : Nat) : Bool :=
  (bitmap.getD (i / 8) 0).toNat.testBit (i % 8)

/-- Which of `count` elements are not NULL. -/
def presentElements (count : Nat) : Option (List UInt8) → List Bool
  | none => List.replicate count true
  | some bitmap => (List.range count).map (bitmapBit bitmap)

def arrayGetNItems (dims : List Nat) : Nat := if dims = [] then 0 else dims.prod

theorem arrayGetNItems_singleton (n : Nat) : arrayGetNItems [n] = n := by simp [arrayGetNItems]

/-- An array of the backend.  Its elements and their number are bounded by the size of a datum
and of an array of datums. -/
structure ArrayType where
  elemtype : Int
  dims : List Nat
  nullbitmap : Option (List UInt8)
  data : List Float8
  dims_pos : ∀ n ∈ dims, 0 < n
  dims_le : 8 * arrayGetNItems dims ≤ maxAllocSize
  bitmap_le : ∀ bitmap, nullbitmap = some bitmap → arrayGetNItems dims ≤ 8 * bitmap.length
  length_data : data.length = (presentElements (arrayGetNItems dims) nullbitmap).count true
  size_le : 16 + 8 * dims.length + 8 * data.length ≤ maxAllocSize

def ArrayType.elements (array : ArrayType) : List (Option Float8) :=
  placeNulls (presentElements (arrayGetNItems array.dims) array.nullbitmap) array.data

/-! ## svec_cast_float8arr -/

/-- The remaining rounds of the loop over the bitmap; `j` counts the elements used up. -/
def unpackNulls (arrayTemp : List Float8) :
    Nat → List UInt8 → Nat → Nat → Except Fault (List Float8)
  | 0, _, _, _ => .ok []
  | _ + 1, [], _, _ => .error .outOfBounds
  | rounds + 1, b :: bitmap, bitmask, j =>
      let next := if 2 * bitmask = 0x100 then (bitmap, 1) else (b :: bitmap, 2 * bitmask)
      if b.toNat &&& bitmask = 0 then do
        let array ← unpackNulls arrayTemp rounds next.1 next.2 j
        pure (NVP :: array)
      else
        match arrayTemp[j]? with
        | none => .error .outOfBounds
        | some v => do
            let array ← unpackNulls arrayTemp rounds next.1 next.2 (j + 1)
            pure (v :: array)

/-- The float8s `svec_cast_float8arr` compresses. -/
def castElements (array : ArrayType) (dimension : Nat) : Except Fault (List Float8) :=
  match array.nullbitmap with
  | none => .ok (array.data.take dimension)
  | some bitmap => do
      palloc (8 * dimension)
      unpackNulls array.data dimension bitmap 1 0

def svecCastFloat8arr (array : ArrayType) : Except Fault SvecType :=
  if array.elemtype ≠ float8Oid then
    .error (.ereport .invalidParameterValue "svec_cast_float8arr only defined over float8[]")
  else if array.dims.length ≠ 1 then
    .error (.ereport .invalidParameterValue
      "svec_cast_float8arr only defined over 1 dimensional arrays")
  else do
    let elements ← castElements array (array.dims.headD 0)
    let sdata ← float8arrToSdata elements
    svecFromSparsedata sdata true

/-! ## svec_return_array -/

/-- The remaining rounds of the loop over the runs; `array` has been stored already. -/
def storeRuns (sdata : SparseData) :
    Nat → Nat → IndexPtr → List Float8 → Except Fault (List Float8)
  | 0, _, _, array => .ok array
  | rounds + 1, i, iptr, array => do
      let n ← compwordToInt8 iptr
      let v ← if 0 < n then valref sdata i else pure 0
      if sdata.totalValueCount.toInt < array.length + max 0 n then .error .outOfBounds
      else
        let iptr ← advance iptr
        storeRuns sdata rounds (i + 1) iptr (array ++ List.replicate n.toNat v)

def sdataToFloat8arr (sdata : SparseData) : Except Fault (List Float8) := do
  palloc (sizeT (8 * sdata.totalValueCount.toInt))
  let array ← storeRuns sdata sdata.uniqueValueCount 0 sdata.index.data []
  if (array.length : Int) ≠ sdata.totalValueCount.toInt then
    .error (.ereport .invalidParameterValue
      s!"Array size is incorrect, is: {array.length} and should be {sdata.totalValueCount.toInt}\n")
  else pure array

/-- `constructArray` is the function of the backend that makes an array of float8s. -/
def svecReturnArray (constructArray : List Float8 → Except Fault ArrayType) (svec : SvecType) :
    Except Fault ArrayType := do
  let array ← sdataToFloat8arr (sdataFromSvec svec)
  constructArray array

/-! ## Unpacking -/

theorem length_placeNulls (present : List Bool) (data : List Float8) :
    (placeNulls present data).length = present.length := by
  induction present generalizing data with
  | nil => rfl
  | cons b present ih =>
      cases b with
      | false => rw [placeNulls, List.length_cons, List.length_cons, ih]
      | true => rw [placeNulls, List.length_cons, List.length_cons, ih]

theorem placeNulls_replicate_true (data : List Float8) :
    placeNulls (List.replicate data.length true) data = data.map some := by
  induction data with
  | nil => rfl
  | cons v data ih =>
      rw [List.length_cons, List.replicate_succ, placeNulls, List.map_cons, List.tail_cons, ih]
      rfl

/-- The mask after `i` rounds selects bit `i`. -/
theorem and_bitmask_eq_zero {bitmap : List UInt8} {i : Nat} {b : UInt8}
    (h : bitmap[i / 8]? = some b) :
    b.toNat &&& 2 ^ (i % 8) = 0 ↔ bitmapBit bitmap i = false := by
  have hbit : bitmapBit bitmap i = b.toNat.testBit (i % 8) := by
    rw [bitmapBit, List.getD_eq_getElem?_getD, h]
    rfl
  have hpos := Nat.two_pow_pos (i % 8)
  rw [hbit, Nat.and_two_pow]
  cases b.toNat.testBit (i % 8) with
  | false => simp
  | true => simp

/-- The pointer into the bitmap and the mask are those of the next round. -/
theorem next_bitmask (bitmap : List UInt8) (i : Nat) :
    (if 2 * 2 ^ (i % 8) = 0x100 then (bitmap.drop (i / 8 + 1), 1)
      else (bitmap.drop (i / 8), 2 * 2 ^ (i % 8))) =
    (bitmap.drop ((i + 1) / 8), 2 ^ ((i + 1) % 8)) := by
  by_cases hlast : i % 8 = 7
  · have hbyte : (i + 1) / 8 = i / 8 + 1 := by omega
    have hbit : (i + 1) % 8 = 0 := by omega
    rw [hlast, hbyte, hbit]
    rfl
  · have hbyte : (i + 1) / 8 = i / 8 := by omega
    have hbit : (i + 1) % 8 = i % 8 + 1 := by omega
    have hne : 2 * 2 ^ (i % 8) ≠ 0x100 := by
      have hlt : 2 ^ (i % 8) < 2 ^ 7 := Nat.pow_lt_pow_right (by omega) (by omega)
      omega
    rw [if_neg hne, hbyte, hbit, Nat.pow_succ']

theorem unpackNulls_eq {bitmap : List UInt8} {data : List Float8} (rounds i j : Nat)
    (hbits : i + rounds ≤ 8 * bitmap.length)
    (hdata : ((List.range' i rounds).map (bitmapBit bitmap)).count true ≤ (data.drop j).length) :
    unpackNulls data rounds (bitmap.drop (i / 8)) (2 ^ (i % 8)) j =
      .ok ((placeNulls ((List.range' i rounds).map (bitmapBit bitmap)) (data.drop j)).map
        fun v => v.getD NVP) := by
  induction rounds generalizing i j with
  | zero => rfl
  | succ rounds ih =>
      have hlt : i / 8 < bitmap.length := by omega
      have hget : bitmap[i / 8]? = some bitmap[i / 8] := List.getElem?_eq_getElem hlt
      rw [List.range'_succ, List.map_cons] at hdata ⊢
      rw [List.drop_eq_getElem_cons hlt, unpackNulls, ← List.drop_eq_getElem_cons hlt,
        next_bitmask]
      dsimp only
      cases hbit : bitmapBit bitmap i with
      | false =>
          rw [hbit, List.count_cons_of_ne (by simp)] at hdata
          rw [if_pos ((and_bitmask_eq_zero hget).mpr hbit), ih (i + 1) j (by omega) hdata, ok_bind,
            placeNulls]
          rfl
      | true =>
          rw [hbit, List.count_cons_self] at hdata
          have hj : j < data.length := by
            rw [List.length_drop] at hdata
            omega
          have hset : ¬ bitmap[i / 8].toNat &&& 2 ^ (i % 8) = 0 := by
            rw [and_bitmask_eq_zero hget, hbit]
            simp
          have hrest : ((List.range' (i + 1) rounds).map (bitmapBit bitmap)).count true ≤
              (data.drop (j + 1)).length := by
            rw [List.length_drop] at hdata ⊢
            omega
          rw [if_neg hset, List.getElem?_eq_getElem hj]
          dsimp only
          rw [ih (i + 1) (j + 1) (by omega) hrest, ok_bind, List.drop_eq_getElem_cons hj, placeNulls,
            List.tail_cons]
          rfl

/-- Every NULL becomes an NVP in its place. -/
theorem castElements_eq (array : ArrayType) :
    castElements array (arrayGetNItems array.dims) =
      .ok (array.elements.map fun v => v.getD NVP) := by
  have hdata := array.length_data
  unfold castElements ArrayType.elements
  cases hbitmap : array.nullbitmap with
  | none =>
      rw [hbitmap, presentElements, List.count_replicate_self] at hdata
      have hid : ((fun v : Option Float8 => v.getD NVP) ∘ some) = id := rfl
      dsimp only
      rw [presentElements, ← hdata, placeNulls_replicate_true, List.take_length, List.map_map, hid,
        List.map_id]
  | some bitmap =>
      rw [hbitmap, presentElements, List.range_eq_range'] at hdata
      have hbits : 0 + arrayGetNItems array.dims ≤ 8 * bitmap.length := by
        rw [Nat.zero_add]
        exact array.bitmap_le bitmap hbitmap
      have hunpack : unpackNulls array.data (arrayGetNItems array.dims) bitmap 1 0 = _ :=
        unpackNulls_eq (arrayGetNItems array.dims) 0 0 hbits hdata.ge
      dsimp only
      rw [palloc_ok array.dims_le, ok_bind, presentElements, List.range_eq_range']
      exact hunpack

/-! ## Compressing -/

/-- The runs written out and the run that goes on make up the elements `seen`. -/
structure CompressedAt (acc : Float8 × Int × SparseData) (runs : List Nat) (seen : List Float8) :
    Prop where
  output : OutputAt acc.2.2 acc.2.1 acc.1 runs seen
  positive : 0 < acc.2.1

theorem CompressedAt.length_seen {acc : Float8 × Int × SparseData} {runs : List Nat}
    {seen : List Float8} (h : CompressedAt acc runs seen) :
    (seen.length : Int) = (runs.sum : Nat) + acc.2.1 := by
  have hpositive := h.positive
  have hlength : runs.length = acc.2.2.vals.length :=
    h.output.hasRuns.length_runs.trans h.output.hasRuns.length_vals.symm
  rw [← h.output.combined_eq, List.length_append, length_expand hlength, List.length_replicate]
  push_cast
  omega

theorem arrRound_spec {acc : Float8 × Int × SparseData} {runs : List Nat} {seen : List Float8}
    (h : CompressedAt acc runs seen) (v : Float8) (hseen : seen.length < 2147483648) :
    ∃ acc' runs', arrRound acc v = .ok acc' ∧ CompressedAt acc' runs' (seen ++ [v]) := by
  have hlength := h.length_seen
  have hpositive := h.positive
  by_cases hv : v = acc.1
  · refine ⟨(acc.1, acc.2.1 + 1, acc.2.2), runs, ?_, ?_, ?_⟩
    · show (if v ≠ acc.1 then _ else _) = _
      rw [if_neg (not_not.mpr hv)]
      rfl
    · rw [hv]
      exact h.output.grow hpositive Int.one_nonneg
    · show 0 < acc.2.1 + 1
      omega
  · have ⟨s, hadd, hout⟩ := h.output.change hpositive (Ne.symm hv) Int.one_pos (by omega)
    refine ⟨(v, 1, s), runs ++ [acc.2.1.toNat], ?_, hout, Int.one_pos⟩
    show (if v ≠ acc.1 then _ else _) = _
    rw [if_pos hv, hadd]
    rfl

theorem foldlM_arrRound {array : List Float8} {acc : Float8 × Int × SparseData} {runs : List Nat}
    {seen : List Float8} (h : CompressedAt acc runs seen)
    (hlength : (seen ++ array).length < 2147483648) :
    ∃ acc' runs', array.foldlM arrRound acc = .ok acc' ∧
      CompressedAt acc' runs' (seen ++ array) := by
  induction array generalizing acc runs seen with
  | nil => exact ⟨acc, runs, rfl, by rwa [List.append_nil]⟩
  | cons v array ih =>
      have hsplit : seen ++ v :: array = seen ++ [v] ++ array := by simp
      rw [hsplit] at hlength ⊢
      have ⟨acc', runs', hround, h'⟩ := arrRound_spec h v (by
        rw [List.length_append, List.length_append] at hlength
        omega)
      have ⟨acc'', runs'', hfold, h''⟩ := ih h' hlength
      refine ⟨acc'', runs'', ?_, h''⟩
      rw [List.foldlM_cons, hround, ok_bind, hfold]

/-- The bytes of an svec with the maximal runs of `values`. -/
def packedSize (values : List Float8) : Nat :=
  svecSize (8 * (runLens values).length) (rleBytes (runLens values)).length

theorem Packed.trimmedSize_eq {s : SparseData} {values : List Float8} (h : Packed s values) :
    s.trimmedSize = packedSize values := by
  unfold SparseData.trimmedSize packedSize
  rw [SparseData.valsLen, h.hasRuns.length_vals, ← h.hasRuns.length_runs, StringInfo.len,
    h.index_eq]
  rfl

theorem Packed.svecFromSparsedata_ok {s : SparseData} {values : List Float8} (h : Packed s values)
    (hsize : packedSize values ≤ maxAllocSize) :
    ∃ svec, svecFromSparsedata s true = .ok svec ∧ WellFormed (sdataFromSvec svec) ∧
      (sdataFromSvec svec).dense = values := by
  rw [← h.trimmedSize_eq] at hsize
  have ⟨svec, hsvec, _, hsame⟩ := svecFromSparsedata_wellFormed h.wellFormed hsize
  exact ⟨svec, hsvec, hsame.wellFormed h.wellFormed, hsame.dense_eq.trans h.dense_eq⟩

theorem Packed.svecFromSparsedata_error {s : SparseData} {values : List Float8}
    (h : Packed s values) (hsize : maxAllocSize < packedSize values) :
    svecFromSparsedata s true = .error (.elog "invalid memory alloc request size") := by
  rw [← h.trimmedSize_eq] at hsize
  exact svecFromSparsedata_trim_error hsize

/-- The final tallies. -/
def tallied (sdata : SparseData) (count : Int) : SparseData :=
  { sdata with
    uniqueValueCount := sdata.valsLen / 8
    totalValueCount := Int32.ofInt count }

/-- The last run is packaged up. -/
theorem CompressedAt.finish {runVal : Float8} {runLen : Int} {sdata : SparseData}
    {runs : List Nat} {seen : List Float8} (h : CompressedAt (runVal, runLen, sdata) runs seen)
    (hlength : seen.length < 2147483648) :
    ∃ s, addRunToSdata runVal runLen sdata = .ok s ∧ Packed (tallied s seen.length) seen := by
  have hseen : (seen.length : Int) = (runs.sum : Nat) + runLen := h.length_seen
  have ⟨s, hadd, hpacked, _⟩ := h.output.writeOut h.positive (by dsimp only; omega)
  have hunique : s.valsLen / 8 = s.uniqueValueCount := by
    rw [SparseData.valsLen, Nat.mul_div_cancel_left _ (by omega), hpacked.hasRuns.length_vals]
  have htotal : Int32.ofInt seen.length = s.totalValueCount := by
    rw [← Int32.toInt_inj, int32_toInt_ofInt, ← hpacked.wellFormed.truthful.length_dense,
      hpacked.dense_eq, toInt32_of_mem (by omega) (by omega)]
  refine ⟨s, hadd, ?_⟩
  rw [tallied, hunique, htotal]
  exact hpacked

/-- A first element starts the first run. -/
theorem compressedAt_singleton (v : Float8) : CompressedAt (v, 1, makeSparseData) [] [v] where
  output :=
    { hasRuns := hasRuns_makeSparseData
      index_eq := rfl
      positive := by simp
      total_eq := rfl
      combined_eq := rfl
      held := .inr ⟨Int.one_pos, List.isChain_singleton v⟩ }
  positive := Int.one_pos

theorem float8arrToSdata_spec {array : List Float8} (hne : array ≠ [])
    (hlength : array.length < 2147483648) :
    ∃ s, float8arrToSdata array = .ok s ∧ Packed s array := by
  have ⟨v, rest, harray⟩ := List.exists_cons_of_ne_nil hne
  subst harray
  have ⟨⟨runVal, runLen, sdata⟩, runs, hfold, hat⟩ :=
    foldlM_arrRound (compressedAt_singleton v) hlength
  have ⟨s, hadd, hpacked⟩ := hat.finish hlength
  refine ⟨_, ?_, hpacked⟩
  rw [float8arrToSdata, hfold, ok_bind]
  dsimp only
  rw [hadd]
  rfl

/-! ## Expanding -/

theorem storeRuns_eq {sdata : SparseData} {runs : List Nat} {vals : List Float8} {i : Nat}
    {ptr : IndexPtr} {array : List Float8} (hindex : IndexRuns ptr runs)
    (hdrop : sdata.vals.drop i = vals) (hlength : runs.length = vals.length)
    (htotal : (array.length : Int) + (runs.sum : Nat) ≤ sdata.totalValueCount.toInt) :
    storeRuns sdata runs.length i ptr array = .ok (array ++ expand runs vals) := by
  induction runs generalizing vals i ptr array with
  | nil =>
      rw [expand_nil, List.append_nil]
      rfl
  | cons n runs ih =>
      have ⟨v, vals', ptr', hvals, ⟨hrun, hv, hadvance⟩, hindex', hdrop', hlength'⟩ :=
        hindex.next hdrop hlength
      subst hvals
      rw [List.sum_cons, Nat.cast_add] at htotal
      have hroom : ¬ sdata.totalValueCount.toInt < array.length + max 0 (n : Int) := by omega
      have hrest : ((array ++ List.replicate n v).length : Int) + (runs.sum : Nat) ≤
          sdata.totalValueCount.toInt := by
        rw [List.length_append, List.length_replicate]
        omega
      have htail := ih hindex' hdrop' hlength' hrest
      rw [List.length_cons, storeRuns, hrun, ok_bind]
      by_cases hn : 0 < (n : Int)
      · rw [if_pos hn, hv, ok_bind]
        dsimp only
        rw [if_neg hroom, hadvance, ok_bind, Int.toNat_natCast, htail, expand_cons,
          List.append_assoc]
      · obtain rfl : n = 0 := by omega
        rw [if_neg hn, pure_eq_ok, ok_bind]
        dsimp only
        rw [if_neg hroom, hadvance, ok_bind]
        exact htail.trans (by rw [expand_cons, List.append_assoc])

theorem sdataToFloat8arr_eq {sdata : SparseData} (h : Truthful sdata)
    (hsize : 8 * sdata.totalValueCount.toInt ≤ maxAllocSize) :
    sdataToFloat8arr sdata = .ok sdata.dense := by
  have ⟨runs, hruns, htotal⟩ := h
  have hstore : storeRuns sdata sdata.uniqueValueCount 0 sdata.index.data [] = .ok sdata.dense := by
    rw [← hruns.length_runs, storeRuns_eq hruns.index List.drop_zero
      (hruns.length_runs.trans hruns.length_vals.symm) (by rw [htotal]; simp), hruns.dense_eq]
    rfl
  have hsizeT : sizeT (8 * sdata.totalValueCount.toInt) ≤ maxAllocSize := by
    unfold maxAllocSize at hsize ⊢
    unfold sizeT
    omega
  unfold sdataToFloat8arr
  rw [palloc_ok hsizeT, ok_bind, hstore, ok_bind, if_neg (not_not.mpr h.length_dense)]
  rfl

/-! ## There and back -/

/-- The documented behaviour of `construct_array`: an array of one dimension without NULLs,
as long as it fits into a datum. -/
structure ConstructsArray (constructArray : List Float8 → Except Fault ArrayType) : Prop where
  ok : ∀ elems, elems ≠ [] → 24 + 8 * elems.length ≤ maxAllocSize →
    ∃ array, constructArray elems = .ok array
  dims : ∀ elems array, elems ≠ [] → constructArray elems = .ok array →
    array.dims = [elems.length]
  elements : ∀ elems array, constructArray elems = .ok array → array.elements = elems.map some

/-- The bytes of the svec an array is cast to. -/
def castSize (elements : List (Option Float8)) : Nat :=
  packedSize (elements.map fun v => v.getD NVP)

theorem ArrayType.length_elements (array : ArrayType) :
    array.elements.length = arrayGetNItems array.dims := by
  unfold ArrayType.elements
  rw [length_placeNulls]
  cases array.nullbitmap with
  | none => rw [presentElements, List.length_replicate]
  | some bitmap => rw [presentElements, List.length_map, List.length_range]

/-- A cast array is stored in its maximal runs. -/
theorem svecCastFloat8arr_spec {array : ArrayType} {n : Nat} (hfloat8 : array.elemtype = float8Oid)
    (hdims : array.dims = [n]) :
    (castSize array.elements ≤ maxAllocSize → ∃ svec, svecCastFloat8arr array = .ok svec ∧
      WellFormed (sdataFromSvec svec) ∧
      (sdataFromSvec svec).dense = array.elements.map fun v => v.getD NVP) ∧
    (maxAllocSize < castSize array.elements →
      svecCastFloat8arr array = .error (.elog "invalid memory alloc request size")) := by
  have hitems : arrayGetNItems array.dims = n := by rw [hdims, arrayGetNItems_singleton]
  have hn : 0 < n := array.dims_pos n (by rw [hdims]; exact List.mem_singleton_self n)
  have hlength := array.length_elements
  have hle := array.dims_le
  unfold maxAllocSize at hle
  have hne : (array.elements.map fun v => v.getD NVP) ≠ [] := by
    apply List.ne_nil_of_length_pos
    rw [List.length_map]
    omega
  have ⟨s, hs, hpacked⟩ := float8arrToSdata_spec hne (by rw [List.length_map]; omega)
  have hcast : svecCastFloat8arr array = svecFromSparsedata s true := by
    have helements := castElements_eq array
    rw [hitems] at helements
    unfold svecCastFloat8arr
    rw [if_neg (not_not.mpr hfloat8), hdims, if_neg (by simp), List.headD_cons, helements, ok_bind,
      hs, ok_bind]
  rw [hcast]
  exact ⟨hpacked.svecFromSparsedata_ok, hpacked.svecFromSparsedata_error⟩

/-- An array comes back from an svec with a number in the place of every NULL. -/
theorem svecReturnArray_spec {constructArray : List Float8 → Except Fault ArrayType}
    (hconstruct : ConstructsArray constructArray) {svec : SvecType}
    (h : WellFormed (sdataFromSvec svec))
    (hsize : 24 + 8 * (sdataFromSvec svec).dense.length ≤ maxAllocSize) :
    ∃ array, svecReturnArray constructArray svec = .ok array ∧
      array.dims = [(sdataFromSvec svec).dense.length] ∧
      array.elements = (sdataFromSvec svec).dense.map some := by
  have hlength := h.truthful.length_dense
  have hone := h.one_le_total
  have hne : (sdataFromSvec svec).dense ≠ [] := by
    apply List.ne_nil_of_length_pos
    omega
  have ⟨array, harray⟩ := hconstruct.ok _ hne hsize
  refine ⟨array, ?_, hconstruct.dims _ _ hne harray, hconstruct.elements _ _ harray⟩
  unfold svecReturnArray
  rw [sdataToFloat8arr_eq h.truthful (by rw [← hlength]; omega), ok_bind, harray]

theorem map_some_getD_eq_iff (elements : List (Option Float8)) :
    ((elements.map fun v => v.getD NVP).map some) = elements ↔ ∀ v ∈ elements, v ≠ none := by
  induction elements with
  | nil => simp
  | cons v elements ih =>
      rw [List.map_cons, List.map_cons, List.forall_mem_cons, List.cons.injEq, ih]
      cases v with
      | none => simp
      | some v => simp

/-- An array without NULLs has its elements in its data. -/
theorem ArrayType.length_data_of_no_null {array : ArrayType} (h : ∀ v ∈ array.elements, v ≠ none) :
    array.data.length = array.elements.length := by
  have hcount : ∀ (present : List Bool) (data : List Float8),
      (∀ v ∈ placeNulls present data, v ≠ none) → present.count true = present.length := by
    intro present
    induction present with
    | nil => exact fun _ _ => rfl
    | cons b present ih =>
        intro data hdata
        cases b with
        | false =>
            rw [placeNulls, List.forall_mem_cons] at hdata
            exact absurd rfl hdata.1
        | true =>
            rw [placeNulls, List.forall_mem_cons] at hdata
            rw [List.count_cons_self, List.length_cons, ih _ hdata.2]
  rw [array.length_data, hcount _ _ h, ArrayType.elements, length_placeNulls]

/-- An array that comes back has no NULLs. -/
theorem svecReturnArray_svecCast_no_null
    {constructArray : List Float8 → Except Fault ArrayType}
    (hconstruct : ConstructsArray constructArray) {array array' : ArrayType} {n : Nat}
    {svec : SvecType} (hfloat8 : array.elemtype = float8Oid) (hdims : array.dims = [n])
    (hsize : castSize array.elements ≤ maxAllocSize) (hcast : svecCastFloat8arr array = .ok svec)
    (hreturn : svecReturnArray constructArray svec = .ok array')
    (helements : array'.elements = array.elements) : ∀ v ∈ array.elements, v ≠ none := by
  have ⟨svec', hsvec', hwell, hdense⟩ := (svecCastFloat8arr_spec hfloat8 hdims).1 hsize
  have heq : svec' = svec := Except.ok.inj (hsvec'.symm.trans hcast)
  subst heq
  unfold svecReturnArray at hreturn
  have ⟨values, hvalues, harray'⟩ := bind_eq_ok.mp hreturn
  have hle := array.dims_le
  have hlength := array.length_elements
  have hdata := sdataToFloat8arr_eq hwell.truthful (by
    rw [← hwell.truthful.length_dense, hdense, List.length_map, hlength]
    exact_mod_cast hle)
  have hvalues' : values = (sdataFromSvec svec').dense :=
    Except.ok.inj (hvalues.symm.trans hdata)
  rw [← map_some_getD_eq_iff, ← hdense, ← hvalues', ← helements]
  exact (hconstruct.elements _ _ harray').symm

/-- An array survives the two casts exactly when it has no NULLs and its runs fit into a
datum. -/
theorem svecReturnArray_svecCast_iff {constructArray : List Float8 → Except Fault ArrayType}
    (hconstruct : ConstructsArray constructArray) {array : ArrayType} {n : Nat}
    (hfloat8 : array.elemtype = float8Oid) (hdims : array.dims = [n]) :
    (∃ svec array', svecCastFloat8arr array = .ok svec ∧
      svecReturnArray constructArray svec = .ok array' ∧ array'.dims = [n] ∧
      array'.elements = array.elements) ↔
    (∀ v ∈ array.elements, v ≠ none) ∧ castSize array.elements ≤ maxAllocSize := by
  have hcast := svecCastFloat8arr_spec hfloat8 hdims
  have hlength := array.length_elements
  rw [hdims, arrayGetNItems_singleton] at hlength
  by_cases hsize : castSize array.elements ≤ maxAllocSize
  · have ⟨svec, hsvec, hwell, hdense⟩ := hcast.1 hsize
    constructor
    · intro h
      have ⟨svec', array', hsvec', hreturn, _, helements⟩ := h
      exact ⟨svecReturnArray_svecCast_no_null hconstruct hfloat8 hdims hsize hsvec' hreturn helements,
        hsize⟩
    · intro h
      have hfits := array.size_le
      rw [array.length_data_of_no_null h.1, hdims, List.length_singleton] at hfits
      have ⟨array', hreturn, hdims', helements⟩ := svecReturnArray_spec hconstruct hwell (by
        rw [hdense, List.length_map]
        exact hfits)
      refine ⟨svec, array', hsvec, hreturn, ?_, ?_⟩
      · rw [hdims', hdense, List.length_map, hlength]
      · rw [helements, hdense, map_some_getD_eq_iff]
        exact h.1
  · have herror := hcast.2 (Nat.lt_of_not_le hsize)
    constructor
    · intro h
      have ⟨svec, array', hsvec, _⟩ := h
      cases herror.symm.trans hsvec
    · exact fun h => absurd h.2 hsize

/-- An array of one dimension without NULLs. -/
def plainArray (elems : List Float8) (hne : elems ≠ [])
    (hsize : 24 + 8 * elems.length ≤ maxAllocSize) : ArrayType where
  elemtype := float8Oid
  dims := [elems.length]
  nullbitmap := none
  data := elems
  dims_pos n hn := by
    rw [List.mem_singleton.mp hn]
    exact List.length_pos_of_ne_nil hne
  dims_le := by
    rw [arrayGetNItems_singleton]
    omega
  bitmap_le bitmap h := nomatch h
  length_data := by rw [arrayGetNItems_singleton, presentElements, List.count_replicate_self]
  size_le := hsize

theorem elements_plainArray {elems : List Float8} (hne : elems ≠ [])
    (hsize : 24 + 8 * elems.length ≤ maxAllocSize) :
    (plainArray elems hne hsize).elements = elems.map some := by
  show placeNulls (presentElements (arrayGetNItems [elems.length]) none) elems = _
  rw [arrayGetNItems_singleton, presentElements, placeNulls_replicate_true]

def constructPlainArray (elems : List Float8) : Except Fault ArrayType :=
  if h : elems ≠ [] ∧ 24 + 8 * elems.length ≤ maxAllocSize then .ok (plainArray elems h.1 h.2)
  else .error (.elog "array size exceeds the maximum allowed")

theorem constructsArray_constructPlainArray : ConstructsArray constructPlainArray := by
  have hok : ∀ {elems array}, constructPlainArray elems = .ok array →
      ∃ hne hsize, array = plainArray elems hne hsize := by
    intro elems array h
    unfold constructPlainArray at h
    split at h
    · rename_i hfits
      exact ⟨hfits.1, hfits.2, (Except.ok.inj h).symm⟩
    · cases h
  refine ⟨fun elems hne hsize => ?_, fun elems array _ h => ?_, fun elems array h => ?_⟩
  · exact ⟨plainArray elems hne hsize, dif_pos ⟨hne, hsize⟩⟩
  · have ⟨hne, hsize, harray⟩ := hok h
    rw [harray]
    rfl
  · have ⟨hne, hsize, harray⟩ := hok h
    rw [harray, elements_plainArray]

/-- The array `{3, 3, NULL}`. -/
def threesNull : ArrayType where
  elemtype := float8Oid
  dims := [3]
  nullbitmap := some [3]
  data := [0x4008000000000000, 0x4008000000000000]
  dims_pos := by decide
  dims_le := by decide
  bitmap_le bitmap h := by
    rw [← Option.some.inj h]
    decide
  length_data := by decide
  size_le := by decide

theorem svecReturnArray_svecCast_threes :
    ∃ svec array', svecCastFloat8arr (plainArray [5, 5, 7] (by decide) (by decide)) = .ok svec ∧
      svecReturnArray constructPlainArray svec = .ok array' ∧ array'.dims = [3] ∧
      array'.elements = [some 5, some 5, some 7] := by
  have helements : (plainArray [5, 5, 7] (by decide) (by decide)).elements =
      [some 5, some 5, some 7] := elements_plainArray _ _
  have ⟨svec, array', hcast, hreturn, hdims, h⟩ :=
    (svecReturnArray_svecCast_iff constructsArray_constructPlainArray
      (show (plainArray [5, 5, 7] (by decide) (by decide)).elemtype = float8Oid from rfl) rfl).mpr
      ⟨by rw [helements]; simp, by rw [helements]; decide⟩
  exact ⟨svec, array', hcast, hreturn, hdims, h.trans helements⟩

/-- The NULL comes back as a number. -/
theorem svecReturnArray_svecCast_not_null :
    ¬ ∀ array : ArrayType, array.elemtype = float8Oid → ∀ n, array.dims = [n] →
      ∃ svec array', svecCastFloat8arr array = .ok svec ∧
        svecReturnArray constructPlainArray svec = .ok array' ∧ array'.dims = [n] ∧
        array'.elements = array.elements := by
  intro h
  have ⟨svec, array', hcast, hreturn, _, helements⟩ := h threesNull rfl 3 rfl
  have hmem : none ∈ threesNull.elements := by decide
  exact svecReturnArray_svecCast_no_null constructsArray_constructPlainArray rfl rfl (by decide)
    hcast hreturn helements none hmem rfl

end Madlib.Svec
