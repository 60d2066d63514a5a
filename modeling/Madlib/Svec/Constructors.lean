import Mathlib
import Madlib.Svec.Concat

/-!
# Constructors and the declared size

Five functions build an svec and compute its `total_value_count` each in its own
way: `svec_in` and `svec_append` add run lengths up, `svec_concat` adds two
sizes, `svec_concat_replicate` multiplies one, and `makeSparseDataFromDouble`
takes its argument for it.  The arithmetic is that of a 32-bit `int` throughout.
-/

namespace Madlib.Svec

open Madlib.Backend Madlib.Lib.MachineInt Madlib.Lib.RunLength CountCode

/-! ## svec_in -/

/-- A backend array; `none` is an SQL NULL. -/
structure PgArray (α : Type) where
  dims : List Nat
  elements : List (Option α)
  dims_pos : ∀ n ∈ dims, 0 < n
  length_eq : elements.length = if dims = [] then 0 else dims.prod

def PgArray.hasNull {α : Type} (array : PgArray α) : Bool := array.elements.any Option.isNone

/-- `OidFunctionCall3(F_ARRAY_IN, ..)`: what `array_in` makes of a text is a parameter. -/
def callArrayIn {α : Type} (arrayIn : List Char → Except String (PgArray α)) (text : List Char) :
    Except Fault (PgArray α) :=
  match arrayIn text with
  | .error msg => .error (.elog msg)
  | .ok array => .ok array

/-- The checks of `svec_in_internal` on the two arrays. -/
def svecInCheck (pgarrayIx : PgArray Int64) (pgarrayVals : PgArray Float8) :
    Except Fault (List Int64 × List Float8) :=
  let numValues := pgarrayIx.dims.headD 0
  let numVals := pgarrayVals.dims.headD 0
  if pgarrayIx.dims = [] ∨ pgarrayVals.dims = [] then
    .error (.ereport .invalidParameterValue "The count and value arrays must be non-empty")
  else if numValues ≠ numVals then
    .error (.ereport .invalidParameterValue
      s!"Unique value count not equal to run length count {numValues} != {numVals}")
  else if pgarrayIx.hasNull then
    .error (.ereport .nullValueNotAllowed "NULL value in the count array.")
  else
    -- an array without a null bitmap is used as it is, the loop over the bitmap
    -- puts an NVP in the place of every NULL
    .ok ((pgarrayIx.elements.take numValues).reduceOption,
      (pgarrayVals.elements.take numValues).map fun v => v.getD NVP)

/-- The run lengths and the values of an input, up to the loop of `svec_in_internal`. -/
def svecInArrays (int8ArrayIn : List Char → Except String (PgArray Int64))
    (float8ArrayIn : List Char → Except String (PgArray Float8)) (str : List Char) :
    Except Fault (List Int64 × List Float8) :=
  match str.dropWhile (· ≠ ':') with
  | [] => .error (.ereport .invalidParameterValue "Invalid input string for svec")
  | _ :: values => do
      let pgarrayIx ← callArrayIn int8ArrayIn (str.takeWhile (· ≠ ':'))
      let pgarrayVals ← callArrayIn float8ArrayIn values
      svecInCheck pgarrayIx pgarrayVals

/-- One round of the loop over the run lengths. -/
def svecInRun (acc : Int × StringInfo) (runLength : Int64) : Except Fault (Int × StringInfo) :=
  if runLength.toInt ≤ 0 then
    .error (.ereport .invalidParameterValue "Non-positive run length in input")
  else do
    let index ← appendToRleIndex acc.2 runLength.toInt
    return (toInt32 (acc.1 + runLength.toInt), index)

/-- The loop and what follows it. -/
def svecInRuns (uIndex : List Int64) (vals : List Float8) : Except Fault SvecType := do
  let (totalValueCount, index) ← uIndex.foldlM svecInRun (0, makeStringInfo)
  let sdata := makeInplaceSparseData vals index.data uIndex.length (Int32.ofInt totalValueCount)
  let result ← svecFromSparsedata sdata true
  return if totalValueCount = 1 then { result with dimension := -1 } else result

def svecIn (int8ArrayIn : List Char → Except String (PgArray Int64))
    (float8ArrayIn : List Char → Except String (PgArray Float8)) (str : List Char) :
    Except Fault SvecType := do
  let (uIndex, vals) ← svecInArrays int8ArrayIn float8ArrayIn str
  svecInRuns uIndex vals

/-! ## svec_append -/

/-- The SparseData the run is added to. -/
def appendBase : Option SvecType → SparseData
  | none => makeSparseData
  | some svec => makeSparseDataCopy (sdataFromSvec svec)

def svecAppend (svec : Option SvecType) (newele : Option Float8) (count : Option Int64) :
    Except Fault SvecType :=
  match count with
  | none => .error (.ereport .invalidParameterValue "count argument cannot be null")
  | some runLen => do
      let sdata ← addRunToSdata (newele.getD NVP) runLen.toInt (appendBase svec)
      svecFromSparsedata sdata true

/-! ## svec_concat_replicate -/

def concatReplicate : Option SparseData → Int → Except Fault (Option SparseData)
  | none, _ => .ok none
  | some rep, multiplier => do
      let valLen := toInt32 (rep.valsLen * multiplier)
      let indLen := toInt32 (rep.index.len * multiplier)
      palloc (sizeT (valLen + 1))
      palloc (sizeT (indLen + 1))
      let vals ← fillBuffer (sizeT (valLen + 1)) 8
        (List.replicate multiplier.toNat rep.vals).flatten
      let index ← fillBuffer (sizeT (indLen + 1)) 1
        (List.replicate multiplier.toNat rep.index.bytes).flatten
      return some
        { uniqueValueCount := multiplier.toNat * rep.uniqueValueCount
          totalValueCount := Int32.ofInt (multiplier * rep.totalValueCount.toInt)
          vals
          valsMaxlen := 8 * vals.length + 1
          index := makeStringInfoFromData (some index) }

def svecConcatReplicate (multiplier : Int32) (svec : SvecType) : Except Fault SvecType :=
  if multiplier.toInt < 0 then
    .error (.ereport .invalidParameterValue "multiplier cannot be negative")
  else do
    match ← concatReplicate (some (sdataFromSvec svec)) multiplier.toInt with
    | none => .error .nullPointer
    | some sdata => svecFromSparsedata sdata true

/-! ## makeSparseDataFromDouble -/

/-- One round of `arr_to_sdata`: the run value, its length so far and the runs finished. -/
def arrRound (acc : Float8 × Int × SparseData) (currVal : Float8) :
    Except Fault (Float8 × Int × SparseData) := do
  let (runVal, runLen, sdata) := acc
  if currVal ≠ runVal then
    return (currVal, 1, ← addRunToSdata runVal runLen sdata)
  else
    return (runVal, runLen + 1, sdata)

def float8arrToSdata : List Float8 → Except Fault SparseData
  | [] => .error .outOfBounds
  | v :: array => do
      let (runVal, runLen, sdata) ← array.foldlM arrRound (v, 1, makeSparseData)
      let sdata ← addRunToSdata runVal runLen sdata
      return { sdata with
        uniqueValueCount := sdata.valsLen / 8
        totalValueCount := Int32.ofInt (v :: array).length }

/-- `bytestore` is what the nine bytes `palloc` returns happen to hold. -/
def makeSparseDataFromDouble (bytestore : List UInt8) (constant : Float8) (dimension : Int64) :
    Except Fault SparseData := do
  let sdata ← float8arrToSdata [constant]
  let entry ← entryIn bytestore dimension.toInt
  -- `sdata->index->len = 0` writes over the index there is
  let index ← appendBinaryStringInfo { sdata.index with data := sdata.index.data.map fun _ => [] }
    entry
  return { sdata with index, totalValueCount := Int32.ofInt dimension.toInt }

/-! ## Runs that are appended -/

/-- A call either raises an error or returns a value satisfying `P`. -/
def RaisesOr {α : Type} (P : α → Prop) : Except Fault α → Prop
  | .ok a => P a
  | .error e => e.isRaised = true

/-- The number of elements a run length stands for once it is stored. -/
def storedCount (runLen : Int) : Int := if 0 ≤ runLen then runLen else runLen % 4294967296

/-- The stored run and the `int` added for it agree. -/
def CountStored (runLen : Int) : Prop := 0 ≤ runLen ∨ runLen % 4294967296 ≤ 128

instance (runLen : Int) : Decidable (CountStored runLen) := by
  unfold CountStored
  infer_instance

theorem storedCount_nonneg (runLen : Int) : 0 ≤ storedCount runLen := by
  unfold storedCount
  split <;> omega

theorem isEntry_stored {runLen : Int} (h : CountStored runLen)
    (hmax : runLen < 9223372036854775808) :
    IsEntry (int8ToCompword runLen) (storedCount runLen).toNat := by
  unfold storedCount
  by_cases hneg : 0 ≤ runLen
  · rw [if_pos hneg]
    exact isEntry_int8ToCompword hneg hmax
  · rw [if_neg hneg]
    have hlow : runLen % 4294967296 ≤ 128 := h.resolve_left hneg
    have hmod : runLen % 4294967296 = runLen % 256 := by omega
    rw [hmod]
    exact isEntry_neg (by omega) (by omega)

/-- A stored run by which an `int` grows as it should is one that was stored whole. -/
theorem countStored_of_read {runLen old : Int} {entry : List UInt8} {k : Nat}
    (hmax : runLen < 9223372036854775808) (hentry : rleIndexBytes runLen = .ok entry)
    (hread : compwordToInt8 (some entry) = .ok (k : Int))
    (htotal : toInt32 (old + runLen) = old + k) :
    CountStored runLen ∧ (k : Int) = storedCount runLen := by
  unfold CountStored storedCount
  by_cases hneg : 0 ≤ runLen
  · have hwhole := isEntry_int8ToCompword hneg hmax
    rw [rleIndexBytes_eq hneg hmax, Except.ok.injEq] at hentry
    have hdecode := (hwhole []).1
    rw [List.append_nil, hentry, hread, Except.ok.injEq] at hdecode
    rw [if_pos hneg]
    exact ⟨.inl hneg, by omega⟩
  · rw [if_neg hneg]
    simp only [toInt32, wrapAt] at htotal
    rcases compwordToInt8_neg (by omega) hentry hread with ⟨hk, hlow⟩ | ⟨hk, hlow⟩
    · have hmod : runLen % 4294967296 = k := by omega
      exact ⟨.inr (by omega), hmod.symm⟩
    · omega

/-- A truthful SparseData one run has been added to, as it is read back. -/
structure ReadBackAppended (sdata s : SparseData) (runLen : Int) (entry : List UInt8) : Prop where
  unique : s.uniqueValueCount = sdata.uniqueValueCount + 1
  total : s.totalValueCount.toInt = toInt32 (sdata.totalValueCount.toInt + runLen)
  vals : ∃ v, s.vals = sdata.vals ++ [v]
  index : s.index.data = some (sdata.index.bytes ++ entry)

theorem ReadBackAppended.truthful_iff {sdata s : SparseData} {runLen : Int} {entry : List UInt8}
    (h : ReadBackAppended sdata s runLen entry) (hmax : runLen < 9223372036854775808)
    (hentry : rleIndexBytes runLen = .ok entry) (hs : Truthful sdata)
    (hindex : sdata.index.data ≠ none) :
    Truthful s ↔ CountStored runLen ∧
      sdata.totalValueCount.toInt + storedCount runLen < 2147483648 := by
  obtain ⟨runs, hruns, htotal⟩ := hs
  obtain ⟨bytes, hbytes⟩ := Option.ne_none_iff_exists'.mp hindex
  obtain ⟨v, hvals⟩ := h.vals
  have hwalks : IndexRuns (some bytes) runs := hbytes ▸ hruns.index
  have hindex' : s.index.data = some (bytes ++ entry) := by
    rw [h.index, StringInfo.bytes, hbytes]
    rfl
  have hcount := storedCount_nonneg runLen
  constructor
  · intro ht
    obtain ⟨runs', hruns', htotal'⟩ := ht
    have hwalks' : IndexRuns (some (bytes ++ entry)) runs' := hindex' ▸ hruns'.index
    obtain ⟨rest, rfl, hrest⟩ := Walks.of_append hwalks hwalks'
    have hlength := hruns'.length_runs
    rw [h.unique, List.length_append, hruns.length_runs] at hlength
    obtain ⟨k, rfl⟩ := List.length_eq_one_iff.mp (by omega : rest.length = 1)
    have hlast : IndexRuns (some entry) [k] := hrest
    have hread := hlast.read.1
    have hsum : ((runs ++ [k]).sum : Int) = sdata.totalValueCount.toInt + k := by
      rw [htotal]
      simp
    rw [h.total] at htotal'
    have hwrap : toInt32 (sdata.totalValueCount.toInt + runLen) =
        sdata.totalValueCount.toInt + k := by
      rw [htotal', ← hsum]
    obtain ⟨hstored, hk⟩ := countStored_of_read hmax hentry hread hwrap
    have hlt := (toInt32_mem (sdata.totalValueCount.toInt + runLen)).2
    exact ⟨hstored, by omega⟩
  · intro hfits
    have hwhole := isEntry_stored hfits.1 hmax
    rw [rleIndexBytes, entryIn_of_isEntry hwhole, Except.ok.injEq] at hentry
    subst hentry
    refine ⟨runs ++ [(storedCount runLen).toNat], ⟨?_, ?_, ?_⟩, ?_⟩
    · rw [hindex']
      exact Walks.append hwalks (walks_entry hwhole)
    · simp [h.unique, hruns.length_runs]
    · simp [hvals, h.unique, hruns.length_vals]
    · have hold : 0 ≤ sdata.totalValueCount.toInt := by omega
      have hwrap : toInt32 (sdata.totalValueCount.toInt + runLen) =
          sdata.totalValueCount.toInt + storedCount runLen := by
        have hlt := hfits.2
        unfold storedCount at hlt ⊢
        simp only [toInt32, wrapAt]
        split at hlt <;> rename_i hneg
        · rw [if_pos hneg]
          omega
        · rw [if_neg hneg]
          omega
      rw [h.total, hwrap, htotal]
      simp
      omega

/-! ## svec_append keeps the size -/

/-- The svec with the run does not fit into a datum. -/
def AppendTooLarge (sdata : SparseData) (runLen : Int) : Prop :=
  ∃ entry, rleIndexBytes runLen = .ok entry ∧
    maxAllocSize < svecSize (sdata.valsLen + 8) (sdata.index.len + entry.length)

/-- When `svec_append` keeps the size of an svec. -/
def AppendKeepsSize (svec : Option SvecType) : Option Int64 → Prop
  | none => True
  | some runLen => (appendBase svec).index.data ≠ none ∧
      (AppendTooLarge (appendBase svec) runLen.toInt ∨
        CountStored runLen.toInt ∧
          (appendBase svec).totalValueCount.toInt + storedCount runLen.toInt < 2147483648)

theorem appendTooLarge_iff (sdata : SparseData) {runLen : Int} {entry : List UInt8}
    (hentry : rleIndexBytes runLen = .ok entry) : AppendTooLarge sdata runLen ↔
      maxAllocSize < svecSize (sdata.valsLen + 8) (sdata.index.len + entry.length) := by
  constructor
  · rintro ⟨entry', hok, hlt⟩
    rw [hentry, Except.ok.injEq] at hok
    exact hok ▸ hlt
  · intro hlt
    exact ⟨entry, hentry, hlt⟩

theorem trimmedSize_appended {sdata s : SparseData} {bytes entry : List UInt8} {v : Float8}
    (hbytes : sdata.index.data = some bytes) (hvals : s.vals = sdata.vals ++ [v])
    (hindex : s.index.data = some (bytes ++ entry)) :
    s.trimmedSize = svecSize (sdata.valsLen + 8) (sdata.index.len + entry.length) := by
  simp [SparseData.trimmedSize, SparseData.valsLen, hvals, StringInfo.len, hindex, hbytes,
    Nat.mul_add]

/-- A run whose entry can be written is added to what fits into a datum. -/
theorem appendRun_fits {sdata : SparseData} {runLen : Int} {entry : List UInt8} (v : Float8)
    (hnull : sdata.index.data ≠ none) (hentry : rleIndexBytes runLen = .ok entry)
    (hfits : svecSize (sdata.valsLen + 8) (sdata.index.len + entry.length) ≤ maxAllocSize) :
    ∃ svec, (addRunToSdata v runLen sdata >>= fun s => svecFromSparsedata s true) = .ok svec ∧
      svec.vals = sdata.vals ++ [v] ∧
      ReadBackAppended sdata (sdataFromSvec svec) runLen entry := by
  have ⟨bytes, hbytes⟩ := Option.ne_none_iff_exists'.mp hnull
  have ⟨s, hadd, hvals, hindex, hunique, htotal⟩ := addRunToSdata_eq v hbytes hentry
  rw [← trimmedSize_appended hbytes hvals hindex] at hfits
  have ⟨svec, hsvec, _, hback⟩ := svecFromSparsedata_trim hfits
  have hne := entryIn_ne_nil hentry
  have hvals' : (sdataFromSvec svec).vals = sdata.vals ++ [v] := by
    rw [hback]
    exact hvals
  refine ⟨svec, ?_, hvals', ?_, ?_, ⟨v, hvals'⟩, ?_⟩
  · rw [hadd, ok_bind, hsvec]
  · rw [hback]
    exact hunique
  · rw [hback]
    exact htotal
  · rw [hback]
    simp [hindex, StringInfo.bytes, hbytes, trimIndex, hne]

theorem appendRun_tooLarge {sdata : SparseData} {runLen : Int} {entry : List UInt8} (v : Float8)
    (hnull : sdata.index.data ≠ none) (hentry : rleIndexBytes runLen = .ok entry)
    (hlarge : maxAllocSize < svecSize (sdata.valsLen + 8) (sdata.index.len + entry.length)) :
    (addRunToSdata v runLen sdata >>= fun s => svecFromSparsedata s true) =
      .error (.elog "invalid memory alloc request size") := by
  have ⟨bytes, hbytes⟩ := Option.ne_none_iff_exists'.mp hnull
  have ⟨s, hadd, hvals, hindex, _⟩ := addRunToSdata_eq v hbytes hentry
  rw [← trimmedSize_appended hbytes hvals hindex] at hlarge
  rw [hadd, ok_bind, svecFromSparsedata_trim_error hlarge]

theorem truthful_appendBase {svec : Option SvecType}
    (h : ∀ s, svec = some s → Truthful (sdataFromSvec s)) : Truthful (appendBase svec) := by
  cases svec with
  | none => exact ⟨[], hasRuns_makeSparseData, rfl⟩
  | some s =>
      obtain ⟨runs, hruns, htotal⟩ := h s rfl
      exact ⟨runs, ⟨hruns.index, hruns.length_runs, hruns.length_vals⟩, htotal⟩

theorem addRunToSdata_nullIndex {sdata : SparseData} (h : sdata.index.data = none) (v : Float8)
    (runLen : Int) : ∃ e, addRunToSdata v runLen sdata = .error e ∧ e.isRaised = false := by
  unfold addRunToSdata appendToRleIndex appendBinaryStringInfo
  cases hentry : rleIndexBytes runLen with
  | error e =>
      obtain rfl := entryIn_error hentry
      exact ⟨_, rfl, rfl⟩
  | ok entry =>
      simp only [ok_bind, h]
      exact ⟨_, rfl, rfl⟩

theorem not_countStored_of_error {runLen : Int} {e : Fault}
    (hmax : runLen < 9223372036854775808) (h : rleIndexBytes runLen = .error e) :
    ¬ CountStored runLen := by
  intro hstored
  have hok : rleIndexBytes runLen = .ok (int8ToCompword runLen) :=
    entryIn_of_isEntry (isEntry_stored hstored hmax) _
  cases h.symm.trans hok

theorem int64_lt (n : Int64) : n.toInt < 9223372036854775808 := n.toInt_lt

theorem svecAppend_raisesOr_iff (svec : Option SvecType) (newele : Option Float8)
    (count : Option Int64) (h : ∀ s, svec = some s → Truthful (sdataFromSvec s)) :
    RaisesOr (fun s => Truthful (sdataFromSvec s)) (svecAppend svec newele count) ↔
      AppendKeepsSize svec count := by
  cases count with
  | none => simp [svecAppend, RaisesOr, AppendKeepsSize, Fault.isRaised]
  | some runLen =>
      have hbase := truthful_appendBase h
      have hmax := int64_lt runLen
      simp only [svecAppend, AppendKeepsSize]
      generalize appendBase svec = base at hbase
      by_cases hnull : base.index.data = none
      · obtain ⟨e, he, hraised⟩ := addRunToSdata_nullIndex hnull (newele.getD NVP) runLen.toInt
        simp [he, RaisesOr, hraised, hnull]
      · cases hentry : rleIndexBytes runLen.toInt with
        | error e =>
            have hraised := entryIn_error hentry
            have hlarge : ¬ AppendTooLarge base runLen.toInt := by
              rintro ⟨entry, hok, _⟩
              cases hentry.symm.trans hok
            have hstored := not_countStored_of_error hmax hentry
            simp [addRunToSdata, appendToRleIndex, hentry, hraised, RaisesOr, Fault.isRaised,
              hlarge, hstored]
        | ok entry =>
            have hlarge := appendTooLarge_iff base hentry
            by_cases hfits : svecSize (base.valsLen + 8) (base.index.len + entry.length) ≤
                maxAllocSize
            · obtain ⟨svec', happend, _, hread⟩ :=
                appendRun_fits (newele.getD NVP) hnull hentry hfits
              rw [happend, hlarge]
              simp only [RaisesOr, hread.truthful_iff hmax hentry hbase hnull]
              simp [hnull, Nat.not_lt.mpr hfits]
            · have hlt := Nat.lt_of_not_le hfits
              rw [appendRun_tooLarge (newele.getD NVP) hnull hentry hlt, hlarge]
              simp [RaisesOr, Fault.isRaised, hnull, hlt]

/-! ## makeSparseDataFromDouble keeps the size -/

theorem rleIndexBytes_one : rleIndexBytes 1 = .ok (int8ToCompword 1) :=
  rleIndexBytes_eq (by omega) (by omega)

theorem float8arrToSdata_singleton (constant : Float8) :
    ∃ sdata bytes, float8arrToSdata [constant] = .ok sdata ∧ sdata.vals = [constant] ∧
      sdata.uniqueValueCount = 1 ∧ sdata.index.data = some bytes := by
  obtain ⟨sdata, hadd, hvals, hindex, _, _⟩ := addRunToSdata_eq constant
    (s := makeSparseData) rfl rleIndexBytes_one
  refine ⟨{ sdata with
    uniqueValueCount := sdata.valsLen / 8, totalValueCount := Int32.ofInt 1 }, _, ?_, hvals, ?_,
    hindex⟩
  · simp only [float8arrToSdata, List.foldlM_nil, pure_eq_ok, ok_bind, hadd]
    rfl
  · simp [SparseData.valsLen, hvals, makeSparseData]

theorem makeSparseDataFromDouble_eq (bytestore : List UInt8) (constant : Float8)
    (dimension : Int64) {entry : List UInt8}
    (hentry : entryIn bytestore dimension.toInt = .ok entry) :
    ∃ s, makeSparseDataFromDouble bytestore constant dimension = .ok s ∧
      ReadBackAppended makeSparseData s dimension.toInt entry := by
  obtain ⟨sdata, bytes, hsdata, hvals, hunique, hindex⟩ := float8arrToSdata_singleton constant
  simp only [makeSparseDataFromDouble, hsdata, hentry, ok_bind, hindex, Option.map_some,
    appendBinaryStringInfo, pure_eq_ok]
  refine ⟨_, rfl, hunique, ?_, ⟨constant, hvals⟩, rfl⟩
  rw [int32_toInt_ofInt]
  simp [makeSparseData]

theorem makeSparseDataFromDouble_raisesOr_iff (constant : Float8) (dimension : Int64) :
    (∀ bytestore : List UInt8, bytestore.length = 9 →
      RaisesOr Truthful (makeSparseDataFromDouble bytestore constant dimension)) ↔
    CountStored dimension.toInt ∧ storedCount dimension.toInt < 2147483648 := by
  have hmax := int64_lt dimension
  have hbase : Truthful makeSparseData := ⟨[], hasRuns_makeSparseData, rfl⟩
  have hiff : ∀ s entry, ReadBackAppended makeSparseData s dimension.toInt entry →
      rleIndexBytes dimension.toInt = .ok entry →
      (Truthful s ↔ CountStored dimension.toInt ∧ storedCount dimension.toInt < 2147483648) := by
    intro s entry hread hentry
    have h := hread.truthful_iff hmax hentry hbase (by simp [makeSparseData, makeStringInfo])
    simpa [makeSparseData] using h
  constructor
  · intro h
    have hzeros := h [0, 0, 0, 0, 0, 0, 0, 0, 0] rfl
    cases hentry : rleIndexBytes dimension.toInt with
    | error e =>
        obtain ⟨sdata, bytes, hsdata, _⟩ := float8arrToSdata_singleton constant
        obtain rfl := entryIn_error hentry
        rw [rleIndexBytes] at hentry
        simp [makeSparseDataFromDouble, hsdata, hentry, RaisesOr, Fault.isRaised] at hzeros
    | ok entry =>
        obtain ⟨s, hs, hread⟩ := makeSparseDataFromDouble_eq _ constant dimension hentry
        rw [hs] at hzeros
        exact (hiff s entry hread hentry).mp hzeros
  · intro hfits bytestore _
    have hwhole := isEntry_stored hfits.1 hmax
    obtain ⟨s, hs, hread⟩ := makeSparseDataFromDouble_eq bytestore constant dimension
      (entryIn_of_isEntry hwhole bytestore)
    rw [hs]
    exact (hiff s _ hread (entryIn_of_isEntry hwhole _)).mpr hfits

/-! ## svec_concat keeps the size -/

/-- When `svec_concat` keeps the size; a NULL argument leaves the other svec as it is. -/
def ConcatKeepsSize : Option SvecType → Option SvecType → Prop
  | some l, some r =>
      maxAllocSize < concatSize (sdataFromSvec l) (sdataFromSvec r) ∨
      ¬ MixedIndex (sdataFromSvec l) (sdataFromSvec r) ∧
        l.totalValueCount.toInt + r.totalValueCount.toInt < 2147483648
  | _, _ => True

theorem svecConcat_raisesOr_iff (l r : Option SvecType)
    (hl : ∀ s, l = some s → Truthful (sdataFromSvec s))
    (hr : ∀ s, r = some s → Truthful (sdataFromSvec s)) :
    RaisesOr (fun out => ∀ s, out = some s → Truthful (sdataFromSvec s)) (svecConcat l r) ↔
      ConcatKeepsSize l r := by
  cases l with
  | none =>
      cases r with
      | none => simp [svecConcat, RaisesOr, ConcatKeepsSize]
      | some r => simpa [svecConcat, RaisesOr, ConcatKeepsSize] using hr
  | some l =>
      cases r with
      | none => simpa [svecConcat, RaisesOr, ConcatKeepsSize] using hl
      | some r =>
          simp only [ConcatKeepsSize]
          by_cases hsize : concatSize (sdataFromSvec l) (sdataFromSvec r) ≤ maxAllocSize
          · obtain ⟨s, hs, hback⟩ := svecConcat_ok l r hsize
            have htruthful := hback.truthful_iff (hl l rfl) (hr r rfl)
            rw [totalValueCount_sdataFromSvec, totalValueCount_sdataFromSvec] at htruthful
            rw [hs, or_iff_right (Nat.not_lt.mpr hsize), ← htruthful]
            constructor
            · intro h
              exact h s rfl
            · intro h s' hs'
              cases hs'
              exact h
          · have hlt := Nat.lt_of_not_le hsize
            rw [svecConcat_too_large l r hlt]
            constructor
            · intro _
              exact .inl hlt
            · intro _
              rfl

/-! ## svec_concat_replicate keeps the size -/

/-- `palloc` refuses `len + 1` bytes, the length being computed as an `int`. -/
def PallocRefuses (len : Nat) : Prop := maxAllocSize < sizeT (toInt32 len + 1)

instance (len : Nat) : Decidable (PallocRefuses len) := by
  unfold PallocRefuses
  infer_instance

/-- Past the range of an `int`, what `palloc` does not refuse is too short. -/
theorem sizeT_of_not_refused {len : Nat} (h : ¬ PallocRefuses len)
    (hlen : 2147483648 ≤ len) : sizeT (toInt32 len + 1) < len + 1 := by
  unfold PallocRefuses sizeT toInt32 wrapAt maxAllocSize at h
  unfold sizeT toInt32 wrapAt
  omega

/-- When `svec_concat_replicate` keeps the size. -/
def ReplicateKeepsSize (multiplier : Int32) (svec : SvecType) : Prop :=
  let rep := sdataFromSvec svec
  let valLen := multiplier.toInt.toNat * rep.valsLen
  let indLen := multiplier.toInt.toNat * rep.index.len
  multiplier.toInt < 0 ∨ (PallocRefuses valLen ∨ PallocRefuses indLen) ∨
    (valLen < 2147483648 ∧ indLen < 2147483648) ∧
      (maxAllocSize < svecSize valLen indLen ∨
        multiplier.toInt * svec.totalValueCount.toInt < 2147483648)

/-- The replicated SparseData. -/
def replicated (rep : SparseData) (multiplier : Nat) : SparseData :=
  { uniqueValueCount := multiplier * rep.uniqueValueCount
    totalValueCount := Int32.ofInt (multiplier * rep.totalValueCount.toInt)
    vals := (List.replicate multiplier rep.vals).flatten
    valsMaxlen := 8 * (List.replicate multiplier rep.vals).flatten.length + 1
    index := makeStringInfoFromData (some (List.replicate multiplier rep.index.bytes).flatten) }

theorem length_flatten_replicate {α : Type} (n : Nat) (l : List α) :
    (List.replicate n l).flatten.length = n * l.length := by
  simp

theorem trimmedSize_replicated (rep : SparseData) (multiplier : Nat) :
    (replicated rep multiplier).trimmedSize =
      svecSize (multiplier * rep.valsLen) (multiplier * rep.index.len) := by
  simp only [SparseData.trimmedSize, SparseData.valsLen, StringInfo.len, replicated,
    makeStringInfoFromData, Option.getD_some, length_flatten_replicate, StringInfo.bytes]
  congr 1
  ring

theorem concatReplicate_eq (rep : SparseData) (multiplier : Nat) :
    concatReplicate (some rep) multiplier =
      if PallocRefuses (multiplier * rep.valsLen) ∨ PallocRefuses (multiplier * rep.index.len) then
        .error (.elog "invalid memory alloc request size")
      else if multiplier * rep.valsLen < 2147483648 ∧ multiplier * rep.index.len < 2147483648 then
        .ok (some (replicated rep multiplier))
      else .error .outOfBounds := by
  have hval : (rep.valsLen : Int) * multiplier = (multiplier * rep.valsLen : Nat) := by
    push_cast
    ring
  have hind : (rep.index.len : Int) * multiplier = (multiplier * rep.index.len : Nat) := by
    push_cast
    ring
  have hvals : 8 * (List.replicate multiplier rep.vals).flatten.length =
      multiplier * rep.valsLen := by
    rw [length_flatten_replicate, SparseData.valsLen]
    ring
  have hindex : 1 * (List.replicate multiplier rep.index.bytes).flatten.length =
      multiplier * rep.index.len := by
    rw [length_flatten_replicate, one_mul]
    rfl
  simp only [concatReplicate, hval, hind, Int.toNat_natCast]
  generalize multiplier * rep.valsLen = valLen at hvals
  generalize multiplier * rep.index.len = indLen at hindex
  by_cases hrv : PallocRefuses valLen
  · rw [if_pos (.inl hrv), palloc_error hrv, error_bind]
  · by_cases hri : PallocRefuses indLen
    · rw [if_pos (.inr hri), palloc_ok (Nat.le_of_not_lt hrv), palloc_error hri, ok_bind,
        error_bind]
    · rw [if_neg (not_or.mpr ⟨hrv, hri⟩), palloc_ok (Nat.le_of_not_lt hrv),
        palloc_ok (Nat.le_of_not_lt hri), ok_bind, ok_bind]
      by_cases hv : valLen < 2147483648
      · have hfitsv : 8 * (List.replicate multiplier rep.vals).flatten.length + 1 ≤
            sizeT (toInt32 valLen + 1) := by rw [hvals, sizeT_of_len hv]
        rw [fillBuffer_ok hfitsv, ok_bind]
        by_cases hi : indLen < 2147483648
        · have hfitsi : 1 * (List.replicate multiplier rep.index.bytes).flatten.length + 1 ≤
              sizeT (toInt32 indLen + 1) := by rw [hindex, sizeT_of_len hi]
          rw [fillBuffer_ok hfitsi, ok_bind, if_pos ⟨hv, hi⟩, pure_eq_ok, replicated]
        · rw [if_neg (fun h => hi h.2), fillBuffer_error, error_bind]
          rw [hindex]
          exact sizeT_of_not_refused hri (Nat.le_of_not_lt hi)
      · rw [if_neg (fun h => hv h.1), fillBuffer_error, error_bind]
        rw [hvals]
        exact sizeT_of_not_refused hrv (Nat.le_of_not_lt hv)

theorem Walks.replicate {bytes : List UInt8} {runs : List Nat} (h : Walks bytes runs) (n : Nat) :
    Walks (List.replicate n bytes).flatten (List.replicate n runs).flatten := by
  induction n with
  | zero => exact .nil
  | succ n ih =>
      rw [List.replicate_succ, List.replicate_succ, List.flatten_cons, List.flatten_cons]
      exact h.append ih

theorem hasRuns_replicated {rep s : SparseData} {runs : List Nat} (h : HasRuns rep runs)
    (multiplier : Nat) (hunique : s.uniqueValueCount = multiplier * rep.uniqueValueCount)
    (hvals : s.vals = (List.replicate multiplier rep.vals).flatten)
    (hindex : s.index.data =
      trimIndex (List.replicate multiplier rep.index.bytes).flatten) :
    HasRuns s (List.replicate multiplier runs).flatten := by
  refine ⟨?_, ?_, ?_⟩
  · rw [hindex]
    have hruns := h.index
    unfold StringInfo.bytes
    cases hdata : rep.index.data with
    | none =>
        rw [hdata] at hruns
        have hones : IndexRuns none (List.replicate multiplier runs).flatten := by
          intro n hn
          obtain ⟨_, hmem, hn⟩ := List.mem_flatten.mp hn
          rw [List.eq_of_mem_replicate hmem] at hn
          exact hruns n hn
        simpa [trimIndex] using hones
    | some bytes =>
        rw [hdata] at hruns
        have hwalks : IndexRuns (some (List.replicate multiplier bytes).flatten)
          (List.replicate multiplier runs).flatten := Walks.replicate hruns multiplier
        exact IndexRuns.trim hwalks
  · rw [length_flatten_replicate, h.length_runs, hunique]
  · rw [hvals, length_flatten_replicate, h.length_vals, hunique]

theorem svecConcatReplicate_raisesOr_iff (multiplier : Int32) (svec : SvecType)
    (h : Truthful (sdataFromSvec svec)) :
    RaisesOr (fun s => Truthful (sdataFromSvec s)) (svecConcatReplicate multiplier svec) ↔
      ReplicateKeepsSize multiplier svec := by
  obtain ⟨runs, hruns, htotal⟩ := h
  simp only [ReplicateKeepsSize, svecConcatReplicate]
  rw [← totalValueCount_sdataFromSvec]
  generalize sdataFromSvec svec = rep at hruns htotal
  by_cases hneg : multiplier.toInt < 0
  · simp [hneg, RaisesOr, Fault.isRaised]
  · obtain ⟨n, hn⟩ := Int.eq_ofNat_of_zero_le (Int.le_of_not_gt hneg)
    have hpos : ¬ (n : Int) < 0 := by omega
    rw [if_neg hneg, hn, Int.toNat_natCast, or_iff_right hpos, concatReplicate_eq]
    by_cases hrefused : PallocRefuses (n * rep.valsLen) ∨ PallocRefuses (n * rep.index.len)
    · rw [if_pos hrefused, error_bind]
      simp only [RaisesOr, Fault.isRaised, hrefused, true_or]
    · rw [if_neg hrefused, or_iff_right hrefused]
      by_cases hlen : n * rep.valsLen < 2147483648 ∧ n * rep.index.len < 2147483648
      · rw [if_pos hlen, ok_bind, and_iff_right hlen, ← trimmedSize_replicated]
        by_cases hfits : (replicated rep n).trimmedSize ≤ maxAllocSize
        · obtain ⟨s, hs, _, hback⟩ := svecFromSparsedata_trim hfits
          have hback' : HasRuns (sdataFromSvec s) (List.replicate n runs).flatten := by
            rw [hback]
            exact hasRuns_replicated hruns n rfl rfl rfl
          have hsum : (((List.replicate n runs).flatten.sum : Nat) : Int) =
              n * rep.totalValueCount.toInt := by
            rw [htotal]
            simp
          have hwrap : (sdataFromSvec s).totalValueCount.toInt =
              toInt32 (n * rep.totalValueCount.toInt) := by
            rw [hback]
            exact int32_toInt_ofInt _
          rw [or_iff_right (Nat.not_lt.mpr hfits)]
          simp only [hs, RaisesOr]
          exact hback'.truthful_iff_lt hsum hwrap
        · have hlt := Nat.lt_of_not_le hfits
          simp [svecFromSparsedata_trim_error hlt, RaisesOr, Fault.isRaised, hlt]
      · rw [if_neg hlen, error_bind]
        simp only [RaisesOr, Fault.isRaised, hlen, false_and, Bool.false_eq_true]

/-! ## svec_in keeps the size -/

/-- The index bytes of a list of run lengths. -/
def indexEntries (uIndex : List Int64) : List UInt8 :=
  (uIndex.map fun u => int8ToCompword u.toInt).flatten

/-- When `svec_in` keeps the size. -/
def SvecInKeepsSize (int8ArrayIn : List Char → Except String (PgArray Int64))
    (float8ArrayIn : List Char → Except String (PgArray Float8)) (str : List Char) : Prop :=
  ∀ uIndex vals, svecInArrays int8ArrayIn float8ArrayIn str = .ok (uIndex, vals) →
    (∃ u ∈ uIndex, u.toInt ≤ 0) ∨
    maxAllocSize < svecSize (8 * vals.length) (indexEntries uIndex).length ∨
    (uIndex.map Int64.toInt).sum < 2147483648

theorem PgArray.headD_le_length {α : Type} (array : PgArray α) (h : array.dims ≠ []) :
    array.dims.headD 0 ≤ array.elements.length := by
  obtain ⟨n, dims, hdims⟩ := List.exists_cons_of_ne_nil h
  have hpos : 0 < dims.prod := by
    apply CanonicallyOrderedAdd.list_prod_pos.mpr
    intro m hm
    exact array.dims_pos m (by simp [hdims, hm])
  rw [array.length_eq, if_neg h, hdims, List.prod_cons]
  exact Nat.le_mul_of_pos_right n hpos

theorem svecInCheck_cases (ix : PgArray Int64) (vals : PgArray Float8) :
    (∃ e, svecInCheck ix vals = .error e ∧ e.isRaised = true) ∨
    ∃ uIndex values, svecInCheck ix vals = .ok (uIndex, values) ∧
      values.length = uIndex.length := by
  unfold svecInCheck
  by_cases hempty : ix.dims = [] ∨ vals.dims = []
  · rw [if_pos hempty]
    exact .inl ⟨_, rfl, rfl⟩
  · rw [if_neg hempty]
    by_cases hdims : ix.dims.headD 0 ≠ vals.dims.headD 0
    · rw [if_pos hdims]
      exact .inl ⟨_, rfl, rfl⟩
    · rw [if_neg hdims]
      by_cases hnull : ix.hasNull = true
      · rw [if_pos hnull]
        exact .inl ⟨_, rfl, rfl⟩
      · rw [if_neg hnull]
        refine .inr ⟨_, _, rfl, ?_⟩
        have hix := ix.headD_le_length (not_or.mp hempty).1
        have hvals := vals.headD_le_length (not_or.mp hempty).2
        have hsome : ∀ x ∈ ix.elements.take (ix.dims.headD 0), x.isSome = true := by
          intro x hx
          by_contra hne
          apply hnull
          have hnone : x.isNone = true := by simpa using hne
          exact List.any_eq_true.mpr ⟨x, List.mem_of_mem_take hx, hnone⟩
        rw [List.reduceOption_length_eq_iff.mpr hsome, List.length_map, List.length_take,
          List.length_take]
        omega

theorem callArrayIn_cases {α : Type} (arrayIn : List Char → Except String (PgArray α))
    (text : List Char) :
    (∃ e, callArrayIn arrayIn text = .error e ∧ e.isRaised = true) ∨
    ∃ array, callArrayIn arrayIn text = .ok array := by
  unfold callArrayIn
  cases arrayIn text with
  | error msg => exact .inl ⟨_, rfl, rfl⟩
  | ok array => exact .inr ⟨array, rfl⟩

theorem svecInArrays_cases (int8ArrayIn : List Char → Except String (PgArray Int64))
    (float8ArrayIn : List Char → Except String (PgArray Float8)) (str : List Char) :
    (∃ e, svecInArrays int8ArrayIn float8ArrayIn str = .error e ∧ e.isRaised = true) ∨
    ∃ uIndex vals, svecInArrays int8ArrayIn float8ArrayIn str = .ok (uIndex, vals) ∧
      vals.length = uIndex.length := by
  unfold svecInArrays
  cases str.dropWhile (· ≠ ':') with
  | nil => exact .inl ⟨_, rfl, rfl⟩
  | cons c values =>
      simp only
      rcases callArrayIn_cases int8ArrayIn (str.takeWhile (· ≠ ':')) with ⟨e, he, hraised⟩ | ⟨ix, hix⟩
      · rw [he, error_bind]
        exact .inl ⟨e, rfl, hraised⟩
      · rcases callArrayIn_cases float8ArrayIn values with ⟨e, he, hraised⟩ | ⟨vals, hvals⟩
        · rw [hix, he, ok_bind, error_bind]
          exact .inl ⟨e, rfl, hraised⟩
        · rw [hix, hvals, ok_bind, ok_bind]
          exact svecInCheck_cases ix vals

theorem appendToRleIndex_eq {index : StringInfo} {bytes : List UInt8} {runLen : Int}
    (hindex : index.data = some bytes) (hlo : 0 ≤ runLen)
    (hhi : runLen < 9223372036854775808) :
    ∃ index', appendToRleIndex index runLen = .ok index' ∧
      index'.data = some (bytes ++ int8ToCompword runLen) := by
  simp only [appendToRleIndex, rleIndexBytes_eq hlo hhi, ok_bind, appendBinaryStringInfo, hindex]
  exact ⟨_, rfl, rfl⟩

/-- The loop refuses a run length that is not positive, and otherwise appends every
run and wraps the sum. -/
theorem svecInRun_foldlM (uIndex : List Int64) (size : Int) {index : StringInfo}
    {bytes : List UInt8} (hindex : index.data = some bytes) :
    ((∃ u ∈ uIndex, u.toInt ≤ 0) ∧
      ∃ e, uIndex.foldlM svecInRun (toInt32 size, index) = .error e ∧ e.isRaised = true) ∨
    ((∀ u ∈ uIndex, 0 < u.toInt) ∧
      ∃ index', uIndex.foldlM svecInRun (toInt32 size, index) =
          .ok (toInt32 (size + (uIndex.map Int64.toInt).sum), index') ∧
        index'.data = some (bytes ++ indexEntries uIndex)) := by
  induction uIndex generalizing size index bytes with
  | nil =>
      refine .inr ⟨by simp, index, ?_, by simp [hindex, indexEntries]⟩
      simp
  | cons u uIndex ih =>
      rw [List.foldlM_cons]
      by_cases hu : u.toInt ≤ 0
      · left
        refine ⟨⟨u, by simp, hu⟩, .ereport .invalidParameterValue
          "Non-positive run length in input", ?_, rfl⟩
        rw [svecInRun, if_pos hu, error_bind]
      · obtain ⟨index', happend, hindex'⟩ :=
          appendToRleIndex_eq hindex (by omega : 0 ≤ u.toInt) (int64_lt u)
        have hround : svecInRun (toInt32 size, index) u =
            .ok (toInt32 (size + u.toInt), index') := by
          rw [svecInRun, if_neg hu, happend, ok_bind, pure_eq_ok, toInt32_toInt32_add]
        rw [hround, ok_bind]
        rcases ih (size + u.toInt) hindex' with ⟨⟨v, hv, hle⟩, herror⟩ | ⟨hpos, out, hout, hdata⟩
        · exact .inl ⟨⟨v, by simp [hv], hle⟩, herror⟩
        · right
          refine ⟨?_, out, ?_, ?_⟩
          · intro v hv
            rcases List.mem_cons.mp hv with rfl | hv
            · omega
            · exact hpos v hv
          · rw [hout, List.map_cons, List.sum_cons, Int.add_assoc]
          · rw [hdata, indexEntries, indexEntries, List.map_cons, List.flatten_cons,
              List.append_assoc]

theorem walks_indexEntries {uIndex : List Int64} (h : ∀ u ∈ uIndex, 0 < u.toInt) :
    Walks (indexEntries uIndex) (uIndex.map fun u => u.toInt.toNat) := by
  induction uIndex with
  | nil => exact .nil
  | cons u uIndex ih =>
      have hu := h u (by simp)
      exact .cons (isEntry_int8ToCompword (by omega) (int64_lt u))
        (ih (fun v hv => h v (by simp [hv])))

theorem sum_toNat {uIndex : List Int64} (h : ∀ u ∈ uIndex, 0 < u.toInt) :
    (((uIndex.map fun u => u.toInt.toNat).sum : Nat) : Int) = (uIndex.map Int64.toInt).sum := by
  induction uIndex with
  | nil => rfl
  | cons u uIndex ih =>
      have hu := h u (by simp)
      have htail := ih (fun v hv => h v (by simp [hv]))
      simp only [List.map_cons, List.sum_cons]
      omega

theorem svecInRuns_raisesOr_iff {uIndex : List Int64} {vals : List Float8}
    (hlength : vals.length = uIndex.length) :
    RaisesOr (fun s => Truthful (sdataFromSvec s)) (svecInRuns uIndex vals) ↔
      (∃ u ∈ uIndex, u.toInt ≤ 0) ∨
      maxAllocSize < svecSize (8 * vals.length) (indexEntries uIndex).length ∨
      (uIndex.map Int64.toInt).sum < 2147483648 := by
  unfold svecInRuns
  have hstart : makeStringInfo.data = some [] := rfl
  rcases svecInRun_foldlM uIndex 0 hstart with
    ⟨hle, e, herror, hraised⟩ | ⟨hpos, index, hfold, hindex⟩
  · rw [toInt32_of_mem (by omega) (by omega)] at herror
    rw [herror, error_bind]
    simp only [RaisesOr, hraised, hle, true_or]
  · have hnone : ¬ ∃ u ∈ uIndex, u.toInt ≤ 0 := by
      rintro ⟨u, hu, hle⟩
      have hu' := hpos u hu
      omega
    rw [toInt32_of_mem (by omega) (by omega), Int.zero_add] at hfold
    rw [hfold, ok_bind, or_iff_right hnone]
    simp only
    generalize hsdata : makeInplaceSparseData vals index.data uIndex.length
      (Int32.ofInt (toInt32 (uIndex.map Int64.toInt).sum)) = sdata
    have hdata : sdata.index.data = some (indexEntries uIndex) := by
      rw [← hsdata]
      exact hindex
    have hsize : sdata.trimmedSize =
        svecSize (8 * vals.length) (indexEntries uIndex).length := by
      rw [SparseData.trimmedSize, StringInfo.len, hdata, ← hsdata]
      rfl
    rw [← hsize]
    by_cases hfits : sdata.trimmedSize ≤ maxAllocSize
    · obtain ⟨s, hs, _, hback⟩ := svecFromSparsedata_trim hfits
      have hruns : HasRuns (sdataFromSvec s) (uIndex.map fun u => u.toInt.toNat) := by
        have hwalks : IndexRuns (some (indexEntries uIndex))
            (uIndex.map fun u => u.toInt.toNat) := walks_indexEntries hpos
        rw [hback]
        refine ⟨?_, ?_, ?_⟩
        · show IndexRuns (trimIndex (sdata.index.data.getD [])) _
          rw [hdata]
          exact IndexRuns.trim hwalks
        · show _ = sdata.uniqueValueCount
          rw [← hsdata]
          simp [makeInplaceSparseData]
        · show sdata.vals.length = sdata.uniqueValueCount
          rw [← hsdata]
          exact hlength
      have htotal : (sdataFromSvec s).totalValueCount.toInt =
          toInt32 (uIndex.map Int64.toInt).sum := by
        have hwrap := toInt32_toInt32_add (uIndex.map Int64.toInt).sum 0
        rw [Int.add_zero, Int.add_zero] at hwrap
        rw [hback]
        show sdata.totalValueCount.toInt = _
        rw [← hsdata]
        show (Int32.ofInt _).toInt = _
        rw [int32_toInt_ofInt, hwrap]
      have hiff := hruns.truthful_iff_lt (sum_toNat hpos) htotal
      rw [hs, ok_bind, pure_eq_ok, or_iff_right (Nat.not_lt.mpr hfits), ← hiff]
      -- the dimension header is not part of the SparseData
      split <;> rfl
    · have hlt := Nat.lt_of_not_le hfits
      rw [svecFromSparsedata_trim_error hlt, error_bind]
      simp only [RaisesOr, Fault.isRaised, hlt, true_or]

theorem svecIn_raisesOr_iff (int8ArrayIn : List Char → Except String (PgArray Int64))
    (float8ArrayIn : List Char → Except String (PgArray Float8)) (str : List Char) :
    RaisesOr (fun s => Truthful (sdataFromSvec s)) (svecIn int8ArrayIn float8ArrayIn str) ↔
      SvecInKeepsSize int8ArrayIn float8ArrayIn str := by
  unfold svecIn SvecInKeepsSize
  rcases svecInArrays_cases int8ArrayIn float8ArrayIn str with
    ⟨e, herror, hraised⟩ | ⟨uIndex, vals, harrays, hlength⟩
  · rw [herror, error_bind]
    simp [RaisesOr, hraised]
  · rw [harrays, ok_bind]
    simp only [svecInRuns_raisesOr_iff hlength]
    constructor
    · intro h uIndex' vals' heq
      cases heq
      exact h
    · intro h
      exact h uIndex vals rfl

/-! ## All five constructors -/

/-- Each constructor raises an error or returns a true size exactly under its own
condition on the arguments. -/
theorem constructors_raisesOr_iff (int8ArrayIn : List Char → Except String (PgArray Int64))
    (float8ArrayIn : List Char → Except String (PgArray Float8)) :
    (∀ str, RaisesOr (fun s => Truthful (sdataFromSvec s))
        (svecIn int8ArrayIn float8ArrayIn str) ↔
      SvecInKeepsSize int8ArrayIn float8ArrayIn str) ∧
    (∀ svec newele count, (∀ s, svec = some s → Truthful (sdataFromSvec s)) →
      (RaisesOr (fun s => Truthful (sdataFromSvec s)) (svecAppend svec newele count) ↔
        AppendKeepsSize svec count)) ∧
    (∀ l r, (∀ s, l = some s → Truthful (sdataFromSvec s)) →
      (∀ s, r = some s → Truthful (sdataFromSvec s)) →
      (RaisesOr (fun out => ∀ s, out = some s → Truthful (sdataFromSvec s)) (svecConcat l r) ↔
        ConcatKeepsSize l r)) ∧
    (∀ multiplier svec, Truthful (sdataFromSvec svec) →
      (RaisesOr (fun s => Truthful (sdataFromSvec s)) (svecConcatReplicate multiplier svec) ↔
        ReplicateKeepsSize multiplier svec)) ∧
    (∀ constant dimension, (∀ bytestore : List UInt8, bytestore.length = 9 →
        RaisesOr Truthful (makeSparseDataFromDouble bytestore constant dimension)) ↔
      CountStored dimension.toInt ∧ storedCount dimension.toInt < 2147483648) :=
  ⟨svecIn_raisesOr_iff int8ArrayIn float8ArrayIn, svecAppend_raisesOr_iff,
    svecConcat_raisesOr_iff, svecConcatReplicate_raisesOr_iff,
    makeSparseDataFromDouble_raisesOr_iff⟩

/-- The svec `{1073741824}:{1}`. -/
def hugeRun : SvecType :=
  { dimension := 1073741824, uniqueValueCount := 1, totalValueCount := 1073741824
    vals := [0x3FF0000000000000], valsMaxlen := 8
    index := [4, 0, 0, 0, 64], indexMaxlen := 5, indexCursor := 0
    vals_le := by decide, index_le := by decide, size_le := by decide }

theorem truthful_hugeRun : Truthful (sdataFromSvec hugeRun) :=
  ⟨[1073741824], .of_runLengths (by decide) rfl, by decide⟩

theorem constructors_raisesOr_replicate_once :
    RaisesOr (fun s => Truthful (sdataFromSvec s)) (svecConcatReplicate 1 hugeRun) :=
  ((constructors_raisesOr_iff (fun _ => .error "malformed array literal")
    (fun _ => .error "malformed array literal")).2.2.2.1 1 hugeRun truthful_hugeRun).mpr
    (.inr (.inr ⟨⟨by decide, by decide⟩, .inr (by decide)⟩))

/-- Four times 2^30 elements are counted as none. -/
theorem svecConcatReplicate_wraps :
    Truthful (sdataFromSvec hugeRun) ∧
    ¬ RaisesOr (fun s => Truthful (sdataFromSvec s)) (svecConcatReplicate 4 hugeRun) := by
  refine ⟨truthful_hugeRun, ?_⟩
  rw [svecConcatReplicate_raisesOr_iff 4 hugeRun truthful_hugeRun]
  rintro (hneg | (hvals | hindex) | ⟨_, hlarge | htotal⟩)
  · exact absurd hneg (by decide)
  · exact absurd hvals (by decide)
  · exact absurd hindex (by decide)
  · exact absurd hlarge (by decide)
  · exact absurd htotal (by decide)

end Madlib.Svec
