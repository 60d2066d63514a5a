import Madlib.Svec.ArrayCast

/-!
# The canonical SparseData of an array

`arr_to_sdata` starts a new run where the bytes of the value change, so that of all the
SparseData of an array it makes the one with maximal runs.  `sdata_to_float8arr` makes the
array again, whatever the runs were.
-/

namespace Madlib.Svec

open Madlib.Backend Madlib.Lib.MachineInt Madlib.Lib.RunLength CountCode

/-- The runs are positive and maximal. -/
structure Canonical (s : SparseData) : Prop where
  wellFormed : WellFormed s
  isChain : s.vals.IsChain (· ≠ ·)

/-- The same runs of the same values, in whatever entries the index holds them. -/
structure SameRuns (s t : SparseData) : Prop where
  runLengths : s.runLengths = t.runLengths
  vals : s.vals = t.vals
  unique : s.uniqueValueCount = t.uniqueValueCount
  total : s.totalValueCount = t.totalValueCount

theorem Packed.canonical {s : SparseData} {values : List Float8} (h : Packed s values) :
    Canonical s :=
  ⟨h.wellFormed, h.isChain⟩

theorem Canonical.hasRuns {s : SparseData} (h : Canonical s) : HasRuns s (runLens s.dense) := by
  have ⟨runs, hruns, hpositive, _⟩ := h.wellFormed.exists_runs
  have hlength := hruns.length_runs.trans hruns.length_vals.symm
  rw [hruns.dense_eq, runLens_expand hpositive hlength h.isChain]
  exact hruns

/-- An array has one canonical SparseData. -/
theorem Canonical.sameRuns {s t : SparseData} (hs : Canonical s) (ht : Canonical t)
    (hdense : s.dense = t.dense) : SameRuns s t := by
  have hruns := hs.hasRuns
  have hruns' := ht.hasRuns
  rw [hdense] at hruns
  have hpositive : ∀ n ∈ runLens t.dense, 0 < n := by
    have ⟨runs, hexists, hpos, _⟩ := ht.wellFormed.exists_runs
    rw [hruns'.unique hexists]
    exact hpos
  refine ⟨?_, ?_, ?_, ?_⟩
  · rw [hruns.runLengths_eq, hruns'.runLengths_eq]
  · apply expand_vals_inj hpositive (hruns.length_runs.trans hruns.length_vals.symm)
      (hruns'.length_runs.trans hruns'.length_vals.symm)
    rw [← hruns.dense_eq, ← hruns'.dense_eq, hdense]
  · rw [← hruns.length_runs, ← hruns'.length_runs]
  · rw [← Int32.toInt_inj, ← hs.wellFormed.truthful.length_dense,
      ← ht.wellFormed.truthful.length_dense, hdense]

/-! ## There and back -/

theorem sdataToFloat8arr_error {sdata : SparseData}
    (hsize : (maxAllocSize : Int) < 8 * sdata.totalValueCount.toInt) :
    sdataToFloat8arr sdata = .error (.elog "invalid memory alloc request size") := by
  have hmax := (int32_mem sdata.totalValueCount).2
  have hsizeT : maxAllocSize < sizeT (8 * sdata.totalValueCount.toInt) := by
    unfold sizeT
    omega
  unfold sdataToFloat8arr
  rw [palloc_error hsizeT, error_bind]

theorem float8arrToSdata_sdataToFloat8arr {array : List Float8} (hne : array ≠ [])
    (hsize : 8 * array.length ≤ maxAllocSize) :
    ∃ s, float8arrToSdata array = .ok s ∧ Canonical s ∧ s.dense = array ∧
      sdataToFloat8arr s = .ok array := by
  have hlength : array.length < 2147483648 := by
    unfold maxAllocSize at hsize
    omega
  have ⟨s, hs, hpacked⟩ := float8arrToSdata_spec hne hlength
  have htotal := hpacked.wellFormed.truthful.length_dense
  rw [hpacked.dense_eq] at htotal
  have hback := sdataToFloat8arr_eq hpacked.wellFormed.truthful (by omega)
  rw [hpacked.dense_eq] at hback
  exact ⟨s, hs, hpacked.canonical, hpacked.dense_eq, hback⟩

theorem sdataToFloat8arr_float8arrToSdata {s : SparseData} (h : WellFormed s)
    (hsize : 8 * s.totalValueCount.toInt ≤ maxAllocSize) :
    ∃ t, sdataToFloat8arr s = .ok s.dense ∧ float8arrToSdata s.dense = .ok t ∧ Canonical t ∧
      t.dense = s.dense ∧ ∀ c, Canonical c → c.dense = s.dense → SameRuns c t := by
  have hlength := h.truthful.length_dense
  have hone := h.one_le_total
  have hne : s.dense ≠ [] := by
    apply List.ne_nil_of_length_pos
    omega
  have ⟨t, ht, hcanonical, hdense, _⟩ := float8arrToSdata_sdataToFloat8arr hne (by omega)
  refine ⟨t, sdataToFloat8arr_eq h.truthful hsize, ht, hcanonical, hdense, ?_⟩
  exact fun c hc hcdense => hc.sameRuns hcanonical (hcdense.trans hdense.symm)

/-- As long as the array fits into one allocation, an array and its canonical SparseData are
made from one another; a larger array is refused by `palloc`. -/
theorem sparseData_roundTrip :
    (∀ array : List Float8, array ≠ [] → 8 * array.length ≤ maxAllocSize →
      ∃ s, float8arrToSdata array = .ok s ∧ Canonical s ∧ s.dense = array ∧
        sdataToFloat8arr s = .ok array) ∧
    (∀ s, WellFormed s → 8 * s.totalValueCount.toInt ≤ maxAllocSize →
      ∃ t, sdataToFloat8arr s = .ok s.dense ∧ float8arrToSdata s.dense = .ok t ∧ Canonical t ∧
        t.dense = s.dense ∧ ∀ c, Canonical c → c.dense = s.dense → SameRuns c t) ∧
    (∀ s : SparseData, (maxAllocSize : Int) < 8 * s.totalValueCount.toInt →
      sdataToFloat8arr s = .error (.elog "invalid memory alloc request size")) :=
  ⟨fun _ => float8arrToSdata_sdataToFloat8arr, fun _ => sdataToFloat8arr_float8arrToSdata,
    fun _ => sdataToFloat8arr_error⟩

theorem sparseData_roundTrip_three :
    ∃ s, float8arrToSdata [5, 5, 7] = .ok s ∧ Canonical s ∧ s.dense = [5, 5, 7] ∧
      sdataToFloat8arr s = .ok [5, 5, 7] :=
  sparseData_roundTrip.1 [5, 5, 7] (by decide) (by decide)

/-- 2^27 elements in one run. -/
def longRun : SparseData :=
  makeInplaceSparseData [5] (some (int8ToCompword 134217728)) 1 134217728

theorem wellFormed_longRun : WellFormed longRun :=
  ⟨⟨[134217728], HasRuns.of_runLengths (by decide) rfl, by decide, by decide⟩, by decide⟩

/-- The svec of the long run. -/
def longSvec : SvecType :=
  tightSvec 134217728 134217728 [5] (int8ToCompword 134217728) (by decide)

theorem wellFormed_longSvec : WellFormed (sdataFromSvec longSvec) :=
  ⟨⟨[134217728], HasRuns.of_runLengths (by decide) rfl, by decide, by decide⟩, by decide⟩

/-- The array of a long run is not made. -/
theorem sdataToFloat8arr_not_longRun :
    ¬ ∀ s, WellFormed s → ∃ array t, sdataToFloat8arr s = .ok array ∧
      float8arrToSdata array = .ok t ∧ t.dense = s.dense := by
  intro h
  have ⟨array, t, harray, _⟩ := h longRun wellFormed_longRun
  have hsize : (maxAllocSize : Int) < 8 * longRun.totalValueCount.toInt := by decide
  have herror := sdataToFloat8arr_error hsize
  cases herror.symm.trans harray

end Madlib.Svec
