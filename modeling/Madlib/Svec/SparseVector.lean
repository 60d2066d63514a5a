import Madlib.Svec.SparseData

/-!
# SvecType

The serialized form of `sparse_vector.h`: a dimension header and a SparseData
whose two buffers follow it in one datum, as long as their `maxlen`.  The datum
has no pointers; an index without storage is read back as a NULL index.
-/

namespace Madlib.Svec

open Madlib.Backend Madlib.Lib.MachineInt Madlib.Lib.RunLength CountCode

/-- `SVECHDRSIZE + SIZEOF_SPARSEDATASERIAL`: 8 bytes of svec header, 32 of
SparseData header, two StringInfo headers of 24 bytes, and the two buffers. -/
def svecSize (valsMaxlen indexMaxlen : Nat) : Nat := 88 + valsMaxlen + indexMaxlen

/-- A datum is never larger than one allocation, and its buffers hold their contents. -/
structure SvecType where
  dimension : Int32
  uniqueValueCount : Nat
  totalValueCount : Int32
  vals : List Float8
  valsMaxlen : Nat
  index : List UInt8
  indexMaxlen : Nat
  indexCursor : Nat
  vals_le : 8 * vals.length ≤ valsMaxlen
  index_le : index.length ≤ indexMaxlen
  size_le : svecSize valsMaxlen indexMaxlen ≤ maxAllocSize
  deriving DecidableEq, Repr

/-- The svec of these runs in buffers without room to spare. -/
def tightSvec (dimension totalValueCount : Int32) (vals : List Float8) (index : List UInt8)
    (size_le : svecSize (8 * vals.length) index.length ≤ maxAllocSize) : SvecType :=
  { dimension, uniqueValueCount := vals.length, totalValueCount
    vals, valsMaxlen := 8 * vals.length
    index, indexMaxlen := index.length, indexCursor := 0
    vals_le := le_refl _, index_le := le_refl _, size_le }

/-- A copy of the values can be allocated. -/
theorem SvecType.size_vals_le (svec : SvecType) : 8 * svec.vals.length ≤ maxAllocSize := by
  have hle := svec.vals_le
  have hsize := svec.size_le
  unfold svecSize at hsize
  omega

def SvecType.isScalar (svec : SvecType) : Bool := svec.dimension < 0

def sdataFromSvec (svec : SvecType) : SparseData :=
  { uniqueValueCount := svec.uniqueValueCount
    totalValueCount := svec.totalValueCount
    vals := svec.vals
    valsMaxlen := svec.valsMaxlen
    index :=
      { data := if svec.indexMaxlen = 0 then none else some svec.index
        maxlen := svec.indexMaxlen
        cursor := svec.indexCursor } }

/-- The runs of the svec. -/
def SvecType.runs (v : SvecType) : List Nat := (sdataFromSvec v).runLengths.getD []

theorem HasRuns.svec_runs_eq {v : SvecType} {runs : List Nat} (h : HasRuns (sdataFromSvec v) runs) :
    v.runs = runs := by
  unfold SvecType.runs
  rw [h.runLengths_eq, Option.getD_some]

@[simp] theorem totalValueCount_sdataFromSvec (svec : SvecType) :
    (sdataFromSvec svec).totalValueCount = svec.totalValueCount := rfl

/-- `serializeSparseData` into the datum of `svec_from_sparsedata`; it copies `maxlen`
bytes of each buffer. -/
def serializeSparseData (source : SparseData) (dimension : Int32) : Except Fault SvecType :=
  if hsize : maxAllocSize < svecSize source.valsMaxlen source.index.maxlen then
    .error (.elog "invalid memory alloc request size")
  else if hlen : source.valsLen ≤ source.valsMaxlen ∧ source.index.len ≤ source.index.maxlen then
    if source.index.data = none ∧ source.index.maxlen ≠ 0 then .error .nullPointer
    else .ok
      { dimension
        uniqueValueCount := source.uniqueValueCount
        totalValueCount := source.totalValueCount
        vals := source.vals
        valsMaxlen := source.valsMaxlen
        index := source.index.data.getD []
        indexMaxlen := source.index.maxlen
        indexCursor := source.index.cursor
        vals_le := hlen.1
        index_le := hlen.2
        size_le := Nat.le_of_not_lt hsize }
  else .error .outOfBounds

/-- The space behind the contents is dropped before serializing. -/
def SparseData.trim (s : SparseData) : SparseData :=
  { s with valsMaxlen := s.valsLen, index := { s.index with maxlen := s.index.len } }

def svecFromSparsedata (sdata : SparseData) (trim : Bool) : Except Fault SvecType :=
  let sdata := if trim then sdata.trim else sdata
  serializeSparseData sdata (if sdata.totalValueCount = 1 then -1 else sdata.totalValueCount)

/-! ## Reading back -/

/-- The index a trimmed SparseData is read back with. -/
def trimIndex (bytes : List UInt8) : IndexPtr := if bytes = [] then none else some bytes

/-- The size of the datum a SparseData is trimmed to. -/
def SparseData.trimmedSize (s : SparseData) : Nat := svecSize s.valsLen s.index.len

theorem serializeSparseData_eq (s : SparseData) (dimension : Int32)
    (hsize : svecSize s.valsMaxlen s.index.maxlen ≤ maxAllocSize)
    (hvals : s.valsLen ≤ s.valsMaxlen) (hindex : s.index.len ≤ s.index.maxlen)
    (hnull : s.index.data = none → s.index.maxlen = 0) :
    ∃ svec, serializeSparseData s dimension = .ok svec ∧ svec.dimension = dimension ∧
      sdataFromSvec svec =
        { s with index := { s.index with
            data := if s.index.maxlen = 0 then none else some (s.index.data.getD []) } } := by
  have hnull' : ¬ (s.index.data = none ∧ s.index.maxlen ≠ 0) := fun h => h.2 (hnull h.1)
  unfold serializeSparseData
  rw [dif_neg (Nat.not_lt.mpr hsize), dif_pos ⟨hvals, hindex⟩, if_neg hnull']
  exact ⟨_, rfl, rfl, rfl⟩

theorem svecFromSparsedata_trim {s : SparseData} (h : s.trimmedSize ≤ maxAllocSize) :
    ∃ svec, svecFromSparsedata s true = .ok svec ∧
      svec.dimension = (if s.totalValueCount = 1 then -1 else s.totalValueCount) ∧
      sdataFromSvec svec =
        { s.trim with index := { s.trim.index with data := trimIndex (s.index.data.getD []) } } := by
  have hnull : s.trim.index.data = none → s.trim.index.maxlen = 0 := by
    intro hdata
    have hdata' : s.index.data = none := hdata
    simp [SparseData.trim, StringInfo.len, hdata']
  obtain ⟨svec, hserial, hdimension, hback⟩ := serializeSparseData_eq s.trim
    (if s.totalValueCount = 1 then -1 else s.totalValueCount) h (le_refl _) (le_refl _) hnull
  refine ⟨svec, hserial, hdimension, ?_⟩
  rw [hback]
  simp [SparseData.trim, StringInfo.len, trimIndex]

theorem svecFromSparsedata_trim_error {s : SparseData} (h : maxAllocSize < s.trimmedSize) :
    svecFromSparsedata s true = .error (.elog "invalid memory alloc request size") := by
  have hsize : maxAllocSize < svecSize s.trim.valsMaxlen s.trim.index.maxlen := h
  show serializeSparseData s.trim _ = _
  unfold serializeSparseData
  rw [dif_pos hsize]

theorem IndexRuns.trim {ptr : IndexPtr} {runs : List Nat} (h : IndexRuns ptr runs) :
    IndexRuns (trimIndex (ptr.getD [])) runs := by
  cases ptr with
  | none => exact h
  | some bytes =>
      by_cases hbytes : bytes = []
      · subst hbytes
        obtain rfl := h.eq_nil
        simp [trimIndex, IndexRuns]
      · simpa [trimIndex, hbytes] using h

theorem trimIndex_of_ne {bytes : List UInt8} (h : bytes ≠ []) :
    trimIndex bytes = some bytes := by
  simp [trimIndex, h]

/-- An index with storage holds the bytes of at least one run. -/
theorem WellFormed.trimIndex_data {s : SparseData} (h : WellFormed s) :
    trimIndex (s.index.data.getD []) = s.index.data := by
  have ⟨runs, hruns, _, htotal⟩ := h.exists_runs
  cases hdata : s.index.data with
  | none => rfl
  | some bytes =>
      apply trimIndex_of_ne
      intro hnil
      have hindex : IndexRuns (some []) runs := hnil ▸ hdata ▸ hruns.index
      have hone := h.one_le_total
      rw [htotal, hindex.eq_nil] at hone
      simp at hone

/-! ## Copies -/

/-- The counts, the values and the index bytes agree. -/
structure SameData (s t : SparseData) : Prop where
  unique : s.uniqueValueCount = t.uniqueValueCount
  total : s.totalValueCount = t.totalValueCount
  vals : s.vals = t.vals
  index : s.index.data = t.index.data

theorem SameData.runLengths_eq {s t : SparseData} (h : SameData s t) :
    s.runLengths = t.runLengths := by
  unfold SparseData.runLengths
  rw [h.unique, h.index]

theorem SameData.dense_eq {s t : SparseData} (h : SameData s t) : s.dense = t.dense := by
  unfold SparseData.dense
  rw [h.runLengths_eq, h.vals]

theorem SameData.hasRuns {s t : SparseData} {runs : List Nat} (h : SameData s t)
    (ht : HasRuns t runs) : HasRuns s runs :=
  ⟨h.index ▸ ht.index, ht.length_runs.trans h.unique.symm,
    (congrArg List.length h.vals).trans (ht.length_vals.trans h.unique.symm)⟩

theorem SameData.proper {s t : SparseData} (h : SameData s t) (ht : Proper t) : Proper s := by
  have ⟨runs, hruns, hpositive, htotal⟩ := ht
  exact ⟨runs, h.hasRuns hruns, hpositive, h.total ▸ htotal⟩

theorem SameData.wellFormed {s t : SparseData} (h : SameData s t) (ht : WellFormed t) :
    WellFormed s :=
  ⟨h.proper ht.proper, h.total ▸ ht.one_le_total⟩

/-- A well-formed SparseData is read back as it was serialized. -/
theorem svecFromSparsedata_wellFormed {s : SparseData} (h : WellFormed s)
    (hsize : s.trimmedSize ≤ maxAllocSize) :
    ∃ svec, svecFromSparsedata s true = .ok svec ∧
      svec.dimension = (if s.totalValueCount = 1 then -1 else s.totalValueCount) ∧
      SameData (sdataFromSvec svec) s := by
  have ⟨svec, hsvec, hdimension, hback⟩ := svecFromSparsedata_trim hsize
  refine ⟨svec, hsvec, hdimension, ?_⟩
  rw [hback]
  exact ⟨rfl, rfl, rfl, h.trimIndex_data⟩

end Madlib.Svec
