import Madlib.Lib.RunLength
import Madlib.Svec.CountCode

/-!
# SparseData

The run-length encoded arrays of `SparseData.h` and `SparseData.c`, for the
element type float8 that every constructor of the module sets.  A float8 is kept
as its 64-bit pattern, so `=` is the comparison `memcmp` makes.  A `StringInfo`
is given by its bytes in use; storage always suffices, as it does for a backend
that has not run out of memory.
-/

namespace Madlib.Svec

open Madlib.Backend Madlib.Lib.MachineInt Madlib.Lib.RunLength CountCode

/-- The bit pattern of a float8. -/
abbrev Float8 := UInt64

/-- `NVP`, the quiet NaN that stands for SQL NULL. -/
def NVP : Float8 := 0xFFF8000000000001

/-- A `StringInfo` of bytes; `data` is NULL or the `len` bytes in use. -/
structure StringInfo where
  data : IndexPtr
  maxlen : Nat
  cursor : Nat
  deriving DecidableEq, Repr

def StringInfo.len (s : StringInfo) : Nat := (s.data.getD []).length

/-- `vals` is kept as the float8s in its buffer, `8 * vals.length` bytes. -/
structure SparseData where
  uniqueValueCount : Nat
  totalValueCount : Int32
  vals : List Float8
  valsMaxlen : Nat
  index : StringInfo
  deriving DecidableEq, Repr

def SparseData.valsLen (s : SparseData) : Nat := 8 * s.vals.length

/-! ## Constructors -/

/-- `makeStringInfo` allocates 1024 bytes. -/
def makeStringInfo : StringInfo := { data := some [], maxlen := 1024, cursor := 0 }

def makeSparseData : SparseData :=
  { uniqueValueCount := 0, totalValueCount := 0, vals := [], valsMaxlen := 1024,
    index := makeStringInfo }

def makeEmptySparseData : SparseData :=
  { uniqueValueCount := 0, totalValueCount := 0, vals := [], valsMaxlen := 1,
    index := { data := some [], maxlen := 1, cursor := 0 } }

def makeInplaceSparseData (vals : List Float8) (index : IndexPtr)
    (uniqueValueCount : Nat) (totalValueCount : Int32) : SparseData :=
  { uniqueValueCount, totalValueCount, vals, valsMaxlen := 8 * vals.length + 1,
    index :=
      { data := index
        -- a NULL index keeps `maxlen` at 0
        maxlen := match index with
          | none => 0
          | some bytes => bytes.length + 1
        cursor := 0 } }

def makeStringInfoFromData (data : IndexPtr) : StringInfo :=
  { data, maxlen := (data.getD []).length + 1, cursor := 0 }

def copyStringInfo (s : StringInfo) : StringInfo := makeStringInfoFromData s.data

def makeSparseDataCopy (source : SparseData) : SparseData :=
  { source with valsMaxlen := source.valsLen + 1, index := copyStringInfo source.index }

/-! ## Appending -/

/-- The buffer size after `enlargeStringInfo`: doubled until `needed` fits. -/
def enlarged (needed : Nat) : Nat → Nat → Nat
  | 0, maxlen => maxlen
  | rounds + 1, maxlen =>
      if needed ≤ maxlen then maxlen else enlarged needed rounds (2 * maxlen)

/-- `appendBinaryStringInfo`; a NULL buffer cannot be enlarged. -/
def appendBinaryStringInfo (s : StringInfo) (bytes : List UInt8) : Except Fault StringInfo :=
  match s.data with
  | none => .error .nullPointer
  | some data =>
      let needed := data.length + bytes.length + 1
      .ok { s with data := some (data ++ bytes), maxlen := enlarged needed needed s.maxlen }

def appendToRleIndex (index : StringInfo) (runLen : Int) : Except Fault StringInfo := do
  appendBinaryStringInfo index (← rleIndexBytes runLen)

def addRunToSdata (runVal : Float8) (runLen : Int) (sdata : SparseData) :
    Except Fault SparseData := do
  let index ← appendToRleIndex sdata.index runLen
  let needed := sdata.valsLen + 8 + 1
  return { sdata with
    vals := sdata.vals ++ [runVal]
    valsMaxlen := enlarged needed needed sdata.valsMaxlen
    index
    uniqueValueCount := sdata.uniqueValueCount + 1
    totalValueCount := Int32.ofInt (sdata.totalValueCount.toInt + runLen) }

/-- `((float8 *)sdata->vals->data)[i]` -/
def valref (sdata : SparseData) (i : Nat) : Except Fault Float8 :=
  match sdata.vals[i]? with
  | none => .error .outOfBounds
  | some v => .ok v

/-- The remaining rounds of a loop that uncompresses the index. -/
def indexToInt64s : Nat → IndexPtr → Except Fault (List Int64)
  | 0, _ => .ok []
  | rounds + 1, iptr => do
      let n ← compwordToInt8 iptr
      let iptr ← advance iptr
      let array ← indexToInt64s rounds iptr
      return Int64.ofInt n :: array

theorem indexToInt64s_eq {ptr : IndexPtr} {runs : List Nat} (h : IndexRuns ptr runs) :
    indexToInt64s runs.length ptr = .ok (runs.map fun n : Nat => Int64.ofInt n) := by
  induction runs generalizing ptr with
  | nil => rfl
  | cons n runs ih =>
      have ⟨hread, ptr', hadvance, hrest⟩ := h.read
      rw [List.length_cons, indexToInt64s, hread, ok_bind, hadvance, ok_bind, ih hrest]
      rfl

/-- A cursor into the values, by the values from it on. -/
theorem valref_of_drop {s : SparseData} {i : Nat} {v : Float8} {vals : List Float8}
    (h : s.vals.drop i = v :: vals) : valref s i = .ok v ∧ s.vals.drop (i + 1) = vals := by
  constructor
  · have hhead := congrArg List.head? h
    rw [List.head?_drop, List.head?_cons] at hhead
    unfold valref
    rw [hhead]
  · rw [← List.drop_drop, h]
    rfl

theorem valref_first {s : SparseData} {v : Float8} {vals : List Float8} (h : s.vals = v :: vals) :
    valref s 0 = .ok v :=
  (valref_of_drop (i := 0) h).1

/-- What one round of a loop over the runs reads, and what it leaves to the next ones. -/
theorem CountCode.IndexRuns.next {s : SparseData} {i n : Nat} {ix : IndexPtr} {runs : List Nat}
    {vals : List Float8} (hindex : IndexRuns ix (n :: runs)) (hdrop : s.vals.drop i = vals)
    (hlength : (n :: runs).length = vals.length) :
    ∃ v vals' ix', vals = v :: vals' ∧
      (compwordToInt8 ix = .ok (n : Int) ∧ valref s i = .ok v ∧ advance ix = .ok ix') ∧
      IndexRuns ix' runs ∧ s.vals.drop (i + 1) = vals' ∧ runs.length = vals'.length := by
  have ⟨v, vals', hvals⟩ := List.exists_of_length_succ vals hlength.symm
  subst hvals
  have ⟨hrun, ix', hadvance, hindex'⟩ := hindex.read
  have ⟨hv, hdrop'⟩ := valref_of_drop hdrop
  exact ⟨v, vals', ix', rfl, ⟨hrun, hv, hadvance⟩, hindex', hdrop', Nat.succ.inj hlength⟩

/-! ## What a SparseData stands for -/

/-- The run lengths the index decodes to, when it holds one for each value. -/
def SparseData.runLengths (s : SparseData) : Option (List Nat) :=
  readRuns s.uniqueValueCount s.index.data

/-- The array a SparseData stands for. -/
def SparseData.dense (s : SparseData) : List Float8 :=
  match s.runLengths with
  | none => []
  | some runs => expand runs s.vals

/-- The index holds exactly the runs `runs`, one for each of the values. -/
structure HasRuns (s : SparseData) (runs : List Nat) : Prop where
  index : IndexRuns s.index.data runs
  length_runs : runs.length = s.uniqueValueCount
  length_vals : s.vals.length = s.uniqueValueCount

/-- The declared size is the sum of the run lengths in the index. -/
def Truthful (s : SparseData) : Prop :=
  ∃ runs, HasRuns s runs ∧ s.totalValueCount.toInt = (runs.sum : Nat)

/-- A truthful SparseData of positive runs with at least one element. -/
structure WellFormed (s : SparseData) : Prop where
  exists_runs : ∃ runs, HasRuns s runs ∧ (∀ n ∈ runs, 0 < n) ∧
    s.totalValueCount.toInt = (runs.sum : Nat)
  one_le_total : 1 ≤ s.totalValueCount.toInt

/-- A truthful SparseData of positive runs, which may have no elements. -/
def Proper (s : SparseData) : Prop :=
  ∃ runs, HasRuns s runs ∧ (∀ n ∈ runs, 0 < n) ∧ s.totalValueCount.toInt = (runs.sum : Nat)

theorem HasRuns.runLengths_eq {s : SparseData} {runs : List Nat} (h : HasRuns s runs) :
    s.runLengths = some runs :=
  readRuns_eq_some_iff.mpr ⟨h.length_runs, h.index⟩

theorem HasRuns.dense_eq {s : SparseData} {runs : List Nat} (h : HasRuns s runs) :
    s.dense = expand runs s.vals := by
  simp [SparseData.dense, h.runLengths_eq]

theorem HasRuns.length_dense {s : SparseData} {runs : List Nat} (h : HasRuns s runs) :
    s.dense.length = runs.sum := by
  rw [h.dense_eq, length_expand (h.length_runs.trans h.length_vals.symm)]

theorem HasRuns.unique {s : SparseData} {runs runs' : List Nat} (h : HasRuns s runs)
    (h' : HasRuns s runs') : runs = runs' := by
  have heq := h.runLengths_eq.symm.trans h'.runLengths_eq
  simpa using heq

theorem WellFormed.proper {s : SparseData} (h : WellFormed s) : Proper s := h.exists_runs

theorem Proper.truthful {s : SparseData} (h : Proper s) : Truthful s := by
  have ⟨runs, hruns, _, htotal⟩ := h
  exact ⟨runs, hruns, htotal⟩

theorem WellFormed.truthful {s : SparseData} (h : WellFormed s) : Truthful s := by
  obtain ⟨runs, hruns, _, htotal⟩ := h.exists_runs
  exact ⟨runs, hruns, htotal⟩

theorem Truthful.length_dense {s : SparseData} (h : Truthful s) :
    (s.dense.length : Int) = s.totalValueCount.toInt := by
  obtain ⟨runs, hruns, htotal⟩ := h
  rw [hruns.length_dense, htotal]

/-- The runs can be read off the bytes. -/
theorem HasRuns.of_runLengths {s : SparseData} {runs : List Nat} (h : s.runLengths = some runs)
    (hvals : s.vals.length = s.uniqueValueCount) : HasRuns s runs := by
  obtain ⟨hlength, hindex⟩ := readRuns_eq_some_iff.mp h
  exact ⟨hindex, hlength, hvals⟩

theorem HasRuns.truthful_iff {s : SparseData} {runs : List Nat} (h : HasRuns s runs) :
    Truthful s ↔ s.totalValueCount.toInt = (runs.sum : Nat) := by
  constructor
  · intro ht
    obtain ⟨runs', hruns', htotal⟩ := ht
    rwa [h.unique hruns']
  · intro htotal
    exact ⟨runs, h, htotal⟩

/-- A size computed in `int` arithmetic is true as long as it is an `int`. -/
theorem HasRuns.truthful_iff_lt {s : SparseData} {runs : List Nat} {size : Int}
    (h : HasRuns s runs) (hsize : ((runs.sum : Nat) : Int) = size)
    (htotal : s.totalValueCount.toInt = toInt32 size) : Truthful s ↔ size < 2147483648 := by
  have hfits := toInt32_eq_self_iff (x := size)
  rw [h.truthful_iff, htotal, hsize, hfits]
  omega

theorem hasRuns_makeSparseData : HasRuns makeSparseData [] :=
  ⟨.nil, rfl, rfl⟩

/-! ## Appending a run -/

theorem addRunToSdata_eq (v : Float8) {runLen : Int} {s : SparseData}
    {bytes entry : List UInt8} (hindex : s.index.data = some bytes)
    (hentry : rleIndexBytes runLen = .ok entry) : ∃ s', addRunToSdata v runLen s = .ok s' ∧
      s'.vals = s.vals ++ [v] ∧ s'.index.data = some (bytes ++ entry) ∧
      s'.uniqueValueCount = s.uniqueValueCount + 1 ∧
      s'.totalValueCount.toInt = toInt32 (s.totalValueCount.toInt + runLen) := by
  simp only [addRunToSdata, appendToRleIndex, appendBinaryStringInfo, hentry, hindex, bind,
    Except.bind, pure, Except.pure]
  exact ⟨_, rfl, rfl, rfl, rfl, int32_toInt_ofInt _⟩

/-- Appending a run of a length an int64 can hold appends that run. -/
theorem addRunToSdata_hasRuns (v : Float8) (runLen : Int) {s : SparseData} {runs : List Nat}
    (h : HasRuns s runs) (hindex : s.index.data ≠ none) (hlo : 0 ≤ runLen)
    (hhi : runLen < 9223372036854775808) :
    ∃ s', addRunToSdata v runLen s = .ok s' ∧ HasRuns s' (runs ++ [runLen.toNat]) ∧
      s'.vals = s.vals ++ [v] ∧ s'.index.data ≠ none ∧
      s'.totalValueCount.toInt = toInt32 (s.totalValueCount.toInt + runLen) := by
  obtain ⟨bytes, hbytes⟩ := Option.ne_none_iff_exists'.mp hindex
  obtain ⟨s', hadd, hvals, hindex', hunique, htotal⟩ :=
    addRunToSdata_eq v hbytes (rleIndexBytes_eq hlo hhi)
  have hwalks : Walks bytes runs := by simpa [IndexRuns, hbytes] using h.index
  refine ⟨s', hadd, ⟨?_, ?_, ?_⟩, hvals, by simp [hindex'], htotal⟩
  · rw [hindex']
    exact hwalks.append (walks_entry (isEntry_int8ToCompword hlo hhi))
  · simp [hunique, h.length_runs]
  · simp [hvals, hunique, h.length_vals]

/-- The index `append_to_rle_index` writes for the runs `runs`. -/
def rleBytes (runs : List Nat) : List UInt8 := runs.flatMap fun n : Nat => int8ToCompword n

theorem walks_rleBytes {runs : List Nat} (h : ∀ n ∈ runs, n < 9223372036854775808) :
    Walks (rleBytes runs) runs := by
  induction runs with
  | nil => exact .nil
  | cons n runs ih =>
      have hn := h n List.mem_cons_self
      exact .cons (isEntry_int8ToCompword (by omega) (by omega))
        (ih fun m hm => h m (List.mem_cons_of_mem n hm))

theorem addRunToSdata_rleBytes {v : Float8} {runLen : Int} {s s' : SparseData} {runs : List Nat}
    (h : s.index.data = some (rleBytes runs)) (hlo : 0 ≤ runLen)
    (hhi : runLen < 9223372036854775808) (hadd : addRunToSdata v runLen s = .ok s') :
    s'.index.data = some (rleBytes (runs ++ [runLen.toNat])) := by
  have ⟨s'', hadd', _, hindex, _⟩ := addRunToSdata_eq v h (rleIndexBytes_eq hlo hhi)
  have heq : s' = s'' := Except.ok.inj (hadd.symm.trans hadd')
  rw [heq, hindex, rleBytes, rleBytes, List.flatMap_append, List.flatMap_singleton,
    Int.toNat_of_nonneg hlo]

end Madlib.Svec
