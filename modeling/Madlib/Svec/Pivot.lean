import Madlib.Svec.SparseVector

/-!
# The aggregate that builds an svec

`svec_pivot` adds one value to its state and works inside the serialized
SparseData as long as there is room, so the dimension header is only written
when the state is allocated anew.
-/

namespace Madlib.Svec

open Madlib.Backend Madlib.Lib.MachineInt Madlib.Lib.RunLength CountCode

/-! ## Allocating the state -/

def makeEmptySvec (allocation : Nat) : Except Fault SvecType :=
  svecFromSparsedata
    { makeEmptySparseData with
      valsMaxlen := 8 * allocation + 1
      index := { data := some [], maxlen := 9 * allocation + 1, cursor := 0 } }
    false

def reallocSvec (source : SvecType) : Except Fault SvecType := do
  let sdata := sdataFromSvec source
  let valNewmaxlen := max (2 * 8 + 1) (2 * sdata.valsMaxlen)
  palloc valNewmaxlen
  -- `int8` is the backend's one-byte type here
  let indNewmaxlen := max (2 * 1 + 1) (2 * sdata.index.maxlen)
  palloc indNewmaxlen
  svecFromSparsedata
    { sdata with
      valsMaxlen := valNewmaxlen
      index := { sdata.index with
        data := some (sdata.index.data.getD [])
        maxlen := indNewmaxlen } }
    false

/-! ## Adding a value -/

def isNaN (v : Float8) : Bool := (v &&& 0x7FFFFFFFFFFFFFFF) > 0x7FF0000000000000

/-- `==` on float8: NaN equals nothing, the two zeros are equal. -/
def float8Eq (v w : Float8) : Bool :=
  !isNaN v && !isNaN w && (v == w || ((v ||| w) &&& 0x7FFFFFFFFFFFFFFF) == 0)

/-- The bytes in front of the entry behind the first `count` ones. -/
def skipEntries : Nat → IndexPtr → Except Fault Nat
  | 0, _ => .ok 0
  | count + 1, ptr => do
      let size ← int8compstoragesize ptr
      let rest ← skipEntries count (← advance ptr)
      return size + rest

/-- Changes made to the in-place SparseData are changes of the svec; memory inside a
datum cannot be enlarged. -/
def writeBack (svec : SvecType) (sdata : SparseData) : Except Fault SvecType :=
  if h : (sdata.valsMaxlen = svec.valsMaxlen ∧ sdata.index.maxlen = svec.indexMaxlen) ∧
      sdata.valsLen ≤ svec.valsMaxlen ∧ (sdata.index.data.getD []).length ≤ svec.indexMaxlen then
    .ok { svec with
      uniqueValueCount := sdata.uniqueValueCount
      totalValueCount := sdata.totalValueCount
      vals := sdata.vals
      index := sdata.index.data.getD []
      indexCursor := sdata.index.cursor
      vals_le := h.2.1
      index_le := h.2.2 }
  else .error .outOfBounds

/-- The branch for a value that differs from the last one. -/
def addNewRun (sdata : SparseData) (value : Float8) : Except Fault SparseData := do
  let sdata ← addRunToSdata value 1 sdata
  let len ← skipEntries (sdata.uniqueValueCount - 1) sdata.index.data
  return { sdata with index := { sdata.index with cursor := len } }

/-- The branch for a repeated value: the last count is rewritten where it stands. -/
def extendLastRun (sdata : SparseData) (cursor : Nat) (runCount : Int) (oldSize : Nat) :
    Except Fault SparseData := do
  let data := sdata.index.data.getD []
  let entry := int8ToCompword (toInt64 (runCount + 1))
  let bytes := data.take cursor ++ entry ++ data.drop (cursor + entry.length)
  let newSize ← int8compstoragesize (some (bytes.drop cursor))
  let len := data.length + newSize - oldSize
  if sdata.index.maxlen < bytes.length ∨ bytes.length < len then .error .outOfBounds
  else return { sdata with
    totalValueCount := Int32.ofInt (sdata.totalValueCount.toInt + 1)
    index := { sdata.index with data := some (bytes.take len), cursor } }

/-- Where the last entry is located; the index cursor is initialised if need be. -/
def indexCursor (sdata : SparseData) : Except Fault Nat :=
  if sdata.index.cursor = 0 then skipEntries (sdata.uniqueValueCount - 1) sdata.index.data
  else .ok sdata.index.cursor

def addValue (sdata : SparseData) (value : Float8) : Except Fault SparseData :=
  if sdata.index.len = 0 then addNewRun sdata value
  else do
    let cursor ← indexCursor sdata
    let indexLocation := sdata.index.data.map fun data => data.drop cursor
    let oldIndexStorageSize ← int8compstoragesize indexLocation
    let runCount ← compwordToInt8 indexLocation
    let lastValue ← valref sdata (sdata.vals.length - 1)
    if float8Eq lastValue value || (lastValue == NVP && value == NVP) then
      extendLastRun sdata cursor runCount oldIndexStorageSize
    else addNewRun sdata value

/-- Both buffers have room for one more run. -/
def HasRoom (svec : SvecType) : Prop :=
  (sdataFromSvec svec).valsLen + 8 + 1 ≤ svec.valsMaxlen ∧
    (sdataFromSvec svec).index.len + 9 + 1 ≤ svec.indexMaxlen

instance (svec : SvecType) : Decidable (HasRoom svec) := by
  unfold HasRoom
  infer_instance

def pivotState : Option SvecType → Except Fault SvecType
  | some svec => .ok svec
  | none => makeEmptySvec 1

def makeRoom (svec : SvecType) : Except Fault SvecType :=
  if HasRoom svec then .ok svec else reallocSvec svec

def svecPivot (state : Option SvecType) (value : Option Float8) : Except Fault SvecType := do
  let svec ← pivotState state
  let svec ← makeRoom svec
  let sdata ← addValue (sdataFromSvec svec) (value.getD NVP)
  writeBack svec sdata

/-- `svec_agg`: `svec_pivot` folded over the values, from the NULL state. -/
def svecAgg (values : List (Option Float8)) : Except Fault (Option SvecType) :=
  values.foldlM (fun state value => (svecPivot state value).map some) none

/-! ## The header after any run -/

theorem addRunToSdata_ok {v : Float8} {runLen : Int} {sdata s : SparseData}
    (h : addRunToSdata v runLen sdata = .ok s) :
    s.totalValueCount.toInt = toInt32 (sdata.totalValueCount.toInt + runLen) ∧
      s.vals = sdata.vals ++ [v] := by
  unfold addRunToSdata at h
  obtain ⟨index, _, h⟩ := bind_eq_ok.mp h
  cases h
  exact ⟨int32_toInt_ofInt _, rfl⟩

theorem addNewRun_ok {sdata s : SparseData} {value : Float8} (h : addNewRun sdata value = .ok s) :
    s.totalValueCount.toInt = toInt32 (sdata.totalValueCount.toInt + 1) ∧
      s.vals = sdata.vals ++ [value] := by
  unfold addNewRun at h
  obtain ⟨s', hadd, h⟩ := bind_eq_ok.mp h
  obtain ⟨len, _, h⟩ := bind_eq_ok.mp h
  have hs := addRunToSdata_ok hadd
  cases h
  exact hs

theorem extendLastRun_ok {sdata s : SparseData} {cursor oldSize : Nat} {runCount : Int}
    (h : extendLastRun sdata cursor runCount oldSize = .ok s) :
    s.totalValueCount.toInt = toInt32 (sdata.totalValueCount.toInt + 1) ∧ s.vals = sdata.vals := by
  unfold extendLastRun at h
  obtain ⟨newSize, _, h⟩ := bind_eq_ok.mp h
  dsimp only at h
  split at h
  · cases h
  · cases h
    exact ⟨int32_toInt_ofInt _, rfl⟩

/-- Every value counts for one, and the first one becomes the first run. -/
theorem addValue_ok {sdata s : SparseData} {value : Float8} (h : addValue sdata value = .ok s) :
    s.totalValueCount.toInt = toInt32 (sdata.totalValueCount.toInt + 1) ∧
      (sdata.index.len = 0 → s.vals = sdata.vals ++ [value]) := by
  unfold addValue at h
  split at h
  · have hnew := addNewRun_ok h
    exact ⟨hnew.1, fun _ => hnew.2⟩
  · rename_i hlen
    refine ⟨?_, fun hzero => absurd hzero hlen⟩
    obtain ⟨cursor, _, h⟩ := bind_eq_ok.mp h
    obtain ⟨oldSize, _, h⟩ := bind_eq_ok.mp h
    obtain ⟨runCount, _, h⟩ := bind_eq_ok.mp h
    obtain ⟨lastValue, _, h⟩ := bind_eq_ok.mp h
    split at h
    · exact (extendLastRun_ok h).1
    · exact (addNewRun_ok h).1

theorem writeBack_ok {svec svec' : SvecType} {sdata : SparseData}
    (h : writeBack svec sdata = .ok svec') :
    svec'.dimension = svec.dimension ∧ svec'.valsMaxlen = svec.valsMaxlen ∧
      svec'.totalValueCount = sdata.totalValueCount ∧ svec'.vals = sdata.vals := by
  unfold writeBack at h
  split at h
  · cases h
    exact ⟨rfl, rfl, rfl, rfl⟩
  · cases h

/-- The header `svec_from_sparsedata` writes for a total. -/
def headerOf (total : Int32) : Int32 := if total = 1 then -1 else total

theorem serializeSparseData_ok {sdata : SparseData} {dimension : Int32} {svec : SvecType}
    (h : serializeSparseData sdata dimension = .ok svec) :
    svec.dimension = dimension ∧ svec.totalValueCount = sdata.totalValueCount := by
  unfold serializeSparseData at h
  split at h
  · cases h
  · split at h
    · split at h
      · cases h
      · cases h
        exact ⟨rfl, rfl⟩
    · cases h

theorem reallocSvec_ok {svec svec' : SvecType} (h : reallocSvec svec = .ok svec') :
    svec'.dimension = headerOf svec.totalValueCount ∧
      svec'.totalValueCount = svec.totalValueCount := by
  unfold reallocSvec at h
  obtain ⟨_, _, h⟩ := bind_eq_ok.mp h
  obtain ⟨_, _, h⟩ := bind_eq_ok.mp h
  exact serializeSparseData_ok h

theorem makeEmptySvec_one : ∃ svec, makeEmptySvec 1 = .ok svec ∧ svec.dimension = 0 ∧
    sdataFromSvec svec =
      { uniqueValueCount := 0, totalValueCount := 0, vals := [], valsMaxlen := 9,
        index := { data := some [], maxlen := 10, cursor := 0 } } := by
  obtain ⟨svec, hsvec, hdimension, hback⟩ := serializeSparseData_eq
    { uniqueValueCount := 0, totalValueCount := 0, vals := [], valsMaxlen := 9,
      index := { data := some [], maxlen := 10, cursor := 0 } } 0
    (by decide) (by decide) (by decide) (by simp)
  exact ⟨svec, hsvec, hdimension, hback⟩

/-- After `n` values the header still belongs to an earlier state: to the empty one, or
to the one before the last reallocation. -/
structure StaleHeader (svec : SvecType) (n : Nat) : Prop where
  total_eq : svec.totalValueCount.toInt = toInt32 n
  header : (n = 1 ∧ svec.dimension = 0 ∧ svec.vals.length = 1 ∧ svec.valsMaxlen = 9) ∨
    ∃ (k : Nat) (total : Int32), 1 ≤ k ∧ k < n ∧ total.toInt = toInt32 k ∧
      svec.dimension = headerOf total

theorem svecPivot_first {value : Option Float8} {svec : SvecType}
    (h : svecPivot none value = .ok svec) : StaleHeader svec 1 := by
  obtain ⟨empty, hempty, hdimension, hback⟩ := makeEmptySvec_one
  have hmaxlen : empty.valsMaxlen = 9 := congrArg SparseData.valsMaxlen hback
  have hindex : empty.indexMaxlen = 10 := congrArg (fun s => s.index.maxlen) hback
  have hroom : HasRoom empty := by
    rw [HasRoom, hback, hmaxlen, hindex]
    decide
  unfold svecPivot pivotState makeRoom at h
  rw [hempty, ok_bind, if_pos hroom, ok_bind] at h
  obtain ⟨sdata, hadd, hwrite⟩ := bind_eq_ok.mp h
  obtain ⟨htotal, hvals⟩ := addValue_ok hadd
  obtain ⟨hdim', hmaxlen', htotal', hvals'⟩ := writeBack_ok hwrite
  rw [hback] at htotal hvals
  refine ⟨?_, .inl ⟨rfl, ?_, ?_, ?_⟩⟩
  · rw [htotal', htotal]
    rfl
  · rw [hdim', hdimension]
  · rw [hvals', hvals rfl]
    rfl
  · rw [hmaxlen', hmaxlen]

theorem svecPivot_next {value : Option Float8} {svec svec' : SvecType} {n : Nat} (hn : 1 ≤ n)
    (h : svecPivot (some svec) value = .ok svec') (hinv : StaleHeader svec n) :
    StaleHeader svec' (n + 1) := by
  unfold svecPivot pivotState makeRoom at h
  rw [ok_bind] at h
  obtain ⟨roomy, hroomy, h⟩ := bind_eq_ok.mp h
  obtain ⟨sdata, hadd, hwrite⟩ := bind_eq_ok.mp h
  obtain ⟨htotal, _⟩ := addValue_ok hadd
  obtain ⟨hdim', _, htotal', _⟩ := writeBack_ok hwrite
  have hsum : roomy.totalValueCount = svec.totalValueCount →
      svec'.totalValueCount.toInt = toInt32 (n + 1 : Nat) := by
    intro hsame
    rw [htotal', htotal, totalValueCount_sdataFromSvec, hsame, hinv.total_eq,
      toInt32_toInt32_add]
    rfl
  by_cases hroom : HasRoom svec
  · rw [if_pos hroom] at hroomy
    obtain rfl : svec = roomy := Except.ok.inj hroomy
    refine ⟨hsum rfl, .inr ?_⟩
    rcases hinv.header with ⟨_, _, hlength, hmaxlen⟩ | ⟨k, total, hk, hlt, htotal, hdim⟩
    · -- the first value has used up the room for one
      have hvals := hroom.1
      have hlen : (sdataFromSvec svec).valsLen = 8 * svec.vals.length := rfl
      omega
    · exact ⟨k, total, hk, by omega, htotal, by rw [hdim', hdim]⟩
  · rw [if_neg hroom] at hroomy
    obtain ⟨hdim, hsame⟩ := reallocSvec_ok hroomy
    refine ⟨hsum hsame, .inr ⟨n, svec.totalValueCount, hn, by omega, hinv.total_eq, ?_⟩⟩
    rw [hdim', hdim]

theorem svecAgg_append (values : List (Option Float8)) (value : Option Float8) :
    svecAgg (values ++ [value]) =
      (svecAgg values >>= fun state => (svecPivot state value).map some) := by
  unfold svecAgg
  simp only [List.foldlM_append, List.foldlM_cons, List.foldlM_nil, bind_pure]

theorem svecAgg_staleHeader {values : List (Option Float8)} {state : Option SvecType}
    (h : svecAgg values = .ok state) :
    (values = [] ∧ state = none) ∨
      ∃ svec, state = some svec ∧ 1 ≤ values.length ∧ StaleHeader svec values.length := by
  induction values using List.reverseRecOn generalizing state with
  | nil =>
      left
      cases h
      exact ⟨rfl, rfl⟩
  | append_singleton values value ih =>
      right
      rw [svecAgg_append] at h
      obtain ⟨before, hbefore, h⟩ := bind_eq_ok.mp h
      cases hpivot : svecPivot before value with
      | error e =>
          rw [hpivot] at h
          cases h
      | ok svec =>
          rw [hpivot] at h
          refine ⟨svec, (Except.ok.inj h).symm, by simp, ?_⟩
          rw [List.length_append, List.length_singleton]
          rcases ih hbefore with ⟨rfl, rfl⟩ | ⟨last, rfl, hlength, hinv⟩
          · exact svecPivot_first hpivot
          · exact svecPivot_next hlength hpivot hinv

/-- A header that never is the one of the state is not the one the module relies on. -/
theorem StaleHeader.ne {svec : SvecType} {n : Nat} (h : StaleHeader svec n)
    (htotal : svec.totalValueCount.toInt = n) :
    ¬ svec.dimension = (if n = 1 then -1 else svec.totalValueCount) := by
  intro hdim
  have hn := h.total_eq
  have hmem := toInt32_mem n
  have hlt : (n : Int) < 2147483648 := by omega
  rcases h.header with ⟨rfl, hzero, _⟩ | ⟨k, total, hk, hkn, hktotal, hheader⟩
  · rw [hzero, if_pos rfl] at hdim
    exact absurd hdim (by decide)
  · rw [if_neg (by omega), hheader, headerOf] at hdim
    rw [toInt32_of_mem (by omega) (by omega)] at hktotal
    split at hdim
    · have hneg := congrArg Int32.toInt hdim
      have hone : (-1 : Int32).toInt = -1 := by decide
      omega
    · have hsame := congrArg Int32.toInt hdim
      omega

/-- The header `svec_agg` returns is the one of the finished aggregate for no list. -/
theorem svecAgg_header_never {values : List (Option Float8)} (hne : values ≠ []) :
    ¬ ∃ svec, svecAgg values = .ok (some svec) ∧
      svec.dimension = (if values.length = 1 then -1 else svec.totalValueCount) ∧
      svec.totalValueCount.toInt = values.length := by
  rintro ⟨svec, hagg, hdim, htotal⟩
  rcases svecAgg_staleHeader hagg with ⟨hnil, _⟩ | ⟨svec', hsvec, _, hinv⟩
  · exact hne hnil
  · cases hsvec
    exact hinv.ne htotal hdim

theorem svecAgg_header_never_single :
    ¬ ∃ svec, svecAgg [some 0x3FF0000000000000] = .ok (some svec) ∧
      svec.dimension = (if [some (0x3FF0000000000000 : Float8)].length = 1 then -1
        else svec.totalValueCount) ∧
      svec.totalValueCount.toInt = [some (0x3FF0000000000000 : Float8)].length :=
  svecAgg_header_never (by simp)

/-- The aggregate of two values is a scalar by its header. -/
theorem svecAgg_two_is_scalar :
    ¬ ∀ values : List (Option Float8), values ≠ [] → ∃ svec, svecAgg values = .ok (some svec) ∧
      svec.dimension = (if values.length = 1 then -1 else svec.totalValueCount) ∧
      svec.totalValueCount.toInt = values.length := by
  intro h
  obtain ⟨svec, hagg, hdim, _⟩ := h [some 0x3FF0000000000000, some 0x4000000000000000] (by simp)
  have hrun : (svecAgg [some 0x3FF0000000000000, some 0x4000000000000000]).map
      (fun state => state.map fun svec => (svec.dimension, svec.totalValueCount)) =
        .ok (some (-1, 2)) := by decide
  rw [hagg] at hrun
  have hpair : (svec.dimension, svec.totalValueCount) = (-1, 2) :=
    Option.some.inj (Except.ok.inj hrun)
  have hscalar : svec.dimension = -1 := congrArg Prod.fst hpair
  have htotal : svec.totalValueCount = 2 := congrArg Prod.snd hpair
  rw [hscalar, htotal] at hdim
  exact absurd hdim (by decide)

/-! ## The aggregate returns

Below 2^63 values every run and every entry keeps its form, and the room a new
allocation leaves is enough for the next one. -/

/-- The index ends in the entry of the last run, which the cursor locates. -/
structure LastRunAt (sdata : SparseData) (n : Nat) (first : List UInt8) (runs : List Nat)
    (last : Nat) : Prop where
  data : sdata.index.data = some (first ++ int8ToCompword last)
  walks : Walks first runs
  last_pos : 0 < last
  sum_eq : runs.sum + last = n
  unique : sdata.uniqueValueCount = runs.length + 1
  vals : sdata.vals.length = runs.length + 1
  cursor : sdata.index.cursor = 0 ∨ sdata.index.cursor = first.length

/-- The last run of a SparseData of `n` elements is where `svec_pivot` looks for it. -/
def LastRun (sdata : SparseData) (n : Nat) : Prop :=
  ∃ first runs last, LastRunAt sdata n first runs last

/-- There is room for a run, as `svec_pivot` asks for it. -/
structure Roomy (sdata : SparseData) : Prop where
  vals : sdata.valsLen + 9 ≤ sdata.valsMaxlen
  index : sdata.index.len + 10 ≤ sdata.index.maxlen

/-- `s` occupies the memory of `sdata`. -/
structure FitsIn (s sdata : SparseData) : Prop where
  valsMaxlen : s.valsMaxlen = sdata.valsMaxlen
  indexMaxlen : s.index.maxlen = sdata.index.maxlen
  vals : s.valsLen ≤ sdata.valsMaxlen
  index : s.index.len ≤ sdata.index.maxlen

theorem enlarged_of_le {needed maxlen : Nat} (rounds : Nat) (h : needed ≤ maxlen) :
    enlarged needed rounds maxlen = maxlen := by
  cases rounds with
  | zero => rfl
  | succ rounds => rw [enlarged, if_pos h]

theorem skipEntries_walks {first : List UInt8} {runs : List Nat} (h : Walks first runs)
    (rest : List UInt8) : skipEntries runs.length (some (first ++ rest)) = .ok first.length := by
  induction h with
  | nil => rfl
  | @cons entry bytes n runs hentry _ ih =>
      rw [List.length_cons, skipEntries, List.append_assoc, hentry.size, ok_bind, (hentry _).2,
        ok_bind, ih, ok_bind, pure_eq_ok, List.length_append]

theorem addNewRun_spec {sdata : SparseData} {bytes : List UInt8} {runs : List Nat}
    (value : Float8) (hdata : sdata.index.data = some bytes) (hwalks : Walks bytes runs)
    (hunique : sdata.uniqueValueCount = runs.length) (hvals : sdata.vals.length = runs.length)
    (hroom : Roomy sdata) :
    ∃ s, addNewRun sdata value = .ok s ∧ LastRunAt s (runs.sum + 1) bytes runs 1 ∧
      FitsIn s sdata := by
  have hentry : rleIndexBytes 1 = .ok (int8ToCompword 1) := rleIndexBytes_eq (by omega) (by omega)
  have hlen : sdata.index.len = bytes.length := by
    rw [StringInfo.len, hdata]
    rfl
  have hone : (int8ToCompword 1).length = 1 := rfl
  have hindex := hroom.index
  have hneeded : bytes.length + (int8ToCompword 1).length + 1 ≤ sdata.index.maxlen := by omega
  have hskip := skipEntries_walks hwalks (int8ToCompword 1)
  simp only [addNewRun, addRunToSdata, appendToRleIndex, appendBinaryStringInfo, hentry, hdata,
    ok_bind, pure_eq_ok, hunique, Nat.add_sub_cancel, hskip]
  refine ⟨_, rfl, ⟨rfl, hwalks, Nat.one_pos, rfl, rfl, ?_, .inr rfl⟩, ?_⟩
  · simp [hvals]
  · refine ⟨enlarged_of_le _ hroom.vals, enlarged_of_le _ hneeded, ?_, ?_⟩
    · have hfits := hroom.vals
      simp only [SparseData.valsLen, List.length_append, List.length_singleton] at hfits ⊢
      omega
    · simp only [StringInfo.len, Option.getD_some, List.length_append]
      omega

theorem extendLastRun_spec {sdata : SparseData} {n : Nat} {first : List UInt8} {runs : List Nat}
    {last : Nat} (h : LastRunAt sdata n first runs last) (hroom : Roomy sdata)
    (hn : (n : Int) + 1 < 9223372036854775808) :
    ∃ s, extendLastRun sdata first.length last (int8ToCompword last).length = .ok s ∧
      LastRunAt s (n + 1) first runs (last + 1) ∧ FitsIn s sdata := by
  have hsum := h.sum_eq
  have hwrap : toInt64 ((last : Int) + 1) = (last + 1 : Nat) := by
    unfold toInt64
    rw [wrapAt_of_mem (by omega) (by omega)]
    rfl
  have hentry : IsEntry (int8ToCompword (last + 1 : Nat)) (last + 1) :=
    isEntry_int8ToCompword (by omega) (by omega)
  have hgrow : (int8ToCompword last).length ≤ (int8ToCompword (last + 1 : Nat)).length :=
    length_int8ToCompword_mono (by omega)
  have hnine := length_int8ToCompword_le (last + 1 : Nat)
  have hlen : sdata.index.len = first.length + (int8ToCompword last).length := by
    rw [StringInfo.len, h.data, Option.getD_some, List.length_append]
  have hindex := hroom.index
  -- the new entry is at least as long as the old one, so nothing is left behind it
  have htail : (first ++ int8ToCompword last).drop
      (first.length + (int8ToCompword (last + 1 : Nat)).length) = [] := by
    apply List.drop_eq_nil_of_le
    rw [List.length_append]
    omega
  have hsize := hentry.size []
  rw [List.append_nil] at hsize
  have hnot : ¬ (sdata.index.maxlen < (first ++ int8ToCompword (last + 1 : Nat)).length ∨
      (first ++ int8ToCompword (last + 1 : Nat)).length <
        (first ++ int8ToCompword last).length + (int8ToCompword (last + 1 : Nat)).length -
          (int8ToCompword last).length) := by
    rw [List.length_append, List.length_append]
    omega
  have hwhole : (first ++ int8ToCompword (last + 1 : Nat)).take
      ((first ++ int8ToCompword last).length + (int8ToCompword (last + 1 : Nat)).length -
        (int8ToCompword last).length) = first ++ int8ToCompword (last + 1 : Nat) := by
    apply List.take_of_length_le
    rw [List.length_append, List.length_append]
    omega
  simp only [extendLastRun, h.data, Option.getD_some, hwrap, List.take_left', htail,
    List.append_nil, List.drop_left', hsize, ok_bind, if_neg hnot, pure_eq_ok, hwhole]
  refine ⟨_, rfl, ⟨rfl, h.walks, Nat.succ_pos last, ?_, h.unique, h.vals, .inr rfl⟩, rfl, rfl, ?_,
    ?_⟩
  · omega
  · have hfits := hroom.vals
    simp only [SparseData.valsLen] at hfits ⊢
    omega
  · simp only [StringInfo.len, Option.getD_some, List.length_append]
    omega

theorem LastRunAt.indexCursor_eq {sdata : SparseData} {n : Nat} {first : List UInt8}
    {runs : List Nat} {last : Nat} (h : LastRunAt sdata n first runs last) :
    indexCursor sdata = .ok first.length := by
  unfold indexCursor
  by_cases hzero : sdata.index.cursor = 0
  · rw [if_pos hzero, h.unique, h.data, Nat.add_sub_cancel]
    exact skipEntries_walks h.walks _
  · rw [if_neg hzero, h.cursor.resolve_left hzero]

/-- A value that is the last one again; NVPs are. -/
def repeats (lastValue value : Float8) : Bool :=
  float8Eq lastValue value || (lastValue == NVP && value == NVP)

/-- The last run grows by a value that repeats its own, and any other value starts a run. -/
theorem addValue_cases {sdata : SparseData} {n : Nat} {first : List UInt8} {runs : List Nat}
    {last : Nat} (value : Float8) (h : LastRunAt sdata n first runs last) (hroom : Roomy sdata)
    (hn : (n : Int) + 1 < 9223372036854775808) :
    ∃ s lastValue, addValue sdata value = .ok s ∧ FitsIn s sdata ∧
      sdata.vals.getLast? = some lastValue ∧
      (repeats lastValue value = true ∧ LastRunAt s (n + 1) first runs (last + 1) ∧
          s.vals = sdata.vals ∨
        repeats lastValue value = false ∧
          LastRunAt s (n + 1) (first ++ int8ToCompword last) (runs ++ [last]) 1 ∧
          s.vals = sdata.vals ++ [value]) := by
  have hsum := h.sum_eq
  have hentry : IsEntry (int8ToCompword last) last :=
    isEntry_int8ToCompword (by omega) (by omega)
  have hlen : ¬ sdata.index.len = 0 := by
    have hne := List.length_pos_of_ne_nil hentry.ne_nil
    rw [StringInfo.len, h.data, Option.getD_some, List.length_append]
    omega
  have hsize := hentry.size []
  have hread := (hentry []).1
  rw [List.append_nil] at hsize hread
  have hlast : sdata.vals.length - 1 < sdata.vals.length := by
    have hvals := h.vals
    omega
  have hval : valref sdata (sdata.vals.length - 1) = .ok (sdata.vals[sdata.vals.length - 1]) := by
    unfold valref
    rw [List.getElem?_eq_getElem hlast]
  have hlastValue : sdata.vals.getLast? = some (sdata.vals[sdata.vals.length - 1]) := by
    rw [List.getLast?_eq_getElem?, List.getElem?_eq_getElem hlast]
  have hbranch : addValue sdata value =
      if repeats (sdata.vals[sdata.vals.length - 1]) value then
        extendLastRun sdata first.length last (int8ToCompword last).length
      else addNewRun sdata value := by
    unfold addValue
    rw [if_neg hlen, h.indexCursor_eq, ok_bind, h.data, Option.map_some]
    simp only [List.drop_left']
    rw [hsize, ok_bind, hread, ok_bind, hval, ok_bind]
    rfl
  rw [hbranch]
  cases hrepeats : repeats (sdata.vals[sdata.vals.length - 1]) value with
  | true =>
      obtain ⟨s, hs, hat, hfits⟩ := extendLastRun_spec h hroom hn
      exact ⟨s, _, hs, hfits, hlastValue, .inl ⟨hrepeats, hat, (extendLastRun_ok hs).2⟩⟩
  | false =>
      have hwalks : Walks (first ++ int8ToCompword last) (runs ++ [last]) :=
        h.walks.append (walks_entry hentry)
      obtain ⟨s, hs, hat, hfits⟩ :=
        addNewRun_spec value h.data hwalks (by simp [h.unique]) (by simp [h.vals]) hroom
      rw [List.sum_append, List.sum_singleton, hsum] at hat
      exact ⟨s, _, hs, hfits, hlastValue, .inr ⟨hrepeats, hat, (addNewRun_ok hs).2⟩⟩

theorem addValue_spec {sdata : SparseData} {n : Nat} (value : Float8) (h : LastRun sdata n)
    (hroom : Roomy sdata) (hn : (n : Int) + 1 < 9223372036854775808) :
    ∃ s, addValue sdata value = .ok s ∧ LastRun s (n + 1) ∧ FitsIn s sdata := by
  have ⟨first, runs, last, hat⟩ := h
  have ⟨s, lastValue, hs, hfits, _, hcases⟩ := addValue_cases value hat hroom hn
  refine ⟨s, hs, ?_, hfits⟩
  rcases hcases with ⟨_, hold, _⟩ | ⟨_, hnew, _⟩
  · exact ⟨_, _, _, hold⟩
  · exact ⟨_, _, _, hnew⟩

theorem LastRun.len_ne_zero {sdata : SparseData} {n : Nat} (h : LastRun sdata n) :
    sdata.index.len ≠ 0 := by
  obtain ⟨first, runs, last, h⟩ := h
  obtain ⟨b, word, hcons⟩ := int8ToCompword_eq_cons last
  rw [StringInfo.len, h.data, hcons]
  simp

/-- A SparseData that stays in the memory of the svec is what the svec holds afterwards. -/
theorem writeBack_spec {svec : SvecType} {s : SparseData} {n : Nat}
    (hfits : FitsIn s (sdataFromSvec svec)) (hlast : LastRun s n) :
    ∃ svec', writeBack svec s = .ok svec' ∧ sdataFromSvec svec' = s := by
  have hlen := hlast.len_ne_zero
  have hle : s.index.len ≤ svec.indexMaxlen := hfits.index
  have hmaxlen : svec.indexMaxlen ≠ 0 := by omega
  obtain ⟨first, runs, last, h⟩ := hlast
  have hwrite : (s.valsMaxlen = svec.valsMaxlen ∧ s.index.maxlen = svec.indexMaxlen) ∧
      s.valsLen ≤ svec.valsMaxlen ∧ (s.index.data.getD []).length ≤ svec.indexMaxlen :=
    ⟨⟨hfits.valsMaxlen, hfits.indexMaxlen⟩, hfits.vals, hfits.index⟩
  unfold writeBack
  rw [dif_pos hwrite]
  refine ⟨_, rfl, ?_⟩
  have hmax : s.index.maxlen = svec.indexMaxlen := hfits.indexMaxlen
  have hvalsmax : s.valsMaxlen = svec.valsMaxlen := hfits.valsMaxlen
  have hdata := h.data
  obtain ⟨unique, total, vals, valsMaxlen, ⟨data, maxlen, cursor⟩⟩ := s
  simp only at hmax hvalsmax hdata
  simp [sdataFromSvec, hmaxlen, hdata, hmax, hvalsmax]

/-- What the state of the aggregate looks like between two calls. -/
structure PivotState (svec : SvecType) (n : Nat) : Prop where
  last_run : LastRun (sdataFromSvec svec) n
  vals_room : 9 ≤ svec.valsMaxlen
  index_room : 10 ≤ svec.indexMaxlen

/-- The error of an svec that has outgrown one allocation. -/
def allocError : Fault := .elog "invalid memory alloc request size"

theorem reallocSvec_spec {svec : SvecType} {n : Nat} (h : PivotState svec n) :
    reallocSvec svec = .error allocError ∨
    ∃ svec', reallocSvec svec = .ok svec' ∧ PivotState svec' n ∧ Roomy (sdataFromSvec svec') ∧
      SameData (sdataFromSvec svec') (sdataFromSvec svec) ∧
      (sdataFromSvec svec').index.cursor = (sdataFromSvec svec).index.cursor := by
  have hvals := h.vals_room
  have hindex := h.index_room
  have hvalsle : (sdataFromSvec svec).valsLen ≤ svec.valsMaxlen := svec.vals_le
  have hindexle : (sdataFromSvec svec).index.len ≤ svec.indexMaxlen := by
    have hle := svec.index_le
    have hmaxlen : svec.indexMaxlen ≠ 0 := by omega
    simpa [sdataFromSvec, StringInfo.len, hmaxlen] using hle
  obtain ⟨first, runs, last, hlast⟩ := h.last_run
  have hdata := hlast.data
  unfold reallocSvec
  by_cases hv : max (2 * 8 + 1) (2 * (sdataFromSvec svec).valsMaxlen) ≤ maxAllocSize
  · by_cases hi : max (2 * 1 + 1) (2 * (sdataFromSvec svec).index.maxlen) ≤ maxAllocSize
    · dsimp only
      rw [palloc_ok hv, ok_bind, palloc_ok hi, ok_bind]
      generalize hs : ({ sdataFromSvec svec with
        valsMaxlen := max (2 * 8 + 1) (2 * (sdataFromSvec svec).valsMaxlen)
        index := { (sdataFromSvec svec).index with
          data := some ((sdataFromSvec svec).index.data.getD [])
          maxlen := max (2 * 1 + 1) (2 * (sdataFromSvec svec).index.maxlen) } } : SparseData) = s
      have hsvals : s.valsMaxlen = max 17 (2 * svec.valsMaxlen) := by rw [← hs]; rfl
      have hsindex : s.index.maxlen = max 3 (2 * svec.indexMaxlen) := by rw [← hs]; rfl
      have hsdata : s.index.data = some (first ++ int8ToCompword last) := by
        rw [← hs]
        simp only [hdata, Option.getD_some]
      have hsvalsLen : s.valsLen = (sdataFromSvec svec).valsLen := by rw [← hs]; rfl
      have hsindexLen : s.index.len = (sdataFromSvec svec).index.len := by
        rw [StringInfo.len, StringInfo.len, hsdata, hdata]
      have hslast : LastRun s n := by
        refine ⟨first, runs, last, hsdata, hlast.walks, hlast.last_pos, hlast.sum_eq, ?_, ?_, ?_⟩
        · rw [← hs]
          exact hlast.unique
        · rw [← hs]
          exact hlast.vals
        · rw [← hs]
          exact hlast.cursor
      by_cases hsize : svecSize s.valsMaxlen s.index.maxlen ≤ maxAllocSize
      · right
        obtain ⟨svec', hsvec, _, hback⟩ := serializeSparseData_eq s (headerOf s.totalValueCount)
          hsize (by omega) (by omega) (by simp [hsdata])
        have hne : s.index.maxlen ≠ 0 := by omega
        have hsame : sdataFromSvec svec' = s := by
          rw [hback, if_neg hne, hsdata, Option.getD_some, ← hsdata]
        have hvmax : svec'.valsMaxlen = s.valsMaxlen := congrArg SparseData.valsMaxlen hsame
        have himax : svec'.indexMaxlen = s.index.maxlen :=
          congrArg (fun sdata => sdata.index.maxlen) hsame
        refine ⟨svec', hsvec, ⟨by rw [hsame]; exact hslast, by omega, by omega⟩, ?_⟩
        rw [hsame]
        refine ⟨⟨by omega, by omega⟩, ⟨?_, ?_, ?_, hsdata.trans hdata.symm⟩, ?_⟩
        all_goals rw [← hs]
      · left
        show serializeSparseData s _ = _
        unfold serializeSparseData
        rw [dif_pos (Nat.lt_of_not_le hsize), allocError]
    · left
      dsimp only
      rw [palloc_ok hv, ok_bind, palloc_error (Nat.lt_of_not_le hi), error_bind, allocError]
  · left
    dsimp only
    rw [palloc_error (Nat.lt_of_not_le hv), error_bind, allocError]

theorem svecPivot_next_spec {svec : SvecType} {n : Nat} (value : Option Float8)
    (h : PivotState svec n) (hn : (n : Int) + 1 < 9223372036854775808) :
    svecPivot (some svec) value = .error allocError ∨
    ∃ svec', svecPivot (some svec) value = .ok svec' ∧ PivotState svec' (n + 1) := by
  have hadd : ∀ roomy, PivotState roomy n → Roomy (sdataFromSvec roomy) →
      ∃ svec', (addValue (sdataFromSvec roomy) (value.getD NVP) >>= writeBack roomy) = .ok svec' ∧
        PivotState svec' (n + 1) := by
    intro roomy hstate hroom
    obtain ⟨s, hs, hlast, hfits⟩ := addValue_spec (value.getD NVP) hstate.last_run hroom hn
    obtain ⟨svec', hwrite, hsame⟩ := writeBack_spec hfits hlast
    have hvmax : svec'.valsMaxlen = roomy.valsMaxlen :=
      (congrArg SparseData.valsMaxlen hsame).trans hfits.valsMaxlen
    have himax : svec'.indexMaxlen = roomy.indexMaxlen :=
      (congrArg (fun sdata => sdata.index.maxlen) hsame).trans hfits.indexMaxlen
    refine ⟨svec', by rw [hs, ok_bind, hwrite], by rw [hsame]; exact hlast, ?_, ?_⟩
    · rw [hvmax]
      exact hstate.vals_room
    · rw [himax]
      exact hstate.index_room
  unfold svecPivot pivotState makeRoom
  rw [ok_bind]
  by_cases hroom : HasRoom svec
  · rw [if_pos hroom, ok_bind]
    exact .inr (hadd svec h ⟨hroom.1, hroom.2⟩)
  · rw [if_neg hroom]
    rcases reallocSvec_spec h with herror | ⟨roomy, hrealloc, hstate, hroomy, _⟩
    · exact .inl (by rw [herror, error_bind])
    · rw [hrealloc, ok_bind]
      exact .inr (hadd roomy hstate hroomy)

theorem svecPivot_first_spec (value : Option Float8) :
    ∃ svec, svecPivot none value = .ok svec ∧ PivotState svec 1 := by
  obtain ⟨empty, hempty, _, hback⟩ := makeEmptySvec_one
  have hmaxlen : empty.valsMaxlen = 9 := congrArg SparseData.valsMaxlen hback
  have hindex : empty.indexMaxlen = 10 := congrArg (fun s => s.index.maxlen) hback
  have hroomy : Roomy (sdataFromSvec empty) := by
    rw [hback]
    exact ⟨by decide, by decide⟩
  have hroom : HasRoom empty := by
    rw [HasRoom, hmaxlen, hindex, hback]
    decide
  have hdata : (sdataFromSvec empty).index.data = some [] := by rw [hback]
  obtain ⟨s, hs, hlast, hfits⟩ := addNewRun_spec (value.getD NVP) hdata .nil
    (by rw [hback]; rfl) (by rw [hback]; rfl) hroomy
  have hlast : LastRun s 1 := ⟨_, _, _, hlast⟩
  obtain ⟨svec', hwrite, hsame⟩ := writeBack_spec hfits hlast
  have hlen : (sdataFromSvec empty).index.len = 0 := by
    rw [hback]
    rfl
  have hvmax : svec'.valsMaxlen = empty.valsMaxlen :=
    (congrArg SparseData.valsMaxlen hsame).trans hfits.valsMaxlen
  have himax : svec'.indexMaxlen = empty.indexMaxlen :=
    (congrArg (fun sdata => sdata.index.maxlen) hsame).trans hfits.indexMaxlen
  refine ⟨svec', ?_, by rw [hsame]; exact hlast, by omega, by omega⟩
  unfold svecPivot pivotState makeRoom
  rw [hempty, ok_bind, if_pos hroom, ok_bind]
  unfold addValue
  rw [if_pos hlen, hs, ok_bind, hwrite]

/-- For a list below 2^63 values the aggregate returns, unless its svec outgrows one
allocation. -/
theorem svecAgg_returns {values : List (Option Float8)} (hne : values ≠ [])
    (hlength : (values.length : Int) < 9223372036854775808) :
    svecAgg values = .error allocError ∨
    ∃ svec, svecAgg values = .ok (some svec) ∧ LastRun (sdataFromSvec svec) values.length := by
  have hrun : values = [] ∨ svecAgg values = .error allocError ∨
      ∃ svec, svecAgg values = .ok (some svec) ∧ PivotState svec values.length := by
    clear hne
    induction values using List.reverseRecOn with
    | nil => exact .inl rfl
    | append_singleton values value ih =>
        right
        rw [List.length_append, List.length_singleton] at hlength ⊢
        rw [svecAgg_append]
        rcases ih (by omega) with rfl | herror | ⟨svec, hsvec, hstate⟩
        · obtain ⟨svec, hsvec, hstate⟩ := svecPivot_first_spec value
          right
          refine ⟨svec, ?_, hstate⟩
          show (svecPivot none value).map some = _
          rw [hsvec]
          rfl
        · rw [herror, error_bind]
          exact .inl rfl
        · rw [hsvec, ok_bind]
          rcases svecPivot_next_spec value hstate (by omega) with herror | ⟨svec', hsvec', hstate'⟩
          · rw [herror]
            exact .inl rfl
          · rw [hsvec']
            exact .inr ⟨svec', rfl, hstate'⟩
  rcases hrun with rfl | herror | ⟨svec, hsvec, hstate⟩
  · exact absurd rfl hne
  · exact .inl herror
  · exact .inr ⟨svec, hsvec, hstate.last_run⟩

end Madlib.Svec
