import Madlib.Lib.Loop
import Madlib.Svec.Canonical
import Madlib.Svec.Reductions

/-!
# Reading an svec

`svec_unnest` returns the elements of an svec as rows, one a call, and keeps its place between the
calls; `svec_proj` walks over the runs up to an element; `svec_return_array` returns all elements
in an array.
-/

namespace Madlib.Svec

open Madlib.Backend Madlib.Lib Madlib.Lib.MachineInt Madlib.Lib.RunLength CountCode

/-! ## svec_unnest -/

/-- `svec_unnest_fctx` -/
structure UnnestFctx where
  sdata : SparseData
  dimension : Int
  absoluteValuePosition : Int
  uniqueValuePosition : Nat
  runPosition : Int
  indexPosition : IndexPtr

/-- What the first call sets up. -/
def unnestInit (svec : SvecType) : UnnestFctx where
  sdata := sdataFromSvec svec
  dimension := if svec.dimension = -1 then 1 else svec.dimension.toInt
  absoluteValuePosition := 0
  uniqueValuePosition := 0
  runPosition := 1
  indexPosition := (sdataFromSvec svec).index.data

/-- One call: a row, or nothing when there is none left.  The last call, too, reads an entry, from
behind the index, but does not use it. -/
def unnestCall (fctx : UnnestFctx) : Except Fault (Option (Option Float8 × UnnestFctx)) :=
  let runLength := (compwordToInt8 fctx.indexPosition).map toInt32
  if fctx.dimension > fctx.absoluteValuePosition then do
    let result ← valref fctx.sdata fctx.uniqueValuePosition
    let runLength ← runLength
    let fctx := { fctx with
      absoluteValuePosition := fctx.absoluteValuePosition + 1
      runPosition := fctx.runPosition + 1 }
    if fctx.runPosition > runLength then do
      let indexPosition ← advance fctx.indexPosition
      let fctx := { fctx with
        runPosition := 1
        uniqueValuePosition := fctx.uniqueValuePosition + 1
        indexPosition }
      pure (some (returnFloat8 result, fctx))
    else pure (some (returnFloat8 result, fctx))
  else pure none

/-- The rows of at most so many calls, and whether the last of them said that there are no more. -/
def unnestCalls : Nat → UnnestFctx → Except Fault (List (Option Float8) × Bool)
  | 0, _ => .ok ([], false)
  | calls + 1, fctx => do
      match ← unnestCall fctx with
      | none => pure ([], true)
      | some (row, fctx) => do
          let (rows, done) ← unnestCalls calls fctx
          pure (row :: rows, done)

def svecUnnest (svec : SvecType) (calls : Nat) : Except Fault (List (Option Float8) × Bool) :=
  unnestCalls calls (unnestInit svec)

/-! ## svec_proj -/

/-- The number of elements up to the end of a run, where its entry is, and its number. -/
structure ProjState where
  read : Int
  ix : IndexPtr
  i : Nat

def projRound (idx : Int) (st : ProjState) : Except Fault (Loop.Step ProjState Nat) :=
  if st.read < idx then do
    let ix ← advance st.ix
    let runLength ← compwordToInt8 ix
    pure (.next { read := toInt32 (st.read + runLength), ix, i := st.i + 1 })
  else pure (.done st.i)

def sdProj (fuel : Nat) (sdata : SparseData) (idx : Int) : Option (Except Fault Float8) :=
  if 0 ≥ idx ∨ idx > sdata.totalValueCount.toInt then
    some (.error (.ereport .invalidParameterValue "Index out of bounds."))
  else
    match compwordToInt8 sdata.index.data with
    | .error e => some (.error e)
    | .ok runLength =>
        (Loop.run (projRound idx) fuel
          { read := toInt32 runLength, ix := sdata.index.data, i := 0 }).map fun i =>
            i >>= valref sdata

def svecProj (fuel : Nat) (sv : Option SvecType) (idx : Int) :
    Option (Except Fault (Option Float8)) :=
  match sv with
  | none => some (.ok none)
  | some sv => (sdProj fuel (sdataFromSvec sv) idx).map fun ret => ret.map returnFloat8

/-! ## The rows -/

/-- `rest` is what is left of the elements: the run at `indexPosition` from `runPosition` on, and
the runs behind it. -/
structure UnnestAt (fctx : UnnestFctx) (rest : List Float8) : Prop where
  length_eq : fctx.dimension - fctx.absoluteValuePosition = rest.length
  place : rest = [] ∨ ∃ n runs v vals, ∃ p < n,
    IndexRuns fctx.indexPosition (n :: runs) ∧
    fctx.sdata.vals.drop fctx.uniqueValuePosition = v :: vals ∧ runs.length = vals.length ∧
    (∀ m ∈ n :: runs, 0 < m ∧ m < 2147483648) ∧ fctx.runPosition = (p : Int) + 1 ∧
    rest = List.replicate (n - p) v ++ expand runs vals

theorem unnestCall_done {fctx : UnnestFctx} (h : UnnestAt fctx []) : unnestCall fctx = .ok none := by
  have hlength := h.length_eq
  rw [List.length_nil, Nat.cast_zero] at hlength
  rw [unnestCall, if_neg (by omega)]
  rfl

/-- The cursors move on by one element. -/
theorem unnestCall_next {fctx : UnnestFctx} {x : Float8} {rest : List Float8}
    (h : UnnestAt fctx (x :: rest)) :
    ∃ fctx', unnestCall fctx = .ok (some (returnFloat8 x, fctx')) ∧ UnnestAt fctx' rest := by
  have hlength := h.length_eq
  rw [List.length_cons] at hlength
  rcases h.place with hnil | ⟨n, runs, v, vals, p, hp, hindex, hdrop, hlengths, hbounds, hrun, hrest⟩
  · cases hnil
  · have ⟨hread, ptr, hadvance, hindex'⟩ := hindex.read
    have ⟨hv, hdrop'⟩ := valref_of_drop hdrop
    have ⟨⟨_, hlt⟩, hbounds'⟩ := List.forall_mem_cons.mp hbounds
    have hfirst : x = v ∧ rest = List.replicate (n - p - 1) v ++ expand runs vals := by
      have hsucc : n - p = (n - p - 1) + 1 := by omega
      rw [hsucc, List.replicate_succ, List.cons_append, List.cons.injEq] at hrest
      exact hrest
    have ⟨hx, hrest'⟩ := hfirst
    subst hx
    have hlength' : fctx.dimension - (fctx.absoluteValuePosition + 1) = rest.length := by
      push_cast at hlength
      omega
    have hrunLength : (compwordToInt8 fctx.indexPosition).map toInt32 = .ok (n : Int) := by
      rw [hread]
      exact congrArg Except.ok (toInt32_of_mem (by omega) (by omega))
    have hmore : fctx.dimension > fctx.absoluteValuePosition := by omega
    rw [unnestCall, hrunLength, if_pos hmore, hv, ok_bind, ok_bind, hrun]
    by_cases hend : (p : Int) + 1 + 1 > n
    -- the run is used up
    · rw [if_pos hend, hadvance, ok_bind]
      refine ⟨_, rfl, hlength', ?_⟩
      have hzero : n - p - 1 = 0 := by omega
      rw [hzero, List.replicate_zero, List.nil_append] at hrest'
      cases runs with
      | nil => exact .inl (hrest'.trans (expand_nil vals))
      | cons m runs =>
          have ⟨w, vals', hvals⟩ := List.exists_of_length_succ vals hlengths.symm
          subst hvals
          have hm := (hbounds' m List.mem_cons_self).1
          refine .inr ⟨m, runs, w, vals', 0, hm, hindex', hdrop', Nat.succ.inj hlengths, hbounds',
            rfl, ?_⟩
          rw [hrest', expand_cons, Nat.sub_zero]
    · rw [if_neg hend]
      refine ⟨_, rfl, hlength', .inr ⟨n, runs, x, vals, p + 1, by omega, hindex, hdrop, hlengths,
        hbounds, ?_, ?_⟩⟩
      · push_cast
        rfl
      · rw [hrest', Nat.sub_sub]

/-- As many calls as there are elements return them; the next one returns no row. -/
theorem unnestCalls_eq {fctx : UnnestFctx} {rest : List Float8} (h : UnnestAt fctx rest)
    (calls : Nat) :
    unnestCalls calls fctx =
      .ok ((rest.take calls).map returnFloat8, decide (rest.length < calls)) := by
  induction calls generalizing fctx rest with
  | zero => rfl
  | succ calls ih =>
      cases rest with
      | nil =>
          rw [unnestCalls, unnestCall_done h, ok_bind]
          rfl
      | cons x rest =>
          have ⟨fctx', hcall, hnext⟩ := unnestCall_next h
          rw [unnestCalls, hcall, ok_bind]
          dsimp only
          rw [ih hnext, ok_bind, List.length_cons]
          simp

/-- The header says how many elements there are. -/
def TruthfulHeader (svec : SvecType) : Prop :=
  svec.dimension = svec.totalValueCount ∨ (svec.dimension = -1 ∧ svec.totalValueCount = 1)

theorem unnestAt_init {svec : SvecType} (h : WellFormed (sdataFromSvec svec))
    (hheader : TruthfulHeader svec) : UnnestAt (unnestInit svec) (sdataFromSvec svec).dense := by
  have ⟨runs, hruns, hpositive, htotal⟩ := h.exists_runs
  have hlengths := hruns.length_runs.trans hruns.length_vals.symm
  have hdense := h.truthful.length_dense
  have hone : 1 ≤ svec.totalValueCount.toInt := h.one_le_total
  have hmax := (int32_mem svec.totalValueCount).2
  constructor
  · show (if svec.dimension = -1 then 1 else svec.dimension.toInt) - 0 = _
    have htotal' : (sdataFromSvec svec).totalValueCount = svec.totalValueCount := rfl
    rw [hdense, htotal']
    rcases hheader with hsame | ⟨hscalar, htotal1⟩
    · have hne : svec.dimension ≠ -1 := by
        intro hscalar
        rw [← hsame, hscalar] at hone
        exact absurd hone (by decide)
      rw [if_neg hne, hsame, sub_zero]
    · rw [if_pos hscalar, htotal1]
      rfl
  · right
    rw [hruns.dense_eq]
    cases runs with
    | nil =>
        have hzero : svec.totalValueCount.toInt = 0 := htotal
        omega
    | cons n runs =>
        have ⟨v, vals, hvals⟩ := List.exists_of_length_succ _ hlengths.symm
        have hbounds : ∀ m ∈ n :: runs, 0 < m ∧ m < 2147483648 := by
          intro m hm
          have hle := List.le_sum_of_mem hm
          have htotal' : svec.totalValueCount.toInt = ((n :: runs).sum : Nat) := htotal
          exact ⟨hpositive m hm, by omega⟩
        rw [hvals, expand_cons]
        rw [hvals] at hlengths
        exact ⟨n, runs, v, vals, 0, hpositive n List.mem_cons_self, hruns.index, hvals,
          Nat.succ.inj hlengths, hbounds, rfl, rfl⟩

/-! ## The projections -/

/-- The run `i` holds the element `idx`, or one of the runs behind it. -/
def ProjInv (sdata : SparseData) (idx : Int) (st : ProjState) : Prop :=
  ∃ (before n : Nat) (runs : List Nat) (v : Float8) (vals : List Float8), IndexRuns st.ix (n :: runs) ∧
    sdata.vals.drop st.i = v :: vals ∧ runs.length = vals.length ∧
    st.read = before + (n : Int) ∧ (before : Int) < idx ∧
    (before : Int) + n + (runs.sum : Nat) = sdata.totalValueCount.toInt ∧
    sdata.dense.drop before = List.replicate n v ++ expand runs vals

theorem projRound_spec {sdata : SparseData} {idx : Int} (hidx : idx ≤ sdata.totalValueCount.toInt)
    {st : ProjState} (h : ProjInv sdata idx st) :
    (∃ st', projRound idx st = .ok (.next st') ∧ ProjInv sdata idx st' ∧
        sdata.vals.length - st'.i < sdata.vals.length - st.i) ∨
      ∃ i, projRound idx st = .ok (.done i) ∧
        valref sdata i = .ok (sdata.dense.getD (idx - 1).toNat NVP) := by
  have ⟨before, n, runs, v, vals, hindex, hdrop, hlengths, hread, hlt, htotal, hdense⟩ := h
  have ⟨_, ptr, hadvance, hindex'⟩ := hindex.read
  have ⟨hv, hdrop'⟩ := valref_of_drop hdrop
  have hmax := (int32_mem sdata.totalValueCount).2
  by_cases hmore : st.read < idx
  -- the element lies behind this run, so there is another one
  · left
    cases runs with
    | nil =>
        rw [List.sum_nil, Nat.cast_zero] at htotal
        omega
    | cons m runs =>
        have ⟨w, vals', hvals⟩ := List.exists_of_length_succ vals hlengths.symm
        subst hvals
        rw [List.sum_cons, Nat.cast_add] at htotal
        have hsum : toInt32 (st.read + m) = st.read + m := toInt32_of_mem (by omega) (by omega)
        have hi : st.i < sdata.vals.length := by
          have hlength := congrArg List.length hdrop
          rw [List.length_drop, List.length_cons] at hlength
          omega
        refine ⟨⟨toInt32 (st.read + m), ptr, st.i + 1⟩, ?_, ⟨before + n, m, runs, w, vals', hindex',
          hdrop', Nat.succ.inj hlengths, ?_, ?_, ?_, ?_⟩, ?_⟩
        · rw [projRound, if_pos hmore, hadvance, ok_bind, hindex'.read.1, ok_bind]
          rfl
        · show toInt32 (st.read + m) = _
          rw [hsum, hread]
          push_cast
          ring
        · rw [Nat.cast_add]
          omega
        · rw [Nat.cast_add]
          omega
        · rw [← List.drop_drop, hdense, List.drop_left' (List.length_replicate), expand_cons]
        · show sdata.vals.length - (st.i + 1) < sdata.vals.length - st.i
          omega
  · right
    refine ⟨st.i, ?_, ?_⟩
    · rw [projRound, if_neg hmore]
      rfl
    · have hplace : (idx - 1).toNat = before + (idx - 1 - before).toNat := by omega
      have hinside : (idx - 1 - before).toNat < n := by omega
      rw [hv, List.getD_eq_getElem?_getD, hplace, ← List.getElem?_drop, hdense,
        List.getElem?_append_left (by rw [List.length_replicate]; exact hinside),
        List.getElem?_replicate, if_pos hinside]
      rfl

theorem projInv_init {sdata : SparseData} (h : WellFormed sdata) {idx : Int} (hidx : 0 < idx) :
    ∃ runLength, compwordToInt8 sdata.index.data = .ok runLength ∧
      ProjInv sdata idx { read := toInt32 runLength, ix := sdata.index.data, i := 0 } := by
  have ⟨runs, hruns, _, htotal⟩ := h.exists_runs
  have hlengths := hruns.length_runs.trans hruns.length_vals.symm
  have hone := h.one_le_total
  have hmax := (int32_mem sdata.totalValueCount).2
  cases runs with
  | nil =>
      rw [List.sum_nil, Nat.cast_zero] at htotal
      omega
  | cons n runs =>
      have ⟨v, vals, hvals⟩ := List.exists_of_length_succ _ hlengths.symm
      have hdense := hruns.dense_eq
      rw [hvals] at hlengths hdense
      rw [List.sum_cons, Nat.cast_add] at htotal
      refine ⟨n, hruns.index.read.1, 0, n, runs, v, vals, hruns.index, hvals,
        Nat.succ.inj hlengths, ?_, hidx, ?_, ?_⟩
      · show toInt32 n = _
        rw [toInt32_of_mem (by omega) (by omega), Nat.cast_zero, zero_add]
      · rw [Nat.cast_zero, zero_add, htotal]
      · rw [List.drop_zero, hdense, expand_cons]

theorem sdProj_ok {sdata : SparseData} (h : WellFormed sdata) {idx : Int} (hlo : 0 < idx)
    (hhi : idx ≤ sdata.totalValueCount.toInt) :
    ∃ bound, ∀ fuel, bound ≤ fuel →
      sdProj fuel sdata idx = some (.ok (sdata.dense.getD (idx - 1).toNat NVP)) := by
  have ⟨runLength, hread, hinit⟩ := projInv_init h hlo
  have ⟨i, hvalue, bound, hret⟩ := Loop.returns_of_invariant (ProjInv sdata idx)
    (fun st => sdata.vals.length - st.i) _ (fun _ hst => projRound_spec hhi hst) hinit
  refine ⟨bound, fun fuel hfuel => ?_⟩
  rw [sdProj, if_neg (by omega), hread]
  dsimp only
  rw [hret fuel hfuel, Option.map_some, ok_bind, hvalue]

theorem sdProj_error {sdata : SparseData} {idx : Int}
    (h : ¬ (0 < idx ∧ idx ≤ sdata.totalValueCount.toInt)) (fuel : Nat) :
    sdProj fuel sdata idx =
      some (.error (.ereport .invalidParameterValue "Index out of bounds.")) := by
  rw [sdProj, if_pos (by omega)]

/-! ## Three ways to read an svec -/

/-- The rows of `svec_unnest`, the projections and the array of an svec are its elements, NVPs as
NULLs in the first two; `svec_unnest` ends behind the last element, and only the projections
inside the svec return. -/
theorem svec_readers_agree {constructArray : List Float8 → Except Fault ArrayType}
    (hconstruct : ConstructsArray constructArray) {svec : SvecType}
    (h : WellFormed (sdataFromSvec svec)) (hheader : TruthfulHeader svec) :
    ((sdataFromSvec svec).dense.length : Int) = svec.totalValueCount.toInt ∧
    (∀ calls, svecUnnest svec calls = .ok (((sdataFromSvec svec).dense.take calls).map returnFloat8,
      decide ((sdataFromSvec svec).dense.length < calls))) ∧
    (∀ i, (hi : i < (sdataFromSvec svec).dense.length) → ∃ bound, ∀ fuel, bound ≤ fuel →
      svecProj fuel (some svec) (i + 1) =
        some (.ok (returnFloat8 (sdataFromSvec svec).dense[i]))) ∧
    (∀ idx : Int, ¬ (1 ≤ idx ∧ idx ≤ (sdataFromSvec svec).dense.length) → ∀ fuel,
      svecProj fuel (some svec) idx =
        some (.error (.ereport .invalidParameterValue "Index out of bounds."))) ∧
    (24 + 8 * (sdataFromSvec svec).dense.length ≤ maxAllocSize →
      ∃ array, svecReturnArray constructArray svec = .ok array ∧
        array.dims = [(sdataFromSvec svec).dense.length] ∧
        array.elements = (sdataFromSvec svec).dense.map some) := by
  have hlength : ((sdataFromSvec svec).dense.length : Int) = svec.totalValueCount.toInt :=
    h.truthful.length_dense
  refine ⟨hlength, fun calls => unnestCalls_eq (unnestAt_init h hheader) calls, fun i hi => ?_,
    fun idx hidx fuel => ?_, svecReturnArray_spec hconstruct h⟩
  · obtain ⟨bound, hret⟩ := sdProj_ok h (show 0 < (i : Int) + 1 by omega)
      (show (i : Int) + 1 ≤ svec.totalValueCount.toInt by omega)
    refine ⟨bound, fun fuel hfuel => ?_⟩
    have hplace : ((i : Int) + 1 - 1).toNat = i := by omega
    have hret := hret fuel hfuel
    rw [hplace, List.getD_eq_getElem _ _ hi] at hret
    rw [svecProj, hret]
    rfl
  · have hout : ¬ (0 < idx ∧ idx ≤ (sdataFromSvec svec).totalValueCount.toInt) := by
      show ¬ (0 < idx ∧ idx ≤ svec.totalValueCount.toInt)
      omega
    rw [svecProj, sdProj_error hout fuel]
    rfl

/-- The svec `{2,1}:{5,NVP}`. -/
theorem svec_readers_agree_three :
    svecUnnest (tightSvec 3 3 [5, NVP] [254, 255] (by decide)) 4 = .ok ([some 5, some 5, none], true) := by
  have h : WellFormed (sdataFromSvec (tightSvec 3 3 [5, NVP] [254, 255] (by decide))) :=
    ⟨⟨[2, 1], .of_runLengths (by decide) rfl, by decide, by decide⟩, by decide⟩
  have hunnest := (svec_readers_agree constructsArray_constructPlainArray h (.inl rfl)).2.1 4
  have hdense : (sdataFromSvec (tightSvec 3 3 [5, NVP] [254, 255] (by decide))).dense =
      [5, 5, NVP] := by decide
  rw [hdense] at hunnest
  exact hunnest

/-- The array of a long run is not made. -/
theorem svecReturnArray_not_longSvec :
    ¬ ∀ svec, WellFormed (sdataFromSvec svec) → TruthfulHeader svec →
      ∃ array, svecReturnArray constructPlainArray svec = .ok array ∧
        array.elements = (sdataFromSvec svec).dense.map some := by
  intro h
  obtain ⟨array, harray, _⟩ := h longSvec wellFormed_longSvec (.inl rfl)
  have hsize : (maxAllocSize : Int) < 8 * (sdataFromSvec longSvec).totalValueCount.toInt := by decide
  have herror : svecReturnArray constructPlainArray longSvec =
      .error (.elog "invalid memory alloc request size") := by
    rw [svecReturnArray, sdataToFloat8arr_error hsize, error_bind]
  cases herror.symm.trans harray

end Madlib.Svec
