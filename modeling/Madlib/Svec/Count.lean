import Madlib.Lib.TimedSegments
import Madlib.Svec.Mean

/-!
# Adding the elements that are not zero

`svec_count` adds a 1 for each element of an svec that is neither 0 nor NVP.  Whenever its left
argument is a scalar 0, it takes a zero vector of the size of the svec in its place.  `svec_plus`
repeats a scalar over the other argument.
-/

namespace Madlib.Svec

open Madlib.Backend Madlib.Lib Madlib.Lib.MachineInt Madlib.Lib.RunLength Madlib.Lib.Segments
open CountCode
open Madlib.AssocRules (one HoldsRuns Packed.of_sameData)

/-! ## svec_count -/

/-- The element is counted. -/
def isCounted (v : Float8) : Bool := !float8Eq v 0 && v != NVP

def clamp (v : Float8) : Float8 := if isCounted v then one else 0

/-- The left operand: the state, or a zero vector if it looks like the first one. -/
def countLeft (bytestore : List UInt8) (svec1 : SvecType) (right : SparseData) :
    Except Fault SparseData := do
  let left := sdataFromSvec svec1
  if svec1.isScalar then do
    let first ← valref left 0
    if float8Eq first 0 then
      makeSparseDataFromDouble bytestore 0 (Int64.ofInt right.totalValueCount.toInt)
    else pure left
  else pure left

/-- A copy of the values, capped, with the index of the svec itself. -/
def clampedSdata (right : SparseData) : Except Fault SparseData := do
  palloc (8 * right.uniqueValueCount)
  let vals ← applyToVals clamp right.uniqueValueCount right.vals
  pure (makeInplaceSparseData (vals.take right.uniqueValueCount) right.index.data
    right.uniqueValueCount right.totalValueCount)

def countOperands (bytestore : List UInt8) (svec1 svec2 : SvecType) :
    Except Fault (SparseData × SparseData) := do
  let right := sdataFromSvec svec2
  let left ← countLeft bytestore svec1 right
  if left.totalValueCount ≠ right.totalValueCount then
    .error (.ereport .invalidParameterValue
      ("Array dimension of inputs are not the same: " ++
        s!"dim1={left.totalValueCount.toInt}, dim2={right.totalValueCount.toInt}\n"))
  else do
    let rightClamped ← clampedSdata right
    pure (left, rightClamped)

def svecCount (fuel : Nat) (ops : Arith) (bytestore : List UInt8) (svec1 svec2 : SvecType) :
    Option (Except Fault SvecType) :=
  match countOperands bytestore svec1 svec2 with
  | .error e => some (.error e)
  | .ok (left, rightClamped) =>
      (opSdataBySdata fuel ops .add left rightClamped).map fun result =>
        result >>= fun sdata => svecFromSparsedata sdata true

/-! ## Calls that make an svec -/

/-- The svec of these values fits into an allocation. -/
def Allocates (values : List Float8) : Prop := packedSize values ≤ maxAllocSize

/-- The call returns the svec of these values, or an allocation fails. -/
def Makes (call : Nat → Option (Except Fault SvecType)) (values : List Float8) : Prop :=
  Yields (fun e => e.isRaised = true) call (Allocates values) (HoldsRuns · values)

theorem Packed.makes {sdata : SparseData} {values : List Float8} (h : Packed sdata values)
    {call : Nat → Option (Except Fault SvecType)} (bound : Nat)
    (hcall : ∀ fuel, bound ≤ fuel → call fuel = some (svecFromSparsedata sdata true)) :
    Makes call values := by
  constructor
  · intro hsize
    have ⟨s, hs, hholds⟩ := h.holdsRuns hsize
    refine ⟨s, ⟨bound, fun fuel hfuel => ?_⟩, hholds⟩
    rw [hcall fuel hfuel, hs]
  · intro hsize
    refine ⟨.elog "invalid memory alloc request size", ⟨bound, fun fuel hfuel => ?_⟩, rfl⟩
    rw [hcall fuel hfuel, h.svecFromSparsedata_error (Nat.lt_of_not_le hsize)]

theorem opSdataBySdata_makes (ops : Arith) {left right : SparseData} (hl : WellFormed left)
    (hr : WellFormed right) (htotal : left.totalValueCount = right.totalValueCount)
    {call : Nat → Option (Except Fault SvecType)}
    (hcall : ∀ fuel, call fuel = (opSdataBySdata fuel ops .add left right).map fun result =>
      result >>= fun sdata => svecFromSparsedata sdata true) :
    Makes call (List.zipWith (ops .add) left.dense right.dense) := by
  have ⟨s, bound, hret, hpacked⟩ := opSdataBySdata_packed ops .add hl hr htotal
  refine hpacked.makes bound fun fuel hfuel => ?_
  rw [hcall, hret fuel hfuel]
  rfl

/-! ## One svec -/

/-- One run of a constant. -/
theorem makeSparseDataFromDouble_dense (bytestore : List UInt8) (constant : Float8) {n : Int32}
    (hpositive : 1 ≤ n.toInt) :
    ∃ s, makeSparseDataFromDouble bytestore constant (Int64.ofInt n.toInt) = .ok s ∧
      WellFormed s ∧ s.dense = List.replicate n.toInt.toNat constant ∧ s.totalValueCount = n := by
  have hmax := (int32_mem n).2
  have hint : (Int64.ofInt n.toInt).toInt = n.toInt :=
    Int64.toInt_ofInt_of_le (by omega) (by omega)
  have hentry : IsEntry (int8ToCompword n.toInt) n.toInt.toNat :=
    isEntry_int8ToCompword (by omega) (by omega)
  have ⟨sdata, bytes, hsdata, hvals, hunique, hindex⟩ := float8arrToSdata_singleton constant
  let needed := (int8ToCompword n.toInt).length + 1
  let s : SparseData := { sdata with
    index := { sdata.index with
      data := some (int8ToCompword n.toInt)
      maxlen := enlarged needed needed sdata.index.maxlen }
    totalValueCount := Int32.ofInt n.toInt }
  have hruns : HasRuns s [n.toInt.toNat] :=
    ⟨walks_entry hentry, hunique.symm, (congrArg List.length hvals).trans hunique.symm⟩
  have htotal : s.totalValueCount.toInt = n.toInt := by
    show (Int32.ofInt n.toInt).toInt = n.toInt
    rw [int32_toInt_ofInt, toInt32_of_mem (by omega) (by omega)]
  refine ⟨s, ?_, ⟨⟨_, hruns, ?_, ?_⟩, ?_⟩, ?_, Int32.toInt_inj.mp htotal⟩
  · rw [makeSparseDataFromDouble, hsdata, ok_bind, hint, entryIn_of_isEntry hentry, ok_bind, hindex,
      Option.map_some]
    simp only [appendBinaryStringInfo, List.length_nil, Nat.zero_add, List.nil_append, ok_bind]
    rfl
  · intro m hm
    rw [List.mem_singleton.mp hm]
    omega
  · rw [htotal, List.sum_singleton]
    omega
  · omega
  · rw [hruns.dense_eq, show s.vals = [constant] from hvals, expand_singleton]

theorem clampedSdata_eq {svec : SvecType} (h : WellFormed (sdataFromSvec svec)) :
    ∃ s, clampedSdata (sdataFromSvec svec) = .ok s ∧ WellFormed s ∧
      s.dense = (sdataFromSvec svec).dense.map clamp ∧
      s.totalValueCount = svec.totalValueCount := by
  have ⟨runs, hruns, hpositive, htotal⟩ := h.exists_runs
  have hvals : 8 * (sdataFromSvec svec).uniqueValueCount ≤ maxAllocSize := by
    rw [← hruns.length_vals]
    exact svec.size_vals_le
  let s := makeInplaceSparseData ((sdataFromSvec svec).vals.map clamp)
    (sdataFromSvec svec).index.data (sdataFromSvec svec).uniqueValueCount svec.totalValueCount
  have hsruns : HasRuns s runs :=
    ⟨hruns.index, hruns.length_runs, (List.length_map _).trans hruns.length_vals⟩
  refine ⟨s, ?_, ⟨⟨runs, hsruns, hpositive, htotal⟩, h.one_le_total⟩, ?_, rfl⟩
  · rw [clampedSdata, palloc_ok hvals, ok_bind, ← hruns.length_vals, applyToVals_length, ok_bind,
      List.take_of_length_le (by rw [List.length_map])]
    show Except.ok _ = Except.ok s
    rw [hruns.length_vals]
    rfl
  · rw [hsruns.dense_eq, hruns.dense_eq, ← map_expand]
    rfl

/-- A zero vector is taken in the place of a scalar that is 0. -/
def countBase (state values : List Float8) : List Float8 :=
  match state with
  | [first] => if float8Eq first 0 then List.replicate values.length 0 else state
  | _ => state

theorem countBase_vector {state : List Float8} (values : List Float8) (h : state.length ≠ 1) :
    countBase state values = state := by
  unfold countBase
  split
  · exact absurd rfl h
  · rfl

theorem isScalar_of_holdsRuns {svec : SvecType} {values : List Float8}
    (h : HoldsRuns svec values) : svec.isScalar = true ↔ svec.totalValueCount = 1 := by
  rw [isScalar_sdataFromSvec h.valid, isScalar_iff h.wellFormed]
  rfl

theorem total_eq_one_iff {svec : SvecType} {values : List Float8} (h : HoldsRuns svec values) :
    svec.totalValueCount = 1 ↔ values.length = 1 := by
  have htotal := h.total_eq
  have hone : (1 : Int32).toInt = 1 := rfl
  rw [← Int32.toInt_inj, htotal, hone]
  omega

theorem scalar_of_holdsRuns {svec : SvecType} {x : Float8} (h : HoldsRuns svec [x]) :
    svec.isScalar = true ∧ (sdataFromSvec svec).vals = [x] := by
  have hone := (total_eq_one_iff h).mpr rfl
  have ⟨x', hvals, hdense, _⟩ := h.wellFormed.scalar hone
  rw [h.packed.dense_eq] at hdense
  cases hdense
  exact ⟨(isScalar_of_holdsRuns h).mpr hone, hvals⟩

theorem vector_of_holdsRuns {svec : SvecType} {values : List Float8} (h : HoldsRuns svec values)
    (hvector : values.length ≠ 1) : svec.isScalar = false := by
  rw [Bool.eq_false_iff, ne_eq, isScalar_of_holdsRuns h, total_eq_one_iff h]
  exact hvector

theorem countLeft_eq (bytestore : List UInt8) {svec1 svec2 : SvecType} {state : List Float8}
    (hstate : HoldsRuns svec1 state) (h : WellFormed (sdataFromSvec svec2)) :
    ∃ left, countLeft bytestore svec1 (sdataFromSvec svec2) = .ok left ∧ WellFormed left ∧
      left.dense = countBase state (sdataFromSvec svec2).dense := by
  have hscalar := isScalar_of_holdsRuns hstate
  have hlength := total_eq_one_iff hstate
  by_cases hone : svec1.totalValueCount = 1
  · obtain ⟨first, hvals, hdense, _⟩ := hstate.wellFormed.scalar hone
    have hfirst : state = [first] := hstate.packed.dense_eq.symm.trans hdense
    subst hfirst
    have hread : valref (sdataFromSvec svec1) 0 = .ok first := valref_first hvals
    unfold countLeft countBase
    dsimp only
    rw [if_pos (hscalar.mpr hone), hread, ok_bind]
    split_ifs
    · obtain ⟨s, hs, hwell, hzeros, _⟩ :=
        makeSparseDataFromDouble_dense bytestore 0 h.one_le_total
      refine ⟨s, hs, hwell, ?_⟩
      have hsize := h.truthful.length_dense
      rw [hzeros, ← hsize, Int.toNat_natCast]
    · exact ⟨_, rfl, hstate.wellFormed, hdense⟩
  · refine ⟨sdataFromSvec svec1, ?_, hstate.wellFormed, ?_⟩
    · unfold countLeft
      dsimp only
      rw [if_neg (mt hscalar.mp hone)]
      rfl
    · rw [hstate.packed.dense_eq, countBase_vector _ (mt hlength.mpr hone)]

section Operands

variable (ops : Arith) (bytestore : List UInt8) {svec1 svec2 : SvecType} {state : List Float8}
  (hstate : HoldsRuns svec1 state) (h : WellFormed (sdataFromSvec svec2))
include hstate h

/-- The svec is added where it is counted, if it has the size of the state. -/
theorem svecCount_makes (hlength : (countBase state (sdataFromSvec svec2).dense).length =
      (sdataFromSvec svec2).dense.length) :
    Makes (fun fuel => svecCount fuel ops bytestore svec1 svec2)
      (List.zipWith (ops .add) (countBase state (sdataFromSvec svec2).dense)
        ((sdataFromSvec svec2).dense.map clamp)) := by
  have ⟨left, hleft, hlwell, hldense⟩ := countLeft_eq bytestore hstate h
  have ⟨right, hright, hrwell, hrdense, hrtotal⟩ := clampedSdata_eq h
  have htotal : left.totalValueCount = (sdataFromSvec svec2).totalValueCount := by
    rw [← Int32.toInt_inj, ← hlwell.truthful.length_dense, ← h.truthful.length_dense, hldense,
      hlength]
  have hoperands : countOperands bytestore svec1 svec2 = .ok (left, right) := by
    unfold countOperands
    dsimp only
    rw [hleft, ok_bind, if_neg (not_not_intro htotal), hright]
    rfl
  rw [← hldense, ← hrdense]
  refine opSdataBySdata_makes ops hlwell hrwell (htotal.trans hrtotal.symm) fun fuel => ?_
  unfold svecCount
  rw [hoperands]

theorem svecCount_mismatch (hlength : (countBase state (sdataFromSvec svec2).dense).length ≠
      (sdataFromSvec svec2).dense.length) :
    ∃ e, Settles (fun fuel => svecCount fuel ops bytestore svec1 svec2) (.error e) ∧
      e.isRaised = true := by
  have ⟨left, hleft, hlwell, hldense⟩ := countLeft_eq bytestore hstate h
  have htotal : left.totalValueCount ≠ (sdataFromSvec svec2).totalValueCount := by
    intro hsame
    have hlengths := hlwell.truthful.length_dense
    rw [hsame, ← h.truthful.length_dense, hldense] at hlengths
    exact hlength (Int.ofNat_inj.mp hlengths)
  have hoperands : ∃ e, countOperands bytestore svec1 svec2 = .error e ∧ e.isRaised = true := by
    unfold countOperands
    dsimp only
    rw [hleft, ok_bind, if_pos htotal]
    exact ⟨_, rfl, rfl⟩
  have ⟨e, he, hraised⟩ := hoperands
  refine ⟨e, ⟨0, fun fuel _ => ?_⟩, hraised⟩
  show svecCount fuel ops bytestore svec1 svec2 = some (.error e)
  unfold svecCount
  rw [he]

end Operands

/-! ## svec_plus -/

section Plus

variable (ops : Arith) {svec1 svec2 : SvecType} {xs ys : List Float8} {x y : Float8}

theorem svecMakeScalar_holdsRuns (value : Float8) :
    ∃ s, svecMakeScalar value = .ok s ∧ HoldsRuns s [value] := by
  have ⟨sdata, hsdata, hpacked⟩ := float8arrToSdata_spec (List.cons_ne_nil value []) (by simp)
  have ⟨s, hs, hholds⟩ := hpacked.holdsRuns (packedSize_singleton_le value)
  have hone : s.totalValueCount = 1 := (total_eq_one_iff hholds).mpr rfl
  have hdimension := hholds.dimension_eq
  rw [if_pos hone] at hdimension
  refine ⟨s, ?_, hholds⟩
  rw [svecMakeScalar, hsdata, ok_bind, hs, ok_bind, ← hdimension]
  rfl

/-- Two scalars make a scalar. -/
theorem svecPlus_scalars (h1 : HoldsRuns svec1 [x]) (h2 : HoldsRuns svec2 [y]) :
    Makes (fun fuel => svecPlus fuel ops svec1 svec2) [ops .add x y] := by
  have ⟨hs1, hx⟩ := scalar_of_holdsRuns h1
  have ⟨hs2, hy⟩ := scalar_of_holdsRuns h2
  have ⟨s, hs, hholds⟩ := svecMakeScalar_holdsRuns (ops .add x y)
  have hsize := packedSize_singleton_le (ops .add x y)
  have hreadx : valref (sdataFromSvec svec1) 0 = .ok x := valref_first hx
  have hready : valref (sdataFromSvec svec2) 0 = .ok y := valref_first hy
  constructor
  · intro _
    refine ⟨s, ⟨0, fun fuel _ => ?_⟩, hholds⟩
    show svecPlus fuel ops svec1 svec2 = some (.ok s)
    unfold svecPlus svecBySvec opSvecBySvecInternal
    rw [checkDimension_ok (.inl hs1), hs1, hs2]
    show some (valref (sdataFromSvec svec1) 0 >>= fun x => valref (sdataFromSvec svec2) 0 >>=
      fun y => svecMakeScalar (ops .add x y)) = _
    rw [hreadx, ok_bind, hready, ok_bind, hs]
  · intro hlarge
    exact absurd hsize hlarge

theorem svecPlus_vectors (h1 : HoldsRuns svec1 xs) (h2 : HoldsRuns svec2 ys)
    (hlength : xs.length = ys.length) (hvector : xs.length ≠ 1) :
    Makes (fun fuel => svecPlus fuel ops svec1 svec2) (List.zipWith (ops .add) xs ys) := by
  have htotal := h1.total_congr h2 hlength
  have hs1 := vector_of_holdsRuns h1 hvector
  have hs2 := vector_of_holdsRuns h2 (hlength ▸ hvector)
  have hdimension : svec1.dimension = svec2.dimension := by
    rw [h1.dimension_eq, h2.dimension_eq, htotal]
  rw [← h1.packed.dense_eq, ← h2.packed.dense_eq]
  refine opSdataBySdata_makes ops h1.wellFormed h2.wellFormed htotal fun fuel => ?_
  unfold svecPlus svecBySvec opSvecBySvecInternal
  rw [checkDimension_ok (.inr (.inr hdimension)), hs1, hs2]
  rfl

/-- A scalar that changes no value leaves a copy. -/
theorem opSdataByScalarCopy_same {sdata : SparseData} {values scalars : List Float8}
    {scalarIsRight : Bool} (h : Packed sdata values)
    (hsame : ∀ v ∈ values, (if scalarIsRight then ops .add v x else ops .add x v) = v) :
    ∃ s, opSdataByScalarCopy ops .add (x :: scalars) sdata scalarIsRight = .ok s ∧
      Packed s values := by
  let f := fun v => if scalarIsRight then ops .add v x else ops .add x v
  have ⟨runs, hruns, hpositive, _⟩ := h.wellFormed.exists_runs
  have hlength := hruns.length_runs.trans hruns.length_vals.symm
  have hvals : sdata.vals.map f = sdata.vals := by
    calc sdata.vals.map f = sdata.vals.map id := by
          apply List.map_congr_left
          intro v hv
          have hmem := mem_expand hpositive hlength hv
          rw [← hruns.dense_eq, h.dense_eq] at hmem
          exact hsame v hmem
      _ = sdata.vals := List.map_id _
  have happly : applyToVals f sdata.uniqueValueCount sdata.vals = .ok sdata.vals := by
    rw [← hruns.length_vals, applyToVals_length, hvals]
  refine ⟨makeSparseDataCopy sdata, ?_, Packed.of_sameData h ⟨rfl, rfl, rfl, rfl⟩⟩
  have hcopies : (makeSparseDataCopy sdata).uniqueValueCount = sdata.uniqueValueCount ∧
      (makeSparseDataCopy sdata).vals = sdata.vals := ⟨rfl, rfl⟩
  unfold opSdataByScalarCopy opSdataByScalarInplace
  rw [hcopies.1, hcopies.2]
  by_cases hzero : sdata.uniqueValueCount = 0
  · rw [if_pos hzero]
  · rw [if_neg hzero]
    dsimp only
    rw [happly]
    rfl

theorem svecPlus_left (h1 : HoldsRuns svec1 [x]) (h2 : HoldsRuns svec2 ys)
    (hvector : ys.length ≠ 1) (hsame : ∀ v ∈ ys, ops .add x v = v) :
    Makes (fun fuel => svecPlus fuel ops svec1 svec2) ys := by
  have ⟨hs1, hx⟩ := scalar_of_holdsRuns h1
  have hs2 := vector_of_holdsRuns h2 hvector
  have ⟨s, hs, hpacked⟩ := @opSdataByScalarCopy_same ops x _ _ [] false h2.packed hsame
  refine hpacked.makes 0 fun fuel _ => ?_
  unfold svecPlus svecBySvec opSvecBySvecInternal
  rw [checkDimension_ok (.inl hs1), hs1, hs2]
  show some (opSdataByScalarCopy ops .add (sdataFromSvec svec1).vals (sdataFromSvec svec2) false >>=
    fun sdata => svecFromSparsedata sdata true) = _
  rw [hx, hs, ok_bind]

theorem svecPlus_right (h1 : HoldsRuns svec1 xs) (h2 : HoldsRuns svec2 [y])
    (hvector : xs.length ≠ 1) (hsame : ∀ v ∈ xs, ops .add v y = v) :
    Makes (fun fuel => svecPlus fuel ops svec1 svec2) xs := by
  have hs1 := vector_of_holdsRuns h1 hvector
  have ⟨hs2, hy⟩ := scalar_of_holdsRuns h2
  have ⟨s, hs, hpacked⟩ := @opSdataByScalarCopy_same ops y _ _ [] true h1.packed hsame
  refine hpacked.makes 0 fun fuel _ => ?_
  unfold svecPlus svecBySvec opSvecBySvecInternal
  rw [checkDimension_ok (.inr (.inl hs2)), hs1, hs2]
  show some (opSdataByScalarCopy ops .add (sdataFromSvec svec2).vals (sdataFromSvec svec1) true >>=
    fun sdata => svecFromSparsedata sdata true) = _
  rw [hy, hs, ok_bind]

end Plus

end Madlib.Svec
