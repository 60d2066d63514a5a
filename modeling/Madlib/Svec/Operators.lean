import Madlib.Svec.ArrayCast
import Madlib.Svec.Pivot

/-!
# Arithmetic operators

Every operation has four versions, one for each choice of svec or float8[] on either side.
The version for two svecs goes by the dimension headers, the others by the counts.
-/

namespace Madlib.Svec

open Madlib.Backend Madlib.Lib Madlib.Lib.MachineInt Madlib.Lib.RunLength CountCode

abbrev Arith := Operation → Float8 → Float8 → Float8

/-! ## Scalars -/

/-- `SDATA_IS_SCALAR` -/
def SparseData.isScalar (sdata : SparseData) : Bool :=
  (sdata.uniqueValueCount : Int) == sdata.totalValueCount.toInt && sdata.totalValueCount == 1

def checkScalar (i1 i2 : Bool) : Nat :=
  if !i1 && !i2 then 0 else if i1 && i2 then 3 else if i1 then 1 else if i2 then 2 else 0

def checkDimension (svec1 svec2 : SvecType) (msg : String) : Except Fault Unit :=
  if !svec1.isScalar && !svec2.isScalar && svec1.dimension != svec2.dimension then
    .error (.ereport .invalidParameterValue
      (s!"{msg}: array dimension of inputs are not the same: " ++
        s!"dim1={svec1.dimension.toInt}, dim2={svec2.dimension.toInt}\n"))
  else .ok ()

def svecMakeScalar (value : Float8) : Except Fault SvecType := do
  let sdata ← float8arrToSdata [value]
  let result ← svecFromSparsedata sdata true
  pure { result with dimension := -1 }

/-- The first `count` values are replaced. -/
def applyToVals (f : Float8 → Float8) : Nat → List Float8 → Except Fault (List Float8)
  | 0, vals => .ok vals
  | _ + 1, [] => .error .outOfBounds
  | count + 1, v :: vals => (applyToVals f count vals).map (f v :: ·)

/-- `scalar` points to the float8s of the other operand, of which the first is used. -/
def opSdataByScalarInplace (arith : Arith) (operation : Operation) (scalar : List Float8)
    (sdata : SparseData) (scalarIsRight : Bool) : Except Fault SparseData :=
  if sdata.uniqueValueCount = 0 then .ok sdata
  else
    match scalar with
    | [] => .error .outOfBounds
    | x :: _ => do
        let f := fun v => if scalarIsRight then arith operation v x else arith operation x v
        let vals ← applyToVals f sdata.uniqueValueCount sdata.vals
        pure { sdata with vals }

def opSdataByScalarCopy (arith : Arith) (operation : Operation) (scalar : List Float8)
    (sourceSdata : SparseData) (scalarIsRight : Bool) : Except Fault SparseData :=
  opSdataByScalarInplace arith operation scalar (makeSparseDataCopy sourceSdata) scalarIsRight

/-! ## The operation on a pair -/

def svecOperateOnSdataPair (fuel : Nat) (arith : Arith) (scalarArgs : Nat) (operation : Operation)
    (left right : SparseData) : Option (Except Fault SvecType) :=
  match scalarArgs with
  | 0 =>
      (opSdataBySdata fuel arith operation left right).map fun result =>
        result >>= fun sdata => svecFromSparsedata sdata true
  | 1 => some do
      let sdata ← opSdataByScalarCopy arith operation left.vals right false
      svecFromSparsedata sdata true
  | 2 => some do
      let sdata ← opSdataByScalarCopy arith operation right.vals left true
      svecFromSparsedata sdata true
  | _ => some do
      let x ← valref left 0
      let y ← valref right 0
      svecMakeScalar (arith operation x y)

def opSvecBySvecInternal (fuel : Nat) (arith : Arith) (operation : Operation)
    (svec1 svec2 : SvecType) : Option (Except Fault SvecType) :=
  svecOperateOnSdataPair fuel arith (checkScalar svec1.isScalar svec2.isScalar) operation
    (sdataFromSvec svec1) (sdataFromSvec svec2)

def sdataUncompressedFromFloat8arr (array : ArrayType) : Except Fault SparseData := do
  let num := arrayGetNItems array.dims
  let vals ← castElements array num
  pure (makeInplaceSparseData vals none num (Int32.ofInt num))

/-! ## The versions of an operator -/

/-- Two svecs, under the name of the operator. -/
def svecBySvec (name : String) (operation : Operation) (fuel : Nat) (arith : Arith)
    (svec1 svec2 : SvecType) : Option (Except Fault SvecType) :=
  match checkDimension svec1 svec2 name with
  | .error e => some (.error e)
  | .ok () => opSvecBySvecInternal fuel arith operation svec1 svec2

inductive Operand where
  | svec (svec : SvecType)
  | float8arr (array : ArrayType)

def Operand.sdata : Operand → Except Fault SparseData
  | .svec s => .ok (sdataFromSvec s)
  | .float8arr a => sdataUncompressedFromFloat8arr a

/-- Operands of which one at least is an array. -/
def operandByOperand (operation : Operation) (fuel : Nat) (arith : Arith) (l r : Operand) :
    Option (Except Fault SvecType) :=
  match l.sdata, r.sdata with
  | .error e, _ => some (.error e)
  | .ok _, .error e => some (.error e)
  | .ok left, .ok right =>
      svecOperateOnSdataPair fuel arith (checkScalar left.isScalar right.isScalar) operation
        left right

section Versions

variable (fuel : Nat) (arith : Arith) (svec1 svec2 svec : SvecType) (arr1 arr2 arr : ArrayType)

def svecMinus := svecBySvec "svec_minus" .subtract fuel arith svec1 svec2
def svecPlus := svecBySvec "svec_plus" .add fuel arith svec1 svec2
def svecMult := svecBySvec "svec_mult" .multiply fuel arith svec1 svec2
def svecDiv := svecBySvec "svec_div" .divide fuel arith svec1 svec2

def float8arrMinusFloat8arr :=
  operandByOperand .subtract fuel arith (.float8arr arr1) (.float8arr arr2)
def float8arrPlusFloat8arr :=
  operandByOperand .add fuel arith (.float8arr arr1) (.float8arr arr2)
def float8arrMultFloat8arr :=
  operandByOperand .multiply fuel arith (.float8arr arr1) (.float8arr arr2)
def float8arrDivFloat8arr :=
  operandByOperand .divide fuel arith (.float8arr arr1) (.float8arr arr2)

def svecMinusFloat8arr := operandByOperand .subtract fuel arith (.svec svec) (.float8arr arr)
def svecPlusFloat8arr := operandByOperand .add fuel arith (.svec svec) (.float8arr arr)
def svecMultFloat8arr := operandByOperand .multiply fuel arith (.svec svec) (.float8arr arr)
def svecDivFloat8arr := operandByOperand .divide fuel arith (.svec svec) (.float8arr arr)

def float8arrMinusSvec := operandByOperand .subtract fuel arith (.float8arr arr) (.svec svec)
def float8arrPlusSvec := operandByOperand .add fuel arith (.float8arr arr) (.svec svec)
def float8arrMultSvec := operandByOperand .multiply fuel arith (.float8arr arr) (.svec svec)
def float8arrDivSvec := operandByOperand .divide fuel arith (.float8arr arr) (.svec svec)

end Versions

/-- The function an operator calls for operands of these types. -/
def applyOperator (operation : Operation) (fuel : Nat) (arith : Arith) (l r : Operand) :
    Option (Except Fault SvecType) :=
  match operation, l, r with
  | .subtract, .svec u, .svec v => svecMinus fuel arith u v
  | .subtract, .svec u, .float8arr b => svecMinusFloat8arr fuel arith u b
  | .subtract, .float8arr a, .svec v => float8arrMinusSvec fuel arith v a
  | .subtract, .float8arr a, .float8arr b => float8arrMinusFloat8arr fuel arith a b
  | .add, .svec u, .svec v => svecPlus fuel arith u v
  | .add, .svec u, .float8arr b => svecPlusFloat8arr fuel arith u b
  | .add, .float8arr a, .svec v => float8arrPlusSvec fuel arith v a
  | .add, .float8arr a, .float8arr b => float8arrPlusFloat8arr fuel arith a b
  | .multiply, .svec u, .svec v => svecMult fuel arith u v
  | .multiply, .svec u, .float8arr b => svecMultFloat8arr fuel arith u b
  | .multiply, .float8arr a, .svec v => float8arrMultSvec fuel arith v a
  | .multiply, .float8arr a, .float8arr b => float8arrMultFloat8arr fuel arith a b
  | .divide, .svec u, .svec v => svecDiv fuel arith u v
  | .divide, .svec u, .float8arr b => svecDivFloat8arr fuel arith u b
  | .divide, .float8arr a, .svec v => float8arrDivSvec fuel arith v a
  | .divide, .float8arr a, .float8arr b => float8arrDivFloat8arr fuel arith a b

/-! ## The dense operation -/

/-- The vector an operand stands for, NULLs as NVPs. -/
def Operand.values : Operand → List Float8
  | .svec s => (sdataFromSvec s).dense
  | .float8arr a => a.elements.map fun v => v.getD NVP

/-- Vectors of one length are combined element by element, and one of length one is combined
with every element of the other. -/
def broadcast (f : Float8 → Float8 → Float8) (a b : List Float8) : Option (List Float8) :=
  if a.length = b.length then some (List.zipWith f a b)
  else
    match a, b with
    | [x], _ => some (b.map (f x))
    | _, [y] => some (a.map fun x => f x y)
    | _, _ => none

/-! ## The scalar path -/

theorem applyToVals_length (f : Float8 → Float8) (vals : List Float8) :
    applyToVals f vals.length vals = .ok (vals.map f) := by
  induction vals with
  | nil => rfl
  | cons v vals ih =>
      rw [List.length_cons, applyToVals, ih]
      rfl

/-- Every value of the copy is combined with the scalar; the runs stay as they are. -/
theorem opSdataByScalarCopy_spec (arith : Arith) (operation : Operation) {sdata : SparseData}
    (h : WellFormed sdata) (x : Float8) (scalars : List Float8) (scalarIsRight : Bool) :
    ∃ s, opSdataByScalarCopy arith operation (x :: scalars) sdata scalarIsRight = .ok s ∧
      WellFormed s ∧ s.trimmedSize = sdata.trimmedSize ∧
      s.dense = sdata.dense.map fun v =>
        if scalarIsRight then arith operation v x else arith operation x v := by
  have ⟨runs, hruns, hpositive, htotal⟩ := h.exists_runs
  have hone := h.one_le_total
  have hcount : sdata.uniqueValueCount ≠ 0 := by
    intro hzero
    have hnil : runs = [] := by
      apply List.length_eq_zero_iff.mp
      rw [hruns.length_runs, hzero]
    rw [htotal, hnil] at hone
    simp at hone
  let f := fun v => if scalarIsRight then arith operation v x else arith operation x v
  have happly : applyToVals f sdata.uniqueValueCount sdata.vals = .ok (sdata.vals.map f) := by
    rw [← hruns.length_vals]
    exact applyToVals_length f sdata.vals
  have hcopy : HasRuns { makeSparseDataCopy sdata with vals := sdata.vals.map f } runs :=
    ⟨hruns.index, hruns.length_runs, (List.length_map _).trans hruns.length_vals⟩
  refine ⟨{ makeSparseDataCopy sdata with vals := sdata.vals.map f }, ?_,
    ⟨⟨runs, hcopy, hpositive, htotal⟩, hone⟩, ?_, ?_⟩
  · unfold opSdataByScalarCopy opSdataByScalarInplace
    have hcopies : (makeSparseDataCopy sdata).uniqueValueCount = sdata.uniqueValueCount ∧
        (makeSparseDataCopy sdata).vals = sdata.vals := ⟨rfl, rfl⟩
    rw [hcopies.1, hcopies.2, if_neg hcount]
    dsimp only
    rw [happly]
    rfl
  · unfold SparseData.trimmedSize SparseData.valsLen
    rw [List.length_map]
    rfl
  · rw [hcopy.dense_eq, hruns.dense_eq, map_expand]

/-- One element makes one run. -/
theorem WellFormed.scalar {sdata : SparseData} (h : WellFormed sdata)
    (hone : sdata.totalValueCount = 1) :
    ∃ x, sdata.vals = [x] ∧ sdata.dense = [x] ∧ sdata.uniqueValueCount = 1 := by
  have ⟨runs, hruns, hpositive, htotal⟩ := h.exists_runs
  have hsum : runs.sum = 1 := by
    rw [hone] at htotal
    have hcast : (Int32.toInt 1 : Int) = 1 := by decide
    omega
  have hlen := length_le_sum hpositive
  have hlength : runs.length = 1 := by
    by_contra hne
    have hnil : runs = [] := List.length_eq_zero_iff.mp (by omega)
    rw [hnil] at hsum
    simp at hsum
  have ⟨n, hn⟩ := List.length_eq_one_iff.mp hlength
  have hunique : sdata.uniqueValueCount = 1 := hruns.length_runs.symm.trans hlength
  have ⟨x, hx⟩ := List.length_eq_one_iff.mp (hruns.length_vals.trans hunique)
  rw [hn, List.sum_singleton] at hsum
  refine ⟨x, hx, ?_, hunique⟩
  rw [hruns.dense_eq, hx, hn, hsum]
  rfl

theorem isScalar_iff {sdata : SparseData} (h : WellFormed sdata) :
    sdata.isScalar = true ↔ sdata.totalValueCount = 1 := by
  unfold SparseData.isScalar
  rw [Bool.and_eq_true, beq_iff_eq, beq_iff_eq]
  constructor
  · exact fun h => h.2
  · intro hone
    have ⟨_, _, _, hunique⟩ := h.scalar hone
    refine ⟨?_, hone⟩
    rw [hunique, hone]
    rfl

theorem isScalar_eq_false {sdata : SparseData} (h : WellFormed sdata)
    (hne : sdata.totalValueCount ≠ 1) : sdata.isScalar = false := by
  rw [Bool.eq_false_iff]
  exact fun hscalar => hne ((isScalar_iff h).mp hscalar)

/-! ## The operation on a pair of SparseData -/

/-- With enough fuel the call returns `values`, or `size` bytes are asked for in vain. -/
def Computes (call : Nat → Option (Except Fault SvecType)) (values : List Float8) (size : Nat) :
    Prop :=
  ∃ bound result, (∀ fuel, bound ≤ fuel → call fuel = some result) ∧
    (size ≤ maxAllocSize → ∃ s, result = .ok s ∧ (sdataFromSvec s).dense = values) ∧
    (maxAllocSize < size → result = .error (.elog "invalid memory alloc request size"))

theorem Packed.computes {sdata : SparseData} {values : List Float8} (h : Packed sdata values)
    {call : Nat → Option (Except Fault SvecType)} {bound : Nat}
    (hcall : ∀ fuel, bound ≤ fuel → call fuel = some (svecFromSparsedata sdata true)) :
    Computes call values (packedSize values) := by
  refine ⟨bound, _, hcall, fun hsize => ?_, h.svecFromSparsedata_error⟩
  have ⟨s, hs, _, hdense⟩ := h.svecFromSparsedata_ok hsize
  exact ⟨s, hs, hdense⟩

theorem packedSize_singleton_le (value : Float8) : packedSize [value] ≤ maxAllocSize := by
  have hlens : runLens [value] = [1] := rfl
  unfold packedSize
  rw [hlens]
  decide

theorem svecMakeScalar_spec (value : Float8) :
    ∃ s, svecMakeScalar value = .ok s ∧ (sdataFromSvec s).dense = [value] := by
  have ⟨sdata, hsdata, hpacked⟩ := float8arrToSdata_spec (List.cons_ne_nil value []) (by simp)
  have ⟨s, hs, _, hdense⟩ := hpacked.svecFromSparsedata_ok (packedSize_singleton_le value)
  refine ⟨{ s with dimension := -1 }, ?_, hdense⟩
  unfold svecMakeScalar
  rw [hsdata, ok_bind, hs]
  rfl

section Pair

variable (arith : Arith) (operation : Operation) {left right : SparseData}

/-- The operation on a pair, which of the two is a scalar being read off the counts. -/
def operateOnPair (left right : SparseData) (fuel : Nat) : Option (Except Fault SvecType) :=
  svecOperateOnSdataPair fuel arith (checkScalar left.isScalar right.isScalar) operation left right

theorem operateOnPair_equal (hl : WellFormed left) (hr : WellFormed right)
    (htotal : left.totalValueCount = right.totalValueCount) :
    Computes (operateOnPair arith operation left right)
      (List.zipWith (arith operation) left.dense right.dense)
      (packedSize (List.zipWith (arith operation) left.dense right.dense)) := by
  unfold operateOnPair
  by_cases hone : left.totalValueCount = 1
  · have ⟨x, hx, hleft, _⟩ := hl.scalar hone
    have ⟨y, hy, hright, _⟩ := hr.scalar (htotal.symm.trans hone)
    have ⟨s, hs, hdense⟩ := svecMakeScalar_spec (arith operation x y)
    have hvalues : List.zipWith (arith operation) left.dense right.dense =
        [arith operation x y] := by
      rw [hleft, hright]
      rfl
    have hsize := packedSize_singleton_le (arith operation x y)
    rw [hvalues, (isScalar_iff hl).mpr hone, (isScalar_iff hr).mpr (htotal.symm.trans hone)]
    refine ⟨0, .ok s, fun fuel _ => ?_, fun _ => ⟨s, rfl, hdense⟩, fun hlarge => ?_⟩
    · have hvalx : valref left 0 = .ok x := valref_first hx
      have hvaly : valref right 0 = .ok y := valref_first hy
      show some (valref left 0 >>= fun x => valref right 0 >>= fun y =>
        svecMakeScalar (arith operation x y)) = _
      rw [hvalx, ok_bind, hvaly, ok_bind, hs]
    · omega
  · have hone' : right.totalValueCount ≠ 1 := fun h => hone (htotal.trans h)
    have ⟨s, bound, hret, hpacked⟩ := opSdataBySdata_packed arith operation hl hr htotal
    rw [isScalar_eq_false hl hone, isScalar_eq_false hr hone']
    apply hpacked.computes
    intro fuel hfuel
    show (opSdataBySdata fuel arith operation left right).map _ = _
    rw [hret fuel hfuel]
    rfl

/-- The copy of the vector operand that the scalar has been applied to. -/
theorem computes_scalarCopy {sdata s : SparseData} {values : List Float8}
    {copied : Except Fault SparseData} (hcopied : copied = .ok s) (hs : WellFormed s)
    (hsize : s.trimmedSize = sdata.trimmedSize) (hdense : s.dense = values)
    {call : Nat → Option (Except Fault SvecType)}
    (hcall : ∀ fuel, call fuel = some (copied >>= fun sdata => svecFromSparsedata sdata true)) :
    Computes call values sdata.trimmedSize := by
  rw [← hsize]
  refine ⟨0, svecFromSparsedata s true, fun fuel _ => ?_, fun hfits => ?_,
    svecFromSparsedata_trim_error⟩
  · rw [hcall, hcopied, ok_bind]
  · have ⟨svec, hsvec, _, hsame⟩ := svecFromSparsedata_wellFormed hs hfits
    exact ⟨svec, hsvec, hsame.dense_eq.trans hdense⟩

theorem operateOnPair_left {x : Float8} (hl : WellFormed left) (hr : WellFormed right)
    (hx : left.dense = [x]) (hone : left.totalValueCount = 1)
    (hne : right.totalValueCount ≠ 1) :
    Computes (operateOnPair arith operation left right) (right.dense.map (arith operation x))
      right.trimmedSize := by
  have ⟨x', hvals, hdense, _⟩ := hl.scalar hone
  have heq : x' = x := by simpa using hdense.symm.trans hx
  subst heq
  have ⟨s, hs, hwell, hsize, hmap⟩ := opSdataByScalarCopy_spec arith operation hr x' [] false
  apply computes_scalarCopy hs hwell hsize hmap
  intro fuel
  unfold operateOnPair
  rw [(isScalar_iff hl).mpr hone, isScalar_eq_false hr hne, ← hvals]
  rfl

theorem operateOnPair_right {y : Float8} (hl : WellFormed left) (hr : WellFormed right)
    (hy : right.dense = [y]) (hone : right.totalValueCount = 1)
    (hne : left.totalValueCount ≠ 1) :
    Computes (operateOnPair arith operation left right)
      (left.dense.map fun x => arith operation x y) left.trimmedSize := by
  have ⟨y', hvals, hdense, _⟩ := hr.scalar hone
  have heq : y' = y := by simpa using hdense.symm.trans hy
  subst heq
  have ⟨s, hs, hwell, hsize, hmap⟩ := opSdataByScalarCopy_spec arith operation hl y' [] true
  apply computes_scalarCopy hs hwell hsize hmap
  intro fuel
  unfold operateOnPair
  rw [(isScalar_iff hr).mpr hone, isScalar_eq_false hl hne, ← hvals]
  rfl

theorem operateOnPair_mismatch (hl : WellFormed left) (hr : WellFormed right)
    (hleft : left.totalValueCount ≠ 1) (hright : right.totalValueCount ≠ 1)
    (htotal : left.totalValueCount ≠ right.totalValueCount) (fuel : Nat) :
    operateOnPair arith operation left right fuel =
      some (.error (.ereport .invalidParameterValue "dimensions of vectors must be the same")) := by
  unfold operateOnPair
  rw [isScalar_eq_false hl hleft, isScalar_eq_false hr hright]
  show (opSdataBySdata fuel arith operation left right).map _ = _
  rw [opSdataBySdata_mismatch arith operation hl hr htotal]
  rfl

end Pair

/-! ## The operation on operands -/

/-- A vector in one of its forms: a well-formed svec whose header marks it as a scalar when it
has one element, or an array with elements. -/
def Operand.Valid : Operand → Prop
  | .svec s => WellFormed (sdataFromSvec s) ∧ (s.dimension = -1 ↔ s.totalValueCount = 1) ∧
      (s.dimension = -1 ∨ 0 ≤ s.dimension.toInt)
  | .float8arr a => a.dims ≠ []

/-- The bytes of an svec with the representation of the operand. -/
def Operand.size : Operand → Nat
  | .svec s => (sdataFromSvec s).trimmedSize
  | .float8arr a => svecSize (8 * arrayGetNItems a.dims) 0

theorem arrayGetNItems_pos {a : ArrayType} (h : a.dims ≠ []) : 0 < arrayGetNItems a.dims := by
  unfold arrayGetNItems
  rw [if_neg h]
  exact List.prod_pos_iff_forall_pos_nat.mpr a.dims_pos

theorem sdataUncompressedFromFloat8arr_spec {a : ArrayType} (h : a.dims ≠ []) :
    ∃ sdata, sdataUncompressedFromFloat8arr a = .ok sdata ∧ WellFormed sdata ∧
      sdata.dense = a.elements.map (fun v => v.getD NVP) ∧
      sdata.trimmedSize = svecSize (8 * arrayGetNItems a.dims) 0 := by
  have hpos := arrayGetNItems_pos h
  have hle := a.dims_le
  unfold maxAllocSize at hle
  have hlength : (a.elements.map fun v => v.getD NVP).length = arrayGetNItems a.dims := by
    rw [List.length_map, a.length_elements]
  have htotal : (Int32.ofInt (arrayGetNItems a.dims)).toInt = (arrayGetNItems a.dims : Int) := by
    rw [int32_toInt_ofInt, toInt32_of_mem (by omega) (by omega)]
  let sdata := makeInplaceSparseData (a.elements.map fun v => v.getD NVP) none
    (arrayGetNItems a.dims) (Int32.ofInt (arrayGetNItems a.dims))
  have hruns : HasRuns sdata (List.replicate (arrayGetNItems a.dims) 1) :=
    ⟨fun n hn => List.eq_of_mem_replicate hn, List.length_replicate, hlength⟩
  have hsum : sdata.totalValueCount.toInt =
      ((List.replicate (arrayGetNItems a.dims) 1).sum : Nat) := by
    rw [List.sum_replicate_nat, Nat.mul_one]
    exact htotal
  refine ⟨sdata, ?_, ⟨⟨_, hruns, ?_, hsum⟩, ?_⟩, ?_, ?_⟩
  · unfold sdataUncompressedFromFloat8arr
    dsimp only
    rw [castElements_eq, ok_bind]
    rfl
  · intro n hn
    rw [List.eq_of_mem_replicate hn]
    exact Nat.one_pos
  · show 1 ≤ (Int32.ofInt (arrayGetNItems a.dims)).toInt
    omega
  · rw [hruns.dense_eq, ← hlength]
    exact expand_replicate_one _
  · unfold SparseData.trimmedSize SparseData.valsLen
    show svecSize (8 * (a.elements.map fun v => v.getD NVP).length) 0 = _
    rw [hlength]

theorem Operand.sdata_spec {l : Operand} (h : l.Valid) :
    ∃ sdata, l.sdata = .ok sdata ∧ WellFormed sdata ∧ sdata.dense = l.values ∧
      sdata.trimmedSize = l.size := by
  cases l with
  | svec s => exact ⟨sdataFromSvec s, rfl, h.1, rfl, rfl⟩
  | float8arr a => exact sdataUncompressedFromFloat8arr_spec h

/-- Two svecs with as many elements have the same header. -/
def HeadersAgree : Operand → Operand → Prop
  | .svec u, .svec v => u.totalValueCount = v.totalValueCount → u.dimension = v.dimension
  | _, _ => True

/-- An error about the dimensions, from `check_dimension` or from `check_sdata_dimensions`. -/
inductive IsDimensionError : Fault → Prop
  | header (name : String) (dim1 dim2 : Int) : IsDimensionError (.ereport .invalidParameterValue
      (s!"{name}: array dimension of inputs are not the same: " ++ s!"dim1={dim1}, dim2={dim2}
"))
  | count : IsDimensionError (.ereport .invalidParameterValue
      "dimensions of vectors must be the same")

/-- The header of a valid svec tells whether it is a scalar. -/
theorem isScalar_sdataFromSvec {s : SvecType} (h : (Operand.svec s).Valid) :
    s.isScalar = (sdataFromSvec s).isScalar := by
  have ⟨hwell, hiff, hheader⟩ := h
  have hscalar := isScalar_iff hwell
  rw [totalValueCount_sdataFromSvec, ← hiff] at hscalar
  rw [Bool.eq_iff_iff, hscalar, SvecType.isScalar, decide_eq_true_eq, Int32.lt_iff_toInt_lt]
  constructor
  · intro hneg
    have hzero : (0 : Int32).toInt = 0 := rfl
    rcases hheader with hminus | hnonneg
    · exact hminus
    · omega
  · intro hminus
    rw [hminus]
    decide

/-- The operator checks the headers of two svecs and then goes by the counts. -/
theorem applyOperator_eq (operation : Operation) (arith : Arith) {l r : Operand} (hl : l.Valid)
    (hr : r.Valid) {left right : SparseData} (hleft : l.sdata = .ok left)
    (hright : r.sdata = .ok right) :
    (∃ e, IsDimensionError e ∧ (HeadersAgree l r ↔ left.totalValueCount ≠ right.totalValueCount) ∧
      left.totalValueCount ≠ 1 ∧ right.totalValueCount ≠ 1 ∧
      ∀ fuel, applyOperator operation fuel arith l r = some (.error e)) ∨
    (HeadersAgree l r ∧ ∀ fuel, applyOperator operation fuel arith l r =
      operateOnPair arith operation left right fuel) := by
  have hmixed : (∀ fuel, applyOperator operation fuel arith l r =
      operandByOperand operation fuel arith l r) → ∀ fuel, applyOperator operation fuel arith l r =
      operateOnPair arith operation left right fuel := by
    intro h fuel
    rw [h fuel, operandByOperand, hleft, hright]
    rfl
  cases l with
  | float8arr a =>
      right
      refine ⟨trivial, hmixed fun fuel => ?_⟩
      cases operation <;> cases r <;> rfl
  | svec u =>
      cases r with
      | float8arr b =>
          right
          refine ⟨trivial, hmixed fun fuel => ?_⟩
          cases operation <;> rfl
      | svec v =>
          have hname : ∃ name, ∀ fuel, applyOperator operation fuel arith (.svec u) (.svec v) =
              svecBySvec name operation fuel arith u v := by
            cases operation with
            | subtract => exact ⟨"svec_minus", fun _ => rfl⟩
            | add => exact ⟨"svec_plus", fun _ => rfl⟩
            | multiply => exact ⟨"svec_mult", fun _ => rfl⟩
            | divide => exact ⟨"svec_div", fun _ => rfl⟩
          have ⟨name, hcall⟩ := hname
          have hleft' : sdataFromSvec u = left := Except.ok.inj hleft
          have hright' : sdataFromSvec v = right := Except.ok.inj hright
          subst hleft' hright'
          have hu := isScalar_sdataFromSvec hl
          have hv := isScalar_sdataFromSvec hr
          unfold svecBySvec checkDimension at hcall
          cases hcheck : !u.isScalar && !v.isScalar && u.dimension != v.dimension with
          | true =>
              left
              rw [Bool.and_eq_true, Bool.and_eq_true, Bool.not_eq_true', Bool.not_eq_true',
                bne_iff_ne] at hcheck
              have ⟨⟨hleft, hright⟩, hdims⟩ := hcheck
              rw [hu] at hleft
              rw [hv] at hright
              refine ⟨_, .header name u.dimension.toInt v.dimension.toInt,
                ⟨fun h heq => hdims (h heq), fun hne heq => absurd heq hne⟩, fun h => ?_,
                fun h => ?_, fun fuel => ?_⟩
              · rw [(isScalar_iff hl.1).mpr h] at hleft
                cases hleft
              · rw [(isScalar_iff hr.1).mpr h] at hright
                cases hright
              · rw [hcall, hu, hv, hleft, hright, bne_iff_ne.mpr hdims]
                rfl
          | false =>
              right
              refine ⟨fun htotal => ?_, fun fuel => ?_⟩
              · by_cases hone : v.totalValueCount = 1
                · rw [hl.2.1.mpr (htotal.trans hone), hr.2.1.mpr hone]
                · rw [hu, hv, isScalar_eq_false hl.1 (fun h => hone (htotal.symm.trans h)),
                    isScalar_eq_false hr.1 hone] at hcheck
                  simpa using hcheck
              · rw [hcall, hcheck]
                show svecOperateOnSdataPair fuel arith (checkScalar u.isScalar v.isScalar) _ _ _ = _
                rw [hu, hv]
                rfl

/-! ## All versions agree -/

/-- The call returns the dense result, or a dimension error where there is none. -/
def MeetsDense (operation : Operation) (arith : Arith) (l r : Operand) : Prop :=
  match broadcast (arith operation) l.values r.values with
  | some values => ∃ s bound,
      (∀ fuel, bound ≤ fuel → applyOperator operation fuel arith l r = some (.ok s)) ∧
      (sdataFromSvec s).dense = values
  | none => ∃ e, IsDimensionError e ∧
      ∀ fuel, applyOperator operation fuel arith l r = some (.error e)

/-- The bytes of the resulting svec: the maximal runs of a combination of two vectors, and the
runs of the vector operand where the other is a scalar. -/
def resultSize (f : Float8 → Float8 → Float8) (l r : Operand) : Nat :=
  if l.values.length = r.values.length then packedSize (List.zipWith f l.values r.values)
  else if l.values.length = 1 then r.size
  else if r.values.length = 1 then l.size
  else 0

theorem Computes.ok_iff {call : Nat → Option (Except Fault SvecType)} {values : List Float8}
    {size : Nat} (h : Computes call values size) :
    (∃ s bound, (∀ fuel, bound ≤ fuel → call fuel = some (.ok s)) ∧
      (sdataFromSvec s).dense = values) ↔ size ≤ maxAllocSize := by
  have ⟨bound, result, hcall, hok, herror⟩ := h
  constructor
  · intro hs
    have ⟨s, bound', hcall', _⟩ := hs
    by_contra hlarge
    have heq := (hcall (max bound bound') (by omega)).symm.trans
      (hcall' (max bound bound') (by omega))
    rw [herror (by omega)] at heq
    cases heq
  · intro hsize
    have ⟨s, hs, hdense⟩ := hok hsize
    exact ⟨s, bound, fun fuel hfuel => (hcall fuel hfuel).trans (congrArg some hs), hdense⟩

section Broadcast

variable {f : Float8 → Float8 → Float8} {a b : List Float8}

theorem broadcast_equal (h : a.length = b.length) :
    broadcast f a b = some (List.zipWith f a b) := by
  unfold broadcast
  rw [if_pos h]

theorem broadcast_left {x : Float8} (h : b.length ≠ 1) :
    broadcast f [x] b = some (b.map (f x)) := by
  unfold broadcast
  rw [if_neg (by simpa using Ne.symm h)]

theorem broadcast_right {y : Float8} (h : a.length ≠ 1) :
    broadcast f a [y] = some (a.map fun x => f x y) := by
  unfold broadcast
  rw [if_neg (by simpa using h)]
  cases a with
  | nil => rfl
  | cons x a =>
      cases a with
      | nil => simp at h
      | cons x' a => rfl

theorem broadcast_none (ha : a.length ≠ 1) (hb : b.length ≠ 1) (h : a.length ≠ b.length) :
    broadcast f a b = none := by
  unfold broadcast
  rw [if_neg h]
  split
  · simp at ha
  · simp at hb
  · rfl

end Broadcast

theorem length_dense_eq_one_iff {sdata : SparseData} (h : WellFormed sdata) :
    sdata.dense.length = 1 ↔ sdata.totalValueCount = 1 := by
  have hlength := h.truthful.length_dense
  have hcast : (1 : Int32).toInt = 1 := rfl
  rw [← Int32.toInt_inj, hcast]
  omega

theorem length_dense_eq_iff {left right : SparseData} (hl : WellFormed left)
    (hr : WellFormed right) :
    left.dense.length = right.dense.length ↔ left.totalValueCount = right.totalValueCount := by
  have hleft := hl.truthful.length_dense
  have hright := hr.truthful.length_dense
  rw [← Int32.toInt_inj]
  omega

/-- A call that goes by the counts. -/
theorem meetsDense_of_pair (operation : Operation) (arith : Arith) {l r : Operand}
    {left right : SparseData} (hleft : WellFormed left) (hright : WellFormed right)
    (hlv : left.dense = l.values) (hrv : right.dense = r.values)
    (hls : left.trimmedSize = l.size) (hrs : right.trimmedSize = r.size)
    (hcall : ∀ fuel, applyOperator operation fuel arith l r =
      operateOnPair arith operation left right fuel) :
    MeetsDense operation arith l r ↔ resultSize (arith operation) l r ≤ maxAllocSize := by
  unfold MeetsDense resultSize
  simp only [hcall]
  rw [← hlv, ← hrv, ← hls, ← hrs]
  by_cases hequal : left.dense.length = right.dense.length
  · rw [broadcast_equal hequal, if_pos hequal]
    exact (operateOnPair_equal arith operation hleft hright
      ((length_dense_eq_iff hleft hright).mp hequal)).ok_iff
  · rw [if_neg hequal]
    by_cases hl1 : left.dense.length = 1
    · have ⟨x, hx⟩ := List.length_eq_one_iff.mp hl1
      have hr1 : right.dense.length ≠ 1 := fun h => hequal (hl1.trans h.symm)
      rw [if_pos hl1, hx, broadcast_left hr1]
      exact (operateOnPair_left arith operation hleft hright hx
        ((length_dense_eq_one_iff hleft).mp hl1)
        (mt (length_dense_eq_one_iff hright).mpr hr1)).ok_iff
    · rw [if_neg hl1]
      by_cases hr1 : right.dense.length = 1
      · have ⟨y, hy⟩ := List.length_eq_one_iff.mp hr1
        rw [if_pos hr1, hy, broadcast_right hl1]
        exact (operateOnPair_right arith operation hleft hright hy
          ((length_dense_eq_one_iff hright).mp hr1)
          (mt (length_dense_eq_one_iff hleft).mpr hl1)).ok_iff
      · rw [if_neg hr1, broadcast_none hl1 hr1 hequal]
        constructor
        · exact fun _ => Nat.zero_le _
        · intro _
          exact ⟨_, .count, operateOnPair_mismatch arith operation hleft hright
            (mt (length_dense_eq_one_iff hleft).mpr hl1)
            (mt (length_dense_eq_one_iff hright).mpr hr1)
            (mt (length_dense_eq_iff hleft hright).mpr hequal)⟩

/-- Whatever forms the two vectors have, the operator returns the dense result exactly when the
headers of two svecs of the same size agree and the result fits into a datum. -/
theorem applyOperator_meetsDense_iff (operation : Operation) (arith : Arith) {l r : Operand}
    (hl : l.Valid) (hr : r.Valid) :
    MeetsDense operation arith l r ↔
      HeadersAgree l r ∧ resultSize (arith operation) l r ≤ maxAllocSize := by
  have ⟨left, hleft, hlw, hlv, hls⟩ := Operand.sdata_spec hl
  have ⟨right, hright, hrw, hrv, hrs⟩ := Operand.sdata_spec hr
  rcases applyOperator_eq operation arith hl hr hleft hright with
    ⟨e, he, hheaders, hl1, hr1, hcall⟩ | ⟨hheaders, hcall⟩
  · have hlength := length_dense_eq_iff hlw hrw
    have hl1' := mt (length_dense_eq_one_iff hlw).mp hl1
    have hr1' := mt (length_dense_eq_one_iff hrw).mp hr1
    rw [hlv, hrv] at hlength
    rw [hlv] at hl1'
    rw [hrv] at hr1'
    rw [hheaders, Ne, ← hlength]
    unfold MeetsDense resultSize
    simp only [hcall]
    by_cases hequal : l.values.length = r.values.length
    · rw [broadcast_equal hequal]
      constructor
      · intro h
        have ⟨s, bound, hs, _⟩ := h
        cases hs bound (le_refl _)
      · exact fun h => absurd hequal h.1
    · rw [broadcast_none hl1' hr1' hequal, if_neg hequal, if_neg hl1', if_neg hr1']
      constructor
      · exact fun _ => ⟨hequal, Nat.zero_le _⟩
      · exact fun _ => ⟨e, he, fun _ => rfl⟩
  · rw [meetsDense_of_pair operation arith hlw hrw hlv hrv hls hrs hcall]
    exact ⟨fun h => ⟨hheaders, h⟩, fun h => h.2⟩

/-- The svec `{3}:{5}`. -/
def fives : SvecType := tightSvec 3 3 [5] [253] (by decide)

theorem valid_fives : (Operand.svec fives).Valid :=
  ⟨⟨⟨[3], .of_runLengths (by decide) rfl, by decide, by decide⟩, by decide⟩, by decide,
    .inr (by decide)⟩

theorem applyOperator_meetsDense_fives :
    MeetsDense .add (fun _ v w => v + w) (.svec fives)
      (.float8arr (plainArray [5, 5, 7] (by decide) (by decide))) := by
  have hvalid : (Operand.float8arr (plainArray [5, 5, 7] (by decide) (by decide))).Valid :=
    List.cons_ne_nil _ _
  have hvalues : (Operand.float8arr (plainArray [5, 5, 7] (by decide) (by decide))).values =
      [5, 5, 7] :=
    congrArg (fun elements => elements.map fun v => v.getD NVP) (elements_plainArray _ _)
  have hfives : (Operand.svec fives).values = [5, 5, 5] := by decide
  apply (applyOperator_meetsDense_iff .add (fun _ v w => v + w) valid_fives hvalid).mpr
  refine ⟨trivial, ?_⟩
  unfold resultSize
  rw [hvalues, hfives]
  decide

/-- The aggregate of three values, of which the header counts two. -/
def aggregated : SvecType :=
  { dimension := 2, uniqueValueCount := 3, totalValueCount := 3
    vals := [1, 2, 3], valsMaxlen := 36
    index := [255, 255, 255], indexMaxlen := 40, indexCursor := 2
    vals_le := by decide, index_le := by decide, size_le := by decide }

theorem svecAgg_aggregated : svecAgg [some 1, some 2, some 3] = .ok (some aggregated) := rfl

theorem valid_aggregated : (Operand.svec aggregated).Valid :=
  ⟨⟨⟨[1, 1, 1], .of_runLengths (by decide) rfl, by decide, by decide⟩, by decide⟩, by decide,
    .inr (by decide)⟩

/-- `svec_plus` of `svec_agg` and an svec of as many elements raises a dimension error. -/
theorem svecPlus_aggregated_error :
    ¬ ∀ (operation : Operation) (arith : Arith) (l r : Operand), l.Valid → r.Valid →
      MeetsDense operation arith l r := by
  intro h
  have hmeets := h .add (fun _ v w => v + w) _ _ valid_aggregated valid_fives
  have ⟨s, bound, hs, _⟩ : ∃ s bound,
      (∀ fuel, bound ≤ fuel → applyOperator .add fuel (fun _ v w => v + w) (.svec aggregated)
        (.svec fives) = some (.ok s)) ∧ (sdataFromSvec s).dense = [6, 7, 8] := hmeets
  have hcall := hs bound (le_refl _)
  cases hcall

end Madlib.Svec
