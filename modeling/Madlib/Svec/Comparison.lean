import Madlib.Svec.Equality
import Madlib.Svec.Pivot

/-!
# Comparison operators

The operators of `svec.sql_in` compare two svecs by their l2 norms, except for `=`, which
compares them element by element.  Each is declared with the operators that are said to be its
commutator and its negator.  The arithmetic on float8s is a parameter; their order is that of
their bits.
-/

namespace Madlib.Svec

open Madlib.Backend Madlib.Lib.MachineInt Madlib.Lib.RunLength CountCode

/-! ## The order of float8s -/

/-- A float8 that is not a NaN is ordered by its sign and its magnitude. -/
def float8Key (v : Float8) : Int :=
  let magnitude : Int := (v &&& 0x7FFFFFFFFFFFFFFF).toNat
  if v < 0x8000000000000000 then magnitude else -magnitude

/-- `<` on float8 -/
def float8Lt (v w : Float8) : Bool :=
  !isNaN v && !isNaN w && decide (float8Key v < float8Key w)

theorem float8Lt_asymm {v w : Float8} (h : float8Lt v w = true) : float8Lt w v = false := by
  unfold float8Lt at h ⊢
  rw [Bool.and_eq_true, decide_eq_true_eq] at h
  rw [decide_eq_false (by omega), Bool.and_false]

/-! ## The l2 norm -/

/-- The arithmetic on doubles, and the conversion of an int64. -/
structure Float8Arith where
  add : Float8 → Float8 → Float8
  mul : Float8 → Float8 → Float8
  sqrt : Float8 → Float8
  ofInt64 : Int → Float8

/-- The remaining rounds of the loop over the runs. -/
def accumRounds (arith : Float8Arith) (func : Float8 → Float8) (sdata : SparseData) :
    Nat → Nat → IndexPtr → Float8 → Except Fault Float8
  | 0, _, _, accum => .ok accum
  | rounds + 1, i, ix, accum => do
      let runLength ← compwordToInt8 ix
      let v ← valref sdata i
      let ix ← advance ix
      accumRounds arith func sdata rounds (i + 1) ix
        (arith.add accum (arith.mul (func v) (arith.ofInt64 runLength)))

def accumSdataValuesDouble (arith : Float8Arith) (sdata : SparseData) (func : Float8 → Float8) :
    Except Fault Float8 :=
  accumRounds arith func sdata sdata.uniqueValueCount 0 sdata.index.data 0

def square (arith : Float8Arith) (x : Float8) : Float8 := arith.mul x x

def l2normSdataValuesDouble (arith : Float8Arith) (sdata : SparseData) : Except Fault Float8 := do
  let accum ← accumSdataValuesDouble arith sdata (square arith)
  pure (arith.sqrt accum)

/-! ## Comparison functions -/

def svecL2CmpInternal (arith : Float8Arith) (svec1 svec2 : SvecType) : Except Fault Int := do
  let magleft ← l2normSdataValuesDouble arith (sdataFromSvec svec1)
  let magright ← l2normSdataValuesDouble arith (sdataFromSvec svec2)
  if magleft = NVP ∨ magright = NVP then pure (-5)
  else if float8Lt magleft magright then pure (-1)
  else if float8Lt magright magleft then pure 1
  else pure 0

/-- The result is NULL for the code -5. -/
def svecL2Cmp (arith : Float8Arith) (svec1 svec2 : SvecType) : Except Fault (Option Int) := do
  let result ← svecL2CmpInternal arith svec1 svec2
  pure (if result = -5 then none else some result)

/-- A function that tests the result of the comparison. -/
def svecL2Test (test : Int → Bool) (arith : Float8Arith) (svec1 svec2 : SvecType) :
    Except Fault (Option Bool) := do
  let result ← svecL2CmpInternal arith svec1 svec2
  pure (if result = -5 then none else some (test result))

def svecL2Lt : Float8Arith → SvecType → SvecType → Except Fault (Option Bool) :=
  svecL2Test fun result => result == -1

def svecL2Le : Float8Arith → SvecType → SvecType → Except Fault (Option Bool) :=
  svecL2Test fun result => result == -1 || result == 0

def svecL2Eq : Float8Arith → SvecType → SvecType → Except Fault (Option Bool) :=
  svecL2Test fun result => result == 0

def svecL2Ne : Float8Arith → SvecType → SvecType → Except Fault (Option Bool) :=
  svecL2Test fun result => result != 0

def svecL2Gt : Float8Arith → SvecType → SvecType → Except Fault (Option Bool) :=
  svecL2Test fun result => result == 1

def svecL2Ge : Float8Arith → SvecType → SvecType → Except Fault (Option Bool) :=
  svecL2Test fun result => result == 0 || result == 1

/-! ## Operators -/

inductive Procedure where
  | svecEq
  | svecL2Lt
  | svecL2Le
  | svecL2Eq
  | svecL2Ne
  | svecL2Gt
  | svecL2Ge
  deriving DecidableEq, Repr

/-- The operators `=`, `<`, `<=`, `<>`, `==`, `>=` and `>`. -/
inductive Operator where
  | eq
  | lt
  | le
  | ne
  | eqEq
  | ge
  | gt
  deriving DecidableEq, Repr

structure OperatorDecl where
  procedure : Procedure
  commutator : Operator
  negator : Option Operator
  deriving DecidableEq, Repr

def createOperator : Operator → OperatorDecl
  -- the negator of this one is commented out
  | .eq => { procedure := .svecEq, commutator := .eq, negator := none }
  | .lt => { procedure := .svecL2Lt, commutator := .gt, negator := some .ge }
  | .le => { procedure := .svecL2Le, commutator := .ge, negator := some .gt }
  | .ne => { procedure := .svecL2Eq, commutator := .ne, negator := some .eq }
  | .eqEq => { procedure := .svecL2Eq, commutator := .eq, negator := some .ne }
  | .ge => { procedure := .svecL2Ge, commutator := .le, negator := some .lt }
  | .gt => { procedure := .svecL2Gt, commutator := .lt, negator := some .le }

/-- The operators of the class `svec_l2_ops` by their strategy numbers; its support function
is `svec_l2_cmp`. -/
def svecL2Ops : Nat → Option Operator
  | 1 => some .lt
  | 2 => some .le
  | 3 => some .eqEq
  | 4 => some .ge
  | 5 => some .gt
  | _ => none

/-- A call of the function behind an operator, for at most `fuel` rounds of a loop. -/
def Procedure.call (arith : Float8Arith) (fuel : Nat) (svec1 svec2 : SvecType) :
    Procedure → Option (Except Fault (Option Bool))
  | .svecEq => (Svec.svecEq fuel svec1 svec2).map fun result => result.map some
  | .svecL2Lt => some (Svec.svecL2Lt arith svec1 svec2)
  | .svecL2Le => some (Svec.svecL2Le arith svec1 svec2)
  | .svecL2Eq => some (Svec.svecL2Eq arith svec1 svec2)
  | .svecL2Ne => some (Svec.svecL2Ne arith svec1 svec2)
  | .svecL2Gt => some (Svec.svecL2Gt arith svec1 svec2)
  | .svecL2Ge => some (Svec.svecL2Ge arith svec1 svec2)

/-- The operator applied to the two svecs is `b`, and not NULL. -/
def Operator.Yields (arith : Float8Arith) (op : Operator) (svec1 svec2 : SvecType) (b : Bool) :
    Prop :=
  ∃ bound, ∀ fuel, bound ≤ fuel →
    (createOperator op).procedure.call arith fuel svec1 svec2 = some (.ok (some b))

/-! ## What the declarations promise -/

/-- The operator declared as the negator, if one is, returns the negation. -/
def Operator.KeepsNegator (arith : Float8Arith) (op : Operator) (u v : SvecType) : Prop :=
  ∀ neg, (createOperator op).negator = some neg →
    ∃ b, op.Yields arith u v b ∧ neg.Yields arith u v !b

/-- The operator declared as the commutator returns the same for the arguments swapped. -/
def Operator.KeepsCommutator (arith : Float8Arith) (op : Operator) (u v : SvecType) : Prop :=
  ∃ b, op.Yields arith u v b ∧ (createOperator op).commutator.Yields arith v u b

/-- Exactly one of `u < v`, `v < u` and equality of the norms holds. -/
def Trichotomy (arith : Float8Arith) (u v : SvecType) : Prop :=
  ∃ less greater equal, Operator.lt.Yields arith u v less ∧ Operator.lt.Yields arith v u greater ∧
    svecL2Eq arith u v = .ok (some equal) ∧ [less, greater, equal].count true = 1

/-- The sign of the support function is what the operators of the class say. -/
def CmpAgrees (arith : Float8Arith) (u v : SvecType) : Prop :=
  ∃ sign, svecL2Cmp arith u v = .ok (some sign) ∧
    (∀ op, svecL2Ops 1 = some op → op.Yields arith u v (sign < 0)) ∧
    (∀ op, svecL2Ops 2 = some op → op.Yields arith u v (sign ≤ 0)) ∧
    (∀ op, svecL2Ops 3 = some op → op.Yields arith u v (sign = 0)) ∧
    (∀ op, svecL2Ops 4 = some op → op.Yields arith u v (0 ≤ sign)) ∧
    (∀ op, svecL2Ops 5 = some op → op.Yields arith u v (0 < sign))

structure KeepsPromises (arith : Float8Arith) (u v : SvecType) : Prop where
  trichotomy : Trichotomy arith u v
  negator : ∀ op : Operator, op.KeepsNegator arith u v
  commutator : ∀ op : Operator, op.KeepsCommutator arith u v
  cmp : CmpAgrees arith u v

/-! ## What the functions return -/

/-- A proper svec whose l2 norm is `norm`, a number. -/
structure HasNorm (arith : Float8Arith) (svec : SvecType) (norm : Float8) : Prop where
  proper : Proper (sdataFromSvec svec)
  norm_eq : l2normSdataValuesDouble arith (sdataFromSvec svec) = .ok norm
  not_nan : isNaN norm = false

theorem HasNorm.ne_nvp {arith : Float8Arith} {svec : SvecType} {norm : Float8}
    (h : HasNorm arith svec norm) : norm ≠ NVP := by
  intro heq
  have hnan := h.not_nan
  rw [heq] at hnan
  exact absurd hnan (by decide)

/-- The result of comparing two numbers. -/
def signOf (x y : Float8) : Int := if float8Lt x y then -1 else if float8Lt y x then 1 else 0

theorem signOf_cases (x y : Float8) : signOf x y = -1 ∨ signOf x y = 0 ∨ signOf x y = 1 := by
  unfold signOf
  split
  · exact .inl rfl
  · split
    · exact .inr (.inr rfl)
    · exact .inr (.inl rfl)

theorem signOf_swap (x y : Float8) : signOf y x = -signOf x y := by
  unfold signOf
  cases hlt : float8Lt x y with
  | true => rw [float8Lt_asymm hlt]; rfl
  | false =>
      cases hgt : float8Lt y x with
      | true => rfl
      | false => rfl

theorem svecL2CmpInternal_eq {arith : Float8Arith} {u v : SvecType} {x y : Float8}
    (hu : HasNorm arith u x) (hv : HasNorm arith v y) :
    svecL2CmpInternal arith u v = .ok (signOf x y) := by
  have hnvp : ¬ (x = NVP ∨ y = NVP) := not_or.mpr ⟨hu.ne_nvp, hv.ne_nvp⟩
  unfold svecL2CmpInternal signOf
  rw [hu.norm_eq, hv.norm_eq, ok_bind, ok_bind, if_neg hnvp]
  cases float8Lt x y with
  | true => rfl
  | false =>
      cases float8Lt y x with
      | true => rfl
      | false => rfl

theorem svecL2Test_eq (test : Int → Bool) {arith : Float8Arith} {u v : SvecType} {x y : Float8}
    (hu : HasNorm arith u x) (hv : HasNorm arith v y) :
    svecL2Test test arith u v = .ok (some (test (signOf x y))) := by
  have hsign : signOf x y ≠ -5 := by
    have hcases := signOf_cases x y
    omega
  unfold svecL2Test
  rw [svecL2CmpInternal_eq hu hv, ok_bind, if_neg hsign]
  rfl

/-- What a function answers about two svecs of which it is known whether they are equal and
how their norms compare. -/
def Procedure.answer (equal : Bool) (sign : Int) : Procedure → Bool
  | .svecEq => equal
  | .svecL2Lt => sign == -1
  | .svecL2Le => sign == -1 || sign == 0
  | .svecL2Eq => sign == 0
  | .svecL2Ne => sign != 0
  | .svecL2Gt => sign == 1
  | .svecL2Ge => sign == 0 || sign == 1

theorem Operator.yields_iff {arith : Float8Arith} {u v : SvecType} {x y : Float8}
    (hu : HasNorm arith u x) (hv : HasNorm arith v y) (op : Operator) (b : Bool) :
    op.Yields arith u v b ↔
      b = (createOperator op).procedure.answer
        (decide ((sdataFromSvec u).dense = (sdataFromSvec v).dense)) (signOf x y) := by
  have hcall : ∃ bound, ∀ fuel, bound ≤ fuel →
      (createOperator op).procedure.call arith fuel u v =
        some (.ok (some ((createOperator op).procedure.answer
          (decide ((sdataFromSvec u).dense = (sdataFromSvec v).dense)) (signOf x y)))) := by
    refine ⟨(sdataFromSvec v).totalValueCount.toInt.toNat + 1, fun fuel hfuel => ?_⟩
    cases (createOperator op).procedure with
    | svecEq =>
        rw [Procedure.call, Svec.svecEq, sparsedataEq_spec hu.proper hv.proper (by omega)]
        rfl
    | svecL2Lt => exact congrArg some (svecL2Test_eq _ hu hv)
    | svecL2Le => exact congrArg some (svecL2Test_eq _ hu hv)
    | svecL2Eq => exact congrArg some (svecL2Test_eq _ hu hv)
    | svecL2Ne => exact congrArg some (svecL2Test_eq _ hu hv)
    | svecL2Gt => exact congrArg some (svecL2Test_eq _ hu hv)
    | svecL2Ge => exact congrArg some (svecL2Test_eq _ hu hv)
  have ⟨bound, hbound⟩ := hcall
  constructor
  · intro h
    have ⟨bound', hbound'⟩ := h
    have heq := (hbound' (max bound bound') (by omega)).symm.trans
      (hbound (max bound bound') (by omega))
    exact Option.some.inj (Except.ok.inj (Option.some.inj heq))
  · intro h
    rw [h]
    exact ⟨bound, hbound⟩

/-! ## Which promises are kept -/

theorem trichotomy {arith : Float8Arith} {u v : SvecType} {x y : Float8}
    (hu : HasNorm arith u x) (hv : HasNorm arith v y) : Trichotomy arith u v := by
  refine ⟨_, _, _, (Operator.yields_iff hu hv .lt _).mpr rfl,
    (Operator.yields_iff hv hu .lt _).mpr rfl, svecL2Test_eq _ hu hv, ?_⟩
  simp only [createOperator, Procedure.answer]
  rw [signOf_swap x y]
  rcases signOf_cases x y with h | h | h
  · rw [h]
    decide
  · rw [h]
    decide
  · rw [h]
    decide

theorem decide_eq_beq {p : Prop} [Decidable p] {sign code : Int} (h : p ↔ sign = code) :
    decide p = (sign == code) := by
  rw [Bool.eq_iff_iff, decide_eq_true_eq, beq_iff_eq, h]

theorem decide_eq_beq_or {p : Prop} [Decidable p] {sign code code' : Int}
    (h : p ↔ sign = code ∨ sign = code') : decide p = (sign == code || sign == code') := by
  rw [Bool.eq_iff_iff, decide_eq_true_eq, Bool.or_eq_true, beq_iff_eq, beq_iff_eq, h]

theorem cmpAgrees {arith : Float8Arith} {u v : SvecType} {x y : Float8}
    (hu : HasNorm arith u x) (hv : HasNorm arith v y) : CmpAgrees arith u v := by
  have hcmp : svecL2Cmp arith u v = .ok (some (signOf x y)) := by
    have hsign : signOf x y ≠ -5 := by
      have hcases := signOf_cases x y
      omega
    unfold svecL2Cmp
    rw [svecL2CmpInternal_eq hu hv, ok_bind, if_neg hsign]
    rfl
  have hcases := signOf_cases x y
  refine ⟨signOf x y, hcmp, ?_, ?_, ?_, ?_, ?_⟩
  · intro op hop
    rw [← Option.some.inj hop, Operator.yields_iff hu hv]
    exact decide_eq_beq (by omega)
  · intro op hop
    rw [← Option.some.inj hop, Operator.yields_iff hu hv]
    exact decide_eq_beq_or (by omega)
  · intro op hop
    rw [← Option.some.inj hop, Operator.yields_iff hu hv]
    exact decide_eq_beq Iff.rfl
  · intro op hop
    rw [← Option.some.inj hop, Operator.yields_iff hu hv]
    exact decide_eq_beq_or (by omega)
  · intro op hop
    rw [← Option.some.inj hop, Operator.yields_iff hu hv]
    exact decide_eq_beq (by omega)

/-- When a negator is one, for svecs that are equal or not and the result of comparing their
norms. -/
def NegatorKept (equal : Prop) (sign : Int) : Operator → Prop
  -- both operators call `svec_l2_eq`
  | .eqEq => False
  | .ne => sign = 0 ↔ ¬ equal
  | _ => True

/-- When a commutator is one. -/
def CommutatorKept (equal : Prop) (sign : Int) : Operator → Prop
  | .eqEq => sign = 0 ↔ equal
  | _ => True

/-- The answers of the functions behind an operator and its negator. -/
theorem negatorKept_iff (equal : Bool) {sign : Int} (hsign : sign = -1 ∨ sign = 0 ∨ sign = 1)
    (op : Operator) :
    (∀ neg, (createOperator op).negator = some neg →
      (!(createOperator op).procedure.answer equal sign) =
        (createOperator neg).procedure.answer equal sign) ↔
    NegatorKept (equal = true) sign op := by
  rcases hsign with h | h | h <;> subst h <;> cases equal <;> cases op <;>
    simp [createOperator, Procedure.answer, NegatorKept]

/-- The answers of the functions behind an operator and its commutator. -/
theorem commutatorKept_iff (equal : Bool) {sign : Int} (hsign : sign = -1 ∨ sign = 0 ∨ sign = 1)
    (op : Operator) :
    (createOperator op).procedure.answer equal sign =
        (createOperator (createOperator op).commutator).procedure.answer equal (-sign) ↔
    CommutatorKept (equal = true) sign op := by
  rcases hsign with h | h | h <;> subst h <;> cases equal <;> cases op <;>
    simp [createOperator, Procedure.answer, CommutatorKept]

theorem Operator.keepsNegator_iff {arith : Float8Arith} {u v : SvecType} {x y : Float8}
    (hu : HasNorm arith u x) (hv : HasNorm arith v y) (op : Operator) :
    op.KeepsNegator arith u v ↔
      NegatorKept ((sdataFromSvec u).dense = (sdataFromSvec v).dense) (signOf x y) op := by
  have hkept := negatorKept_iff (decide ((sdataFromSvec u).dense = (sdataFromSvec v).dense))
    (signOf_cases x y) op
  rw [decide_eq_true_eq] at hkept
  rw [← hkept, Operator.KeepsNegator]
  simp only [Operator.yields_iff hu hv, exists_eq_left]

theorem Operator.keepsCommutator_iff {arith : Float8Arith} {u v : SvecType} {x y : Float8}
    (hu : HasNorm arith u x) (hv : HasNorm arith v y) (op : Operator) :
    op.KeepsCommutator arith u v ↔
      CommutatorKept ((sdataFromSvec u).dense = (sdataFromSvec v).dense) (signOf x y) op := by
  have hkept := commutatorKept_iff (decide ((sdataFromSvec u).dense = (sdataFromSvec v).dense))
    (signOf_cases x y) op
  rw [decide_eq_true_eq] at hkept
  rw [← hkept, Operator.KeepsCommutator, ← signOf_swap]
  simp only [Operator.yields_iff hu hv, Operator.yields_iff hv hu, exists_eq_left,
    eq_comm (a := (sdataFromSvec v).dense)]

/-- No two svecs meet all the promises, since `==` and its negator call the same function.  The
others are kept, except those between `=` and the operators on norms, which are kept when the
svecs are equal exactly if their norms are (`==`), or exactly if their norms are not (`<>`). -/
theorem comparison_keepsPromises_never {arith : Float8Arith} {u v : SvecType} {x y : Float8}
    (hu : HasNorm arith u x) (hv : HasNorm arith v y) :
    ¬ KeepsPromises arith u v ∧ Trichotomy arith u v ∧ CmpAgrees arith u v ∧
    (∀ op : Operator, op.KeepsNegator arith u v ↔
      NegatorKept ((sdataFromSvec u).dense = (sdataFromSvec v).dense) (signOf x y) op) ∧
    ∀ op : Operator, op.KeepsCommutator arith u v ↔
      CommutatorKept ((sdataFromSvec u).dense = (sdataFromSvec v).dense) (signOf x y) op := by
  refine ⟨fun h => ?_, trichotomy hu hv, cmpAgrees hu hv, Operator.keepsNegator_iff hu hv,
    Operator.keepsCommutator_iff hu hv⟩
  exact (Operator.keepsNegator_iff hu hv .eqEq).mp (h.negator .eqEq)

/-- The svec `{2}:{0}`. -/
def zeroPair : SvecType := tightSvec 2 2 [0] [254] (by decide)

/-- The arithmetic on zeros, which are all that the norm of zeros takes. -/
def zeroArith : Float8Arith where
  add _ _ := 0
  mul _ _ := 0
  sqrt _ := 0
  ofInt64 _ := 0x4000000000000000

theorem hasNorm_zeroPair : HasNorm zeroArith zeroPair 0 where
  proper := ⟨[2], .of_runLengths (by decide) rfl, by decide, by decide⟩
  norm_eq := by rfl
  not_nan := by decide

theorem comparison_keepsPromises_never_zeros :
    ¬ KeepsPromises zeroArith zeroPair zeroPair ∧ Trichotomy zeroArith zeroPair zeroPair ∧
      Operator.lt.KeepsNegator zeroArith zeroPair zeroPair := by
  have ⟨hnot, htri, _, hnegator, _⟩ :=
    comparison_keepsPromises_never hasNorm_zeroPair hasNorm_zeroPair
  exact ⟨hnot, htri, (hnegator .lt).mpr trivial⟩

/-- `{2}:{0} == {2}:{0}` and `{2}:{0} <> {2}:{0}` are both true. -/
theorem comparison_eqEq_ne_both_true :
    ¬ ∀ u v x y, HasNorm zeroArith u x → HasNorm zeroArith v y → KeepsPromises zeroArith u v := by
  intro h
  have hkept := (h zeroPair zeroPair 0 0 hasNorm_zeroPair hasNorm_zeroPair).negator .eqEq
  exact (Operator.keepsNegator_iff hasNorm_zeroPair hasNorm_zeroPair .eqEq).mp hkept

end Madlib.Svec
