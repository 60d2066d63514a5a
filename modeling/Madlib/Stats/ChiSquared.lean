import Madlib.Dbal
import Madlib.Lib.Segments

/-!
# The chi-squared goodness-of-fit test

The transition state of `chi2_gof_test`.  A row is the observed number, the expected number and
the degree of freedom, of which the last two may be NULL.  Sums are exact, but the degree of
freedom is an `int64_t` that is kept in a `double`.
-/

namespace Madlib.Stats

open Madlib.Backend Madlib.Dbal Madlib.Lib.Segments

/-! ## Integers in doubles -/

/-- The `double` closest to a number, the even one of two. -/
def doubleOfNat (n : Nat) : Nat :=
  let e := n.size - 53
  let q := n / 2 ^ e
  let r := n % 2 ^ e
  (if 2 * r < 2 ^ e ∨ 2 * r = 2 ^ e ∧ q % 2 = 0 then q else q + 1) * 2 ^ e

/-- An `int64_t` converted to `double`. -/
def doubleOfInt64 (x : Int) : Int :=
  if x < 0 then -(doubleOfNat x.natAbs : Int) else doubleOfNat x.natAbs

/-- An integral `double` converted to `int64_t`, with what x86-64 returns outside its range. -/
def int64OfDouble (x : Int) : Int :=
  if -9223372036854775808 ≤ x ∧ x < 9223372036854775808 then x else -9223372036854775808

/-! ## The functions of the aggregate -/

structure Chi2TestTransitionState (α : Type) where
  numRows : α
  sumExpect : α
  sumObsSquareOverExpect : α
  sumObs : α
  sumSquaredDeviations : α
  uniformDist : Bool
  df : Int
  deriving DecidableEq

/-- The arguments of the transition function. -/
structure Chi2Row (α : Type) where
  observed : Int
  expected : Option α
  df : Option Int
  deriving DecidableEq

/-- What the final function returns. -/
structure Chi2TestResult (α : Type) where
  statistic : α
  pValue : α
  df : Int
  phi : α
  contingencyCoef : α
  deriving DecidableEq

def expectedMixed : Fault :=
  thrown ("Expected number of observations must be given for all events or must be NULL for all " ++
    "events, in which case a discrete uniform distribution is assumed.")

def dfNotConstant : Fault := thrown "Degree of freedom must be constant."

def dfNotPositive : Fault := thrown "Degree of freedom must be positive."

section Functions

variable {α : Type} [Field α] [LinearOrder α]

def updateSumSquaredDeviations (ioLeft inRight : Chi2TestTransitionState α) :
    Chi2TestTransitionState α :=
  if inRight.numRows ≤ 0 then ioLeft
  else
    { ioLeft with
      sumSquaredDeviations := ioLeft.sumSquaredDeviations + (inRight.sumSquaredDeviations +
        ioLeft.sumExpect * inRight.sumObsSquareOverExpect +
        ioLeft.sumObsSquareOverExpect * inRight.sumExpect -
        2 * ioLeft.sumObs * inRight.sumObs)
      numRows := ioLeft.numRows + inRight.numRows
      sumExpect := ioLeft.sumExpect + inRight.sumExpect
      sumObsSquareOverExpect := ioLeft.sumObsSquareOverExpect + inRight.sumObsSquareOverExpect
      sumObs := ioLeft.sumObs + inRight.sumObs }

/-- The sums of one row; the last two fields are not read. -/
def rowState (row : Chi2Row α) : Chi2TestTransitionState α where
  numRows := 1
  sumExpect := row.expected.getD 1
  sumObsSquareOverExpect := row.observed * row.observed / row.expected.getD 1
  sumObs := row.observed
  sumSquaredDeviations := 0
  uniformDist := row.expected.isNone
  df := row.df.getD (-1)

/-- The first row decides whether expected numbers are given. -/
def checkUniformDist (state : Chi2TestTransitionState α) (isNull : Bool) :
    Except Fault (Chi2TestTransitionState α) :=
  if state.uniformDist ≠ isNull then
    if 0 < state.numRows then .error expectedMixed
    else .ok { state with uniformDist := isNull }
  else .ok state

/-- The first row decides the degree of freedom, which is -1 for NULL. -/
def checkDf (state : Chi2TestTransitionState α) (dfArg : Option Int) :
    Except Fault (Chi2TestTransitionState α) :=
  let df := dfArg.getD (-1)
  if dfArg.isSome ∧ df ≤ 0 then .error dfNotPositive
  else if state.df ≠ doubleOfInt64 df then
    if 0 < state.numRows then .error dfNotConstant
    else .ok { state with df := doubleOfInt64 df }
  else .ok state

def chi2GofTestTransition (state : Chi2TestTransitionState α) (row : Chi2Row α) :
    Except Fault (Chi2TestTransitionState α) := do
  let state ← checkUniformDist state row.expected.isNone
  let state ← checkDf state row.df
  pure (updateSumSquaredDeviations state (rowState row))

variable [FloorRing α]

/-- A state without rows takes the flag of the right state. -/
def mergeUniformDist (stateLeft stateRight : Chi2TestTransitionState α) :
    Except Fault (Chi2TestTransitionState α) :=
  if stateLeft.uniformDist ≠ stateRight.uniformDist then
    if stateLeft.numRows = 0 then .ok { stateLeft with uniformDist := stateRight.uniformDist }
    else if 0 < uint64 stateRight.numRows then .error expectedMixed
    else .ok stateLeft
  else .ok stateLeft

/-- A state without rows takes the degree of freedom of the right state, which is read as an
`int64_t` where it is compared. -/
def mergeDf (stateLeft stateRight : Chi2TestTransitionState α) :
    Except Fault (Chi2TestTransitionState α) :=
  if stateLeft.df ≠ doubleOfInt64 (int64OfDouble stateRight.df) then
    if stateLeft.numRows = 0 then .ok { stateLeft with df := stateRight.df }
    else if 0 < uint64 stateRight.numRows then .error dfNotConstant
    else .ok stateLeft
  else .ok stateLeft

def chi2GofTestMergeStates (stateLeft stateRight : Chi2TestTransitionState α) :
    Except Fault (Chi2TestTransitionState α) := do
  let stateLeft ← mergeUniformDist stateLeft stateRight
  let stateLeft ← mergeDf stateLeft stateRight
  pure (updateSumSquaredDeviations stateLeft
    { stateRight with numRows := (uint64 stateRight.numRows : α) })

/-- The aggregate `chi2_gof_test` up to its final function. -/
def chi2GofTest : Aggregate Fault (Chi2Row α) (Chi2TestTransitionState α) where
  init := ⟨0, 0, 0, 0, 0, false, 0⟩
  transition := chi2GofTestTransition
  merge := chi2GofTestMergeStates

/-- `chi2_gof_test_final`, over the distribution function and the square root. -/
def chi2GofTestFinal (chiSquaredCDF : α → Int → α) (sqrt : α → α)
    (state : Chi2TestTransitionState α) : Option (Chi2TestResult α) :=
  if uint64 state.numRows = 0 then none
  else
    let degreeOfFreedom : Int :=
      if int64OfDouble state.df < 0 then uint64 state.numRows - 1 else int64OfDouble state.df
    let statistic := state.sumSquaredDeviations / state.sumObs
    some
      { statistic := statistic
        pValue := 1 - chiSquaredCDF statistic degreeOfFreedom
        df := degreeOfFreedom
        phi := sqrt (statistic / (uint64 state.numRows : α))
        contingencyCoef := sqrt (statistic / ((uint64 state.numRows : α) + statistic)) }

end Functions

end Madlib.Stats
