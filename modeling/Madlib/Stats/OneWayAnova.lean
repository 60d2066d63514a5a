import Madlib.Dbal
import Madlib.Lib.Arrivals
import Madlib.Lib.Moments
import Madlib.Lib.Segments

/-!
# One-way analysis of variance

The transition state keeps a slot for each group, in the order in which the groups arrive: the
number of values, their sum and the corrected sum of squares.  The sorted group values and, at
the same positions, the slots of the groups are kept beside them.  The space for groups grows by
powers of two.
-/

namespace Madlib.Stats

open Madlib.Backend Madlib.Dbal Madlib.Lib.Arrivals Madlib.Lib.Moments Madlib.Lib.Segments

/-- `nextPowerOfTwo` on `uint16_t` -/
def nextPowerOfTwo (inValue : Nat) : Nat :=
  let inValue := (inValue + 65535) % 65536
  let inValue := inValue ||| inValue >>> 1
  let inValue := inValue ||| inValue >>> 2
  let inValue := inValue ||| inValue >>> 4
  let inValue := inValue ||| inValue >>> 8
  (inValue + 1) % 65536

/-- `OWATransitionState`: the fields, for each the reserved space, and what follows them. -/
structure OWATransitionState (α : Type) where
  numGroups : α
  groupValues : List α
  posToIndices : List α
  num : List α
  sum : List α
  correctedSquareSum : List α
  rest : List α
  deriving DecidableEq

def arraySize (inNumGroupsReserved : Nat) : Nat := 1 + 5 * inNumGroupsReserved

/-! ## Memory -/

section Memory

variable {α : Type}

/-- An element behind a pointer. -/
def deref (xs : List α) (i : Nat) : Except Fault α :=
  match xs[i]? with
  | some x => .ok x
  | none => .error .outOfBounds

def store (xs : List α) (i : Nat) (x : α) : Except Fault (List α) :=
  if i < xs.length then .ok (xs.set i x) else .error .outOfBounds

/-- The elements from `first` to before `last`. -/
def slice (xs : List α) (first last : Nat) : Except Fault (List α) :=
  if xs.length < last then .error .outOfBounds else .ok ((xs.drop first).take (last - first))

/-- `std::copy`, which moves the elements as a block. -/
def stdCopy (elements dest : List α) (pos : Nat) : Except Fault (List α) :=
  if dest.length < pos + elements.length then .error .outOfBounds
  else .ok (dest.take pos ++ elements ++ dest.drop (pos + elements.length))

/-- `dest.segment(0, n) << elements` -/
def assignSegment (elements dest : List α) (n : Nat) : Except Fault (List α) := do
  eigenAssert (n ≤ dest.length)
  eigenAssert (elements.length = n)
  stdCopy elements dest 0

end Memory

/-! ## The transition state -/

namespace OWATransitionState

section Construction

variable {α : Type}

def rebind (storage : List α) (inNumGroupsReserved : Nat) :
    Except Fault (OWATransitionState α) :=
  if storage.length < arraySize inNumGroupsReserved then
    .error (thrown "Out-of-bounds array access detected.")
  else do
    let numGroups ← elementAt storage 0
    let _ ← elementAt storage 1
    let _ ← elementAt storage (1 + inNumGroupsReserved)
    let _ ← elementAt storage (1 + 2 * inNumGroupsReserved)
    let _ ← elementAt storage (1 + 3 * inNumGroupsReserved)
    let _ ← elementAt storage (1 + 4 * inNumGroupsReserved)
    pure
      { numGroups := numGroups
        groupValues := (storage.drop 1).take inNumGroupsReserved
        posToIndices := (storage.drop (1 + inNumGroupsReserved)).take inNumGroupsReserved
        num := (storage.drop (1 + 2 * inNumGroupsReserved)).take inNumGroupsReserved
        sum := (storage.drop (1 + 3 * inNumGroupsReserved)).take inNumGroupsReserved
        correctedSquareSum :=
          (storage.drop (1 + 4 * inNumGroupsReserved)).take inNumGroupsReserved
        rest := storage.drop (1 + 5 * inNumGroupsReserved) }

/-- The array of a state. -/
def toArray (s : OWATransitionState α) : List α :=
  s.numGroups :: (s.groupValues ++ (s.posToIndices ++
    (s.num ++ (s.sum ++ (s.correctedSquareSum ++ s.rest)))))

end Construction

variable {α : Type} [Field α] [LinearOrder α] [FloorRing α]

def construct (storage : List α) : Except Fault (OWATransitionState α) := do
  let numGroups ← elementAt storage 0
  rebind storage (nextPowerOfTwo (uint16 numGroups))

/-- The lower bound of a group value, and whether the value is found there. -/
def positionOf (s : OWATransitionState α) (inValue : Nat) : Except Fault (Nat × Bool) := do
  let values ← slice s.groupValues 0 (uint16 s.numGroups)
  let pos := lowerBound values (inValue : α) % 65536
  pure (pos, decide (values[pos]? = some (inValue : α)))

/-- `idxOfGroup` of an immutable state -/
def idxOfGroupImmutable (s : OWATransitionState α) (inValue : Nat) : Except Fault Nat := do
  let found ← s.positionOf inValue
  if found.2 then pure found.1
  else .error (thrown "Could not find a grouping value during one-way ANOVA.")

/-- A new group in the reserved space. -/
def insertGroup (s : OWATransitionState α) (pos inValue : Nat) :
    Except Fault (OWATransitionState α) := do
  let numGroups := uint16 s.numGroups
  let groupValues ← stdCopy (← slice s.groupValues pos numGroups) s.groupValues (pos + 1)
  let groupValues ← store groupValues pos (inValue : α)
  let posToIndices ← stdCopy (← slice s.posToIndices pos numGroups) s.posToIndices (pos + 1)
  let posToIndices ← store posToIndices pos (numGroups : α)
  pure { s with
    groupValues := groupValues
    posToIndices := posToIndices
    numGroups := s.numGroups + 1 }

/-- A new group in a larger state, into which this one is copied. -/
def reallocate (s : OWATransitionState α) (pos inValue numGroupsReserved : Nat) :
    Except Fault (OWATransitionState α) := do
  let numGroups := uint16 s.numGroups
  let numGroupsReserved :=
    if numGroupsReserved = 0 then 1 else numGroupsReserved * 2 % 65536
  let storage ← allocateArray (arraySize numGroupsReserved)
  let fresh ← rebind storage numGroupsReserved
  let groupValues ← stdCopy (← slice s.groupValues 0 pos) fresh.groupValues 0
  let groupValues ← stdCopy (← slice s.groupValues pos numGroups) groupValues (pos + 1)
  let groupValues ← store groupValues pos (inValue : α)
  let posToIndices ← stdCopy (← slice s.posToIndices 0 pos) fresh.posToIndices 0
  let posToIndices ← stdCopy (← slice s.posToIndices pos numGroups) posToIndices (pos + 1)
  let posToIndices ← store posToIndices pos (numGroups : α)
  let num ← assignSegment s.num fresh.num numGroups
  let sum ← assignSegment s.sum fresh.sum numGroups
  let correctedSquareSum ← assignSegment s.correctedSquareSum fresh.correctedSquareSum numGroups
  pure { fresh with
    numGroups := ((numGroups + 1) % 65536 : Nat)
    groupValues := groupValues
    posToIndices := posToIndices
    num := num
    sum := sum
    correctedSquareSum := correctedSquareSum }

/-- `idxOfGroup` of a mutable state, which may get a new group. -/
def idxOfGroup (s : OWATransitionState α) (inValue : Nat) :
    Except Fault (OWATransitionState α × Nat) := do
  let found ← s.positionOf inValue
  let numGroupsReserved := nextPowerOfTwo (uint16 s.numGroups)
  let s ←
    if found.2 then pure s
    else if uint16 s.numGroups < numGroupsReserved then s.insertGroup found.1 inValue
    else s.reallocate found.1 inValue numGroupsReserved
  let idx ← deref s.posToIndices found.1
  pure (s, ⌊idx⌋₊)

/-- `num(idx)`, `sum(idx)` and `corrected_square_sum(idx)` -/
def sampleAt (s : OWATransitionState α) (idx : Nat) : Except Fault (Sample α) := do
  eigenAssert (idx < s.num.length)
  eigenAssert (idx < s.sum.length)
  eigenAssert (idx < s.correctedSquareSum.length)
  pure ⟨← deref s.num idx, ← deref s.sum idx, ← deref s.correctedSquareSum idx⟩

end OWATransitionState

/-! ## The functions of the aggregate -/

section Functions

variable {α : Type} [Field α] [LinearOrder α]

def updateCorrectedSumOfSquares (ioLeft inRight : Sample α) : Sample α :=
  if inRight.weight ≤ 0 then ioLeft
  else
    let corrected :=
      if ioLeft.weight ≤ 0 then inRight.corrected
      else
        let diff := inRight.weight / ioLeft.weight * ioLeft.sum - inRight.sum
        ioLeft.corrected + (inRight.corrected +
          ioLeft.weight / (inRight.weight * (ioLeft.weight + inRight.weight)) * diff * diff)
    ⟨ioLeft.weight + inRight.weight, ioLeft.sum + inRight.sum, corrected⟩

variable [FloorRing α]

/-- `updateCorrectedSumOfSquares` on the elements of a state -/
def OWATransitionState.updateAt (s : OWATransitionState α) (idx : Nat) (inRight : Sample α) :
    Except Fault (OWATransitionState α) := do
  let ioLeft := updateCorrectedSumOfSquares (← s.sampleAt idx) inRight
  pure { s with
    num := s.num.set idx ioLeft.weight
    sum := s.sum.set idx ioLeft.sum
    correctedSquareSum := s.correctedSquareSum.set idx ioLeft.corrected }

/-- An `int32_t` converted to `uint16_t`. -/
def label (group : Int) : Nat := (group % 65536).toNat

def oneWayAnovaTransition (storage : List α) (group : Int) (value : α) :
    Except Fault (List α) := do
  let state ← OWATransitionState.construct storage
  let found ← state.idxOfGroup (label group)
  let state ← found.1.updateAt found.2 ⟨1, value, 0⟩
  pure state.toArray

/-- What the merge function does for one position of the right state. -/
def mergeGroup (stateRight stateLeft : OWATransitionState α) (posRight : Nat) :
    Except Fault (OWATransitionState α) := do
  let value ← deref stateRight.groupValues posRight
  let idxRight ← stateRight.idxOfGroupImmutable (uint16 value)
  let found ← stateLeft.idxOfGroup (uint16 value)
  found.1.updateAt found.2 (← stateRight.sampleAt idxRight)

def oneWayAnovaMergeStates (storageLeft storageRight : List α) : Except Fault (List α) := do
  let stateLeft ← OWATransitionState.construct storageLeft
  let stateRight ← OWATransitionState.construct storageRight
  let merged ← (List.range (uint16 stateRight.numGroups)).foldlM (mergeGroup stateRight) stateLeft
  pure merged.toArray

/-- The aggregate `one_way_anova` up to its final function. -/
def oneWayAnova : Aggregate Fault (Int × α) (List α) where
  init := [0, 0]
  transition storage row := oneWayAnovaTransition storage row.1 row.2
  merge := oneWayAnovaMergeStates

/-- What a state holds for a group. -/
def groupSample (storage : List α) (g : Nat) : Except Fault (Option (Sample α)) := do
  let state ← OWATransitionState.construct storage
  let found ← state.positionOf g
  if found.2 then do
    let idx ← deref state.posToIndices found.1
    some <$> state.sampleAt ⌊idx⌋₊
  else pure none

end Functions

end Madlib.Stats
