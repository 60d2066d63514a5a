import Madlib.Stats.AnovaState

/-!
# The t-tests and the F-test

The transition state of the t-tests and the F-test: for each of two samples the number of values,
their sum and the corrected sum of squares.  One pass and every merge of segments lead to the
moments of the values.
-/

namespace Madlib.Stats

open Madlib.Backend Madlib.Dbal Madlib.Lib.Moments Madlib.Lib.Segments

/-- `TTestTransitionState`: `numX`, `x_sum` and `correctedX_square_sum`, the same for `y`, and the
elements that are not used. -/
structure TTestTransitionState (α : Type) where
  x : Sample α
  y : Sample α
  rest : List α
  deriving DecidableEq

section Functions

variable {α : Type}

def TTestTransitionState.construct (storage : List α) : Except Fault (TTestTransitionState α) := do
  let numX ← elementAt storage 0
  let xSum ← elementAt storage 1
  let correctedXSquareSum ← elementAt storage 2
  let numY ← elementAt storage 3
  let ySum ← elementAt storage 4
  let correctedYSquareSum ← elementAt storage 5
  pure
    { x := ⟨numX, xSum, correctedXSquareSum⟩
      y := ⟨numY, ySum, correctedYSquareSum⟩
      rest := storage.drop 6 }

/-- The array of a state. -/
def TTestTransitionState.toArray (s : TTestTransitionState α) : List α :=
  s.x.weight :: s.x.sum :: s.x.corrected :: s.y.weight :: s.y.sum :: s.y.corrected :: s.rest

variable [Field α] [LinearOrder α]

def tTestOneTransition (storage : List α) (x : α) : Except Fault (List α) := do
  let state ← TTestTransitionState.construct storage
  pure { state with x := updateCorrectedSumOfSquares state.x ⟨1, x, 0⟩ }.toArray

def tTestTwoTransition (storage : List α) (firstSample : Bool) (value : α) :
    Except Fault (List α) := do
  let state ← TTestTransitionState.construct storage
  if firstSample then
    pure { state with x := updateCorrectedSumOfSquares state.x ⟨1, value, 0⟩ }.toArray
  else
    pure { state with y := updateCorrectedSumOfSquares state.y ⟨1, value, 0⟩ }.toArray

/-- One slot of `one_way_anova`, which is given values and merged with other slots. -/
def anovaSlot : Aggregate Fault α (Sample α) where
  init := ⟨0, 0, 0⟩
  transition slot value := .ok (updateCorrectedSumOfSquares slot ⟨1, value, 0⟩)
  merge slotLeft slotRight := .ok (updateCorrectedSumOfSquares slotLeft slotRight)

variable [FloorRing α]

/-- The fields of an immutable state, whose numbers of rows are integers. -/
def immutableSample (s : Sample α) : Sample α := ⟨(uint64 s.weight : α), s.sum, s.corrected⟩

def tTestMergeStates (storageLeft storageRight : List α) : Except Fault (List α) := do
  let stateLeft ← TTestTransitionState.construct storageLeft
  let stateRight ← TTestTransitionState.construct storageRight
  pure { stateLeft with
    x := updateCorrectedSumOfSquares stateLeft.x (immutableSample stateRight.x)
    y := updateCorrectedSumOfSquares stateLeft.y (immutableSample stateRight.y) }.toArray

/-- The aggregate `t_test_one` up to its final function. -/
def tTestOne : Aggregate Fault α (List α) where
  init := [0, 0, 0, 0, 0, 0, 0]
  transition := tTestOneTransition
  merge := tTestMergeStates

/-- The aggregates `t_test_two_pooled`, `t_test_two_unpooled` and `f_test` up to their final
functions. -/
def tTestTwo : Aggregate Fault (Bool × α) (List α) where
  init := [0, 0, 0, 0, 0, 0, 0]
  transition storage row := tTestTwoTransition storage row.1 row.2
  merge := tTestMergeStates

end Functions

/-! ## What the states hold -/

section States

variable {α : Type}

/-- The values of the rows of one sample. -/
def sampleValues (firstSample : Bool) (rows : Multiset (Bool × α)) : Multiset α :=
  (rows.filter fun row => row.1 = firstSample).map Prod.snd

theorem construct_toArray (s : TTestTransitionState α) :
    TTestTransitionState.construct s.toArray = .ok s := rfl

theorem sampleValues_cons_self (b : Bool) (x : α) (rows : Multiset (Bool × α)) :
    sampleValues b ((b, x) ::ₘ rows) = sampleValues b rows + {x} := by
  unfold sampleValues
  rw [Multiset.filter_cons_of_pos (p := fun row : Bool × α => row.1 = b) _ rfl, Multiset.map_cons,
    add_comm, Multiset.singleton_add]

theorem sampleValues_cons_ne {b c : Bool} (h : c ≠ b) (x : α) (rows : Multiset (Bool × α)) :
    sampleValues b ((c, x) ::ₘ rows) = sampleValues b rows := by
  unfold sampleValues
  rw [Multiset.filter_cons_of_neg (p := fun row : Bool × α => row.1 = b) _ h]

theorem sampleValues_add (b : Bool) (rows rows' : Multiset (Bool × α)) :
    sampleValues b (rows + rows') = sampleValues b rows + sampleValues b rows' := by
  unfold sampleValues
  rw [Multiset.filter_add, Multiset.map_add]

variable [Field α]

/-- The state when these values of the samples have been seen. -/
def tTestState (xs ys : Multiset α) : TTestTransitionState α := ⟨moments xs, moments ys, [0]⟩

theorem tTestState_zero : (tTestState 0 0 : TTestTransitionState α).toArray = [0, 0, 0, 0, 0, 0, 0] := by
  rw [tTestState, moments_zero]
  rfl

variable [LinearOrder α] [IsStrictOrderedRing α]

theorem update_singleton (values : Multiset α) (x : α) :
    updateCorrectedSumOfSquares (moments values) ⟨1, x, 0⟩ = moments (values + {x}) := by
  rw [← moments_singleton, updateCorrectedSumOfSquares_moments]

theorem anovaSlot_tracks : Tracks (anovaSlot (α := α)) moments := by
  constructor
  · exact moments_zero.symm
  · intro values x
    change Except.ok _ = _
    rw [update_singleton, add_comm, Multiset.singleton_add]
  · intro values values'
    exact congrArg Except.ok (updateCorrectedSumOfSquares_moments values values')

variable [FloorRing α]

theorem immutableSample_moments (values : Multiset α) :
    immutableSample (moments values) = moments values := by
  have hweight : ((uint64 (moments values).weight : Nat) : α) = (moments values).weight :=
    congrArg Nat.cast (Nat.floor_natCast values.card)
  unfold immutableSample
  rw [hweight]

theorem tTestMergeStates_tTestState (xs ys xs' ys' : Multiset α) :
    tTestMergeStates (tTestState xs ys).toArray (tTestState xs' ys').toArray =
      .ok (tTestState (xs + xs') (ys + ys')).toArray := by
  unfold tTestMergeStates
  rw [construct_toArray, ok_bind, construct_toArray, ok_bind]
  simp only [tTestState, immutableSample_moments, updateCorrectedSumOfSquares_moments]
  rfl

theorem tTestOne_tracks : Tracks (tTestOne (α := α)) fun rows => (tTestState rows 0).toArray := by
  constructor
  · exact tTestState_zero.symm
  · intro rows x
    change tTestOneTransition _ x = _
    unfold tTestOneTransition
    rw [construct_toArray, ok_bind]
    simp only [tTestState]
    rw [update_singleton, add_comm, Multiset.singleton_add]
    rfl
  · intro rows rows'
    exact tTestMergeStates_tTestState rows 0 rows' 0

theorem tTestTwo_tracks : Tracks (tTestTwo (α := α)) fun rows =>
    (tTestState (sampleValues true rows) (sampleValues false rows)).toArray := by
  constructor
  · exact tTestState_zero.symm
  · rintro rows ⟨firstSample, value⟩
    change tTestTwoTransition _ firstSample value = _
    unfold tTestTwoTransition
    rw [construct_toArray, ok_bind]
    cases firstSample with
    | true =>
        rw [if_pos rfl, sampleValues_cons_self, sampleValues_cons_ne (by decide)]
        simp only [tTestState]
        rw [update_singleton]
        rfl
    | false =>
        rw [if_neg (by decide), sampleValues_cons_self, sampleValues_cons_ne (by decide)]
        simp only [tTestState]
        rw [update_singleton]
        rfl
  · intro rows rows'
    rw [sampleValues_add, sampleValues_add]
    exact tTestMergeStates_tTestState _ _ _ _

end States

/-! ## The statistics -/

section Statistics

variable {α : Type} [Field α]

/-- The number of values, their sum and the sum of the squared distances from the mean. -/
def statistics (values : Multiset α) : List α :=
  [(values.card : α), values.sum, (values.map fun x => (x - values.sum / values.card) ^ 2).sum]

/-- A state that some plan leads to. -/
def TTestReachable [LinearOrder α] [FloorRing α] (state : List α) : Prop :=
  ∃ plan, tTestTwo.run plan = .ok state

variable [LinearOrder α] [IsStrictOrderedRing α]

theorem toArray_tTestState (xs ys : Multiset α) :
    (tTestState xs ys).toArray = statistics xs ++ statistics ys ++ [0] := by
  rw [statistics, statistics, ← corrected_eq, ← corrected_eq]
  rfl

theorem tTestReachable_eq [FloorRing α] {state : List α} (h : TTestReachable state) :
    ∃ xs ys, state = (tTestState xs ys).toArray := by
  obtain ⟨plan, hrun⟩ := h
  rw [tTestTwo_tracks.run plan] at hrun
  exact ⟨_, _, (Except.ok.inj hrun).symm⟩

/-- The states are the statistics of the values, in any order of rows and merges.  So merging is
commutative and associative with the empty state as unit, and no corrected sum is negative. -/
theorem t_test_statistics (α : Type) [Field α] [LinearOrder α] [IsStrictOrderedRing α]
    [FloorRing α] :
    (∀ plan : Plan (Bool × α), tTestTwo.run plan =
      .ok (statistics (sampleValues true plan.rows) ++
        statistics (sampleValues false plan.rows) ++ [0])) ∧
    (∀ plan : Plan α, tTestOne.run plan = .ok (statistics plan.rows ++ statistics 0 ++ [0])) ∧
    (∀ plan : Plan α, ∃ slot, anovaSlot.run plan = .ok slot ∧
      [slot.weight, slot.sum, slot.corrected] = statistics plan.rows) ∧
    (∀ s t u : List α, TTestReachable s → TTestReachable t → TTestReachable u →
      tTestMergeStates s t = tTestMergeStates t s ∧
      (tTestMergeStates s t >>= fun st => tTestMergeStates st u) =
        (tTestMergeStates t u >>= fun tu => tTestMergeStates s tu) ∧
      tTestMergeStates tTestTwo.init s = .ok s ∧ tTestMergeStates s tTestTwo.init = .ok s) ∧
    ∀ values : Multiset α, 0 ≤ (values.map fun x => (x - values.sum / values.card) ^ 2).sum := by
  constructor
  · intro plan
    rw [tTestTwo_tracks.run plan, toArray_tTestState]
  constructor
  · intro plan
    rw [tTestOne_tracks.run plan, toArray_tTestState]
  constructor
  · intro plan
    refine ⟨_, anovaSlot_tracks.run plan, ?_⟩
    rw [statistics, ← corrected_eq]
    rfl
  constructor
  · intro s t u hs ht hu
    obtain ⟨xs, ys, rfl⟩ := tTestReachable_eq hs
    obtain ⟨xs', ys', rfl⟩ := tTestReachable_eq ht
    obtain ⟨xs'', ys'', rfl⟩ := tTestReachable_eq hu
    have hinit : tTestTwo.init = (tTestState (0 : Multiset α) 0).toArray := tTestState_zero.symm
    rw [hinit]
    simp only [tTestMergeStates_tTestState, ok_bind]
    refine ⟨?_, ?_, ?_, ?_⟩
    · rw [add_comm xs, add_comm ys]
    · rw [add_assoc, add_assoc]
    · rw [zero_add, zero_add]
    · rw [add_zero, add_zero]
  · intro values
    rw [← corrected_eq]
    exact corrected_nonneg values

end Statistics

theorem t_test_statistics_segments :
    tTestTwo.run (.merged (.segment [(true, (1 : ℚ)), (false, 5)])
        (.merged (.segment []) (.segment [(true, 3)]))) = .ok [2, 4, 2, 1, 5, 0, 0] := by
  rw [(t_test_statistics ℚ).1]
  decide +kernel

end Madlib.Stats
