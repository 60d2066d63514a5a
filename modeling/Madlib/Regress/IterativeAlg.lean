import Mathlib
import Madlib.Lib.Loop

/-!
# The driver of iterative algorithms

`__runIterativeAlg` keeps the state of every iteration in a row of a table.  After each update
the loop is left if the new state is NULL, and otherwise, but not before the second iteration,
if there have been enough updates or a query on two of the states says so.
-/

namespace Madlib.Regress

open Madlib.Lib.Loop

variable {σ : Type}

/-- What stops a statement of the driver. -/
inductive DriverError where
  | integerOutOfRange
  | duplicateKey
  | listIndexOutOfRange

/-- The arguments of the driver: the new state as a function of the iteration and of the states
it is computed from, and the answer for an older and a newer state. -/
structure IterativeAlg (σ : Type) where
  initialState : Option σ
  updateExpr : Nat → List (Option σ) → Option σ
  terminateExpr : Nat → Option σ → Option σ → Option Bool
  maxNumIterations : Nat
  cyclesPerIteration : Nat

/-- `_madlib_iterative_alg` -/
abbrev IterationTable (σ : Type) := List (Nat × Option σ)

/-- `SELECT _madlib_state FROM _madlib_iterative_alg WHERE _madlib_iteration = ...` -/
def statesOf (table : IterationTable σ) (iteration : Int) : List (Option σ) :=
  (table.filter fun row => (row.1 : Int) = iteration).map Prod.snd

/-- The iteration is an `INTEGER PRIMARY KEY`. -/
def insertState (table : IterationTable σ) (iteration : Nat) (state : Option σ) :
    Except DriverError (IterationTable σ) :=
  if 2147483647 < iteration then .error .integerOutOfRange
  else if statesOf table iteration ≠ [] then .error .duplicateKey
  else .ok (table ++ [(iteration, state)])

/-- `plpy.execute(...)[0]` -/
def firstRow {α : Type} : List α → Except DriverError α
  | [] => .error .listIndexOutOfRange
  | row :: _ => .ok row

/-- An executed update, or an evaluated termination test with the states it is about. -/
inductive Executed (σ : Type) where
  | update (iteration : Nat)
  | terminate (iteration : Nat) (older newer : List (Option σ))

structure DriverState (σ : Type) where
  iteration : Nat
  table : IterationTable σ
  executed : List (Executed σ)

/-- The body of `while True`; `break` returns the iteration. -/
def iterativeRound (alg : IterativeAlg σ) (s : DriverState σ) :
    Except DriverError (Step (DriverState σ) (Nat × List (Executed σ))) := do
  let iteration := s.iteration + 1
  let table ← insertState s.table iteration
    (alg.updateExpr iteration (statesOf s.table ((iteration : Int) - 1)))
  let executed := s.executed ++ [.update iteration]
  let isNull ← firstRow ((statesOf table iteration).map Option.isNone)
  if isNull then pure (.done (iteration, executed))
  else if ¬ alg.cyclesPerIteration < iteration then pure (.next ⟨iteration, table, executed⟩)
  else if alg.cyclesPerIteration * alg.maxNumIterations ≤ iteration then
    pure (.done (iteration, executed))
  else do
    let older := statesOf table ((iteration : Int) - alg.cyclesPerIteration)
    let newer := statesOf table iteration
    let executed := executed ++ [.terminate iteration older newer]
    let shouldTerminate ← firstRow ((older ×ˢ newer).map fun states =>
      alg.terminateExpr iteration states.1 states.2)
    if shouldTerminate = some true then pure (.done (iteration, executed))
    else pure (.next ⟨iteration, table, executed⟩)

def iterativeStart (alg : IterativeAlg σ) : DriverState σ :=
  ⟨0, [(0, alg.initialState)], []⟩

/-- `__runIterativeAlg` returns the iteration it stopped at, with the statements executed. -/
def RunsIterativeAlg (alg : IterativeAlg σ) (iteration : Nat) (executed : List (Executed σ)) :
    Prop :=
  Returns (iterativeRound alg) (iterativeStart alg) (.ok (iteration, executed))

/-! ## What the driver promises -/

/-- The state of an iteration. -/
def IterativeAlg.stateAt (alg : IterativeAlg σ) : Nat → Option σ
  | 0 => alg.initialState
  | i + 1 => alg.updateExpr (i + 1) [alg.stateAt i]

def updateOf : Executed σ → Option Nat
  | .update iteration => some iteration
  | .terminate _ _ _ => none

/-- The driver returns the number of its updates, which is within the bound.  A state that is
NULL is the last one, with nothing evaluated behind it, and tests are about states. -/
structure RespectsBound (alg : IterativeAlg σ) (iteration : Nat) (executed : List (Executed σ)) :
    Prop where
  updates : executed.filterMap updateOf = List.range' 1 iteration
  bound : iteration ≤ alg.cyclesPerIteration * alg.maxNumIterations
  null : ∀ i, 1 ≤ i → i ≤ iteration → alg.stateAt i = none →
    i = iteration ∧ executed.getLast? = some (.update i)
  tests : ∀ i older newer, .terminate i older newer ∈ executed →
    ∃ a b, older = [some a] ∧ newer = [some b]

/-- The condition the loop is left on after update `i`. -/
def IterativeAlg.stops (alg : IterativeAlg σ) (i : Nat) : Prop :=
  alg.stateAt i = none ∨
    alg.cyclesPerIteration < i ∧
      (alg.cyclesPerIteration * alg.maxNumIterations ≤ i ∨
        alg.terminateExpr i (alg.stateAt (i - alg.cyclesPerIteration)) (alg.stateAt i) =
          some true)

/-! ## The table -/

def tableUpTo (alg : IterativeAlg σ) (n : Nat) : IterationTable σ :=
  (List.range (n + 1)).map fun i => (i, alg.stateAt i)

variable {alg : IterativeAlg σ} {n : Nat} {executed : List (Executed σ)}

theorem statesOf_tableUpTo (alg : IterativeAlg σ) (n i : Nat) :
    statesOf (tableUpTo alg n) i = if i ≤ n then [alg.stateAt i] else [] := by
  have hrow : ∀ n, statesOf (tableUpTo alg (n + 1)) i =
      statesOf (tableUpTo alg n) i ++ if n + 1 = i then [alg.stateAt (n + 1)] else [] := by
    intro n
    unfold statesOf tableUpTo
    rw [List.range_succ, List.map_append, List.filter_append, List.map_append]
    congr 1
    by_cases h : n + 1 = i
    · simp [h]
    · have hne : ((n + 1 : Nat) : Int) ≠ i := by omega
      simp only [List.map_cons, List.map_nil, List.filter_cons, List.filter_nil, if_neg h]
      rw [if_neg (by simpa using hne)]
      rfl
  induction n with
  | zero =>
      unfold statesOf tableUpTo
      by_cases h : 0 = i
      · simp [← h, IterativeAlg.stateAt]
      · have hpos : ¬ i ≤ 0 := by omega
        simp [h, hpos]
  | succ n ih =>
      rw [hrow, ih]
      by_cases h : n + 1 = i
      · rw [if_neg (by omega), if_pos h, if_pos (by omega), h, List.nil_append]
      · rw [if_neg h, List.append_nil]
        by_cases hle : i ≤ n
        · rw [if_pos hle, if_pos (by omega)]
        · rw [if_neg hle, if_neg (by omega)]

theorem statesOf_of_le {i : Nat} (h : i ≤ n) :
    statesOf (tableUpTo alg n) i = [alg.stateAt i] := by
  rw [statesOf_tableUpTo, if_pos h]

theorem insertState_tableUpTo (alg : IterativeAlg σ) (n : Nat) :
    insertState (tableUpTo alg n) (n + 1) (alg.stateAt (n + 1)) =
      if 2147483647 < n + 1 then .error .integerOutOfRange
      else .ok (tableUpTo alg (n + 1)) := by
  have hnew : ¬ statesOf (tableUpTo alg n) ((n + 1 : Nat) : Int) ≠ [] := by
    rw [statesOf_tableUpTo, if_neg (by omega)]
    exact not_not.mpr rfl
  unfold insertState
  rw [if_neg hnew]
  congr 2
  unfold tableUpTo
  rw [List.range_succ (n := n + 1), List.map_append]
  rfl

/-! ## One round -/

def afterUpdate (executed : List (Executed σ)) (n : Nat) : List (Executed σ) :=
  executed ++ [.update (n + 1)]

def afterTest (alg : IterativeAlg σ) (executed : List (Executed σ)) (n : Nat) :
    List (Executed σ) :=
  afterUpdate executed n ++ [.terminate (n + 1)
    [alg.stateAt (n + 1 - alg.cyclesPerIteration)] [alg.stateAt (n + 1)]]

/-- One round, with the table of the first iterations. -/
theorem iterativeRound_eq (alg : IterativeAlg σ) (n : Nat) (executed : List (Executed σ)) :
    iterativeRound alg ⟨n, tableUpTo alg n, executed⟩ =
      if 2147483647 < n + 1 then .error .integerOutOfRange
      else if (alg.stateAt (n + 1)).isNone then .ok (.done (n + 1, afterUpdate executed n))
      else if ¬ alg.cyclesPerIteration < n + 1 then
        .ok (.next ⟨n + 1, tableUpTo alg (n + 1), afterUpdate executed n⟩)
      else if alg.cyclesPerIteration * alg.maxNumIterations ≤ n + 1 then
        .ok (.done (n + 1, afterUpdate executed n))
      else if alg.terminateExpr (n + 1) (alg.stateAt (n + 1 - alg.cyclesPerIteration))
          (alg.stateAt (n + 1)) = some true then
        .ok (.done (n + 1, afterTest alg executed n))
      else .ok (.next ⟨n + 1, tableUpTo alg (n + 1), afterTest alg executed n⟩) := by
  have hprev : statesOf (tableUpTo alg n) (((n + 1 : Nat) : Int) - 1) = [alg.stateAt n] := by
    have hcast : ((n + 1 : Nat) : Int) - 1 = (n : Nat) := by omega
    rw [hcast]
    exact statesOf_of_le le_rfl
  have hnewer : statesOf (tableUpTo alg (n + 1)) ((n + 1 : Nat) : Int) = [alg.stateAt (n + 1)] :=
    statesOf_of_le le_rfl
  unfold iterativeRound
  dsimp only
  rw [hprev, show alg.updateExpr (n + 1) [alg.stateAt n] = alg.stateAt (n + 1) from rfl,
    insertState_tableUpTo]
  by_cases hrange : 2147483647 < n + 1
  · rw [if_pos hrange, if_pos hrange]
    rfl
  · rw [if_neg hrange, if_neg hrange]
    simp only [bind, Except.bind, hnewer, List.map_cons, List.map_nil, firstRow]
    by_cases hcycles : alg.cyclesPerIteration < n + 1
    · have hcast : ((n + 1 : Nat) : Int) - alg.cyclesPerIteration =
          ((n + 1 - alg.cyclesPerIteration : Nat) : Int) := by omega
      rw [hcast, statesOf_of_le (by omega)]
      rfl
    · rw [if_pos hcycles, if_pos hcycles]
      rfl

/-! ## Runs -/

/-- The loop after `n` updates, none of which was the last one. -/
structure Iterating (alg : IterativeAlg σ) (s : DriverState σ) : Prop where
  table : s.table = tableUpTo alg s.iteration
  goesOn : ∀ i, 1 ≤ i → i ≤ s.iteration → ¬ alg.stops i
  updates : s.executed.filterMap updateOf = List.range' 1 s.iteration
  tests : ∀ i older newer, .terminate i older newer ∈ s.executed →
    ∃ a b, older = [some a] ∧ newer = [some b]

theorem Iterating.afterUpdate {s : DriverState σ} (h : Iterating alg s) :
    (afterUpdate s.executed s.iteration).filterMap updateOf = List.range' 1 (s.iteration + 1) ∧
      ∀ i older newer, .terminate i older newer ∈ afterUpdate s.executed s.iteration →
        ∃ a b, older = [some a] ∧ newer = [some b] := by
  unfold Regress.afterUpdate
  constructor
  · rw [List.filterMap_append, h.updates, List.range'_1_concat, Nat.add_comm 1]
    rfl
  · intro i older newer hmem
    rcases List.mem_append.mp hmem with hmem | hmem
    · exact h.tests i older newer hmem
    · simp at hmem

theorem Iterating.afterTest {s : DriverState σ} (h : Iterating alg s)
    (hcycles : 1 ≤ alg.cyclesPerIteration) (hlater : alg.cyclesPerIteration < s.iteration + 1)
    (hstate : alg.stateAt (s.iteration + 1) ≠ none) :
    (afterTest alg s.executed s.iteration).filterMap updateOf =
        List.range' 1 (s.iteration + 1) ∧
      ∀ i older newer, .terminate i older newer ∈ afterTest alg s.executed s.iteration →
        ∃ a b, older = [some a] ∧ newer = [some b] := by
  have ⟨hupdates, htests⟩ := h.afterUpdate
  unfold Regress.afterTest
  constructor
  · rw [List.filterMap_append, hupdates]
    exact List.append_nil _
  · intro i older newer hmem
    rcases List.mem_append.mp hmem with hmem | hmem
    · exact htests i older newer hmem
    · have hnot := h.goesOn (s.iteration + 1 - alg.cyclesPerIteration) (by omega) (by omega)
      have hold : alg.stateAt (s.iteration + 1 - alg.cyclesPerIteration) ≠ none :=
        fun hnone => hnot (.inl hnone)
      have ⟨a, ha⟩ := Option.ne_none_iff_exists'.mp hold
      have ⟨b, hb⟩ := Option.ne_none_iff_exists'.mp hstate
      rw [List.mem_singleton, Executed.terminate.injEq] at hmem
      exact ⟨a, b, by rw [hmem.2.1, ha], by rw [hmem.2.2, hb]⟩

/-- What the loop is left with: the first iteration it stops at, or an error when there is
none among the iterations the table has room for. -/
inductive LeftWith (alg : IterativeAlg σ) :
    Except DriverError (Nat × List (Executed σ)) → Prop where
  | stopped {iteration : Nat} {executed : List (Executed σ)} (hpos : 1 ≤ iteration)
      (hrange : iteration ≤ 2147483647) (hstops : alg.stops iteration)
      (hfirst : ∀ i, 1 ≤ i → i < iteration → ¬ alg.stops i)
      (hupdates : executed.filterMap updateOf = List.range' 1 iteration)
      (htests : ∀ i older newer, .terminate i older newer ∈ executed →
        ∃ a b, older = [some a] ∧ newer = [some b])
      (hnull : alg.stateAt iteration = none → executed.getLast? = some (.update iteration)) :
      LeftWith alg (.ok (iteration, executed))
  | outOfRange (hnever : ∀ i, 1 ≤ i → i ≤ 2147483647 → ¬ alg.stops i) :
      LeftWith alg (.error .integerOutOfRange)

theorem Iterating.next {s : DriverState σ} (h : Iterating alg s)
    (hnot : ¬ alg.stops (s.iteration + 1)) {executed : List (Executed σ)}
    (hexecuted : executed.filterMap updateOf = List.range' 1 (s.iteration + 1) ∧
      ∀ i older newer, .terminate i older newer ∈ executed →
        ∃ a b, older = [some a] ∧ newer = [some b]) :
    Iterating alg ⟨s.iteration + 1, tableUpTo alg (s.iteration + 1), executed⟩ := by
  refine ⟨rfl, fun i hpos hle => ?_, hexecuted.1, hexecuted.2⟩
  rcases Nat.lt_or_eq_of_le hle with hlt | heq
  · exact h.goesOn i hpos (Nat.le_of_lt_succ hlt)
  · rw [heq]
    exact hnot

theorem Iterating.stop {s : DriverState σ} (h : Iterating alg s)
    (hrange : ¬ 2147483647 < s.iteration + 1) (hstops : alg.stops (s.iteration + 1))
    {executed : List (Executed σ)}
    (hexecuted : executed.filterMap updateOf = List.range' 1 (s.iteration + 1) ∧
      ∀ i older newer, .terminate i older newer ∈ executed →
        ∃ a b, older = [some a] ∧ newer = [some b])
    (hnull : alg.stateAt (s.iteration + 1) = none →
      executed.getLast? = some (.update (s.iteration + 1))) :
    LeftWith alg (.ok (s.iteration + 1, executed)) :=
  .stopped (by omega) (by omega) hstops (fun i hpos hlt => h.goesOn i hpos (by omega))
    hexecuted.1 hexecuted.2 hnull

theorem Iterating.round {s : DriverState σ} (h : Iterating alg s)
    (hcycles : 1 ≤ alg.cyclesPerIteration) :
    (∃ s', iterativeRound alg s = .ok (.next s') ∧ Iterating alg s' ∧
      2147483648 - s'.iteration < 2147483648 - s.iteration) ∨
    (∃ r, iterativeRound alg s = .ok (.done r) ∧ LeftWith alg (.ok r)) ∨
    (∃ e, iterativeRound alg s = .error e ∧ LeftWith alg (.error e)) := by
  have hround := iterativeRound_eq alg s.iteration s.executed
  rw [← h.table] at hround
  by_cases hrange : 2147483647 < s.iteration + 1
  · rw [if_pos hrange] at hround
    exact .inr (.inr ⟨_, hround, .outOfRange fun i hpos hle => h.goesOn i hpos (by omega)⟩)
  rw [if_neg hrange] at hround
  have hlast : (Regress.afterUpdate s.executed s.iteration).getLast? =
      some (.update (s.iteration + 1)) := List.getLast?_concat
  by_cases hnull : alg.stateAt (s.iteration + 1) = none
  · rw [if_pos (by rw [hnull]; rfl)] at hround
    exact .inr (.inl ⟨_, hround, h.stop hrange (.inl hnull) h.afterUpdate fun _ => hlast⟩)
  rw [if_neg (by rwa [Option.isNone_iff_eq_none])] at hround
  by_cases hlater : alg.cyclesPerIteration < s.iteration + 1
  · rw [if_neg (not_not.mpr hlater)] at hround
    by_cases hmax : alg.cyclesPerIteration * alg.maxNumIterations ≤ s.iteration + 1
    · rw [if_pos hmax] at hround
      exact .inr (.inl ⟨_, hround, h.stop hrange (.inr ⟨hlater, .inl hmax⟩) h.afterUpdate
        fun hnone => absurd hnone hnull⟩)
    rw [if_neg hmax] at hround
    have htested := h.afterTest hcycles hlater hnull
    by_cases hanswer : alg.terminateExpr (s.iteration + 1)
        (alg.stateAt (s.iteration + 1 - alg.cyclesPerIteration))
        (alg.stateAt (s.iteration + 1)) = some true
    · rw [if_pos hanswer] at hround
      exact .inr (.inl ⟨_, hround, h.stop hrange (.inr ⟨hlater, .inr hanswer⟩) htested
        fun hnone => absurd hnone hnull⟩)
    · rw [if_neg hanswer] at hround
      refine .inl ⟨_, hround, h.next ?_ htested, by dsimp only; omega⟩
      rintro (hnone | ⟨_, hle | htrue⟩)
      · exact hnull hnone
      · exact hmax hle
      · exact hanswer htrue
  · rw [if_pos hlater] at hround
    refine .inl ⟨_, hround, h.next ?_ h.afterUpdate, by dsimp only; omega⟩
    rintro (hnone | ⟨hlt, _⟩)
    · exact hnull hnone
    · exact hlater hlt

theorem iterating_start (alg : IterativeAlg σ) : Iterating alg (iterativeStart alg) :=
  ⟨rfl, fun i hpos hle => absurd (hpos.trans hle) (Nat.not_lt_zero 0), rfl, fun _ _ _ h => by cases h⟩

theorem runsIterativeAlg (hcycles : 1 ≤ alg.cyclesPerIteration) :
    ∃ out, LeftWith alg out ∧ Returns (iterativeRound alg) (iterativeStart alg) out :=
  ends_of_invariant (Iterating alg) (fun s => 2147483648 - s.iteration) (LeftWith alg)
    (fun _ h => h.round hcycles) (iterating_start alg)

theorem leftWith_of_runs (hcycles : 1 ≤ alg.cyclesPerIteration)
    (h : RunsIterativeAlg alg n executed) : LeftWith alg (.ok (n, executed)) := by
  have ⟨out, hleft, hreturns⟩ := runsIterativeAlg hcycles
  rwa [hreturns.unique h] at hleft

/-- The bound is kept exactly if it allows for the update the loop makes before it looks at it,
or a NULL comes before that, and the table has room for the iterations. -/
theorem runsIterativeAlg_respects_iff (hmax : 1 ≤ alg.maxNumIterations)
    (hcycles : 1 ≤ alg.cyclesPerIteration) :
    (∃ iteration executed, RunsIterativeAlg alg iteration executed ∧
        RespectsBound alg iteration executed) ↔
      (2 ≤ alg.maxNumIterations ∨
        ∃ i, 1 ≤ i ∧ i ≤ alg.cyclesPerIteration ∧ alg.stateAt i = none) ∧
      ∃ i, 1 ≤ i ∧ i ≤ 2147483647 ∧ alg.stops i := by
  constructor
  · intro ⟨iteration, executed, hruns, hrespects⟩
    have hleft := leftWith_of_runs hcycles hruns
    cases hleft with
    | stopped hpos hrange hstops hfirst _ _ _ =>
        refine ⟨?_, iteration, hpos, hrange, hstops⟩
        by_cases htwo : 2 ≤ alg.maxNumIterations
        · exact .inl htwo
        · have hone : alg.maxNumIterations = 1 := by omega
          have hbound := hrespects.bound
          rw [hone, Nat.mul_one] at hbound
          rcases hstops with hnone | ⟨hlt, _⟩
          · exact .inr ⟨iteration, hpos, hbound, hnone⟩
          · omega
  · intro ⟨hearly, i, hpos, hrange, hstops⟩
    have ⟨out, hleft, hreturns⟩ := runsIterativeAlg hcycles
    cases hleft with
    | outOfRange hnever => exact absurd hstops (hnever i hpos hrange)
    | @stopped iteration executed hpos' hrange' hstops' hfirst hupdates htests hnull =>
        have hle : ∀ j, 1 ≤ j → alg.stops j → iteration ≤ j := by
          intro j hj hstop
          by_contra hlt
          exact hfirst j hj (by omega) hstop
        have hbound : iteration ≤ alg.cyclesPerIteration * alg.maxNumIterations := by
          rcases hearly with htwo | ⟨j, hj, hjle, hnone⟩
          · have hdouble : alg.cyclesPerIteration * 2 ≤
                alg.cyclesPerIteration * alg.maxNumIterations := Nat.mul_le_mul_left _ htwo
            exact hle _ (by omega) (.inr ⟨by omega, .inl le_rfl⟩)
          · have honce : alg.cyclesPerIteration * 1 ≤
                alg.cyclesPerIteration * alg.maxNumIterations := Nat.mul_le_mul_left _ hmax
            have hj' := hle j hj (.inl hnone)
            omega
        refine ⟨iteration, executed, hreturns, hupdates, hbound, fun j hj hjle hnone => ?_, htests⟩
        have heq : j = iteration := Nat.le_antisymm hjle (hle j hj (.inl hnone))
        rw [heq] at hnone ⊢
        exact ⟨rfl, hnull hnone⟩

/-- An algorithm whose states are never NULL and that never asks to be stopped. -/
def steadyAlg (maxNumIterations : Nat) : IterativeAlg Unit where
  initialState := none
  updateExpr _ _ := some ()
  terminateExpr _ _ _ := some false
  maxNumIterations := maxNumIterations
  cyclesPerIteration := 1

theorem runsIterativeAlg_respects_two : ∃ iteration executed,
    RunsIterativeAlg (steadyAlg 2) iteration executed ∧
      RespectsBound (steadyAlg 2) iteration executed := by
  have htwo : (steadyAlg 2).stops 2 := .inr ⟨Nat.lt_succ_self 1, .inl le_rfl⟩
  exact (runsIterativeAlg_respects_iff (show 1 ≤ 2 by decide) (le_refl 1)).mpr
    ⟨.inl le_rfl, 2, by decide, by decide, htwo⟩

/-- Allowed one iteration, it makes two. -/
theorem runsIterativeAlg_exceeds_one :
    (∃ executed, RunsIterativeAlg (steadyAlg 1) 2 executed) ∧
      ¬ ∃ iteration executed, RunsIterativeAlg (steadyAlg 1) iteration executed ∧
        RespectsBound (steadyAlg 1) iteration executed := by
  have hruns : RunsIterativeAlg (steadyAlg 1) 2 [.update 1, .update 2] := by
    refine ⟨2, fun fuel hfuel => ?_⟩
    have ⟨more, hmore⟩ := Nat.exists_eq_add_of_le' hfuel
    rw [hmore]
    rfl
  refine ⟨⟨_, hruns⟩, fun ⟨iteration, executed, h, hrespects⟩ => ?_⟩
  have heq := hruns.unique h
  have hbound := hrespects.bound
  injection heq with heq
  rw [← (Prod.mk.inj heq).1] at hbound
  exact absurd hbound (by decide)

end Madlib.Regress
