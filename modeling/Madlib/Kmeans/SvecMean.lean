import Mathlib
import Madlib.Backend
import Madlib.Lib.Segments

/-!
# The mean of vectors

The state is an array that has the sum of each coordinate and, behind them, the number of vectors;
it is NULL before the first vector.
-/

namespace Madlib.Kmeans

open Madlib.Backend
open Madlib.Lib.Segments

variable {α : Type} [Field α]

def svecMeanTransition (state svec : Option (List α)) : Except Fault (Option (List α)) :=
  match state, svec with
  | state, none => .ok state
  | none, some svec => .ok (some (svec ++ [1]))
  | some state, some svec =>
      if state.length ≠ svec.length + 1 then
        .error (.ereport .invalidParameterValue ("svec_mean_transition: input dimensions should be " ++
          s!"dim1=dim2+1, but are: dim1={state.length}, dim2={svec.length}\n"))
      -- the last element is incremented
      else .ok (some (List.zipWith (· + ·) state (svec ++ [1])))

def svecMeanPrefunc (state1 state2 : Option (List α)) : Except Fault (Option (List α)) :=
  match state1, state2 with
  | none, state2 => .ok state2
  | state1, none => .ok state1
  | some array1, some array2 =>
      if array1.length ≠ array2.length then
        .error (.ereport .invalidParameterValue ("svec_mean_prefunc: input dimensions should be " ++
          s!"the same, but are: dim1={array1.length}, dim2={array2.length}\n"))
      else .ok (some (List.zipWith (· + ·) array1 array2))

/-- All elements but the last are divided by it. -/
def svecMeanFinal (state : Option (List α)) : Option (List α) :=
  state.map fun array => array.dropLast.map (· / array.getLastD 0)

/-- The aggregate `mean`. -/
def svecMean : Aggregate Fault (List α) (Option (List α)) where
  init := none
  transition := fun state svec => svecMeanTransition state (some svec)
  merge := svecMeanPrefunc

section Sums

variable {n : ℕ} {rows rows' : Multiset (List α)}

/-- The sums of the coordinates. -/
def coordinateSums (n : ℕ) (rows : Multiset (List α)) : List α :=
  (List.range n).map fun i => (rows.map fun p => p.getD i 0).sum

/-- The state behind some vectors of one dimension. -/
def meanState (n : ℕ) (rows : Multiset (List α)) : Option (List α) :=
  if rows.card = 0 then none else some (coordinateSums n rows ++ [(rows.card : α)])

@[simp] theorem length_coordinateSums : (coordinateSums n rows).length = n := by
  simp [coordinateSums]

theorem coordinateSums_single {p : List α} (hp : p.length = n) : coordinateSums n {p} = p := by
  apply List.ext_getElem
  · rw [length_coordinateSums, hp]
  · intro i hi hi'
    simp [coordinateSums, List.getElem?_eq_getElem hi']

theorem zipWith_coordinateSums : List.zipWith (· + ·) (coordinateSums n rows)
    (coordinateSums n rows') = coordinateSums n (rows + rows') := by
  unfold coordinateSums
  rw [List.zipWith_map, List.zipWith_self]
  simp only [Multiset.map_add, Multiset.sum_add]

theorem meanState_of_ne (h : rows ≠ 0) :
    meanState n rows = some (coordinateSums n rows ++ [(rows.card : α)]) := by
  have hcard : rows.card ≠ 0 := fun hzero => h (Multiset.card_eq_zero.mp hzero)
  rw [meanState, if_neg hcard]

theorem meanState_single {p : List α} (hp : p.length = n) :
    meanState n {p} = some (p ++ [1]) := by
  rw [meanState_of_ne (Multiset.singleton_ne_zero p), coordinateSums_single hp,
    Multiset.card_singleton, Nat.cast_one]

theorem svecMeanPrefunc_meanState :
    svecMeanPrefunc (meanState n rows) (meanState n rows') = .ok (meanState n (rows + rows')) := by
  by_cases hrows : rows = 0
  · rw [hrows, zero_add]
    rfl
  · by_cases hrows' : rows' = 0
    · rw [hrows', add_zero, meanState_of_ne hrows]
      rfl
    · have hne : rows + rows' ≠ 0 := fun hzero => hrows (add_eq_zero.mp hzero).1
      rw [meanState_of_ne hrows, meanState_of_ne hrows', meanState_of_ne hne]
      unfold svecMeanPrefunc
      dsimp only
      rw [if_neg (by simp), List.zipWith_append (by simp), zipWith_coordinateSums]
      simp

/-- A vector is taken in like the state that holds it alone. -/
theorem svecMeanTransition_meanState {p : List α} (hp : p.length = n) :
    svecMeanTransition (meanState n rows) (some p) = .ok (meanState n (p ::ₘ rows)) := by
  have hsingle : svecMeanTransition (meanState n rows) (some p) =
      svecMeanPrefunc (meanState n rows) (meanState n {p}) := by
    rw [meanState_single hp]
    by_cases hrows : rows = 0
    · rw [hrows]
      rfl
    · rw [meanState_of_ne hrows]
      unfold svecMeanTransition svecMeanPrefunc
      dsimp only
      rw [if_neg (by simp [hp]), if_neg (by simp [hp])]
  rw [hsingle, svecMeanPrefunc_meanState, ← Multiset.singleton_add, add_comm]

theorem svecMean_keeps : Keeps (svecMean (α := α)) (fun p => p.length = n)
    fun rows state => state = meanState n rows where
  init := rfl
  transition := by
    rintro rows state p state' hp rfl hstep
    exact (Except.ok.inj ((svecMeanTransition_meanState hp).symm.trans hstep)).symm
  merge := by
    rintro rows state rows' state' merged rfl rfl hstep
    exact (Except.ok.inj (svecMeanPrefunc_meanState.symm.trans hstep)).symm

theorem svecMean_proceeds : Proceeds (svecMean (α := α)) (fun p => p.length = n)
    fun rows state => state = meanState n rows where
  transition := by
    rintro rows state p hp rfl
    exact ⟨_, svecMeanTransition_meanState hp⟩
  merge := by
    rintro rows state rows' state' rfl rfl
    exact ⟨_, svecMeanPrefunc_meanState⟩

/-- However the vectors are split, the aggregate returns their sums and their number. -/
theorem svecMean_run {plan : Plan (List α)} (hrows : ∀ p ∈ plan.rows, p.length = n) :
    svecMean.run plan = .ok (meanState n plan.rows) := by
  obtain ⟨state, hstate⟩ := svecMean_proceeds.run svecMean_keeps hrows
  rw [hstate, svecMean_keeps.run hrows hstate]

/-- The averages of the coordinates. -/
def coordinateMeans (n : ℕ) (rows : Multiset (List α)) : List α :=
  (List.range n).map fun i => (rows.map fun p => p.getD i 0).sum / rows.card

theorem svecMeanFinal_meanState (h : rows ≠ 0) :
    svecMeanFinal (meanState n rows) = some (coordinateMeans n rows) := by
  rw [meanState_of_ne h]
  simp [svecMeanFinal, coordinateSums, coordinateMeans]

end Sums

end Madlib.Kmeans
