import Mathlib
import Madlib.Lib.Segments
import Madlib.Lib.ThreeValued

/-!
# The argmax aggregate

`argmax` keeps the keys of the rows whose value is the largest one seen so far.  Its transition and
its combine function are CASE expressions over a row type whose fields may be NULL, and so may the
whole row: the initial state is NULL.
-/

namespace Madlib.Bayes

open Madlib.Lib.ThreeValued
open Madlib.Lib.Segments

variable {α : Type}

/-- The composite type of the state. -/
structure ArgsAndValueDouble (α : Type) where
  args : Option (List (Option ℤ))
  value : Option α
deriving DecidableEq

/-- A state, which may be NULL. -/
abbrev MaxState (α : Type) := Option (ArgsAndValueDouble α)

namespace MaxState

/-- `$1.args` -/
def args (state : MaxState α) : Option (List (Option ℤ)) :=
  state.bind (·.args)

/-- `$1.value` -/
def value (state : MaxState α) : Option α :=
  state.bind (·.value)

/-- A row is NULL when it is missing and also when each of its fields is. -/
def rowIsNull (state : MaxState α) : Truth :=
  (isNull state.args).and (isNull state.value)

end MaxState

/-- Appending to an array that is NULL starts one. -/
def arrayAppend (array : Option (List (Option ℤ))) (element : Option ℤ) :
    Option (List (Option ℤ)) :=
  some (array.getD [] ++ [element])

/-- Concatenation with an array that is NULL is the other array. -/
def arrayCat : Option (List (Option ℤ)) → Option (List (Option ℤ)) → Option (List (Option ℤ))
  | none, right => right
  | left, none => left
  | some left, some right => some (left ++ right)

section Functions

variable [LT α] [DecidableLT α] [DecidableEq α]

def argmaxTransition (oldmax : MaxState α) (newkey : Option ℤ) (newvalue : Option α) :
    MaxState α :=
  if (((lt newvalue oldmax.value).or (isNull newkey)).or
      ((isNull newvalue).and (isNull oldmax.value).not)).isTrue then
    oldmax
  else if ((eq newvalue oldmax.value).or
      (((isNull newvalue).and (isNull oldmax.value)).and (isNull oldmax.args).not)).isTrue then
    some ⟨arrayAppend oldmax.args newkey, newvalue⟩
  else
    some ⟨some [newkey], newvalue⟩

def argmaxCombine (max1 max2 : MaxState α) : MaxState α :=
  if max1.rowIsNull.isTrue then
    max2
  else if max2.rowIsNull.isTrue then
    max1
  else if ((eq max1.value max2.value).or
      ((isNull max1.value).and (isNull max2.value))).isTrue then
    some ⟨arrayCat max1.args max2.args, max1.value⟩
  else if ((isNull max1.value).or (lt max1.value max2.value)).isTrue then
    max2
  else
    max1

def argmaxFinal (finalstate : MaxState α) : Option (List (Option ℤ)) :=
  finalstate.args

/-- A row is a key and a value. -/
def argmax : Aggregate Empty (Option ℤ × Option α) (MaxState α) where
  init := none
  transition := fun state row => .ok (argmaxTransition state row.1 row.2)
  merge := fun max1 max2 => .ok (argmaxCombine max1 max2)

end Functions

/-! ## The keys of the largest value -/

/-- The rows whose key is not NULL; a value that is NULL ranks lowest. -/
def keyedRows (rows : Multiset (Option ℤ × Option α)) : Multiset (ℤ × WithBot α) :=
  rows.filterMap fun row => row.1.map fun key => (key, rank row.2)

theorem keyedRows_add (rows rows' : Multiset (Option ℤ × Option α)) :
    keyedRows (rows + rows') = keyedRows rows + keyedRows rows' :=
  Multiset.filterMap_add ..

section Order

variable [LinearOrder α]

def keysAt (rows : Multiset (ℤ × WithBot α)) (value : WithBot α) : Multiset ℤ :=
  (rows.filter fun row => row.2 = value).map Prod.fst

/-- The keys of the rows whose value no other row exceeds. -/
def maximalKeys (rows : Multiset (ℤ × WithBot α)) : Multiset ℤ :=
  (rows.filter fun row => ∀ other ∈ rows, other.2 ≤ row.2).map Prod.fst

/-- The largest value of some rows, and their keys of that value. -/
structure IsMaximum (rows : Multiset (ℤ × WithBot α)) (value : WithBot α) (keys : Multiset ℤ) :
    Prop where
  le : ∀ row ∈ rows, row.2 ≤ value
  keys_eq : keys = keysAt rows value
  attained : keys ≠ 0

theorem keysAt_add (rows rows' : Multiset (ℤ × WithBot α)) (value : WithBot α) :
    keysAt (rows + rows') value = keysAt rows value + keysAt rows' value := by
  unfold keysAt
  rw [Multiset.filter_add, Multiset.map_add]

theorem keysAt_eq_zero {rows : Multiset (ℤ × WithBot α)} {value : WithBot α}
    (h : ∀ row ∈ rows, row.2 < value) : keysAt rows value = 0 := by
  have hfilter : rows.filter (fun row => row.2 = value) = 0 :=
    Multiset.filter_eq_nil.mpr fun row hrow => (h row hrow).ne
  rw [keysAt, hfilter, Multiset.map_zero]

namespace IsMaximum

theorem single (key : ℤ) (value : WithBot α) : IsMaximum {(key, value)} value {key} where
  le := by
    intro row hrow
    rw [Multiset.mem_singleton.mp hrow]
  keys_eq := by simp [keysAt, Multiset.filter_singleton]
  attained := Multiset.singleton_ne_zero key

variable {rows rows' : Multiset (ℤ × WithBot α)} {value value' : WithBot α}
  {keys keys' : Multiset ℤ}

theorem add_of_lt (h : IsMaximum rows value keys) (h' : IsMaximum rows' value' keys')
    (hlt : value < value') : IsMaximum (rows + rows') value' keys' where
  le := by
    intro row hrow
    rcases Multiset.mem_add.mp hrow with hrow | hrow
    · exact (h.le row hrow).trans hlt.le
    · exact h'.le row hrow
  keys_eq := by
    have hzero := keysAt_eq_zero fun row hrow => (h.le row hrow).trans_lt hlt
    rw [keysAt_add, hzero, zero_add, h'.keys_eq]
  attained := h'.attained

theorem add_of_gt (h : IsMaximum rows value keys) (h' : IsMaximum rows' value' keys')
    (hgt : value' < value) : IsMaximum (rows + rows') value keys := by
  rw [add_comm]
  exact h'.add_of_lt h hgt

theorem add_of_eq (h : IsMaximum rows value keys) (h' : IsMaximum rows' value keys') :
    IsMaximum (rows + rows') value (keys + keys') where
  le := by
    intro row hrow
    rcases Multiset.mem_add.mp hrow with hrow | hrow
    · exact h.le row hrow
    · exact h'.le row hrow
  keys_eq := by rw [keysAt_add, ← h.keys_eq, ← h'.keys_eq]
  attained := by
    intro hzero
    exact h.attained (add_eq_zero.mp hzero).1

theorem ne_zero (h : IsMaximum rows value keys) : rows ≠ 0 := by
  rintro rfl
  exact h.attained (by rw [h.keys_eq]; rfl)

/-- Some row has the value. -/
theorem exists_mem (h : IsMaximum rows value keys) : ∃ row ∈ rows, row.2 = value := by
  obtain ⟨key, hkey⟩ := Multiset.exists_mem_of_ne_zero h.attained
  rw [h.keys_eq, keysAt, Multiset.mem_map] at hkey
  obtain ⟨row, hrow, -⟩ := hkey
  exact ⟨row, Multiset.mem_filter.mp hrow⟩

theorem eq_maximalKeys (h : IsMaximum rows value keys) : keys = maximalKeys rows := by
  obtain ⟨top, htop, hvalue⟩ := h.exists_mem
  have hfilter : rows.filter (fun row => row.2 = value) =
      rows.filter fun row => ∀ other ∈ rows, other.2 ≤ row.2 := by
    refine Multiset.filter_congr fun row hrow => ?_
    constructor
    · intro heq other hother
      rw [heq]
      exact h.le other hother
    · intro hall
      have hge := hall top htop
      rw [hvalue] at hge
      exact le_antisymm (h.le row hrow) hge
  rw [h.keys_eq, keysAt, maximalKeys, hfilter]

end IsMaximum

/-! ## Both functions keep the keys of the largest value -/

section Steps

variable {array array' : List (Option ℤ)} {value value' : Option α}

theorem argmaxTransition_null_key (state : MaxState α) (newvalue : Option α) :
    argmaxTransition state none newvalue = state := by
  simp [argmaxTransition]

theorem argmaxTransition_first (key : ℤ) (newvalue : Option α) :
    argmaxTransition none (some key) newvalue = some ⟨some [some key], newvalue⟩ := by
  have hlt : (lt newvalue (none : Option α)).isTrue = false := by cases newvalue <;> rfl
  have heq : (eq newvalue (none : Option α)).isTrue = false := by cases newvalue <;> rfl
  simp [argmaxTransition, MaxState.value, MaxState.args, hlt, heq]

theorem argmaxTransition_eq (key : ℤ) :
    argmaxTransition (some ⟨some array, value⟩) (some key) value' =
      if rank value' < rank value then some ⟨some array, value⟩
      else if rank value' = rank value then some ⟨some (array ++ [some key]), value'⟩
      else some ⟨some [some key], value'⟩ := by
  unfold argmaxTransition
  simp only [MaxState.value, MaxState.args, Option.bind_some, Truth.isTrue_or, Truth.isTrue_and,
    isTrue_isNull, isTrue_not_isNull, Option.isNone_some, Option.isSome_some, Bool.or_false,
    Bool.and_true, isTrue_lt_or_null, isTrue_eq_or_null]
  rfl

theorem argmaxCombine_null_left (max2 : MaxState α) : argmaxCombine none max2 = max2 := rfl

theorem argmaxCombine_null_right :
    argmaxCombine (some ⟨some array, value⟩) none = some ⟨some array, value⟩ := by
  simp [argmaxCombine, MaxState.rowIsNull, MaxState.value, MaxState.args]

theorem argmaxCombine_eq :
    argmaxCombine (some ⟨some array, value⟩) (some ⟨some array', value'⟩) =
      if rank value = rank value' then some ⟨some (array ++ array'), value⟩
      else if rank value < rank value' then some ⟨some array', value'⟩
      else some ⟨some array, value⟩ := by
  unfold argmaxCombine
  simp only [MaxState.rowIsNull, MaxState.value, MaxState.args, Option.bind_some, Truth.isTrue_or,
    Truth.isTrue_and, isTrue_isNull, Option.isNone_some, Bool.false_and, isTrue_eq_or_null,
    Bool.false_eq_true, if_false]
  by_cases heq : rank value = rank value'
  · rw [if_pos heq, if_pos heq]
    rfl
  · rw [if_neg heq, if_neg heq]
    cases value with
    | none =>
        have hlt : rank none < rank value' := bot_lt_iff_ne_bot.mpr (Ne.symm heq)
        rw [if_pos hlt]
        rfl
    | some a =>
        have hiff := isTrue_lt_or_null (some a) value'
        simp only [Option.isNone_some, Bool.false_and, Bool.or_false] at hiff
        simp only [Option.isNone_some, Bool.false_or, hiff]

/-- A row is taken in like a state that holds this row alone. -/
theorem argmaxTransition_eq_combine (key : ℤ) :
    argmaxTransition (some ⟨some array, value⟩) (some key) value' =
      argmaxCombine (some ⟨some array, value⟩) (some ⟨some [some key], value'⟩) := by
  rw [argmaxTransition_eq, argmaxCombine_eq]
  rcases lt_trichotomy (rank value) (rank value') with hlt | heq | hgt
  · rw [if_neg hlt.not_gt, if_neg hlt.ne', if_neg hlt.ne, if_pos hlt]
  · have hvalue : value = value' := heq
    rw [if_neg heq.not_gt, if_pos heq.symm, if_pos heq, hvalue]
  · rw [if_pos hgt, if_neg hgt.ne', if_neg hgt.not_gt]

end Steps

/-- What a state says of the rows it has seen. -/
def Describes (rows : Multiset (Option ℤ × Option α)) : MaxState α → Prop
  | none => keyedRows rows = 0
  | some state => ∃ keys : List ℤ, state.args = some (keys.map some) ∧
      IsMaximum (keyedRows rows) (rank state.value) keys

theorem describes_combine {rows rows' : Multiset (Option ℤ × Option α)} {max1 max2 : MaxState α}
    (h1 : Describes rows max1) (h2 : Describes rows' max2) :
    Describes (rows + rows') (argmaxCombine max1 max2) := by
  cases max1 with
  | none =>
      have hzero : keyedRows rows = 0 := h1
      rw [argmaxCombine_null_left, Describes.eq_def, keyedRows_add, hzero, zero_add]
      exact h2
  | some state =>
      obtain ⟨args, value⟩ := state
      obtain ⟨keys, rfl, hmax⟩ := h1
      cases max2 with
      | none =>
          have hzero : keyedRows rows' = 0 := h2
          rw [argmaxCombine_null_right, Describes.eq_def, keyedRows_add, hzero, add_zero]
          exact ⟨keys, rfl, hmax⟩
      | some state' =>
          obtain ⟨args', value'⟩ := state'
          obtain ⟨keys', rfl, hmax'⟩ := h2
          rw [argmaxCombine_eq]
          rcases lt_trichotomy (rank value) (rank value') with hlt | heq | hgt
          · rw [if_neg hlt.ne, if_pos hlt]
            refine ⟨keys', rfl, ?_⟩
            rw [keyedRows_add]
            exact hmax.add_of_lt hmax' hlt
          · rw [if_pos heq]
            refine ⟨keys ++ keys', by rw [List.map_append], ?_⟩
            rw [keyedRows_add, ← Multiset.coe_add]
            exact hmax.add_of_eq (heq ▸ hmax')
          · rw [if_neg hgt.ne', if_neg hgt.not_gt]
            refine ⟨keys, rfl, ?_⟩
            rw [keyedRows_add]
            exact hmax.add_of_gt hmax' hgt

theorem describes_single (key : ℤ) (value : Option α) :
    Describes {(some key, value)} (some ⟨some [some key], value⟩) :=
  ⟨[key], rfl, IsMaximum.single key (rank value)⟩

theorem describes_transition {rows : Multiset (Option ℤ × Option α)} {state : MaxState α}
    (h : Describes rows state) (key : Option ℤ) (value : Option α) :
    Describes ((key, value) ::ₘ rows) (argmaxTransition state key value) := by
  rw [← Multiset.singleton_add, add_comm]
  cases key with
  | none =>
      have hkeyed : keyedRows (rows + {(none, value)}) = keyedRows rows := by
        rw [keyedRows_add]
        exact add_zero _
      rw [argmaxTransition_null_key, Describes.eq_def, hkeyed]
      exact h
  | some key =>
      have hsingle := describes_single key value
      cases state with
      | none =>
          rw [argmaxTransition_first, ← argmaxCombine_null_left (some _)]
          exact describes_combine h hsingle
      | some state =>
          obtain ⟨args, oldvalue⟩ := state
          obtain ⟨keys, rfl, hmax⟩ := h
          rw [argmaxTransition_eq_combine]
          exact describes_combine ⟨keys, rfl, hmax⟩ hsingle

theorem argmax_keeps : Keeps (argmax (α := α)) (fun _ => True) Describes where
  init := rfl
  transition := by
    rintro rows state ⟨key, value⟩ state' - h hstep
    cases hstep
    exact describes_transition h key value
  merge := by
    intro rows max1 rows' max2 state h1 h2 hstep
    cases hstep
    exact describes_combine h1 h2

theorem argmax_proceeds : Proceeds (argmax (α := α)) (fun _ => True) Describes where
  transition := fun _ _ _ _ _ => ⟨_, rfl⟩
  merge := fun _ _ _ _ _ _ => ⟨_, rfl⟩

/-- The array of a state has the keys of the largest value; without a keyed row it is NULL. -/
def ArrayOf (keys : Multiset ℤ) (array : Option (List (Option ℤ))) : Prop :=
  (keys = 0 ∧ array = none) ∨
    ∃ list : List ℤ, array = some (list.map some) ∧ (list : Multiset ℤ) = keys ∧ list ≠ []

theorem Describes.arrayOf {rows : Multiset (Option ℤ × Option α)} {state : MaxState α}
    (h : Describes rows state) : ArrayOf (maximalKeys (keyedRows rows)) (argmaxFinal state) := by
  cases state with
  | none =>
      have hzero : keyedRows rows = 0 := h
      refine .inl ⟨?_, rfl⟩
      rw [hzero]
      rfl
  | some state =>
      obtain ⟨keys, hargs, hmax⟩ := h
      refine .inr ⟨keys, hargs, hmax.eq_maximalKeys, ?_⟩
      intro hnil
      exact hmax.attained (by rw [hnil]; rfl)

/-- Two states that differ at most in the order of their keys. -/
def SameUpToOrder (state state' : MaxState α) : Prop :=
  Option.Rel List.Perm state.args state'.args ∧ state.value = state'.value

/-- The largest value and its keys are determined by the rows. -/
theorem Describes.sameUpToOrder {rows : Multiset (Option ℤ × Option α)} {state state' : MaxState α}
    (h : Describes rows state) (h' : Describes rows state') : SameUpToOrder state state' := by
  cases state with
  | none =>
      cases state' with
      | none => exact ⟨.none, rfl⟩
      | some state' =>
          obtain ⟨keys', -, hmax'⟩ := h'
          exact absurd h hmax'.ne_zero
  | some state =>
      obtain ⟨keys, hargs, hmax⟩ := h
      cases state' with
      | none => exact absurd h' hmax.ne_zero
      | some state' =>
          obtain ⟨keys', hargs', hmax'⟩ := h'
          have hkeys : (keys : Multiset ℤ) = keys' :=
            hmax.eq_maximalKeys.trans hmax'.eq_maximalKeys.symm
          obtain ⟨row, hrow, hvalue⟩ := hmax.exists_mem
          obtain ⟨row', hrow', hvalue'⟩ := hmax'.exists_mem
          have hle : rank state.value ≤ rank state'.value := hvalue ▸ hmax'.le row hrow
          have hge : rank state'.value ≤ rank state.value := hvalue' ▸ hmax.le row' hrow'
          have hrank : rank state.value = rank state'.value := le_antisymm hle hge
          refine ⟨?_, hrank⟩
          change Option.Rel List.Perm state.args state'.args
          rw [hargs, hargs']
          exact .some ((Multiset.coe_eq_coe.mp hkeys).map some)

/-- However the rows are split and the states merged, the result has the keys of the largest value,
each as often as it occurs with it; and merging the states of two passes is one pass over all their
rows, up to the order of the keys. -/
theorem argmax_partition_independent :
    (∀ plan : Plan (Option ℤ × Option α), ∃ state, argmax.run plan = .ok state ∧
      ArrayOf (maximalKeys (keyedRows plan.rows)) (argmaxFinal state)) ∧
    ∀ rows rows' : List (Option ℤ × Option α), ∃ max1 max2 whole,
      argmax.pass rows = .ok max1 ∧ argmax.pass rows' = .ok max2 ∧
        argmax.pass (rows ++ rows') = .ok whole ∧
        SameUpToOrder (argmaxCombine max1 max2) whole := by
  have hrun : ∀ plan : Plan (Option ℤ × Option α), ∃ state, argmax.run plan = .ok state ∧
      Describes plan.rows state := by
    intro plan
    obtain ⟨state, hstate⟩ : ∃ state, argmax.run plan = .ok state :=
      argmax_proceeds.run argmax_keeps fun _ _ => trivial
    exact ⟨state, hstate, argmax_keeps.run (fun _ _ => trivial) hstate⟩
  constructor
  · intro plan
    obtain ⟨state, hstate, hrows⟩ := hrun plan
    exact ⟨state, hstate, hrows.arrayOf⟩
  · intro rows rows'
    obtain ⟨max1, hmax1, h1⟩ := hrun (.segment rows)
    obtain ⟨max2, hmax2, h2⟩ := hrun (.segment rows')
    obtain ⟨whole, hwhole, h⟩ := hrun (.segment (rows ++ rows'))
    have hcombine : Describes (rows ++ rows' : List _) (argmaxCombine max1 max2) := by
      rw [← Multiset.coe_add]
      exact describes_combine h1 h2
    exact ⟨max1, max2, whole, hmax1, hmax2, hwhole, hcombine.sameUpToOrder h⟩

end Order

end Madlib.Bayes
