import Mathlib

/-!
# Three-valued comparison

A value that may be NULL is an `Option`.  A comparison with NULL is neither true nor false, and a
branch of a CASE is taken only when its condition is true.
-/

namespace Madlib.Lib.ThreeValued

/-- True, false, or unknown. -/
abbrev Truth := Option Bool

namespace Truth

def not : Truth → Truth := Option.map Bool.not

def and : Truth → Truth → Truth
  | some false, _ => some false
  | _, some false => some false
  | some true, some true => some true
  | _, _ => none

def or : Truth → Truth → Truth
  | some true, _ => some true
  | _, some true => some true
  | some false, some false => some false
  | _, _ => none

/-- Whether a branch with this condition is taken. -/
def isTrue (t : Truth) : Bool :=
  t == some true

@[simp] theorem not_some (b : Bool) : Truth.not (some b) = some (!b) := rfl

@[simp] theorem isTrue_some (b : Bool) : isTrue (some b) = b := by
  cases b <;> rfl

@[simp] theorem isTrue_and (s t : Truth) : (s.and t).isTrue = (s.isTrue && t.isTrue) := by
  rcases s with _ | _ | _ <;> rcases t with _ | _ | _ <;> rfl

@[simp] theorem isTrue_or (s t : Truth) : (s.or t).isTrue = (s.isTrue || t.isTrue) := by
  rcases s with _ | _ | _ <;> rcases t with _ | _ | _ <;> rfl

end Truth

section Comparison

variable {α : Type}

def isNull (x : Option α) : Truth :=
  some x.isNone

def eq [DecidableEq α] (x y : Option α) : Truth := do
  let a ← x
  let b ← y
  return decide (a = b)

def lt [LT α] [DecidableLT α] (x y : Option α) : Truth := do
  let a ← x
  let b ← y
  return decide (a < b)

/-- The order in which NULL is lowest. -/
def rank (x : Option α) : WithBot α :=
  x

@[simp] theorem isTrue_isNull (x : Option α) : (isNull x).isTrue = x.isNone :=
  Truth.isTrue_some _

@[simp] theorem isTrue_not_isNull (x : Option α) : (isNull x).not.isTrue = x.isSome := by
  cases x <;> rfl

theorem isTrue_eq [DecidableEq α] {x y : Option α} :
    (eq x y).isTrue = true ↔ ∃ a, x = some a ∧ y = some a := by
  cases x with
  | none => simp [eq, Truth.isTrue]
  | some a =>
      cases y with
      | none => simp [eq, Truth.isTrue]
      | some b => simp [eq, eq_comm]

theorem isTrue_eq_or_null [DecidableEq α] (x y : Option α) :
    ((eq x y).isTrue || x.isNone && y.isNone) = true ↔ rank x = rank y := by
  cases x with
  | none =>
      cases y with
      | none => exact iff_of_true rfl rfl
      | some b => exact iff_of_false Bool.false_ne_true (WithBot.bot_ne_coe (a := b))
  | some a =>
      cases y with
      | none => exact iff_of_false Bool.false_ne_true (WithBot.coe_ne_bot (a := a))
      | some b =>
          have hcoe : rank (some a) = rank (some b) ↔ a = b := WithBot.coe_inj
          rw [hcoe]
          simp [eq]

theorem isTrue_lt_or_null [LT α] [DecidableLT α] (x y : Option α) :
    ((lt x y).isTrue || x.isNone && y.isSome) = true ↔ rank x < rank y := by
  cases x with
  | none =>
      cases y with
      | none => exact iff_of_false Bool.false_ne_true (WithBot.not_lt_bot _)
      | some b => exact iff_of_true rfl (WithBot.bot_lt_coe b)
  | some a =>
      cases y with
      | none => exact iff_of_false Bool.false_ne_true (WithBot.not_lt_bot _)
      | some b =>
          have hcoe : rank (some a) < rank (some b) ↔ a < b := WithBot.coe_lt_coe
          rw [hcoe]
          simp [lt]

end Comparison

end Madlib.Lib.ThreeValued
