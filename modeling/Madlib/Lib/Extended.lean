import Mathlib

/-!
# Numbers with infinities and NaN

Floating-point numbers without their rounding.  A NaN is what a difference of equal infinities
is, and it is the largest one in the order values are sorted by; a comparison with it is false.
-/

namespace Madlib.Lib

inductive Extended (α : Type) where
  | finite (x : α)
  | infinite (negative : Bool)
  | nan

namespace Extended

section Order

variable {α : Type}

/-- The place in the order. -/
def place : Extended α → WithBot (WithTop (WithTop α))
  | infinite true => ⊥
  | finite x => ((x : WithTop α) : WithTop (WithTop α))
  | infinite false => ((⊤ : WithTop α) : WithTop (WithTop α))
  | nan => (⊤ : WithTop (WithTop α))

theorem place_injective : Function.Injective (place (α := α)) := by
  intro x y h
  have htop : (⊥ : WithBot (WithTop (WithTop α))) ≠ (⊤ : WithTop (WithTop α)) := WithBot.bot_ne_coe
  rcases x with x | (_ | _) | _ <;> rcases y with y | (_ | _) | _ <;> simp_all [place]

instance [LinearOrder α] : LinearOrder (Extended α) := LinearOrder.lift' place place_injective

end Order

section Operations

variable {α : Type}

/-- Multiplication with a positive number. -/
def scale (times : α → α) : Extended α → Extended α
  | finite x => finite (times x)
  | infinite negative => infinite negative
  | nan => nan

variable [LinearOrder α]

/-- The operator `<`. -/
def lessThan (x y : Extended α) : Prop := x < y ∧ y ≠ nan

/-- The operator `<=`. -/
def atMost (x y : Extended α) : Prop := x ≤ y ∧ y ≠ nan

instance (x y : Extended α) : Decidable (lessThan x y) := inferInstanceAs (Decidable (_ ∧ _))

instance (x y : Extended α) : Decidable (atMost x y) := inferInstanceAs (Decidable (_ ∧ _))

/-- `std::max` -/
def max (x y : Extended α) : Extended α := if lessThan x y then y else x

variable [Field α]

def neg : Extended α → Extended α
  | finite x => finite (-x)
  | infinite negative => infinite (!negative)
  | nan => nan

def abs : Extended α → Extended α
  | finite x => finite |x|
  | infinite _ => infinite false
  | nan => nan

def add : Extended α → Extended α → Extended α
  | finite x, finite y => finite (x + y)
  | finite _, infinite negative => infinite negative
  | infinite negative, finite _ => infinite negative
  | infinite negative, infinite negative' =>
      if negative = negative' then infinite negative else nan
  | nan, _ => nan
  | _, nan => nan

def sub (x y : Extended α) : Extended α := add x (neg y)

def mul : Extended α → Extended α → Extended α
  | finite x, finite y => finite (x * y)
  | finite x, infinite negative | infinite negative, finite x =>
      if x = 0 then nan else infinite (negative != decide (x < 0))
  | infinite negative, infinite negative' => infinite (negative != negative')
  | nan, _ => nan
  | _, nan => nan

/-- A zero has no sign here; as a denominator it is the positive one. -/
def div : Extended α → Extended α → Extended α
  | finite x, finite y =>
      if y ≠ 0 then finite (x / y) else if x = 0 then nan else infinite (decide (x < 0))
  | finite _, infinite _ => finite 0
  | infinite negative, finite y => infinite (negative != decide (y < 0))
  | infinite _, infinite _ => nan
  | nan, _ => nan
  | _, nan => nan

/-- The square root, with its values for numbers from zero on. -/
def sqrt (root : α → α) : Extended α → Extended α
  | finite x => if 0 ≤ x then finite (root x) else nan
  | infinite false => infinite false
  | infinite true => nan
  | nan => nan

end Operations

/-! ## Comparisons -/

section Comparisons

variable {α : Type} [LinearOrder α] {x y : α}

@[simp] theorem finite_lt_finite : finite x < finite y ↔ x < y := by
  change (place (finite x) < place (finite y)) ↔ x < y
  simp [place]

@[simp] theorem finite_le_finite : finite x ≤ finite y ↔ x ≤ y := by
  change (place (finite x) ≤ place (finite y)) ↔ x ≤ y
  simp [place]

@[simp] theorem finite_lt_posInf : finite x < infinite false := by
  change place (finite x) < place (infinite false)
  simp [place]

@[simp] theorem negInf_lt_finite : infinite true < finite x := by
  change place (infinite true) < place (finite x)
  simp [place]

@[simp] theorem negInf_lt_posInf : infinite true < (infinite false : Extended α) := by
  change place (infinite true : Extended α) < place (infinite false)
  simp [place]

@[simp] theorem negInf_le_finite : infinite true ≤ finite x := negInf_lt_finite.le

theorem le_nan (v : Extended α) : v ≤ nan := by
  change place v ≤ place nan
  rcases v with x | (_ | _) | _ <;> simp [place]

@[simp] theorem lessThan_finite : lessThan (finite x) (finite y) ↔ x < y := by
  simp [lessThan]

@[simp] theorem atMost_finite : atMost (finite x) (finite y) ↔ x ≤ y := by
  simp [atMost]

@[simp] theorem finite_lt_nan : finite x < nan := lt_of_le_of_ne (le_nan _) nofun

@[simp] theorem infinite_lt_nan (negative : Bool) : infinite negative < (nan : Extended α) :=
  lt_of_le_of_ne (le_nan _) nofun

theorem not_nan_atMost (v : Extended α) : ¬atMost nan v :=
  fun h => h.2 (le_antisymm (le_nan v) h.1)

theorem not_nan_lt (v : Extended α) : ¬nan < v := (le_nan v).not_gt

theorem atMost_posInf_self : atMost (infinite false : Extended α) (infinite false) :=
  ⟨le_refl _, nofun⟩

/-- No comparison holds both ways. -/
theorem not_lessThan_self (v : Extended α) : ¬lessThan v v := fun h => lt_irrefl v h.1

theorem max_same (v : Extended α) : max v v = v := ite_self v

theorem max_posInf (x : α) : max (finite x) (infinite false) = infinite false :=
  if_pos ⟨finite_lt_posInf, nofun⟩

theorem posInf_max (x : α) : max (infinite false) (finite x) = infinite false :=
  if_neg fun h => finite_lt_posInf.not_gt h.1

end Comparisons

/-! ## Differences -/

section Differences

variable {α : Type} [Field α]

@[simp] theorem finite_sub (x y : α) : (finite x).sub (finite y) = finite (x - y) := by
  rw [sub_eq_add_neg]
  rfl

/-- Equal infinities have no difference. -/
@[simp] theorem infinite_sub_self (negative : Bool) :
    (infinite negative : Extended α).sub (infinite negative) = nan := by
  cases negative <;> rfl

theorem finite_div [LinearOrder α] {x y : α} (h : y ≠ 0) :
    (finite x).div (finite y) = finite (x / y) := if_pos h

theorem finite_sqrt [LinearOrder α] (root : α → α) {x : α} (h : 0 ≤ x) :
    (finite x).sqrt root = finite (root x) := if_pos h

/-- Only the root of a number is one. -/
theorem eq_of_sqrt_div [LinearOrder α] {root : α → α} {v : Extended α} {x y : α}
    (h : (v.div (finite x)).sqrt root = finite y) (hx : x ≠ 0) :
    ∃ z, v = finite z ∧ 0 ≤ z / x ∧ root (z / x) = y := by
  rcases v with z | negative | _
  · rw [finite_div hx, sqrt] at h
    split_ifs at h with hnonneg
    exact ⟨z, rfl, hnonneg, finite.inj h⟩
  · have hinfinite : (infinite negative).div (finite x) =
        infinite (negative != decide (x < 0)) := rfl
    rw [hinfinite] at h
    generalize (negative != decide (x < 0)) = sign at h
    cases sign <;> cases h
  · cases h

@[simp] theorem nan_sub (v : Extended α) : nan.sub v = nan := by
  cases v <;> rfl

end Differences

/-! ## The machine epsilon -/

/-- The product of a number with the machine epsilon, which may underflow. -/
structure MachineEpsilon (α : Type) [Field α] [LinearOrder α] where
  epsilon : α
  times : α → α
  epsilon_pos : 0 < epsilon
  times_neg : ∀ x, times (-x) = -times x
  times_nonneg : ∀ x, 0 ≤ x → 0 ≤ times x
  times_le : ∀ x, 0 < x → times x ≤ 2 * epsilon * x

theorem exactTimes_le (x : ℚ) (hx : 0 < x) : x * (1 / 2 ^ 52) ≤ 2 * (1 / 2 ^ 52) * x := by
  linarith

/-- Products that are exact. -/
def exactEpsilon : MachineEpsilon ℚ where
  epsilon := 1 / 2 ^ 52
  times x := x * (1 / 2 ^ 52)
  epsilon_pos := by norm_num
  times_neg x := by ring
  times_nonneg x hx := by positivity
  times_le := exactTimes_le

end Extended

end Madlib.Lib
