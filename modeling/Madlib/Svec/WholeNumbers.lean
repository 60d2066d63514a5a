import Madlib.Svec.Comparison

/-!
# Whole numbers among the doubles

Below 2^53 every whole number is a double: its highest bit gives the exponent, and the bits
under it are the leading ones of the fraction.  Sums and products of such numbers are exact as
long as they stay below.
-/

namespace Madlib.Svec

open Madlib.Lib.MachineInt

/-- Counts up to a bound are added without rounding. -/
structure Counts (arith : Float8Arith) (m : Nat) : Prop where
  zero : arith.ofInt64 0 = 0
  add : ∀ a b : Nat, a + b ≤ m →
    arith.add (arith.ofInt64 a) (arith.ofInt64 b) = arith.ofInt64 (a + b : Nat)

/-! ## Encoding -/

/-- The exponent field and the fraction of a whole number that is not 0. -/
def wholeBits (n : Nat) : Nat := (1023 + n.log2) * 2 ^ 52 + (n - 2 ^ n.log2) * 2 ^ (52 - n.log2)

/-- The double of a whole number below 2^53. -/
def wholeFloat (n : Nat) : Float8 := if n = 0 then 0 else UInt64.ofNat (wholeBits n)

/-- The whole number with these fields. -/
def wholeOfBits (bits : Nat) : Nat :=
  2 ^ (bits / 2 ^ 52 - 1023) + bits % 2 ^ 52 / 2 ^ (52 - (bits / 2 ^ 52 - 1023))

/-- The whole number a double stands for, if it stands for one. -/
def wholeOf (x : Float8) : Option Nat :=
  if x = 0 then some 0
  else if wholeOfBits x.toNat < 2 ^ 53 ∧ wholeFloat (wholeOfBits x.toNat) = x then
    some (wholeOfBits x.toNat)
  else none

theorem log2_bounds {n : Nat} (hn : n ≠ 0) (hlt : n < 2 ^ 53) :
    n.log2 ≤ 52 ∧ 2 ^ n.log2 ≤ n ∧ n < 2 * 2 ^ n.log2 := by
  have hlog : n.log2 < 53 := (Nat.log2_lt hn).mpr hlt
  have hup : n < 2 ^ (n.log2 + 1) := Nat.lt_log2_self
  rw [Nat.pow_succ] at hup
  exact ⟨by omega, Nat.log2_self_le hn, by omega⟩

theorem wholeBits_fields {n : Nat} (hn : n ≠ 0) (hlt : n < 2 ^ 53) :
    wholeBits n / 2 ^ 52 = 1023 + n.log2 ∧
      wholeBits n % 2 ^ 52 = (n - 2 ^ n.log2) * 2 ^ (52 - n.log2) := by
  have ⟨hlog, hlow, hup⟩ := log2_bounds hn hlt
  have hfraction : (n - 2 ^ n.log2) * 2 ^ (52 - n.log2) < 2 ^ 52 := by
    calc (n - 2 ^ n.log2) * 2 ^ (52 - n.log2) < 2 ^ n.log2 * 2 ^ (52 - n.log2) :=
          Nat.mul_lt_mul_of_pos_right (by omega) (Nat.two_pow_pos _)
      _ = 2 ^ 52 := by rw [← Nat.pow_add, Nat.add_sub_cancel' hlog]
  unfold wholeBits
  constructor
  · rw [Nat.add_comm, Nat.add_mul_div_right _ _ (Nat.two_pow_pos 52),
      Nat.div_eq_of_lt hfraction, Nat.zero_add]
  · rw [Nat.add_comm, Nat.add_mul_mod_self_right, Nat.mod_eq_of_lt hfraction]

theorem wholeOfBits_wholeBits {n : Nat} (hn : n ≠ 0) (hlt : n < 2 ^ 53) :
    wholeOfBits (wholeBits n) = n := by
  have ⟨hexponent, hfraction⟩ := wholeBits_fields hn hlt
  have ⟨_, hlow, _⟩ := log2_bounds hn hlt
  unfold wholeOfBits
  rw [hexponent, hfraction, Nat.add_sub_cancel_left,
    Nat.mul_div_cancel _ (Nat.two_pow_pos (52 - n.log2)), Nat.add_sub_cancel' hlow]

theorem toNat_wholeFloat {n : Nat} (hn : n ≠ 0) (hlt : n < 2 ^ 53) :
    (wholeFloat n).toNat = wholeBits n := by
  have ⟨hexponent, _⟩ := wholeBits_fields hn hlt
  have ⟨hlog, _, _⟩ := log2_bounds hn hlt
  unfold wholeFloat
  rw [if_neg hn, UInt64.toNat_ofNat']
  apply Nat.mod_eq_of_lt
  have hbits := Nat.div_add_mod (wholeBits n) (2 ^ 52)
  have hmod := Nat.mod_lt (wholeBits n) (Nat.two_pow_pos 52)
  rw [hexponent] at hbits
  omega

/-- Decoding gives the number back. -/
theorem wholeOf_wholeFloat {n : Nat} (hlt : n < 2 ^ 53) : wholeOf (wholeFloat n) = some n := by
  by_cases hn : n = 0
  · rw [hn]
    rfl
  · have hbits := toNat_wholeFloat hn hlt
    have hback : wholeOfBits (wholeFloat n).toNat = n := by
      rw [hbits, wholeOfBits_wholeBits hn hlt]
    have hne : wholeFloat n ≠ 0 := by
      intro hzero
      have ⟨hexponent, _⟩ := wholeBits_fields hn hlt
      rw [hzero, UInt64.toNat_zero] at hbits
      rw [← hbits, Nat.zero_div] at hexponent
      omega
    unfold wholeOf
    rw [if_neg hne, hback, if_pos ⟨hlt, rfl⟩]

/-! ## Arithmetic -/

/-- An operation on the whole numbers two doubles stand for. -/
def wholeOp (op : Nat → Nat → Nat) (x y : Float8) : Float8 :=
  match wholeOf x, wholeOf y with
  | some a, some b => wholeFloat (op a b)
  | _, _ => NVP

/-- The arithmetic on doubles that are whole numbers. -/
def wholeArith : Float8Arith where
  add := wholeOp (· + ·)
  mul := wholeOp (· * ·)
  sqrt x := wholeOp (fun a _ => a.sqrt) x x
  ofInt64 n := wholeFloat n.toNat

theorem wholeOp_wholeFloat (op : Nat → Nat → Nat) {a b : Nat} (ha : a < 2 ^ 53)
    (hb : b < 2 ^ 53) : wholeOp op (wholeFloat a) (wholeFloat b) = wholeFloat (op a b) := by
  unfold wholeOp
  rw [wholeOf_wholeFloat ha, wholeOf_wholeFloat hb]

theorem counts_wholeArith {m : Nat} (hm : m < 2 ^ 53) : Counts wholeArith m where
  zero := rfl
  add _ _ hsum := wholeOp_wholeFloat (· + ·) (by omega) (by omega)

end Madlib.Svec
