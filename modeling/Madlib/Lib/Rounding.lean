import Mathlib

/-!
# Rounding to a double

The nearest number with 53 significant bits, of two nearest ones the even one.  Exponents are not
bounded, so that numbers between the smallest and the largest normal double round as doubles do.
-/

namespace Madlib.Lib.Rounding

/-- The nearest integer, of two nearest ones the even one. -/
def nearestInt (a : ℚ) : ℤ :=
  if a - ⌊a⌋ < 1 / 2 then ⌊a⌋
  else if 1 / 2 < a - ⌊a⌋ then ⌊a⌋ + 1
  else if Even ⌊a⌋ then ⌊a⌋
  else ⌊a⌋ + 1

/-- The unit of the last of 53 bits. -/
def ulp (a : ℚ) : ℚ := 2 ^ (Int.log 2 |a| - 52)

def nearest (a : ℚ) : ℚ := nearestInt (a / ulp a) * ulp a

/-! ## To an integer -/

theorem nearestInt_intCast (k : ℤ) : nearestInt k = k := by
  unfold nearestInt
  rw [Int.floor_intCast, sub_self, if_pos (by norm_num)]

theorem abs_nearestInt_sub_le (a : ℚ) : |(nearestInt a : ℚ) - a| ≤ 1 / 2 := by
  have hlo := Int.floor_le a
  have hhi := Int.lt_floor_add_one a
  unfold nearestInt
  rw [abs_le]
  split_ifs
  · constructor <;> linarith
  · push_cast
    constructor <;> linarith
  · constructor <;> linarith
  · push_cast
    constructor <;> linarith

theorem floor_le_nearestInt (a : ℚ) : ⌊a⌋ ≤ nearestInt a := by
  unfold nearestInt
  split_ifs <;> omega

theorem nearestInt_le_floor_add_one (a : ℚ) : nearestInt a ≤ ⌊a⌋ + 1 := by
  unfold nearestInt
  split_ifs <;> omega

theorem nearestInt_mono {a b : ℚ} (h : a ≤ b) : nearestInt a ≤ nearestInt b := by
  rcases Int.lt_or_eq_of_le (Int.floor_le_floor h) with hlt | heq
  · calc
      nearestInt a ≤ ⌊a⌋ + 1 := nearestInt_le_floor_add_one a
      _ ≤ ⌊b⌋ := hlt
      _ ≤ nearestInt b := floor_le_nearestInt b
  · unfold nearestInt
    rw [heq]
    split_ifs <;> first | omega | linarith

/-! ## To 53 bits -/

theorem ulp_pos (a : ℚ) : 0 < ulp a := by
  unfold ulp
  positivity

theorem nearest_zero : nearest 0 = 0 := by
  unfold nearest nearestInt
  simp

theorem ulp_mul (a : ℚ) : ulp a * 2 ^ 52 = 2 ^ Int.log 2 |a| := by
  unfold ulp
  rw [← zpow_natCast, ← zpow_add₀ two_ne_zero]
  congr 1
  norm_num

theorem ulp_le {a : ℚ} (h : a ≠ 0) : ulp a * 2 ^ 52 ≤ |a| := by
  rw [ulp_mul]
  exact Int.zpow_log_le_self (by norm_num) (abs_pos.mpr h)

/-- The error is half a unit of the last place. -/
theorem abs_nearest_sub_le (a : ℚ) : |nearest a - a| ≤ ulp a / 2 := by
  have hpos := ulp_pos a
  have hinteger := abs_nearestInt_sub_le (a / ulp a)
  have hscale : nearest a - a = (nearestInt (a / ulp a) - a / ulp a) * ulp a := by
    unfold nearest
    rw [sub_mul, div_mul_cancel₀ a (ne_of_gt hpos)]
  calc
    |nearest a - a| = |nearestInt (a / ulp a) - a / ulp a| * ulp a := by
      rw [hscale, abs_mul, abs_of_pos hpos]
    _ ≤ 1 / 2 * ulp a := mul_le_mul_of_nonneg_right hinteger (le_of_lt hpos)
    _ = ulp a / 2 := by ring

theorem abs_nearest_sub_mul_le (a : ℚ) : |nearest a - a| * 2 ^ 53 ≤ |a| := by
  by_cases h : a = 0
  · rw [h, nearest_zero]
    simp
  · have herror := abs_nearest_sub_le a
    have hulp := ulp_le h
    calc
      |nearest a - a| * 2 ^ 53 ≤ ulp a / 2 * 2 ^ 53 := by gcongr
      _ = ulp a * 2 ^ 52 := by ring
      _ ≤ |a| := hulp

/-! ## Order -/

/-- The result is in the binade of the number, or at its end. -/
theorem nearest_binade {a : ℚ} (h : 0 < a) :
    2 ^ Int.log 2 a ≤ nearest a ∧ nearest a ≤ 2 ^ (Int.log 2 a + 1) := by
  have hpos := ulp_pos a
  have hulp : ulp a * 2 ^ 52 = 2 ^ Int.log 2 a := by
    have hmul := ulp_mul a
    rwa [abs_of_pos h] at hmul
  have hlow : (2 : ℚ) ^ Int.log 2 a ≤ a := Int.zpow_log_le_self one_lt_two h
  have hhigh : a < (2 : ℚ) ^ (Int.log 2 a + 1) := Int.lt_zpow_succ_log_self one_lt_two a
  rw [zpow_add_one₀ two_ne_zero] at hhigh
  constructor
  · have hquotient : ((2 ^ 52 : ℤ) : ℚ) ≤ a / ulp a := by
      rw [le_div_iff₀ hpos]
      push_cast
      linarith
    have hinteger := nearestInt_mono hquotient
    rw [nearestInt_intCast] at hinteger
    have hcast : ((2 ^ 52 : ℤ) : ℚ) ≤ nearestInt (a / ulp a) := Int.cast_le.mpr hinteger
    push_cast at hcast
    calc
      (2 : ℚ) ^ Int.log 2 a = 2 ^ 52 * ulp a := by rw [← hulp, mul_comm]
      _ ≤ nearestInt (a / ulp a) * ulp a := mul_le_mul_of_nonneg_right hcast (le_of_lt hpos)
  · have hquotient : a / ulp a ≤ ((2 ^ 53 : ℤ) : ℚ) := by
      rw [div_le_iff₀ hpos]
      push_cast
      linarith
    have hinteger := nearestInt_mono hquotient
    rw [nearestInt_intCast] at hinteger
    have hcast : (nearestInt (a / ulp a) : ℚ) ≤ ((2 ^ 53 : ℤ) : ℚ) := Int.cast_le.mpr hinteger
    push_cast at hcast
    calc
      nearestInt (a / ulp a) * ulp a ≤ 2 ^ 53 * ulp a :=
        mul_le_mul_of_nonneg_right hcast (le_of_lt hpos)
      _ = 2 ^ 52 * ulp a * 2 := by ring
      _ = (2 : ℚ) ^ (Int.log 2 a + 1) := by
        rw [zpow_add_one₀ two_ne_zero, ← hulp]
        ring

theorem nearest_pos {a : ℚ} (h : 0 < a) : 0 < nearest a :=
  lt_of_lt_of_le (zpow_pos two_pos _) (nearest_binade h).1

theorem nearest_mono {a b : ℚ} (h : 0 ≤ a) (hab : a ≤ b) : nearest a ≤ nearest b := by
  rcases eq_or_lt_of_le h with hzero | ha
  · rw [← hzero, nearest_zero]
    rcases eq_or_lt_of_le (le_trans h hab) with hb | hb
    · rw [← hb, nearest_zero]
    · exact le_of_lt (nearest_pos hb)
  · have hb : 0 < b := lt_of_lt_of_le ha hab
    rcases Int.lt_or_eq_of_le (Int.log_mono_right ha hab) with hlt | heq
    · calc
        nearest a ≤ 2 ^ (Int.log 2 a + 1) := (nearest_binade ha).2
        _ ≤ 2 ^ Int.log 2 b := zpow_le_zpow_right₀ one_le_two hlt
        _ ≤ nearest b := (nearest_binade hb).1
    · have hulp : ulp a = ulp b := by
        unfold ulp
        rw [abs_of_pos ha, abs_of_pos hb, heq]
      have hpos := ulp_pos b
      have hinteger : nearestInt (a / ulp b) ≤ nearestInt (b / ulp b) :=
        nearestInt_mono (div_le_div_of_nonneg_right hab (le_of_lt hpos))
      unfold nearest
      rw [hulp]
      exact mul_le_mul_of_nonneg_right (Int.cast_le.mpr hinteger) (le_of_lt hpos)

/-! ## Numbers that are kept -/

/-- An integer below `2 ^ 53` is a double. -/
theorem nearest_intCast {k : ℤ} (h : |k| < 2 ^ 53) : nearest k = k := by
  have hpos := ulp_pos (k : ℚ)
  by_cases hzero : k = 0
  · rw [hzero, Int.cast_zero, nearest_zero]
  · have habs : (0 : ℚ) < |(k : ℚ)| := abs_pos.mpr (Int.cast_ne_zero.mpr hzero)
    have hlog : Int.log 2 |(k : ℚ)| ≤ 52 := by
      have hlt : |(k : ℚ)| < ((2 : ℕ) : ℚ) ^ (53 : ℤ) := by
        have hcast : ((|k| : ℤ) : ℚ) < ((2 ^ 53 : ℤ) : ℚ) := Int.cast_lt.mpr h
        rw [Int.cast_abs] at hcast
        calc
          |(k : ℚ)| < ((2 ^ 53 : ℤ) : ℚ) := hcast
          _ = ((2 : ℕ) : ℚ) ^ (53 : ℤ) := by norm_num
      have hbelow := (Int.lt_zpow_iff_log_lt one_lt_two habs).mp hlt
      omega
    have hquotient : (k : ℚ) / ulp k = ((k * 2 ^ (52 - Int.log 2 |(k : ℚ)|).toNat : ℤ) : ℚ) := by
      have hnat : ((52 - Int.log 2 |(k : ℚ)|).toNat : ℤ) = 52 - Int.log 2 |(k : ℚ)| :=
        Int.toNat_of_nonneg (by omega)
      unfold ulp
      rw [div_eq_mul_inv, ← zpow_neg, neg_sub]
      push_cast
      rw [← zpow_natCast, hnat]
    unfold nearest
    rw [hquotient, nearestInt_intCast, ← hquotient, div_mul_cancel₀ _ (ne_of_gt hpos)]

end Madlib.Lib.Rounding
