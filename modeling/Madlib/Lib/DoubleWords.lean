import Madlib.Lib.Double

/-!
# Whole numbers read as doubles

The 64 bits of a whole number in two's complement are those of a double as well.  It stands for
the same number only if that is zero.
-/

namespace Madlib.Lib.Double

/-- Short words are subnormal. -/
theorem value_short {w : ℕ} (h : w < 2 ^ 52) :
    value (UInt64.ofNat w) = some ((w : ℚ) / 2 ^ 1074) := by
  have hword : (UInt64.ofNat w).toNat = w := by
    rw [UInt64.toNat_ofNat', Nat.mod_eq_of_lt (by omega)]
  rw [value_of_toNat hword (by omega), magnitude, significand, Nat.div_eq_of_lt h, if_pos rfl,
    Nat.mod_eq_of_lt h, div_eq_mul_inv]
  congr 1

/-- A multiple of the units is not a subnormal number, unless it is zero. -/
theorem eq_zero_of_short {w k : ℕ} (hw : w < 2 ^ 52) (hk : k ≤ 1000) {n : ℤ}
    (h : (w : ℚ) / 2 ^ 1074 * 2 ^ k = n) : w = 0 := by
  have hsplit : (2 : ℚ) ^ 1074 = 2 ^ (1074 - k) * 2 ^ k := by
    rw [← pow_add]
    congr 1
    omega
  have hproduct : (w : ℤ) = n * 2 ^ (1074 - k) := by
    rw [hsplit, div_mul_eq_div_div, div_mul_cancel₀ _ (by positivity),
      div_eq_iff (by positivity)] at h
    exact_mod_cast h
  by_contra hne
  have hdvd : 2 ^ (1074 - k) ∣ w := by
    have hint : (2 : ℤ) ^ (1074 - k) ∣ w := ⟨n, by rw [hproduct, mul_comm]⟩
    exact_mod_cast hint
  have hle := Nat.le_of_dvd (Nat.pos_of_ne_zero hne) hdvd
  have hpow : 2 ^ 52 ≤ 2 ^ (1074 - k) := Nat.pow_le_pow_right (by norm_num) (by omega)
  omega

/-! ## The parts of a word -/

/-- An odd factor leaves the low bits of the product nonzero. -/
theorem low_eq_zero {m : ℕ} {c d : ℤ} (hm : m < 2 ^ 52) (hodd : Odd c)
    (h : (2 : ℤ) ^ 64 ∣ m * c + 2 ^ 52 * d) : m = 0 ∧ 4096 ∣ d := by
  have hlow : (2 : ℤ) ^ 52 ∣ m * c :=
    (Int.dvd_add_left (Dvd.intro _ rfl)).mp ((pow_dvd_pow 2 (by norm_num)).trans h)
  have hcoprime : IsCoprime ((2 : ℤ) ^ 52) c := (Int.isCoprime_two_left.mpr hodd).pow_left
  have hdvd : 2 ^ 52 ∣ m := by exact_mod_cast hcoprime.dvd_of_dvd_mul_right hlow
  have hzero : m = 0 := Nat.eq_zero_of_dvd_of_lt hdvd hm
  refine ⟨hzero, ?_⟩
  have hsplit : (2 : ℤ) ^ 64 = 2 ^ 52 * 4096 := by norm_num
  rw [hzero, Nat.cast_zero, zero_mul, zero_add, hsplit] at h
  exact Int.dvd_of_mul_dvd_mul_left (by norm_num) h

/-- From the exponent 1075 on, every number is whole. -/
theorem magnitude_eq_natCast {bits n : ℕ} (h : magnitude bits = n) :
    (bits / 2 ^ 52 < 1075 → n * 2 ^ (1075 - max 1 (bits / 2 ^ 52)) = significand bits) ∧
      (1075 ≤ bits / 2 ^ 52 → n = significand bits * 2 ^ (bits / 2 ^ 52 - 1075)) := by
  unfold magnitude at h
  constructor
  · intro hlt
    have hexponent : ((max 1 (bits / 2 ^ 52) : ℕ) - 1075 : ℤ) =
        -((1075 - max 1 (bits / 2 ^ 52) : ℕ) : ℤ) := by omega
    rw [hexponent, zpow_neg, zpow_natCast, ← div_eq_mul_inv,
      div_eq_iff (by positivity)] at h
    exact_mod_cast h.symm
  · intro hge
    have hexponent : ((max 1 (bits / 2 ^ 52) : ℕ) - 1075 : ℤ) =
        ((bits / 2 ^ 52 - 1075 : ℕ) : ℤ) := by omega
    rw [hexponent, zpow_natCast] at h
    exact_mod_cast h.symm

/-- A whole number with a small exponent is short. -/
theorem lt_of_magnitude_eq {bits n : ℕ} (h : magnitude bits = n) (hlt : bits / 2 ^ 52 < 1075) :
    n < 2 ^ 52 ∧ (bits / 2 ^ 52 < 1023 → n = 0) := by
  have hproduct := (magnitude_eq_natCast h).1 hlt
  have hsignificand := significand_lt bits
  rw [← hproduct] at hsignificand
  constructor
  · have hpow : 2 ^ 1 ≤ 2 ^ (1075 - max 1 (bits / 2 ^ 52)) :=
      Nat.pow_le_pow_right (by norm_num) (by omega)
    have hle := Nat.mul_le_mul_left n hpow
    omega
  · intro hsmall
    have hpow : 2 ^ 53 ≤ 2 ^ (1075 - max 1 (bits / 2 ^ 52)) :=
      Nat.pow_le_pow_right (by norm_num) (by omega)
    have hle := Nat.mul_le_mul_left n hpow
    omega

/-- A whole number that is the magnitude of a word is short, or made of the fields of the word. -/
theorem short_or_normal {bits n : ℕ} (h : magnitude bits = n) (hfinite : bits / 2 ^ 52 < 2047) :
    (n < 2 ^ 52 ∧ (bits / 2 ^ 52 < 1023 → n = 0)) ∨
      ∃ j m : ℕ, j < 972 ∧ m < 2 ^ 52 ∧ bits = (1075 + j) * 2 ^ 52 + m ∧
        n = (2 ^ 52 + m) * 2 ^ j := by
  by_cases hlt : bits / 2 ^ 52 < 1075
  · exact .inl (lt_of_magnitude_eq h hlt)
  · have hge := not_lt.mp hlt
    have hnormal : significand bits = 2 ^ 52 + bits % 2 ^ 52 := if_neg (by omega)
    have hm : bits % 2 ^ 52 < 2 ^ 52 := Nat.mod_lt _ (by norm_num)
    refine .inr ⟨bits / 2 ^ 52 - 1075, bits % 2 ^ 52, by omega, hm, by omega, ?_⟩
    rw [(magnitude_eq_natCast h).2 hge, hnormal]

/-- The lowest bits of a large power of two are zero. -/
theorem two_pow_emod {j : ℕ} (hj : 12 ≤ j) : (2 : ℤ) ^ j % 4096 = 0 := by
  have hsplit : (2 : ℤ) ^ j = 4096 * 2 ^ (j - 12) := by
    rw [show (4096 : ℤ) = 2 ^ 12 by norm_num, ← pow_add, Nat.add_sub_cancel' hj]
  rw [hsplit, Int.mul_emod_right]

/-- The exponent field of a large whole number is not that of its double. -/
theorem not_dvd_exponent {j : ℕ} (hj : j < 972) :
    ¬(4096 : ℤ) ∣ 2 ^ j - (1075 + j) ∧ ¬(4096 : ℤ) ∣ 2 ^ j + (3123 + j) := by
  by_cases hlarge : 12 ≤ j
  · have hpow := two_pow_emod hlarge
    omega
  · interval_cases j <;> norm_num

theorem odd_two_pow {j : ℕ} (hj : j ≠ 0) : Odd ((2 : ℤ) ^ j - 1) ∧ Odd ((2 : ℤ) ^ j + 1) := by
  have heven : Even ((2 : ℤ) ^ j) := (Int.even_pow.mpr ⟨even_two, hj⟩)
  exact ⟨heven.sub_odd odd_one, heven.add_odd odd_one⟩

theorem not_dvd_sub {j m : ℕ} (hj : j < 972) (hm : m < 2 ^ 52) :
    ¬(2 : ℤ) ^ 64 ∣ (2 ^ 52 + m) * 2 ^ j - ((1075 + j) * 2 ^ 52 + m) := by
  intro h
  have hsplit : ((2 : ℤ) ^ 52 + m) * 2 ^ j - ((1075 + j) * 2 ^ 52 + m) =
      m * (2 ^ j - 1) + 2 ^ 52 * (2 ^ j - (1075 + j)) := by ring
  by_cases hzero : j = 0
  · rw [hzero] at h
    norm_num at h
  · rw [hsplit] at h
    exact (not_dvd_exponent hj).1 (low_eq_zero hm (odd_two_pow hzero).1 h).2

theorem not_dvd_add {j m : ℕ} (hj : j < 972) (hm : m < 2 ^ 52) :
    ¬(2 : ℤ) ^ 64 ∣ (2 ^ 52 + m) * 2 ^ j + (2 ^ 63 + (1075 + j) * 2 ^ 52 + m) := by
  intro h
  have hsplit : ((2 : ℤ) ^ 52 + m) * 2 ^ j + (2 ^ 63 + (1075 + j) * 2 ^ 52 + m) =
      m * (2 ^ j + 1) + 2 ^ 52 * (2 ^ j + (3123 + j)) := by ring
  by_cases hzero : j = 0
  · rw [hzero] at h
    omega
  · rw [hsplit] at h
    exact (not_dvd_exponent hj).2 (low_eq_zero hm (odd_two_pow hzero).2 h).2

/-- Two's complement and the double agree on zero only. -/
theorem eq_zero_of_word {w : ℕ} (hw : w < 2 ^ 64) {s : ℤ} (hword : (2 : ℤ) ^ 64 ∣ s - w)
    (hvalue : value (UInt64.ofNat w) = some (s : ℚ)) : s = 0 := by
  have hbits : (UInt64.ofNat w).toNat = w := by
    rw [UInt64.toNat_ofNat', Nat.mod_eq_of_lt hw]
  rw [value, hbits] at hvalue
  let bits := w % 2 ^ 63
  split_ifs at hvalue with hfinite hpos
  · have hmagnitude : magnitude bits = s := Option.some.inj hvalue
    have hnonneg : 0 ≤ s := by
      have hle := magnitude_nonneg bits
      rw [hmagnitude] at hle
      exact_mod_cast hle
    lift s to ℕ using hnonneg
    rw [Int.cast_natCast] at hmagnitude
    rcases short_or_normal hmagnitude (by omega) with hshort | ⟨j, m, hj, hm, hfields, hs⟩
    · omega
    · have hsplit : (w : ℤ) = (1075 + j) * 2 ^ 52 + m := by omega
      rw [hsplit, hs] at hword
      exact absurd (by exact_mod_cast hword) (not_dvd_sub hj hm)
  · have hmagnitude : magnitude bits = (-s : ℤ) := by
      rw [Int.cast_neg, ← Option.some.inj hvalue, neg_neg]
    have hnonneg : 0 ≤ -s := by
      have hle := magnitude_nonneg bits
      rw [hmagnitude] at hle
      exact_mod_cast hle
    obtain ⟨n, hn⟩ := Int.eq_ofNat_of_zero_le hnonneg
    rw [hn, Int.cast_natCast] at hmagnitude
    rcases short_or_normal hmagnitude (by omega) with hshort | ⟨j, m, hj, hm, hfields, hs⟩
    · omega
    · have hsplit : (w : ℤ) = 2 ^ 63 + (1075 + j) * 2 ^ 52 + m := by omega
      have hsum : s - w = -(n + w : ℤ) := by omega
      rw [hsum, Int.dvd_neg, hsplit, hs] at hword
      exact absurd (by exact_mod_cast hword) (not_dvd_add hj hm)

end Madlib.Lib.Double
