import Mathlib

/-!
# Two's-complement conversions and little-endian bytes

A C integer is modelled by the mathematical `Int` it stands for.  A conversion
to a narrower signed type keeps the residue and moves it into the type's range;
an object in memory is the list of its bytes, least significant first.
-/

namespace Madlib.Lib.MachineInt

/-! ## Conversions to signed types -/

/-- The value congruent to `x` modulo `2 * half` in `[-half, half)`. -/
def wrapAt (half x : Int) : Int := (x + half) % (2 * half) - half

def toInt8 (x : Int) : Int := wrapAt 128 x
def toInt16 (x : Int) : Int := wrapAt 32768 x
def toInt32 (x : Int) : Int := wrapAt 2147483648 x
def toInt64 (x : Int) : Int := wrapAt 9223372036854775808 x

theorem wrapAt_of_mem {half x : Int} (hlo : -half ≤ x) (hhi : x < half) :
    wrapAt half x = x := by
  unfold wrapAt
  rw [Int.emod_eq_of_lt (by omega) (by omega)]
  omega

theorem toInt32_of_mem {x : Int} (hlo : -2147483648 ≤ x) (hhi : x < 2147483648) :
    toInt32 x = x :=
  wrapAt_of_mem hlo hhi

theorem toInt32_mem (x : Int) : -2147483648 ≤ toInt32 x ∧ toInt32 x < 2147483648 := by
  unfold toInt32 wrapAt
  omega

theorem toInt32_eq_self_iff {x : Int} :
    toInt32 x = x ↔ -2147483648 ≤ x ∧ x < 2147483648 := by
  unfold toInt32 wrapAt
  omega

theorem toInt32_congr {x y : Int} (h : x % 4294967296 = y % 4294967296) :
    toInt32 x = toInt32 y := by
  unfold toInt32 wrapAt
  omega

/-- Wrapping on the way does not change what a sum wraps to. -/
theorem toInt32_toInt32_add (x y : Int) : toInt32 (toInt32 x + y) = toInt32 (x + y) := by
  unfold toInt32 wrapAt
  omega

theorem toInt64_toInt64_add (x y : Int) : toInt64 (toInt64 x + y) = toInt64 (x + y) := by
  unfold toInt64 wrapAt
  omega

theorem toInt64_of_mem {x : Int} (hlo : -9223372036854775808 ≤ x) (hhi : x < 9223372036854775808) :
    toInt64 x = x :=
  wrapAt_of_mem hlo hhi

theorem int32_toInt_ofInt (x : Int) : (Int32.ofInt x).toInt = toInt32 x := by
  rw [Int32.toInt_ofInt, Int.bmod_def]
  simp only [Int32.size, toInt32, wrapAt]
  omega

theorem int32_mem (x : Int32) : -2147483648 ≤ x.toInt ∧ x.toInt < 2147483648 := by
  have hlo := x.le_toInt
  have hhi := x.toInt_lt
  omega

/-! ## Bytes -/

/-- A byte read through a `signed char`. -/
def schar (b : UInt8) : Int := toInt8 b.toNat

/-- The byte a `char` holds after a conversion from a wider integer. -/
def charOf (x : Int) : UInt8 := UInt8.ofNat (x % 256).toNat

theorem schar_charOf (x : Int) : schar (charOf x) = toInt8 x := by
  have hlt : (x % 256).toNat < 256 := by omega
  simp only [schar, charOf, UInt8.toNat_ofNat', toInt8, wrapAt]
  omega

/-- The low `count` bytes of `n`, least significant first. -/
def leBytes : Nat → Nat → List UInt8
  | 0, _ => []
  | count + 1, n => UInt8.ofNat (n % 256) :: leBytes count (n / 256)

/-- The number a little-endian byte string stands for. -/
def ofLeBytes : List UInt8 → Nat
  | [] => 0
  | b :: bs => b.toNat + 256 * ofLeBytes bs

@[simp] theorem length_leBytes (count n : Nat) : (leBytes count n).length = count := by
  induction count generalizing n with
  | zero => rfl
  | succ count ih => simp [leBytes, ih]

theorem ofLeBytes_leBytes (count n : Nat) :
    ofLeBytes (leBytes count n) = n % 256 ^ count := by
  induction count generalizing n with
  | zero => simp [leBytes, ofLeBytes, Nat.mod_one]
  | succ count ih =>
      have hbyte : (UInt8.ofNat (n % 256)).toNat = n % 256 := by simp
      rw [leBytes, ofLeBytes, ih, hbyte, Nat.pow_succ', Nat.mod_mul]

theorem ofLeBytes_lt (bs : List UInt8) : ofLeBytes bs < 256 ^ bs.length := by
  induction bs with
  | nil => simp [ofLeBytes]
  | cons b bs ih =>
      have hb := b.toNat_lt
      rw [ofLeBytes, List.length_cons, Nat.pow_succ']
      omega

/-- The object representation of an `int64`. -/
def int64Bytes (x : Int) : List UInt8 := leBytes 8 (x % 18446744073709551616).toNat

/-- A `uint64` read through an `int64`. -/
def signed64 (x : UInt64) : Int := toInt64 x.toNat

theorem signed64_of_lt {x : UInt64} (h : x.toNat < 2 ^ 63) : signed64 x = x.toNat := by
  unfold signed64 toInt64
  apply wrapAt_of_mem <;> omega

/-! ## Spreading bits -/

/-- Each step doubles the distance over which a bit is spread. -/
theorem testBit_spread {v x w : Nat}
    (h : ∀ i, x.testBit i = true ↔ ∃ d, d < w ∧ v.testBit (i + d) = true) (i : Nat) :
    (x ||| x >>> w).testBit i = true ↔ ∃ d, d < w + w ∧ v.testBit (i + d) = true := by
  rw [Nat.testBit_or, Nat.testBit_shiftRight, Bool.or_eq_true, h, h]
  constructor
  · rintro (⟨d, hd, hbit⟩ | ⟨d, hd, hbit⟩)
    · exact ⟨d, by omega, hbit⟩
    · refine ⟨w + d, by omega, ?_⟩
      rw [show i + (w + d) = w + i + d by omega]
      exact hbit
  · rintro ⟨d, hd, hbit⟩
    by_cases hlow : d < w
    · exact .inl ⟨d, hlow, hbit⟩
    · refine .inr ⟨d - w, by omega, ?_⟩
      rw [show w + i + (d - w) = i + d by omega]
      exact hbit

theorem testBit_lt_size {v i : Nat} (h : v.testBit i = true) : i < v.size :=
  Nat.lt_size.mpr (Nat.ge_two_pow_of_testBit h)

/-- A bit at or above position `i` is as far away as the number is long. -/
theorem exists_testBit_iff {v w i : Nat} (hv : v < 2 ^ w) :
    (∃ d, d < w ∧ v.testBit (i + d) = true) ↔ i < v.size := by
  constructor
  · rintro ⟨d, _, hbit⟩
    have hlt := testBit_lt_size hbit
    omega
  · intro hi
    have hne : v ≠ 0 := by
      rintro rfl
      simp at hi
    obtain ⟨top, htop, habove⟩ := Nat.exists_most_significant_bit hne
    have hsize : v.size ≤ top + 1 := by
      rw [Nat.size_le]
      apply Nat.lt_pow_two_of_testBit
      intro j hj
      exact habove j (by omega)
    have hw : top < w := by
      have htop' := testBit_lt_size htop
      have hle : v.size ≤ w := Nat.size_le.mpr hv
      omega
    refine ⟨top - i, by omega, ?_⟩
    rw [show i + (top - i) = top by omega]
    exact htop

end Madlib.Lib.MachineInt
