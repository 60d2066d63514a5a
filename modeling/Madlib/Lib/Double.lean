import Mathlib

/-!
# Doubles

The numbers the 64 bits of a double stand for: a sign, eleven bits of exponent and 52 of fraction.
The largest exponent belongs to infinities and NaNs, which stand for no number.  An operation
rounds correctly if its result is exact whenever the exact result is the number of some double.
-/

namespace Madlib.Lib.Double

/-- The exponent 0 is that of the subnormal numbers, which have no hidden bit. -/
def significand (bits : ℕ) : ℕ :=
  if bits / 2 ^ 52 = 0 then bits % 2 ^ 52 else 2 ^ 52 + bits % 2 ^ 52

/-- The number of the bits below the sign. -/
def magnitude (bits : ℕ) : ℚ := significand bits * 2 ^ ((max 1 (bits / 2 ^ 52) : ℕ) - 1075 : ℤ)

/-- The number a double stands for. -/
def value (x : UInt64) : Option ℚ :=
  if 2047 ≤ x.toNat % 2 ^ 63 / 2 ^ 52 then none
  else if x.toNat < 2 ^ 63 then some (magnitude (x.toNat % 2 ^ 63))
  else some (-magnitude (x.toNat % 2 ^ 63))

/-- A number some double stands for. -/
def IsDouble (a : ℚ) : Prop := ∃ x, value x = some a

/-! ## Operations -/

/-- The result is exact if it can be. -/
def RoundsTo (op : UInt64 → UInt64 → UInt64) (exact : ℚ → ℚ → ℚ) : Prop :=
  ∀ x y a b, value x = some a → value y = some b → IsDouble (exact a b) →
    value (op x y) = some (exact a b)

theorem RoundsTo.value_eq {op : UInt64 → UInt64 → UInt64} {exact : ℚ → ℚ → ℚ}
    (h : RoundsTo op exact) {x y : UInt64} {a b : ℚ} (hx : value x = some a)
    (hy : value y = some b) (hdouble : IsDouble (exact a b)) : value (op x y) = some (exact a b) :=
  h x y a b hx hy hdouble

/-- The numbers the doubles of a list stand for. -/
def Values (xs : List UInt64) (as : List ℚ) : Prop := xs.map value = as.map some

theorem values_nil : Values [] [] := rfl

theorem values_cons {x : UInt64} {xs : List UInt64} {a : ℚ} {as : List ℚ} :
    Values (x :: xs) (a :: as) ↔ value x = some a ∧ Values xs as := by
  unfold Values
  rw [List.map_cons, List.map_cons, List.cons.injEq]

theorem Values.length_eq {xs : List UInt64} {as : List ℚ} (h : Values xs as) :
    xs.length = as.length := by
  have hlength := congrArg List.length h
  rwa [List.length_map, List.length_map] at hlength

theorem Values.append {xs ys : List UInt64} {as bs : List ℚ} (hxs : Values xs as)
    (hys : Values ys bs) : Values (xs ++ ys) (as ++ bs) := by
  unfold Values at *
  rw [List.map_append, List.map_append, hxs, hys]

theorem Values.of_append {xs ys : List UInt64} {as bs : List ℚ} (hlength : xs.length = as.length)
    (h : Values (xs ++ ys) (as ++ bs)) : Values xs as ∧ Values ys bs := by
  unfold Values at h
  rw [List.map_append, List.map_append] at h
  exact List.append_inj h (by rw [List.length_map, List.length_map, hlength])

/-- Results that can be exact are exact. -/
theorem RoundsTo.values_zipWith {op : UInt64 → UInt64 → UInt64} {exact : ℚ → ℚ → ℚ}
    (h : RoundsTo op exact) {xs ys : List UInt64} {as bs : List ℚ} (hxs : Values xs as)
    (hys : Values ys bs) (hdouble : ∀ a ∈ List.zipWith exact as bs, IsDouble a) :
    Values (List.zipWith op xs ys) (List.zipWith exact as bs) := by
  induction xs generalizing ys as bs with
  | nil =>
      rw [List.eq_nil_of_length_eq_zero hxs.length_eq.symm]
      exact values_nil
  | cons x xs ih =>
      have ⟨a, as', has⟩ := List.exists_of_length_succ as hxs.length_eq.symm
      subst has
      have ⟨hx, hxs'⟩ := values_cons.mp hxs
      cases ys with
      | nil =>
          rw [List.eq_nil_of_length_eq_zero hys.length_eq.symm]
          exact values_nil
      | cons y ys =>
          have ⟨b, bs', hbs⟩ := List.exists_of_length_succ bs hys.length_eq.symm
          subst hbs
          have ⟨hy, hys'⟩ := values_cons.mp hys
          rw [List.zipWith_cons_cons] at hdouble ⊢
          have ⟨hfirst, hrest⟩ := List.forall_mem_cons.mp hdouble
          exact values_cons.mpr ⟨h.value_eq hx hy hfirst, ih hxs' hys' hrest⟩

theorem RoundsTo.values_map {op : UInt64 → UInt64 → UInt64} {exact : ℚ → ℚ → ℚ}
    (h : RoundsTo op exact) {xs : List UInt64} {as : List ℚ} {y : UInt64} {b : ℚ}
    (hxs : Values xs as) (hy : value y = some b)
    (hdouble : ∀ a ∈ as.map fun a => exact a b, IsDouble a) :
    Values (xs.map fun x => op x y) (as.map fun a => exact a b) := by
  induction xs generalizing as with
  | nil =>
      rw [List.eq_nil_of_length_eq_zero hxs.length_eq.symm]
      exact values_nil
  | cons x xs ih =>
      have ⟨a, as', has⟩ := List.exists_of_length_succ as hxs.length_eq.symm
      subst has
      have ⟨hx, hxs'⟩ := values_cons.mp hxs
      rw [List.map_cons] at hdouble
      have ⟨hfirst, hrest⟩ := List.forall_mem_cons.mp hdouble
      exact values_cons.mpr ⟨h.value_eq hx hy hfirst, ih hxs' hrest⟩

/-! ## Signs -/

theorem magnitude_pos {bits : ℕ} (h : bits ≠ 0) : 0 < magnitude bits := by
  have hsignificand : 0 < significand bits := by
    unfold significand
    split_ifs with hexponent
    · omega
    · exact Nat.add_pos_left (Nat.two_pow_pos 52) _
  unfold magnitude
  positivity

theorem magnitude_nonneg (bits : ℕ) : 0 ≤ magnitude bits := by
  unfold magnitude
  positivity

theorem magnitude_zero : magnitude 0 = 0 := by
  unfold magnitude significand
  norm_num

@[simp] theorem value_zero : value 0 = some 0 := by
  have hzero : (0 : UInt64).toNat = 0 := rfl
  unfold value
  rw [hzero, if_neg (by norm_num), if_pos (by norm_num), Nat.zero_mod, magnitude_zero]

/-- Only the sign changes. -/
theorem toNat_xor_sign (x : UInt64) :
    (x ^^^ 0x8000000000000000).toNat % 2 ^ 63 = x.toNat % 2 ^ 63 ∧
      ((x ^^^ 0x8000000000000000).toNat < 2 ^ 63 ↔ ¬ x.toNat < 2 ^ 63) := by
  have hlt := x.toNat_lt
  have hxor : (x ^^^ 0x8000000000000000).toNat = x.toNat ^^^ 2 ^ 63 := by
    rw [UInt64.toNat_xor]
    rfl
  have hdiv : (x.toNat ^^^ 2 ^ 63) / 2 ^ 63 = x.toNat / 2 ^ 63 ^^^ 1 := by
    rw [Nat.xor_div_two_pow, Nat.div_self (Nat.two_pow_pos 63)]
  have hmod : (x.toNat ^^^ 2 ^ 63) % 2 ^ 63 = x.toNat % 2 ^ 63 := by
    rw [Nat.xor_mod_two_pow, Nat.mod_self, Nat.xor_zero]
  rw [hxor]
  refine ⟨hmod, ?_⟩
  have hhigh : x.toNat / 2 ^ 63 = 0 ∨ x.toNat / 2 ^ 63 = 1 := by omega
  rcases hhigh with hzero | hone
  · rw [hzero, Nat.zero_xor] at hdiv
    omega
  · rw [hone, Nat.xor_self] at hdiv
    omega

theorem value_neg (x : UInt64) : value (x ^^^ 0x8000000000000000) = (value x).map Neg.neg := by
  have ⟨hbits, hside⟩ := toNat_xor_sign x
  unfold value
  rw [hbits]
  simp only [hside]
  split_ifs <;> simp

/-! ## Encoding -/

/-- The significand of a number in units of the last place for an exponent. -/
def scaled (a : ℚ) (k : ℕ) : ℚ := |a| * 2 ^ (1075 - k : ℤ)

/-- The exponent can be that of the number. -/
def Reaches (a : ℚ) (k : ℕ) : Prop := 1 ≤ k ∧ (scaled a k).den = 1 ∧ scaled a k < 2 ^ 53

instance (a : ℚ) (k : ℕ) : Decidable (Reaches a k) := inferInstanceAs (Decidable (_ ∧ _ ∧ _))

/-- The smallest exponent is taken, 0 in its place if there is no hidden bit. -/
def magnitudeBits (k s : ℕ) : ℕ := if s < 2 ^ 52 then s else k * 2 ^ 52 + (s - 2 ^ 52)

/-- The double of a number, a NaN if it has none. -/
@[irreducible] def encode (a : ℚ) : UInt64 :=
  match (List.range 2047).find? fun k => decide (Reaches a k) with
  | none => 0x7FF8000000000000
  | some k =>
      let bits := magnitudeBits k (scaled a k).num.toNat
      UInt64.ofNat (if a < 0 then bits + 2 ^ 63 else bits)

theorem significand_lt (bits : ℕ) : significand bits < 2 ^ 53 := by
  unfold significand
  split_ifs <;> omega

/-- A number of a double has an exponent. -/
theorem IsDouble.reaches {a : ℚ} (h : IsDouble a) : ∃ k < 2047, Reaches a k := by
  have ⟨x, hx⟩ := h
  let bits := x.toNat % 2 ^ 63
  have hfinite : bits / 2 ^ 52 < 2047 := by
    by_contra hge
    rw [value, if_pos (Nat.le_of_not_lt hge)] at hx
    cases hx
  have habs : |a| = magnitude bits := by
    rw [value, if_neg (Nat.not_le.mpr hfinite)] at hx
    split_ifs at hx
    · rw [← Option.some.inj hx, abs_of_nonneg (magnitude_nonneg bits)]
    · rw [← Option.some.inj hx, abs_neg, abs_of_nonneg (magnitude_nonneg bits)]
  have hscaled : scaled a (max 1 (bits / 2 ^ 52)) = (significand bits : ℕ) := by
    unfold scaled
    rw [habs, magnitude, mul_assoc, ← zpow_add₀ (by norm_num)]
    simp
  refine ⟨max 1 (bits / 2 ^ 52), by omega, le_max_left _ _, ?_, ?_⟩
  · rw [hscaled, Rat.den_natCast]
  · rw [hscaled]
    exact_mod_cast significand_lt bits

/-- The smallest exponent leaves no leading zero in the significand, unless it is 1. -/
theorem Reaches.pred {a : ℚ} {k : ℕ} (h : Reaches a k) (hk : 1 < k)
    (hshort : scaled a k < 2 ^ 52) : Reaches a (k - 1) := by
  have hdouble : scaled a (k - 1) = scaled a k * (2 : ℕ) := by
    unfold scaled
    rw [mul_assoc]
    congr 1
    rw [Nat.cast_ofNat, ← zpow_add_one₀ (by norm_num)]
    congr 1
    omega
  have hwhole : ((scaled a k).num : ℚ) = scaled a k := Rat.coe_int_num_of_den_eq_one h.2.1
  refine ⟨by omega, ?_, ?_⟩
  · have hint : scaled a k * (2 : ℕ) = ((scaled a k).num * 2 : ℤ) := by
      rw [Int.cast_mul, hwhole]
      rfl
    rw [hdouble, hint, Rat.den_intCast]
  · rw [hdouble]
    push_cast
    linarith

theorem magnitude_magnitudeBits {k s : ℕ} (hk : 1 ≤ k) (hs : s < 2 ^ 53)
    (hnormal : s < 2 ^ 52 → k = 1) : magnitude (magnitudeBits k s) = s * 2 ^ (k - 1075 : ℤ) := by
  unfold magnitude magnitudeBits significand
  split_ifs with hshort hzero hzero
  · rw [Nat.mod_eq_of_lt hshort, Nat.div_eq_of_lt hshort, hnormal hshort]
    rfl
  · exact absurd (Nat.div_eq_of_lt hshort) hzero
  · omega
  · have hexponent : (k * 2 ^ 52 + (s - 2 ^ 52)) / 2 ^ 52 = k := by omega
    have hsignificand : 2 ^ 52 + (k * 2 ^ 52 + (s - 2 ^ 52)) % 2 ^ 52 = s := by omega
    rw [hexponent, hsignificand, max_eq_right hk]

theorem magnitudeBits_lt {k s : ℕ} (hk : k < 2047) (hs : s < 2 ^ 53) :
    magnitudeBits k s < 2047 * 2 ^ 52 := by
  unfold magnitudeBits
  split_ifs <;> omega

/-- The number of a double is that of its encoding. -/
theorem value_encode {a : ℚ} (h : IsDouble a) : value (encode a) = some a := by
  have ⟨k', hlt, hreaches'⟩ := h.reaches
  have hfound : ((List.range 2047).find? fun k => decide (Reaches a k)).isSome := by
    rw [List.find?_isSome]
    exact ⟨k', List.mem_range.mpr hlt, decide_eq_true hreaches'⟩
  obtain ⟨k, hfind⟩ := Option.isSome_iff_exists.mp hfound
  have ⟨hreaches, hk, hfirst⟩ := List.find?_range_eq_some.mp hfind
  have hreaches := of_decide_eq_true hreaches
  have hk := List.mem_range.mp hk
  let s := (scaled a k).num.toNat
  have hs : (s : ℚ) = scaled a k := by
    have hnonneg : 0 ≤ (scaled a k).num := by
      rw [Rat.num_nonneg]
      unfold scaled
      positivity
    calc (s : ℚ) = ((s : ℤ) : ℚ) := (Int.cast_natCast s).symm
      _ = ((scaled a k).num : ℚ) := by rw [Int.toNat_of_nonneg hnonneg]
      _ = scaled a k := Rat.coe_int_num_of_den_eq_one hreaches.2.1
  have hlt : s < 2 ^ 53 := by
    have hscaled := hreaches.2.2
    rw [← hs] at hscaled
    exact_mod_cast hscaled
  have hnormal : s < 2 ^ 52 → k = 1 := by
    intro hshort
    by_contra hne
    have hk1 : 1 < k := lt_of_le_of_ne hreaches.1 (Ne.symm hne)
    have hscaled : scaled a k < 2 ^ 52 := by
      rw [← hs]
      exact_mod_cast hshort
    have hpred := hfirst (k - 1) (by omega)
    rw [decide_eq_true (hreaches.pred hk1 hscaled)] at hpred
    cases hpred
  have habs : magnitude (magnitudeBits k s) = |a| := by
    rw [magnitude_magnitudeBits hreaches.1 hlt hnormal, hs, scaled, mul_assoc,
      ← zpow_add₀ (by norm_num)]
    simp
  have hbits := magnitudeBits_lt hk hlt
  unfold encode
  rw [hfind]
  dsimp only
  have hside : (UInt64.ofNat (if a < 0 then magnitudeBits k s + 2 ^ 63 else magnitudeBits k s)).toNat =
      if a < 0 then magnitudeBits k s + 2 ^ 63 else magnitudeBits k s := by
    rw [UInt64.toNat_ofNat', Nat.mod_eq_of_lt]
    split_ifs <;> omega
  unfold value
  rw [hside]
  split_ifs with hnegative hbig hpos hbig hpos
  · omega
  · omega
  · rw [Nat.add_mod_right, Nat.mod_eq_of_lt (by omega), habs, abs_of_neg hnegative, neg_neg]
  · omega
  · rw [Nat.mod_eq_of_lt (by omega), habs, abs_of_nonneg (not_lt.mp hnegative)]
  · omega

/-- An operation that encodes the exact result. -/
def exactOp (exact : ℚ → ℚ → ℚ) (x y : UInt64) : UInt64 :=
  match value x, value y with
  | some a, some b => encode (exact a b)
  | _, _ => 0x7FF8000000000000

theorem roundsTo_exactOp (exact : ℚ → ℚ → ℚ) : RoundsTo (exactOp exact) exact := by
  intro x y a b hx hy hdouble
  unfold exactOp
  rw [hx, hy]
  exact value_encode hdouble

/-! ## Whole numbers -/

theorem value_of_toNat {x : UInt64} {bits : ℕ} (h : x.toNat = bits) (hlt : bits < 2047 * 2 ^ 52) :
    value x = some (magnitude bits) := by
  have hmod : bits % 2 ^ 63 = bits := Nat.mod_eq_of_lt (by omega)
  rw [value, h, hmod, if_neg (by omega), if_pos (by omega)]

theorem isDouble_magnitude {bits : ℕ} (h : bits < 2047 * 2 ^ 52) : IsDouble (magnitude bits) := by
  have hside : (UInt64.ofNat bits).toNat = bits := by
    rw [UInt64.toNat_ofNat', Nat.mod_eq_of_lt (by omega)]
  exact ⟨UInt64.ofNat bits, value_of_toNat hside h⟩

theorem IsDouble.neg {a : ℚ} (h : IsDouble a) : IsDouble (-a) := by
  have ⟨x, hx⟩ := h
  refine ⟨x ^^^ 0x8000000000000000, ?_⟩
  rw [value_neg, hx]
  rfl

theorem isDouble_zero : IsDouble 0 := ⟨0, value_zero⟩

/-- The highest bit of a whole number becomes the hidden one. -/
theorem isDouble_natCast {n : ℕ} (h : n < 2 ^ 53) : IsDouble n := by
  rcases Nat.eq_zero_or_pos n with rfl | hpos
  · exact_mod_cast isDouble_zero
  · have hlog : n.log2 < 53 := (Nat.log2_lt hpos.ne').mpr h
    have hlow : 2 ^ n.log2 ≤ n := Nat.log2_self_le hpos.ne'
    have hhigh : n < 2 ^ (n.log2 + 1) := Nat.lt_log2_self
    let s := n * 2 ^ (52 - n.log2)
    have hnormal : 2 ^ 52 ≤ s := by
      calc 2 ^ 52 = 2 ^ n.log2 * 2 ^ (52 - n.log2) := by
            rw [← pow_add, Nat.add_sub_cancel' (by omega)]
        _ ≤ s := Nat.mul_le_mul_right _ hlow
    have hs : s < 2 ^ 53 := by
      calc s < 2 ^ (n.log2 + 1) * 2 ^ (52 - n.log2) :=
            Nat.mul_lt_mul_of_pos_right hhigh (Nat.two_pow_pos _)
        _ = 2 ^ 53 := by
            rw [← pow_add]
            congr 1
            omega
    have hdouble := isDouble_magnitude (magnitudeBits_lt (k := 1023 + n.log2) (by omega) hs)
    rw [magnitude_magnitudeBits (by omega) hs (by omega)] at hdouble
    have hvalue : (s : ℚ) * 2 ^ ((1023 + n.log2 : ℕ) - 1075 : ℤ) = n := by
      have hexponent : ((1023 + n.log2 : ℕ) - 1075 : ℤ) = -((52 - n.log2 : ℕ) : ℤ) := by omega
      rw [hexponent, zpow_neg, zpow_natCast, Nat.cast_mul, Nat.cast_pow, Nat.cast_ofNat]
      exact mul_inv_cancel_right₀ (by positivity) _
    rwa [hvalue] at hdouble

theorem isDouble_intCast {n : ℤ} (h : n.natAbs < 2 ^ 53) : IsDouble n := by
  have hdouble := isDouble_natCast h
  rcases Int.natAbs_eq n with hn | hn
  · rw [hn, Int.cast_natCast]
    exact hdouble
  · rw [hn, Int.cast_neg, Int.cast_natCast]
    exact hdouble.neg

end Madlib.Lib.Double
