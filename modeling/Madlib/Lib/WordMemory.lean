import Mathlib

/-!
# Bytes and words in one address space

A memory gives a byte for every address.  A word is eight bytes, least significant byte first.
Writing a word or filling a range is met through the byte at an address, inside or outside of what
was written.
-/

namespace Madlib.Lib.WordMemory

abbrev Memory := Nat → UInt8

/-- The value of `n` bytes from an address on. -/
def readBytes (mem : Memory) : Nat → Nat → Nat
  | 0, _ => 0
  | n + 1, p => (mem p).toNat + 256 * readBytes mem n (p + 1)

def readWord (mem : Memory) (p : Nat) : UInt64 := UInt64.ofNat (readBytes mem 8 p)

/-- The byte at a place of a word. -/
def byteOf (w : UInt64) (k : Nat) : UInt8 := UInt8.ofNat (w.toNat / 256 ^ k)

def writeWord (mem : Memory) (p : Nat) (w : UInt64) : Memory := fun a =>
  if p ≤ a ∧ a < p + 8 then byteOf w (a - p) else mem a

def fill (mem : Memory) (first last : Nat) (b : UInt8) : Memory := fun a =>
  if first ≤ a ∧ a < last then b else mem a

/-- The bytes of a range are copied to another place. -/
def copy (mem : Memory) (source target n : Nat) : Memory := fun a =>
  if target ≤ a ∧ a < target + n then mem (source + (a - target)) else mem a

theorem writeWord_of_le {mem : Memory} {p a : Nat} {w : UInt64} (h : p + 8 ≤ a) :
    writeWord mem p w a = mem a := by
  unfold writeWord
  rw [if_neg (by omega)]

theorem writeWord_inside {mem : Memory} {p k : Nat} {w : UInt64} (h : k < 8) :
    writeWord mem p w (p + k) = byteOf w k := by
  unfold writeWord
  rw [if_pos (by omega), Nat.add_sub_cancel_left]

theorem copy_inside {mem : Memory} {source target n k : Nat} (h : k < n) :
    copy mem source target n (target + k) = mem (source + k) := by
  unfold copy
  rw [if_pos (by omega), Nat.add_sub_cancel_left]

/-! ## Words -/

/-- The same bytes in two places. -/
theorem readBytes_shift {mem mem' : Memory} {n p q : Nat}
    (h : ∀ k < n, mem (p + k) = mem' (q + k)) : readBytes mem n p = readBytes mem' n q := by
  induction n generalizing p q with
  | zero => rfl
  | succ n ih =>
      have hhead : mem p = mem' q := h 0 (Nat.succ_pos n)
      have htail : readBytes mem n (p + 1) = readBytes mem' n (q + 1) := by
        apply ih
        intro k hk
        have hnext := h (k + 1) (by omega)
        rwa [show p + (k + 1) = p + 1 + k from by omega,
          show q + (k + 1) = q + 1 + k from by omega] at hnext
      rw [readBytes, readBytes, hhead, htail]

theorem readBytes_congr {mem mem' : Memory} {n p : Nat}
    (h : ∀ k < n, mem (p + k) = mem' (p + k)) : readBytes mem n p = readBytes mem' n p :=
  readBytes_shift h

theorem readWord_congr {mem mem' : Memory} {p : Nat} (h : ∀ k < 8, mem (p + k) = mem' (p + k)) :
    readWord mem p = readWord mem' p := by
  rw [readWord, readWord, readBytes_congr h]

theorem readBytes_digits {mem : Memory} {n p k v : Nat}
    (h : ∀ j < n, (mem (p + j)).toNat = v / 256 ^ (k + j) % 256) :
    readBytes mem n p = v / 256 ^ k % 256 ^ n := by
  induction n generalizing p k with
  | zero => rw [readBytes, pow_zero, Nat.mod_one]
  | succ n ih =>
      have hhead : (mem p).toNat = v / 256 ^ k % 256 := h 0 (Nat.succ_pos n)
      have htail : readBytes mem n (p + 1) = v / 256 ^ (k + 1) % 256 ^ n := by
        apply ih
        intro j hj
        have hnext := h (j + 1) (by omega)
        rwa [show p + (j + 1) = p + 1 + j from by omega,
          show k + (j + 1) = k + 1 + j from by omega] at hnext
      calc readBytes mem (n + 1) p
          = v / 256 ^ k % 256 + 256 * (v / 256 ^ (k + 1) % 256 ^ n) := by
            rw [readBytes, hhead, htail]
        _ = v / 256 ^ k % 256 + 256 * (v / 256 ^ k / 256 % 256 ^ n) := by
            rw [pow_succ, Nat.div_div_eq_div_mul]
        _ = v / 256 ^ k % (256 * 256 ^ n) := (Nat.mod_mul).symm
        _ = v / 256 ^ k % 256 ^ (n + 1) := by rw [pow_succ, Nat.mul_comm]

theorem readWord_writeWord (mem : Memory) (p : Nat) (w : UInt64) :
    readWord (writeWord mem p w) p = w := by
  have hbytes : ∀ j < 8, (writeWord mem p w (p + j)).toNat = w.toNat / 256 ^ (0 + j) % 256 := by
    intro j hj
    rw [writeWord_inside hj, byteOf, UInt8.toNat_ofNat', Nat.zero_add]
  have hvalue : readBytes (writeWord mem p w) 8 p = w.toNat := by
    rw [readBytes_digits hbytes, pow_zero, Nat.div_one]
    exact Nat.mod_eq_of_lt w.toNat_lt
  rw [readWord, hvalue, UInt64.ofNat_toNat]

/-! ## Words one behind the other -/

/-- Words of `width` bytes from the address 0 on. -/
def packed (width : Nat) (words : List Nat) (mem : Memory) : Memory := fun a =>
  if a < width * words.length then UInt8.ofNat (words.getD (a / width) 0 / 256 ^ (a % width))
  else mem a

theorem packed_behind {width a : Nat} {words : List Nat} {mem : Memory}
    (h : width * words.length ≤ a) : packed width words mem a = mem a :=
  if_neg (Nat.not_lt.mpr h)

theorem packed_inside {width i j : Nat} {words : List Nat} (mem : Memory) (hi : i < words.length)
    (hj : j < width) :
    packed width words mem (width * i + j) = UInt8.ofNat (words[i] / 256 ^ j) := by
  have hlt : width * i + j < width * words.length := by
    calc width * i + j < width * i + width := Nat.add_lt_add_left hj _
      _ = width * (i + 1) := (Nat.mul_succ width i).symm
      _ ≤ width * words.length := Nat.mul_le_mul_left width hi
  have hword : (width * i + j) / width = i := by
    rw [Nat.mul_add_div (by omega), Nat.div_eq_of_lt hj, Nat.add_zero]
  have hbyte : (width * i + j) % width = j := by
    rw [Nat.mul_add_mod, Nat.mod_eq_of_lt hj]
  rw [packed, if_pos hlt, hword, hbyte, List.getD_eq_getElem _ _ hi]

theorem readBytes_packed {width i : Nat} {words : List Nat} (mem : Memory) (hi : i < words.length)
    (hlt : words[i] < 256 ^ width) :
    readBytes (packed width words mem) width (width * i) = words[i] := by
  have hdigits : ∀ j < width, (packed width words mem (width * i + j)).toNat =
      words[i] / 256 ^ (0 + j) % 256 := by
    intro j hj
    rw [packed_inside mem hi hj, UInt8.toNat_ofNat', Nat.zero_add]
  rw [readBytes_digits hdigits, pow_zero, Nat.div_one, Nat.mod_eq_of_lt hlt]

theorem byte_readBytes (mem : Memory) {n p k : Nat} (hk : k < n) :
    UInt8.ofNat (readBytes mem n p / 256 ^ k) = mem (p + k) := by
  induction n generalizing p k with
  | zero => exact absurd hk (Nat.not_lt_zero k)
  | succ n ih =>
      have hlt := (mem p).toNat_lt
      rw [readBytes]
      cases k with
      | zero =>
          apply UInt8.toNat_inj.mp
          rw [pow_zero, Nat.div_one, UInt8.toNat_ofNat', Nat.add_mul_mod_self_left,
            Nat.mod_eq_of_lt hlt, Nat.add_zero]
      | succ k =>
          have hshift : ((mem p).toNat + 256 * readBytes mem n (p + 1)) / 256 ^ (k + 1) =
              readBytes mem n (p + 1) / 256 ^ k := by
            rw [pow_succ', ← Nat.div_div_eq_div_mul]
            congr 1
            omega
          rw [hshift, ih (Nat.lt_of_succ_lt_succ hk)]
          congr 1
          omega

/-- Words that are read one behind the other are the bytes they are read from. -/
theorem packed_readBytes {width n a : Nat} (mem mem' : Memory) (ha : a < width * n) :
    packed width ((List.range n).map fun i => readBytes mem width (width * i)) mem' a = mem a := by
  have hwidth : 0 < width := Nat.pos_of_mul_pos_right (Nat.zero_lt_of_lt ha)
  have hword : a / width < n := Nat.div_lt_of_lt_mul ha
  have hsplit : width * (a / width) + a % width = a := Nat.div_add_mod a width
  have hlength : a / width <
      ((List.range n).map fun i => readBytes mem width (width * i)).length := by
    rwa [List.length_map, List.length_range]
  have hinside := packed_inside mem' hlength (Nat.mod_lt a hwidth)
  rw [hsplit] at hinside
  rw [hinside, List.getElem_map, List.getElem_range, byte_readBytes mem (Nat.mod_lt a hwidth),
    hsplit]

/-! ## Rounding an address down -/

theorem toNat_and_not_fifteen (x : UInt64) : (x &&& ~~~15).toNat = x.toNat / 16 * 16 := by
  have hmask : (x &&& ~~~15).toNat = x.toNat &&& (2 ^ 60 - 1) <<< 4 := by
    rw [UInt64.toNat_and]
    rfl
  have hshift : x.toNat / 16 * 16 = (x.toNat >>> 4) <<< 4 := by
    rw [Nat.shiftLeft_eq, Nat.shiftRight_eq_div_pow]
  rw [hmask, hshift]
  apply Nat.eq_of_testBit_eq
  intro i
  rw [Nat.testBit_and, Nat.testBit_shiftLeft, Nat.testBit_shiftLeft, Nat.testBit_shiftRight,
    Nat.testBit_two_pow_sub_one]
  by_cases hlow : 4 ≤ i
  · have hback : 4 + (i - 4) = i := by omega
    simp only [hlow, decide_true, Bool.true_and, hback]
    by_cases hhigh : i - 4 < 60
    · rw [decide_eq_true hhigh, Bool.and_true]
    · have hbit : x.toNat.testBit i = false :=
        Nat.testBit_lt_two_pow (x.toNat_lt.trans_le (Nat.pow_le_pow_right (by omega) (by omega)))
      rw [hbit, Bool.false_and]
  · simp [hlow]

end Madlib.Lib.WordMemory
