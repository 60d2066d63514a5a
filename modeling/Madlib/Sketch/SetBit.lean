import Madlib.Sketch.BitScan

/-!
# The bits of the sketches of a bitmap

The sketches stand from left to right, and so do the bits, but the significance of a bit within its
sketch is counted from the right.  The number of bytes of a sketch is kept in a `char`, and the
size of a sketch is only checked to be a multiple of 4 bits.
-/

namespace Madlib.Sketch

open Madlib.Backend Madlib.Lib.MachineInt Madlib.Lib.BitString

theorem Bytea.size_modify (bitmap : Bytea) (pos : Nat) (mask : UInt8) :
    (bitmap.data.modify pos (· ||| mask)).length + 4 < 2 ^ 30 := by
  rw [List.length_modify]
  exact bitmap.size_lt

/-- `VARDATA(bitmap)[pos] |= mask` -/
def Bytea.orByte (bitmap : Bytea) (pos : Nat) (mask : UInt8) : Bytea :=
  ⟨bitmap.data.modify pos (· ||| mask), bitmap.size_modify pos mask⟩

/-- `array_set_bit_in_place` on the bytes of a bitmap, with a `char` that is signed. -/
def Bytea.arraySetBitInPlace (bitmap : Bytea)
    (numsketches sketchszBits sketchnum bitnum : Int) : Except Fault Bytea :=
  let bytesPerSketch := toInt8 (sketchszBits / 8)
  if numsketches ≤ sketchnum ∨ sketchnum < 0 then
    .error (.elog "sketch offset exceeds the number of sketches (0-based)")
  else if sketchszBits ≤ bitnum ∨ bitnum < 0 then
    .error (.elog "bit offset exceeds the number of bits per sketch (0-based)")
  else if sketchszBits % 4 ≠ 0 then
    .error (.elog
      s!"number of bits per sketch is {sketchszBits}, must be a multiple of sizeof(uint32) = 4")
  else
    let mask : UInt8 := UInt8.ofNat (2 ^ (bitnum % 8).toNat)
    let pos := toInt32 (toInt32 (sketchnum * bytesPerSketch) + ((bytesPerSketch - 1) - bitnum / 8))
    if 0 ≤ pos ∧ pos < bitmap.data.length then .ok (bitmap.orByte pos.toNat mask)
    else .error .outOfBounds

/-! ## Bits -/

/-- The bits of a string of bytes from left to right. -/
def bitAt (bytes : List UInt8) (p : Nat) : Bool := (bytes.getD (p / 8) 0).toNat.testBit (7 - p % 8)

/-- The place of the bit with a significance in a sketch. -/
def sketchBit (sketchszBits sketchnum bitnum : Int) : Nat :=
  ((sketchnum + 1) * sketchszBits - 1 - bitnum).toNat

theorem bitAt_modify {bytes : List UInt8} {pos k : Nat} (hpos : pos < bytes.length) (hk : k < 8)
    (p : Nat) : bitAt (bytes.modify pos (· ||| UInt8.ofNat (2 ^ k))) p =
      (bitAt bytes p || decide (p = 8 * pos + (7 - k))) := by
  have hmask : (UInt8.ofNat (2 ^ k)).toNat = 2 ^ k := by
    have hlt : 2 ^ k < 2 ^ 8 := Nat.pow_lt_pow_right (by norm_num) hk
    rw [UInt8.toNat_ofNat']
    exact Nat.mod_eq_of_lt hlt
  unfold bitAt
  rw [List.getD_eq_getElem?_getD, List.getD_eq_getElem?_getD, List.getElem?_modify]
  by_cases hbyte : pos = p / 8
  · have hlt : p / 8 < bytes.length := hbyte ▸ hpos
    have hplace : (p = 8 * pos + (7 - k)) ↔ (k = 7 - p % 8) := by omega
    rw [List.getElem?_eq_getElem hlt]
    simp [hbyte ▸ hplace, hbyte, UInt8.toNat_or, hmask, Nat.testBit_two_pow]
  · have hplace : ¬p = 8 * pos + (7 - k) := by omega
    cases bytes[p / 8]? <;> simp [hbyte, hplace]

/-! ## Accepted arguments -/

/-- The conditions no error is raised under. -/
structure AcceptsBit (numsketches sketchszBits sketchnum bitnum : Int) : Prop where
  sketchnum_nonneg : 0 ≤ sketchnum
  sketchnum_lt : sketchnum < numsketches
  bitnum_nonneg : 0 ≤ bitnum
  bitnum_lt : bitnum < sketchszBits
  size : sketchszBits % 4 = 0

/-- The index of the byte, if no `int` overflows. -/
def bitAddress (sketchszBits sketchnum bitnum : Int) : Int :=
  (sketchnum + 1) * toInt8 (sketchszBits / 8) - 1 - bitnum / 8

section Accepted

variable {bitmap : Bytea} {numsketches sketchszBits sketchnum bitnum : Int}

theorem acceptsBit_of_not_raised
    (h : ∀ e, bitmap.arraySetBitInPlace numsketches sketchszBits sketchnum bitnum = .error e →
      e.isRaised = false) : AcceptsBit numsketches sketchszBits sketchnum bitnum := by
  unfold Bytea.arraySetBitInPlace at h
  split_ifs at h with hsketch hbit hsize
  · exact absurd (h _ rfl) (by simp [Fault.isRaised])
  · exact absurd (h _ rfl) (by simp [Fault.isRaised])
  · exact absurd (h _ rfl) (by simp [Fault.isRaised])
  all_goals exact ⟨by omega, by omega, by omega, by omega, by omega⟩

theorem toInt8_of_lt {x : Int} (hnonneg : 0 ≤ x) (hlt : x < 128) : toInt8 x = x :=
  wrapAt_of_mem (by omega) (by omega)

theorem toInt8_mem (x : Int) : -128 ≤ toInt8 x ∧ toInt8 x < 128 := by
  unfold toInt8 wrapAt
  omega

/-- Products of the number of a sketch with its size stay within the bitmap. -/
theorem sketch_mul_le (h : AcceptsBit numsketches sketchszBits sketchnum bitnum)
    (hbits : 8 * (bitmap.data.length : Int) = numsketches * sketchszBits) :
    sketchnum * sketchszBits + sketchszBits ≤ 8 * bitmap.data.length := by
  have hle : (sketchnum + 1) * sketchszBits ≤ numsketches * sketchszBits :=
    mul_le_mul_of_nonneg_right h.sketchnum_lt (h.bitnum_nonneg.trans h.bitnum_lt.le)
  rw [hbits]
  linarith

/-- No `int` overflows. -/
theorem toInt32_bitAddress (h : AcceptsBit numsketches sketchszBits sketchnum bitnum)
    (hbits : 8 * (bitmap.data.length : Int) = numsketches * sketchszBits) :
    toInt32 (toInt32 (sketchnum * toInt8 (sketchszBits / 8)) +
      ((toInt8 (sketchszBits / 8) - 1) - bitnum / 8)) =
        bitAddress sketchszBits sketchnum bitnum := by
  have hsize := bitmap.size_lt
  have hmul := sketch_mul_le h hbits
  have hbound := toInt8_mem (sketchszBits / 8)
  obtain ⟨hnonneg, -, hbit, hlt, -⟩ := h
  have hproduct : -1073741824 ≤ sketchnum * toInt8 (sketchszBits / 8) - bitnum / 8 ∧
      sketchnum * toInt8 (sketchszBits / 8) ≤ 1073741824 := by
    by_cases hsmall : sketchszBits < 1024
    · rw [toInt8_of_lt (by omega) (by omega)]
      have hle : sketchnum * (8 * (sketchszBits / 8)) ≤ sketchnum * sketchszBits :=
        mul_le_mul_of_nonneg_left (by omega) hnonneg
      have hpos : 0 ≤ sketchnum * (sketchszBits / 8) := mul_nonneg hnonneg (by omega)
      rw [mul_left_comm] at hle
      omega
    · have hle : sketchnum * 1024 ≤ sketchnum * sketchszBits :=
        mul_le_mul_of_nonneg_left (by omega) hnonneg
      have hlow : sketchnum * -128 ≤ sketchnum * toInt8 (sketchszBits / 8) :=
        mul_le_mul_of_nonneg_left hbound.1 hnonneg
      have hhigh : sketchnum * toInt8 (sketchszBits / 8) ≤ sketchnum * 128 :=
        mul_le_mul_of_nonneg_left hbound.2.le hnonneg
      omega
  have hinner : toInt32 (sketchnum * toInt8 (sketchszBits / 8)) =
      sketchnum * toInt8 (sketchszBits / 8) := toInt32_of_mem (by omega) (by omega)
  rw [hinner, toInt32_of_mem (by omega) (by omega)]
  unfold bitAddress
  ring

/-- One byte is written, or none of the bitmap. -/
theorem arraySetBitInPlace_eq (h : AcceptsBit numsketches sketchszBits sketchnum bitnum)
    (hbits : 8 * (bitmap.data.length : Int) = numsketches * sketchszBits) :
    bitmap.arraySetBitInPlace numsketches sketchszBits sketchnum bitnum =
      if 0 ≤ bitAddress sketchszBits sketchnum bitnum ∧
          bitAddress sketchszBits sketchnum bitnum < bitmap.data.length then
        .ok (bitmap.orByte (bitAddress sketchszBits sketchnum bitnum).toNat
          (UInt8.ofNat (2 ^ (bitnum % 8).toNat)))
      else .error .outOfBounds := by
  unfold Bytea.arraySetBitInPlace
  dsimp only
  have haddress := toInt32_bitAddress h hbits
  obtain ⟨hnonneg, hlt, hbit, hbitlt, hsize⟩ := h
  rw [if_neg (by omega), if_neg (by omega), if_neg (by omega), haddress]

/-! ## What is written -/

/-- Exactly one bit is set, and nothing else is accessed. -/
def TouchesOnly (bitmap : Bytea) (numsketches sketchszBits sketchnum bitnum : Int) : Prop :=
  ∃ result, bitmap.arraySetBitInPlace numsketches sketchszBits sketchnum bitnum = .ok result ∧
    result.data.length = bitmap.data.length ∧
    ∀ p, bitAt result.data p =
      (bitAt bitmap.data p || decide (p = sketchBit sketchszBits sketchnum bitnum))

/-- The bit that is hit is the one of the sketch if its size in bytes is not cut off. -/
theorem hit_eq_sketchBit_iff (h : AcceptsBit numsketches sketchszBits sketchnum bitnum)
    (haddress : 0 ≤ bitAddress sketchszBits sketchnum bitnum) :
    8 * (bitAddress sketchszBits sketchnum bitnum).toNat + (7 - (bitnum % 8).toNat) =
      sketchBit sketchszBits sketchnum bitnum ↔ sketchszBits % 8 = 0 ∧ sketchszBits < 1024 := by
  have hpos : 0 < sketchnum + 1 := by linarith [h.sketchnum_nonneg]
  have hbound := toInt8_mem (sketchszBits / 8)
  have hle : sketchszBits ≤ (sketchnum + 1) * sketchszBits :=
    le_mul_of_one_le_left (h.bitnum_nonneg.trans h.bitnum_lt.le) (by omega)
  have hplaces : 8 * (bitAddress sketchszBits sketchnum bitnum).toNat + (7 - (bitnum % 8).toNat) =
      sketchBit sketchszBits sketchnum bitnum ↔
      (sketchnum + 1) * (8 * toInt8 (sketchszBits / 8)) = (sketchnum + 1) * sketchszBits := by
    have hbit := h.bitnum_nonneg
    have hlt := h.bitnum_lt
    unfold bitAddress sketchBit at *
    rw [mul_left_comm]
    omega
  have hbit := h.bitnum_nonneg
  have hlt := h.bitnum_lt
  rw [hplaces, mul_right_inj' hpos.ne']
  constructor
  · intro heq
    omega
  · rintro ⟨hmod, hsmall⟩
    rw [toInt8_of_lt (by omega) (by omega)]
    omega

theorem touchesOnly_of_size (h : AcceptsBit numsketches sketchszBits sketchnum bitnum)
    (hbits : 8 * (bitmap.data.length : Int) = numsketches * sketchszBits)
    (hsize : sketchszBits % 8 = 0 ∧ sketchszBits < 1024) :
    TouchesOnly bitmap numsketches sketchszBits sketchnum bitnum := by
  have hmul := sketch_mul_le h hbits
  have hbit := h.bitnum_nonneg
  have hlt := h.bitnum_lt
  have hnonneg : 0 ≤ sketchnum * sketchszBits :=
    mul_nonneg h.sketchnum_nonneg (hbit.trans hlt.le)
  have haddress : 8 * (bitAddress sketchszBits sketchnum bitnum + 1 + bitnum / 8) =
      sketchnum * sketchszBits + sketchszBits := by
    have hbytes : 8 * (sketchszBits / 8) = sketchszBits := by omega
    unfold bitAddress
    rw [toInt8_of_lt (by omega) (by omega)]
    calc 8 * ((sketchnum + 1) * (sketchszBits / 8) - 1 - bitnum / 8 + 1 + bitnum / 8)
        = (sketchnum + 1) * (8 * (sketchszBits / 8)) := by ring
      _ = sketchnum * sketchszBits + sketchszBits := by
        rw [hbytes]
        ring
  have hlow : 0 ≤ bitAddress sketchszBits sketchnum bitnum := by omega
  have hhigh : bitAddress sketchszBits sketchnum bitnum < bitmap.data.length := by omega
  refine ⟨_, (arraySetBitInPlace_eq h hbits).trans (if_pos ⟨hlow, hhigh⟩), ?_, ?_⟩
  · exact List.length_modify ..
  · intro p
    rw [← (hit_eq_sketchBit_iff h hlow).mpr hsize]
    exact bitAt_modify (by omega) (by omega) p

/-- A bit that was off is on only if it is the one that is hit. -/
theorem size_of_touchesOnly (h : AcceptsBit numsketches sketchszBits sketchnum bitnum)
    (hbits : 8 * (bitmap.data.length : Int) = numsketches * sketchszBits)
    (hoff : bitAt bitmap.data (sketchBit sketchszBits sketchnum bitnum) = false)
    (htouches : TouchesOnly bitmap numsketches sketchszBits sketchnum bitnum) :
    sketchszBits % 8 = 0 ∧ sketchszBits < 1024 := by
  obtain ⟨result, hresult, -, hbitsAt⟩ := htouches
  rw [arraySetBitInPlace_eq h hbits] at hresult
  have hbit := h.bitnum_nonneg
  split_ifs at hresult with hrange
  cases hresult
  have hon := hbitsAt (sketchBit sketchszBits sketchnum bitnum)
  rw [Bytea.orByte, bitAt_modify (by omega) (by omega), hoff, Bool.false_or, Bool.false_or] at hon
  have hplace := (decide_eq_decide.mp hon).mpr rfl
  exact (hit_eq_sketchBit_iff h hrange.1).mp hplace.symm

end Accepted

/-! ## The rightmost one -/

/-- Of the bits of the sketch only this one is on. -/
def OnlyBit (data : List UInt8) (sketchszBits sketchnum bitnum : Int) : Prop :=
  ∀ k, 0 ≤ k → k < sketchszBits →
    bitAt data (sketchBit sketchszBits sketchnum k) = decide (k = bitnum)

/-- The bits of a bitmap as one string. -/
theorem getElem?_bitString_bytes {data : List UInt8} {p : Nat} (hp : p / 8 < data.length) :
    (bitString (data.map UInt8.toBitVec))[p]? = some (bitAt data p) := by
  have hget := List.getElem?_eq_getElem hp
  have hsplit : p % 8 < 8 := Nat.mod_lt p (by norm_num)
  rw [getElem?_bitString (by norm_num), List.getElem?_map, hget, bitAt,
    List.getD_eq_getElem?_getD, hget]
  simp [BitVec.getMsbD, BitVec.getLsbD, hsplit]

/-- A bit of a sketch, counted from the right. -/
theorem getElem?_sketchBits {data : List UInt8} {size j k : Nat} (hk : k < size)
    (hinside : (j + 1) * size ≤ 8 * data.length) :
    (sketchBits data size j)[size - 1 - k]? = some (bitAt data (sketchBit size j k)) := by
  have hplace : sketchBit size j k = j * size + (size - 1 - k) := by
    have hcast : ((j : Int) + 1) * size = (j * size : Nat) + size := by
      push_cast
      ring
    unfold sketchBit
    rw [hcast]
    omega
  rw [Nat.add_one_mul] at hinside
  rw [sketchBits, List.getElem?_take_of_lt (by omega), List.getElem?_drop, hplace,
    getElem?_bitString_bytes (by omega)]

section Rightmost

variable {bitmap : Bytea} {numsketches sketchszBits sketchnum bitnum : Int}

/-- A sketch with one bit on counts the places behind it. -/
theorem rightmostOne_of_onlyBit (h : AcceptsBit numsketches sketchszBits sketchnum bitnum)
    (hbits : 8 * (bitmap.data.length : Int) = numsketches * sketchszBits)
    (hsize : sketchszBits % 32 = 0) (hsmall : sketchszBits < 1024)
    (honly : OnlyBit bitmap.data sketchszBits sketchnum bitnum) :
    rightmostOne bitmap.data sketchszBits.toNat sketchnum.toNat = .ok bitnum.toNat := by
  have hmul := sketch_mul_le h hbits
  obtain ⟨hnonneg, -, hbit, hlt, -⟩ := h
  obtain ⟨size, rfl⟩ := Int.eq_ofNat_of_zero_le (hbit.trans hlt.le)
  obtain ⟨j, rfl⟩ := Int.eq_ofNat_of_zero_le hnonneg
  obtain ⟨b, rfl⟩ := Int.eq_ofNat_of_zero_le hbit
  have hinside : (j + 1) * size ≤ 8 * bitmap.data.length := by
    have hcast : (((j + 1) * size : Nat) : Int) ≤ (8 * bitmap.data.length : Nat) := by
      push_cast
      linarith
    exact_mod_cast hcast
  have hsketch : SketchOf bitmap size j := ⟨by omega, by omega, hinside⟩
  have hlength := hsketch.length_sketchBits
  have hbitAt : ∀ k < size, (sketchBits bitmap.data size j)[size - 1 - k]? =
      some (decide (k = b)) := by
    intro k hk
    rw [getElem?_sketchBits hk hinside, honly k (by omega) (by omega)]
    simp
  have hcount : trailing false (sketchBits bitmap.data size j) = b := by
    apply trailing_eq (by omega)
    · rw [hlength, hbitAt b (by omega)]
      simp
    · intro k hk
      rw [hlength, hbitAt k (by omega)]
      simp [hk.ne]
  rw [Int.toNat_natCast, Int.toNat_natCast, Int.toNat_natCast, hsketch.rightmostOne_eq, hcount,
    uint32_of_mem (by omega)]

/-- For every bitmap of this size exactly one bit is set, and the bit is found again. -/
def SetsBit (bytes : Nat) (numsketches sketchszBits sketchnum bitnum : Int) : Prop :=
  (∀ bitmap : Bytea, bitmap.data.length = bytes →
    TouchesOnly bitmap numsketches sketchszBits sketchnum bitnum) ∧
  (sketchszBits % 32 = 0 → ∀ bitmap : Bytea, bitmap.data.length = bytes →
    OnlyBit bitmap.data sketchszBits sketchnum bitnum →
    rightmostOne bitmap.data sketchszBits.toNat sketchnum.toNat = .ok bitnum.toNat)

theorem bitAt_replicate_zero (n p : Nat) : bitAt (List.replicate n 0) p = false := by
  unfold bitAt
  rw [List.getD_eq_getElem?_getD, List.getElem?_replicate]
  split_ifs <;> simp

/-- The bit is set for sketches of whole bytes, at most 127 of them, and for no others. -/
theorem arraySetBitInPlace_setsBit_iff (bitmap : Bytea)
    (numsketches sketchszBits sketchnum bitnum : Int)
    (hbits : 8 * (bitmap.data.length : Int) = numsketches * sketchszBits)
    (haccepts : ∀ e,
      bitmap.arraySetBitInPlace numsketches sketchszBits sketchnum bitnum = .error e →
        e.isRaised = false) :
    (SetsBit bitmap.data.length numsketches sketchszBits sketchnum bitnum ↔
        sketchszBits % 8 = 0 ∧ sketchszBits < 1024) ∧
      (bitAt bitmap.data (sketchBit sketchszBits sketchnum bitnum) = false →
        (TouchesOnly bitmap numsketches sketchszBits sketchnum bitnum ↔
          sketchszBits % 8 = 0 ∧ sketchszBits < 1024)) := by
  have h := acceptsBit_of_not_raised haccepts
  refine ⟨⟨?_, ?_⟩, fun hoff => ⟨size_of_touchesOnly h hbits hoff, touchesOnly_of_size h hbits⟩⟩
  · rintro ⟨hevery, -⟩
    let zero : Bytea :=
      ⟨List.replicate bitmap.data.length 0, by rw [List.length_replicate]; exact bitmap.size_lt⟩
    have hlength : zero.data.length = bitmap.data.length := List.length_replicate
    have hzeroBits : 8 * (zero.data.length : Int) = numsketches * sketchszBits := by
      rw [hlength]
      exact hbits
    have hoff : bitAt zero.data (sketchBit sketchszBits sketchnum bitnum) = false :=
      bitAt_replicate_zero _ _
    exact size_of_touchesOnly h hzeroBits hoff (hevery zero hlength)
  · intro hsize
    refine ⟨fun other hlength => ?_, fun hmod other hlength honly => ?_⟩
    · exact touchesOnly_of_size h (by rw [hlength]; exact hbits) hsize
    · exact rightmostOne_of_onlyBit h (by rw [hlength]; exact hbits) hmod hsize.2 honly

end Rightmost

/-! ## The bitmaps of the distinct count -/

/-- The bytes of `NMAP` sketches of `MD5_HASHLEN_BITS` bits. -/
@[irreducible] def bitmapBytes (bitmaps : Bitmaps) : List UInt8 := List.ofFn bitmaps

theorem length_bitmapBytes (bitmaps : Bitmaps) : (bitmapBytes bitmaps).length = 4096 := by
  unfold bitmapBytes
  rw [List.length_ofFn]

theorem bitmapBytes_orByte (bitmaps : Bitmaps) (pos : Fin 4096) (mask : UInt8) :
    bitmapBytes (orByte bitmaps pos mask) = (bitmapBytes bitmaps).modify pos (· ||| mask) := by
  unfold bitmapBytes
  apply List.ext_getElem
  · rw [List.length_modify, List.length_ofFn, List.length_ofFn]
  · intro i hi _
    rw [List.getElem_modify, List.getElem_ofFn, List.getElem_ofFn]
    unfold orByte
    rw [List.length_ofFn] at hi
    by_cases hpos : pos = i
    · simp [← hpos]
    · have hne : ¬(⟨i, hi⟩ : Fin 4096) = pos := fun h => hpos (congrArg Fin.val h).symm
      simp [hpos, hne]

theorem bitmapBytes_size_lt (bitmaps : Bitmaps) : (bitmapBytes bitmaps).length + 4 < 2 ^ 30 := by
  rw [length_bitmapBytes]
  norm_num

def Bitmaps.toBytea (bitmaps : Bitmaps) : Bytea :=
  ⟨bitmapBytes bitmaps, bitmapBytes_size_lt bitmaps⟩

theorem toBytea_orByte (bitmaps : Bitmaps) (pos : Fin 4096) (mask : UInt8) :
    Bitmaps.toBytea (orByte bitmaps pos mask) = (Bitmaps.toBytea bitmaps).orByte pos mask :=
  Bytea.ext (bitmapBytes_orByte bitmaps pos mask)

/-- On these bitmaps the call is the one of the aggregate. -/
theorem arraySetBitInPlace_toBytea (bitmaps : Bitmaps) (index bitnum : Int) :
    (Bitmaps.toBytea bitmaps).arraySetBitInPlace 256 128 index bitnum =
      (arraySetBitInPlace bitmaps 256 128 index bitnum).map Bitmaps.toBytea := by
  have hbytes : toInt8 (128 / 8) = 16 := rfl
  have hdata : (Bitmaps.toBytea bitmaps).data.length = 4096 := length_bitmapBytes bitmaps
  unfold Bytea.arraySetBitInPlace arraySetBitInPlace
  simp only [hbytes, hdata]
  by_cases hsketch : 256 ≤ index ∨ index < 0
  · rw [if_pos hsketch, if_pos hsketch]
    rfl
  rw [if_neg hsketch, if_neg hsketch]
  by_cases hbit : 128 ≤ bitnum ∨ bitnum < 0
  · rw [if_pos hbit, if_pos hbit]
    rfl
  have hsize : ¬(128 : Int) % 4 ≠ 0 := by decide
  rw [if_neg hbit, if_neg hbit, if_neg hsize, if_neg hsize]
  have hinner : toInt32 (index * 16) = index * 16 := toInt32_of_mem (by omega) (by omega)
  have hpos : (index * (128 / 8) + (128 / 8 - 1 - bitnum / 8)).toNat < 4096 := by omega
  rw [hinner, toInt32_of_mem (by omega) (by omega), if_pos (by omega), dif_pos hpos]
  exact congrArg Except.ok (toBytea_orByte bitmaps ⟨_, hpos⟩ _).symm

/-- A bitmap of zero bytes. -/
def zeroBytea (n : Nat) (h : n + 4 < 2 ^ 30) : Bytea where
  data := List.replicate n 0
  size_lt := by rwa [List.length_replicate]

/-- Bit 9 of the second of two sketches of 32 bits. -/
theorem arraySetBitInPlace_setsBit_iff_eight : SetsBit 8 2 32 1 9 :=
  ((arraySetBitInPlace_setsBit_iff (zeroBytea 8 (by norm_num)) 2 32 1 9 (by decide) (by
    intro e he
    have hok : ((zeroBytea 8 (by norm_num)).arraySetBitInPlace 2 32 1 9).isOk = true := by decide
    rw [he] at hok
    cases hok)).1).mpr ⟨by norm_num, by norm_num⟩

/-- In a sketch of 1024 bits the number of bytes is cut off to -128. -/
theorem arraySetBitInPlace_outOfBounds : ¬∀ (bitmap : Bytea)
    (numsketches sketchszBits sketchnum bitnum : Int),
    8 * (bitmap.data.length : Int) = numsketches * sketchszBits →
    (∀ e, bitmap.arraySetBitInPlace numsketches sketchszBits sketchnum bitnum = .error e →
      e.isRaised = false) →
    SetsBit bitmap.data.length numsketches sketchszBits sketchnum bitnum := by
  intro h
  have hcall : (zeroBytea 128 (by norm_num)).arraySetBitInPlace 1 1024 0 0 = .error .outOfBounds :=
    rfl
  have hsets := h (zeroBytea 128 (by norm_num)) 1 1024 0 0 (by norm_num [zeroBytea]) (by
    intro e he
    rw [hcall] at he
    cases he
    rfl)
  obtain ⟨result, hresult, -⟩ := hsets.1 _ rfl
  rw [hcall] at hresult
  cases hresult

end Madlib.Sketch
