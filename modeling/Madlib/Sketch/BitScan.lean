import Madlib.Lib.BitString
import Madlib.Sketch.FmSketch

/-!
# The bit scanners

`rightmost_one` and `leftmost_zero` go through the bytes of a sketch from its right and from its
left end.  Both count in an `uint32`.
-/

namespace Madlib.Sketch

open Madlib.Backend Madlib.Lib.MachineInt Madlib.Lib.BitString

/-- The data of a `bytea`, whose size with its header takes 30 bits. -/
@[ext] structure Bytea where
  data : List UInt8
  size_lt : data.length + 4 < 2 ^ 30

/-- The bits of a byte in reverse, by products of `unsigned long`. -/
def reverseByte (v : UInt8) : UInt8 :=
  ((((v.toUInt64 * 0x0802 &&& 0x22110) ||| (v.toUInt64 * 0x8020 &&& 0x88440)) * 0x10101)
    >>> 16).toUInt8

/-- The one bits in front of the first zero bit of a list of bytes. -/
def countOnes : List UInt8 → Nat
  | [] => 0
  | v :: rest =>
      if v.toUInt32 = 0xff then 8 + countOnes rest
      else uiRightmostOne ((reverseByte v).toUInt32 ^^^ 0xff)

def leftmostZero (bits : List UInt8) (numsketches sketchszBits sketchnum : Nat) :
    Except Fault Nat :=
  if sketchszBits % 32 ≠ 0 then
    .error (.elog (s!"number of bits per sketch is {uint32 sketchszBits}, " ++
      "must be a multiple of sizeof(uint32) = 4"))
  else if sizeT (numsketches * 8) < sketchszBits then
    .error (.elog (s!"sketch sz declared at {uint32 sketchszBits}, " ++
      s!"but bitmap is only {uint32 (numsketches * 8)}"))
  else do
    let s ← readBytes (bits.drop (sizeT (sketchnum * sketchszBits) / 8)) (sketchszBits / 8)
    pure (uint32 (countOnes s))

/-- The bits of a sketch from left to right. -/
def sketchBits (data : List UInt8) (sketchszBits sketchnum : Nat) : List Bool :=
  ((bitString (data.map UInt8.toBitVec)).drop (sketchnum * sketchszBits)).take sketchszBits

/-! ## Bytes -/

theorem zeros_of_byte : ∀ v : Fin 256,
    leading false (bits (UInt8.ofNat v).toBitVec).reverse =
      (if (UInt8.ofNat v) = 0 then 8 else uiRightmostOne (UInt8.ofNat v).toUInt32) ∧
    ((UInt8.ofNat v) ≠ 0 → uiRightmostOne (UInt8.ofNat v).toUInt32 ≠ 8) := by
  decide +kernel

theorem ones_of_byte : ∀ v : Fin 256,
    leading true (bits (UInt8.ofNat v).toBitVec) =
      (if (UInt8.ofNat v).toUInt32 = 0xff then 8
        else uiRightmostOne ((reverseByte (UInt8.ofNat v)).toUInt32 ^^^ 0xff)) ∧
    ((UInt8.ofNat v).toUInt32 ≠ 0xff →
      uiRightmostOne ((reverseByte (UInt8.ofNat v)).toUInt32 ^^^ 0xff) ≠ 8) := by
  decide +kernel

theorem countZeros_eq_leading (l : List UInt8) :
    countZeros l = leading false ((l.map UInt8.toBitVec).flatMap fun x => (bits x).reverse) := by
  induction l with
  | nil => rfl
  | cons v rest ih =>
      have hbyte := zeros_of_byte ⟨v.toNat, v.toNat_lt⟩
      simp only [UInt8.ofNat_toNat] at hbyte
      rw [List.map_cons, List.flatMap_cons, leading_append, hbyte.1, List.length_reverse,
        length_bits, countZeros, ih]
      by_cases hv : v = 0
      · simp [hv]
      · simp [hv, hbyte.2 hv]

theorem countZeros_reverse (s : List UInt8) :
    countZeros s.reverse = trailing false (bitString (s.map UInt8.toBitVec)) := by
  rw [trailing, reverse_bitString, countZeros_eq_leading, List.map_reverse]

theorem countOnes_eq_leading (s : List UInt8) :
    countOnes s = leading true (bitString (s.map UInt8.toBitVec)) := by
  induction s with
  | nil => rfl
  | cons v rest ih =>
      have hbyte := ones_of_byte ⟨v.toNat, v.toNat_lt⟩
      simp only [UInt8.ofNat_toNat] at hbyte
      rw [List.map_cons, bitString_cons, leading_append, hbyte.1, length_bits, countOnes, ih]
      by_cases hv : v.toUInt32 = 0xff
      · simp [hv]
      · simp [hv, hbyte.2 hv]

/-! ## Sketches -/

/-- The sketch lies in the bitmap, and its size is a positive multiple of 32 bits. -/
structure SketchOf (bitmap : Bytea) (sketchszBits sketchnum : Nat) : Prop where
  pos : 0 < sketchszBits
  words : sketchszBits % 32 = 0
  inside : (sketchnum + 1) * sketchszBits ≤ 8 * bitmap.data.length

theorem sketchBits_eq (data : List UInt8) (m j : Nat) :
    sketchBits data (8 * m) j = bitString (((data.drop (j * m)).take m).map UInt8.toBitVec) := by
  have hplace : j * (8 * m) = 8 * (j * m) := by ring
  rw [sketchBits, hplace, List.map_take, List.map_drop, bitString_take, bitString_drop]

section Measures

variable {bitmap : Bytea} {numsketches sketchszBits sketchnum : Nat}

theorem SketchOf.bytes (h : SketchOf bitmap sketchszBits sketchnum) :
    ∃ m, sketchszBits = 8 * m ∧ sketchnum * m + m ≤ bitmap.data.length := by
  have hwords := h.words
  obtain ⟨m, rfl⟩ : ∃ m, sketchszBits = 8 * m := ⟨sketchszBits / 8, by omega⟩
  have hinside : 8 * ((sketchnum + 1) * m) ≤ 8 * bitmap.data.length := by
    calc 8 * ((sketchnum + 1) * m) = (sketchnum + 1) * (8 * m) := by ring
      _ ≤ 8 * bitmap.data.length := h.inside
  have hsplit : (sketchnum + 1) * m = sketchnum * m + m := Nat.add_one_mul sketchnum m
  exact ⟨m, rfl, by omega⟩

theorem SketchOf.length_sketchBits (h : SketchOf bitmap sketchszBits sketchnum) :
    (sketchBits bitmap.data sketchszBits sketchnum).length = sketchszBits := by
  obtain ⟨m, rfl, hroom⟩ := h.bytes
  rw [sketchBits_eq, length_bitString, List.length_map, List.length_take, List.length_drop]
  omega

theorem SketchOf.rightmostOne_eq (h : SketchOf bitmap sketchszBits sketchnum) :
    rightmostOne bitmap.data sketchszBits sketchnum =
      .ok (uint32 (trailing false (sketchBits bitmap.data sketchszBits sketchnum))) := by
  have hdata := bitmap.size_lt
  obtain ⟨m, rfl, hroom⟩ := h.bytes
  rw [Sketch.rightmostOne_eq h.words hroom (by omega), countZeros_reverse, sketchBits_eq]

theorem SketchOf.leftmostZero_eq (h : SketchOf bitmap sketchszBits sketchnum)
    (hsketches : sketchszBits ≤ sizeT (numsketches * 8)) :
    leftmostZero bitmap.data numsketches sketchszBits sketchnum =
      .ok (uint32 (leading true (sketchBits bitmap.data sketchszBits sketchnum))) := by
  have hdata := bitmap.size_lt
  have hwords := h.words
  obtain ⟨m, rfl, hroom⟩ := h.bytes
  have hread : m ≤ (bitmap.data.drop (sketchnum * m)).length := by
    rw [List.length_drop]
    omega
  unfold leftmostZero
  rw [if_neg (by omega), if_neg (by omega), sizeT_sketch hroom (by omega),
    Nat.mul_div_cancel_left m (by norm_num), readBytes_of_le hread, ok_bind, pure_eq_ok,
    countOnes_eq_leading, sketchBits_eq]

end Measures

/-- The result is the length of a run of bits `v`, taken as an `uint32`: the length itself in a
sketch of less than `2 ^ 32` bits, and the size of the sketch if all bits of it are `v`. -/
structure Measures (result : Except Fault Nat) (v : Bool) (run : Nat) (sketch : List Bool) :
    Prop where
  counts : result = .ok (uint32 run)
  exact : sketch.length < 4294967296 → result = .ok run
  full : (∀ b ∈ sketch, b = v) → run = sketch.length

theorem measures_of_counts {result : Except Fault Nat} {v : Bool} {run : Nat} {sketch : List Bool}
    (hcounts : result = .ok (uint32 run)) (hle : run ≤ sketch.length)
    (hfull : (∀ b ∈ sketch, b = v) → run = sketch.length) : Measures result v run sketch where
  counts := hcounts
  exact := by
    intro hsize
    rw [hcounts, uint32_of_mem (by omega)]
  full := hfull

/-- Both scanners measure the bit string of the sketch. -/
theorem bitScanners_measure (bitmap : Bytea) (numsketches sketchszBits sketchnum : Nat)
    (h : SketchOf bitmap sketchszBits sketchnum) :
    let sketch := sketchBits bitmap.data sketchszBits sketchnum
    sketch.length = sketchszBits ∧
    Measures (rightmostOne bitmap.data sketchszBits sketchnum) false (trailing false sketch)
      sketch ∧
    (sketchszBits ≤ sizeT (numsketches * 8) →
      Measures (leftmostZero bitmap.data numsketches sketchszBits sketchnum) true
        (leading true sketch) sketch) := by
  intro sketch
  refine ⟨h.length_sketchBits, ?_, fun hsketches => ?_⟩
  · apply measures_of_counts h.rightmostOne_eq
    · exact trailing_le_length false sketch
    · exact trailing_eq_length
  · apply measures_of_counts (h.leftmostZero_eq hsketches)
    · exact leading_le_length true sketch
    · exact leading_eq_length

/-- The scanners on bytes `ff fe 12 30`, which are 15 ones in front of a zero and 4 zeros behind
a one. -/
theorem bitScanners_measure_ends :
    rightmostOne [0xff, 0xfe, 0x12, 0x30] 32 0 = .ok 4 ∧
      leftmostZero [0xff, 0xfe, 0x12, 0x30] 4 32 0 = .ok 15 := by
  have hmeasure := bitScanners_measure ⟨[0xff, 0xfe, 0x12, 0x30], by decide⟩ 4 32 0
    ⟨by decide, by decide, by decide⟩
  exact ⟨hmeasure.2.1.exact (by decide), (hmeasure.2.2 (by decide)).exact (by decide)⟩

/-! ## Sketches of `2 ^ 32` bits -/

/-- A bitmap of `n` equal bytes. -/
def filledBytea (b : UInt8) (n : Nat) (h : n + 4 < 2 ^ 30) : Bytea where
  data := List.replicate n b
  size_lt := by rwa [List.length_replicate]

section Filled

variable {b : UInt8} {v : Bool} {n : Nat} {h : n + 4 < 2 ^ 30}

theorem length_filledBytea : (filledBytea b n h).data.length = n := List.length_replicate

theorem sketchOf_filledBytea (hpos : 0 < n) (hwords : 8 * n % 32 = 0) :
    SketchOf (filledBytea b n h) (8 * n) 0 where
  pos := by omega
  words := hwords
  inside := by
    rw [length_filledBytea]
    omega

theorem sketchBits_filledBytea (hbits : bits b.toBitVec = List.replicate 8 v) :
    sketchBits (filledBytea b n h).data (8 * n) 0 = List.replicate (8 * n) v := by
  have hdata : (filledBytea b n h).data = List.replicate n b := rfl
  rw [sketchBits_eq, hdata, Nat.zero_mul, List.drop_zero,
    List.take_of_length_le (by rw [List.length_replicate]), List.map_replicate,
    bitString_replicate hbits]

end Filled

/-- A run of `2 ^ 32` bits is counted as none, and no sketch is too large for a number of bitmaps
whose bits overflow a `size_t`. -/
theorem not_bitScanners_measure :
    (¬∀ (bitmap : Bytea) (sketchszBits sketchnum : Nat), SketchOf bitmap sketchszBits sketchnum →
      rightmostOne bitmap.data sketchszBits sketchnum =
        .ok (trailing false (sketchBits bitmap.data sketchszBits sketchnum))) ∧
    (¬∀ (bitmap : Bytea) (sketchszBits sketchnum : Nat), SketchOf bitmap sketchszBits sketchnum →
      sketchszBits ≤ 8 * bitmap.data.length →
      leftmostZero bitmap.data bitmap.data.length sketchszBits sketchnum =
        .ok (leading true (sketchBits bitmap.data sketchszBits sketchnum))) ∧
    ¬∀ (bitmap : Bytea) (numsketches sketchszBits sketchnum : Nat),
      SketchOf bitmap sketchszBits sketchnum → sketchszBits < 4294967296 →
      sketchszBits ≤ 8 * numsketches →
      leftmostZero bitmap.data numsketches sketchszBits sketchnum =
        .ok (leading true (sketchBits bitmap.data sketchszBits sketchnum)) := by
  have hwrap : uint32 ((8 * 536870912 : Nat) : Int) = 0 := by decide
  have hsmall : 536870912 + 4 < 2 ^ 30 := by norm_num
  refine ⟨fun hall => ?_, fun hall => ?_, fun hall => ?_⟩
  · have hsketch : SketchOf (filledBytea 0 536870912 hsmall) (8 * 536870912) 0 :=
      sketchOf_filledBytea (by norm_num) (by norm_num)
    have hcount := hall _ _ _ hsketch
    rw [hsketch.rightmostOne_eq, sketchBits_filledBytea (v := false) (by decide),
      trailing_replicate, hwrap, Except.ok.injEq] at hcount
    norm_num at hcount
  · have hsketch : SketchOf (filledBytea 0xff 536870912 hsmall) (8 * 536870912) 0 :=
      sketchOf_filledBytea (by norm_num) (by norm_num)
    have hcount := hall _ _ _ hsketch (by rw [length_filledBytea])
    rw [length_filledBytea, hsketch.leftmostZero_eq (by decide),
      sketchBits_filledBytea (v := true) (by decide), leading_replicate, hwrap,
      Except.ok.injEq] at hcount
    norm_num at hcount
  · have hcount := hall (filledBytea 0 4 (by norm_num)) 2305843009213693952 32 0
      (sketchOf_filledBytea (by norm_num) (by norm_num)) (by norm_num) (by norm_num)
    have hzero : sizeT ((2305843009213693952 : Nat) * 8) = 0 := by decide
    rw [leftmostZero, if_neg (by norm_num), if_pos (by rw [hzero]; norm_num)] at hcount
    cases hcount

end Madlib.Sketch
