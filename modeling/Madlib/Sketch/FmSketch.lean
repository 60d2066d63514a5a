import Madlib.Sketch.Sortasort

/-!
# The Flajolet-Martin sketch

A small state is a sortasort of the distinct datums; a big one has `NMAP` bitmaps, in
one of which the hash of a datum turns on a bit.  The state becomes big with the first
datum after `MINVALS` distinct ones, whether it is a new one or not.
-/

namespace Madlib.Sketch

open Madlib.Backend Madlib.Lib.MachineInt Madlib.Lib.Loop

def minvals : Nat := 1024 * 12

/-- The fields of an `fmtransval` besides its status and its storage. -/
structure FmInfo where
  typOid : Nat
  funcOid : Nat
  typLen : Int
  typByVal : Bool

/-- `NMAP` bitmaps of `MD5_HASHLEN` bytes. -/
abbrev Bitmaps := Fin 4096 → UInt8

inductive FmTransval where
  | small (info : FmInfo) (s : Sortasort)
  | big (info : FmInfo) (bitmaps : Bitmaps)

/-- The `bytea` state of the aggregate; `none` is the empty one. -/
abbrev FmBlob := Option FmTransval

/-! ## Bits -/

/-- The rounds of `for (c = 0; v; c++) v >>= 1` on an `uint32`. -/
def shiftsToZero : Nat → Nat → Nat
  | 0, _ => 0
  | bits + 1, v => if v = 0 then 0 else shiftsToZero bits (v / 2) + 1

def uiRightmostOne (v : UInt32) : Nat := shiftsToZero 32 ((v ^^^ (v - 1)) >>> 1).toNat

/-- The zero bits in front of the first one bit of a list of bytes. -/
def countZeros : List UInt8 → Nat
  | [] => 0
  | v :: rest => if v = 0 then 8 + countZeros rest else uiRightmostOne v.toUInt32

def rightmostOne (bits : List UInt8) (sketchszBits sketchnum : Nat) : Except Fault Nat :=
  if sketchszBits % 32 ≠ 0 then
    .error (.elog (s!"number of bits per sketch is {uint32 sketchszBits}, " ++
      "must be a multiple of sizeof(uint32) = 4"))
  else do
    -- `i` is an `int`, and the zeros are counted in an `uint32`
    let s ← readBytes (bits.drop (sizeT (sketchnum * sketchszBits) / 8))
      (toInt32 (sketchszBits / 8 - 1) + 1).toNat
    pure (uint32 (countZeros s.reverse))

def orByte (bitmaps : Bitmaps) (pos : Fin 4096) (mask : UInt8) : Bitmaps := fun i =>
  if i = pos then bitmaps i ||| mask else bitmaps i

def arraySetBitInPlace (bitmap : Bitmaps) (numsketches sketchszBits sketchnum bitnum : Int) :
    Except Fault Bitmaps :=
  let bytesPerSketch := sketchszBits / 8
  if numsketches ≤ sketchnum ∨ sketchnum < 0 then
    .error (.elog "sketch offset exceeds the number of sketches (0-based)")
  else if sketchszBits ≤ bitnum ∨ bitnum < 0 then
    .error (.elog "bit offset exceeds the number of bits per sketch (0-based)")
  else if sketchszBits % 4 ≠ 0 then
    .error (.elog
      s!"number of bits per sketch is {sketchszBits}, must be a multiple of sizeof(uint32) = 4")
  else
    let mask : UInt8 := UInt8.ofNat (2 ^ (bitnum % 8).toNat)
    let pos := (sketchnum * bytesPerSketch + ((bytesPerSketch - 1) - bitnum / 8)).toNat
    if h : pos < 4096 then .ok (orByte bitmap ⟨pos, h⟩ mask) else .error .outOfBounds

/-! ## Transitions -/

/-- `VARDATA` of the bitmaps of `fm_new`. -/
def zeroBitmaps : Bitmaps := fun _ => 0

/-- `__fmsketch_trans_c`: one datum turns on one bit of the bitmaps. -/
def fmsketchTransC (catalog : Catalog) (md5 : Md5) (info : FmInfo) (bitmaps : Bitmaps)
    (indat : List UInt8) : Except Fault Bitmaps := do
  let hashed ← sketchMd5Datum catalog md5 indat info.typOid
  let index := ofLeBytes (hashed.take 8) % 256
  let rmost ← rightmostOne hashed 128 0
  arraySetBitInPlace bitmaps 256 128 index (127 - (rmost : Int))

/-- The loop that doubles the storage, which is over after its first round. -/
def growAndInsert (catalog : Catalog) (info : FmInfo) (dat : List UInt8) (len : Nat) :
    Nat → Sortasort → Except Fault Sortasort
  | 0, _ => .error .unfinished
  | rounds + 1, s => do
      let newStorageSz := s.storageSz * 2 + len
      palloc (4 + 16 + sizeofSortasort + s.capacity * 4 + newStorageSz)
      let (s, success) ←
        sortasortTryInsert catalog { s with storageSz := newStorageSz } dat info.typLen
      if success = 0 then growAndInsert catalog info dat len rounds s else pure s

def fmsketchSortasortInsert (catalog : Catalog) (info : FmInfo) (s : Sortasort)
    (dat : List UInt8) (len : Nat) : Except Fault Sortasort :=
  if s.capacity ≤ s.numVals then .error (.elog "attempt to insert into full sortasort")
  else do
    let (s, success) ← sortasortTryInsert catalog s dat info.typLen
    if success < 0 then .error (.elog "insufficient directory capacity in sortasort")
    else if success = 1 then pure s
    else growAndInsert catalog info dat len 2 s

/-- `SORTASORT_INITIAL_STORAGE` -/
def sortasortInitialStorage : Nat := sizeofSortasort + minvals * 4 + 8 * minvals

/-- The transition value in a blob, made on the first call. -/
def fmTransval (catalog : Catalog) (elementType : Nat) : FmBlob → Except Fault FmTransval
  | some transval => .ok transval
  | none => do
      let typLen := catalog.typlen elementType
      let typByVal := catalog.typbyval elementType
      let s ← sortasortInit minvals sortasortInitialStorage typLen typByVal
      pure (.small ⟨elementType, catalog.typOutput elementType, typLen, typByVal⟩ s)

/-- The values of a sortasort, applied to fresh bitmaps. -/
def catchUp (catalog : Catalog) (md5 : Md5) (info : FmInfo) (s : Sortasort) (count : Nat)
    (bitmaps : Bitmaps) : Except Fault Bitmaps :=
  (List.range count).foldlM (fun bitmaps (i : Nat) => do
    let x ← getval s i
    fmsketchTransC catalog md5 info bitmaps x) bitmaps

def fmsketchTransval (catalog : Catalog) (md5 : Md5) (inval : List UInt8) :
    FmTransval → Except Fault FmTransval
  | .small info s =>
      if s.numVals < minvals then do
        let len ← extractDatumLen catalog inval info.typLen
        let s ← fmsketchSortasortInsert catalog info s inval len
        pure (.small info s)
      else if s.numVals = minvals then do
        let bitmaps ← catchUp catalog md5 info s minvals zeroBitmaps
        let bitmaps ← fmsketchTransC catalog md5 info bitmaps inval
        pure (.big info bitmaps)
      else .error (.elog "FM sketch failed internal sanity check")
  | .big info bitmaps => do
      let bitmaps ← fmsketchTransC catalog md5 info bitmaps inval
      pure (.big info bitmaps)

def fmsketchTrans (catalog : Catalog) (md5 : Md5) (elementType : Nat) (transblob : FmBlob)
    (inval : List UInt8) : Except Fault FmBlob :=
  if elementType = 0 then .error (.elog "could not determine data type of input")
  else do
    let transval ← fmTransval catalog elementType transblob
    let transval ← fmsketchTransval catalog md5 inval transval
    pure (some transval)

/-- The state of the aggregate over a stream of datums. -/
def fmsketchState (catalog : Catalog) (md5 : Md5) (elementType : Nat)
    (stream : List (List UInt8)) : Except Fault FmBlob :=
  stream.foldlM (fmsketchTrans catalog md5 elementType) none

/-! ## The bit of a datum -/

/-- Where a datum turns on which bit, if its hash has a one bit. -/
def hitOf (md5 : Md5) (d : List UInt8) : Option (Fin 4096 × UInt8) :=
  let hashed := sketchMd5Bytea md5 d
  let bitnum : Int := 127 - (countZeros hashed.reverse : Int)
  if bitnum < 0 then none
  else
    some (Fin.ofNat 4096
        ((ofLeBytes (hashed.take 8) % 256 : Nat) * 16 + (15 - bitnum / 8)).toNat,
      UInt8.ofNat (2 ^ (bitnum % 8).toNat))

def noBit : Fault := .elog "bit offset exceeds the number of bits per sketch (0-based)"

variable {catalog : Catalog} {md5 : Md5}

theorem length_sketchMd5Bytea (md5 : Md5) (d : List UInt8) :
    (sketchMd5Bytea md5 d).length = 16 := by
  rw [sketchMd5Bytea_eq, List.length_ofFn]

theorem shiftsToZero_le (bits v : Nat) : shiftsToZero bits v ≤ bits := by
  induction bits generalizing v with
  | zero => exact Nat.le_refl 0
  | succ bits ih =>
      have hrest := ih (v / 2)
      unfold shiftsToZero
      split <;> omega

theorem countZeros_le (l : List UInt8) : countZeros l ≤ 8 * l.length + 32 := by
  induction l with
  | nil => simp [countZeros]
  | cons v rest ih =>
      have hbyte : uiRightmostOne v.toUInt32 ≤ 32 := shiftsToZero_le 32 _
      unfold countZeros
      rw [List.length_cons]
      split <;> omega

theorem readBytes_of_le {x : List UInt8} {n : Nat} (h : n ≤ x.length) :
    readBytes x n = .ok (x.take n) := by
  unfold readBytes
  rw [if_neg (Nat.not_lt.mpr h)]

/-- The place of a sketch inside of a bitmap, in bytes. -/
theorem sizeT_sketch {m j length : Nat} (hroom : j * m + m ≤ length) (hlength : length < 2 ^ 30) :
    sizeT ((j : Nat) * (8 * m : Nat)) / 8 = j * m := by
  have hproduct : ((j : Nat) * (8 * m : Nat) : Int) = (8 * (j * m) : Nat) := by
    push_cast
    ring
  rw [hproduct, sizeT]
  omega

/-- Inside of a bitmap no index overflows. -/
theorem rightmostOne_eq {bits : List UInt8} {m j : Nat} (hwords : 8 * m % 32 = 0)
    (hroom : j * m + m ≤ bits.length) (hlength : bits.length < 2 ^ 30) :
    rightmostOne bits (8 * m) j =
      .ok (uint32 (countZeros ((bits.drop (j * m)).take m).reverse)) := by
  have hrounds : (toInt32 ((8 * m : Nat) / 8 - 1) + 1).toNat = m := by
    rw [toInt32_of_mem (by omega) (by omega)]
    omega
  have hread : m ≤ (bits.drop (j * m)).length := by
    rw [List.length_drop]
    omega
  unfold rightmostOne
  rw [if_neg (by omega), sizeT_sketch hroom hlength, hrounds, readBytes_of_le hread, ok_bind,
    pure_eq_ok]

/-- The zeros of a hash of 16 bytes. -/
theorem rightmostOne_hash {hashed : List UInt8} (hlen : hashed.length = 16) :
    rightmostOne hashed 128 0 = .ok (countZeros hashed.reverse) := by
  have hzeros := countZeros_le hashed.reverse
  rw [List.length_reverse, hlen] at hzeros
  have hscan : rightmostOne hashed (8 * 16) 0 =
      .ok (uint32 (countZeros ((hashed.drop (0 * 16)).take 16).reverse)) :=
    rightmostOne_eq (by decide) (by omega) (by omega)
  rw [Nat.zero_mul, List.drop_zero, List.take_of_length_le hlen.le,
    uint32_of_mem (by omega)] at hscan
  exact hscan

/-- A datum turns on its bit, or has none in any bitmaps. -/
theorem fmsketchTransC_eq {info : FmInfo} {d : List UInt8}
    (h : IsDatum catalog (catalog.typlen info.typOid) d) (rest : List UInt8)
    (bitmaps : Bitmaps) :
    fmsketchTransC catalog md5 info bitmaps (d ++ rest) =
      match hitOf md5 d with
      | some (pos, mask) => .ok (orByte bitmaps pos mask)
      | none => .error noBit := by
  have hscan := rightmostOne_hash (length_sketchMd5Bytea md5 d)
  unfold fmsketchTransC hitOf
  rw [sketchMd5Datum_append h, ok_bind]
  generalize sketchMd5Bytea md5 d = hashed at hscan ⊢
  dsimp only
  rw [hscan, ok_bind]
  have hindex : ofLeBytes (hashed.take 8) % 256 < 256 := Nat.mod_lt _ (by decide)
  generalize ofLeBytes (hashed.take 8) % 256 = index at hindex ⊢
  generalize countZeros hashed.reverse = zeros
  unfold arraySetBitInPlace
  dsimp only
  rw [if_neg (by omega)]
  by_cases hneg : 127 - (zeros : Int) < 0
  · rw [if_pos (.inr hneg), if_pos hneg]
    rfl
  · have hpos : ((index : Int) * (128 / 8) + (128 / 8 - 1 - (127 - (zeros : Int)) / 8)).toNat <
        4096 := by omega
    rw [if_neg (by omega), if_neg (by decide), if_neg hneg, dif_pos hpos]
    dsimp only
    congr 2
    apply Fin.ext
    have hmod := Nat.mod_eq_of_lt hpos
    change ((index : Int) * (128 / 8) + (128 / 8 - 1 - (127 - (zeros : Int)) / 8)).toNat =
      ((index : Int) * 16 + (15 - (127 - (zeros : Int)) / 8)).toNat % 4096
    omega

end Madlib.Sketch
