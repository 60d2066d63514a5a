import Madlib.Svec.Concat
import Madlib.Svec.Pivot

/-!
# Reversing, slicing and splicing

`reverse` walks the index backwards, `subarr` copies the blocks a range lies in, and
`svec_change` joins two slices of a vector around another vector.  All three write into a
SparseData of their own.
-/

namespace Madlib.Svec

open Madlib.Backend Madlib.Lib.MachineInt Madlib.Lib.RunLength CountCode

/-! ## reverse -/

/-- The pointer `offset` bytes behind the start of the index; a NULL pointer is never moved. -/
def pointerAt (index : IndexPtr) (offset : Int) : Except Fault IndexPtr :=
  match index with
  | none => .ok none
  | some bytes => if offset < 0 then .error .outOfBounds else .ok (some (bytes.drop offset.toNat))

/-- The remaining rounds of the loop from right to left; `j` counts them. -/
def copyBackwards (sdata : SparseData) : Nat → Int → SparseData → Except Fault SparseData
  | 0, _, ret => .ok ret
  | j + 1, offset, ret => do
      let ix ← pointerAt sdata.index.data offset
      let v ← valref sdata j
      let n ← compwordToInt8 ix
      let ret ← addRunToSdata v n ret
      -- the pointer goes back by the size of the entry it stands on
      let size ← int8compstoragesize ix
      copyBackwards sdata j (offset - size) ret

def reverse (sdata : SparseData) : Except Fault SparseData := do
  let offset ← skipEntries (sdata.uniqueValueCount - 1) sdata.index.data
  copyBackwards sdata sdata.uniqueValueCount offset makeSparseData

/-! ## subarr -/

/-- The loop that looks for the start block: its number, the pointer there and the elements read
up to its end. -/
def findBlock (start : Int) : Nat → Nat → IndexPtr → Int → Except Fault (Nat × IndexPtr × Int)
  | 0, _, _, _ => .error .unfinished
  | rounds + 1, i, ix, read =>
      if read < start then do
        let ix ← advance ix
        let n ← compwordToInt8 ix
        findBlock start rounds (i + 1) ix (toInt32 (read + n))
      else .ok (i, ix, read)

/-- The remaining rounds of the loop over the blocks behind the start block. -/
def copyBlocks (sdata : SparseData) (stop : Int) :
    Nat → Nat → IndexPtr → Int → SparseData → Except Fault SparseData
  | 0, _, _, _, ret => .ok ret
  | rounds + 1, j, ix, read, ret => do
      let ix ← advance ix
      let n ← compwordToInt8 ix
      let esize := toInt32 n
      let v ← valref sdata j
      if toInt32 (read + esize) > stop then addRunToSdata v (toInt32 (stop - read)) ret
      else do
        let ret ← addRunToSdata v esize ret
        if toInt32 (read + esize) = stop then .ok ret
        else copyBlocks sdata stop rounds (j + 1) ix (toInt32 (read + esize)) ret

def subarrForward (sdata : SparseData) (start stop : Int) : Except Fault SparseData :=
  if 0 ≥ start ∨ start > stop ∨ stop > sdata.totalValueCount.toInt then
    .error (.ereport .invalidParameterValue "Array index out of bounds.")
  else do
    let n ← compwordToInt8 sdata.index.data
    -- every round reads an element of an array of ones or a byte of an index
    let rounds := sdata.totalValueCount.toInt.toNat + sdata.index.len + 1
    let (i, ix, read) ← findBlock start rounds 0 sdata.index.data (toInt32 n)
    let v ← valref sdata i
    if stop ≤ read then addRunToSdata v (stop - start + 1) makeSparseData
    else do
      let ret ← addRunToSdata v (toInt32 (read - start + 1)) makeSparseData
      copyBlocks sdata stop (sdata.uniqueValueCount - (i + 1)) (i + 1) ix read ret

def subarr (sdata : SparseData) (start stop : Int) : Except Fault SparseData :=
  if start > stop then do
    let ret ← subarrForward sdata stop start
    reverse ret
  else subarrForward sdata start stop

/-! ## svec_change -/

/-- The part of `indata` from `start` to `stop`, if there is one. -/
def slice (present : Bool) (indata : SparseData) (start stop : Int) :
    Except Fault (Option SparseData) :=
  if present then (subarr indata start stop).map some else .ok none

def concatChange (head : Option SparseData) (middle : SparseData) (tail : Option SparseData) :
    Except Fault (Option SparseData) :=
  match head, tail with
  | none, none => .ok (some (makeSparseDataCopy middle))
  | none, some tail => concat (some middle) (some tail)
  | some head, none => concat (some head) (some middle)
  | some head, some tail => do
      let ret ← concat (some head) (some middle)
      concat ret (some tail)

/-- The SparseData `svec_change` returns, serialized; its assertion is not compiled in. -/
def changeSdata (indata middle : SparseData) (idx : Int32) : Except Fault (Option SparseData) :=
  let inlen := indata.totalValueCount.toInt
  let midlen := middle.totalValueCount.toInt
  let start := idx.toInt
  if start < 1 ∨ start > inlen then
    .error (.ereport .invalidParameterValue "Invalid start index")
  else if toInt32 (start + midlen - 1) > inlen then
    .error (.ereport .invalidParameterValue "Change vector is too long")
  else do
    let head ← slice (2 ≤ start) indata 1 (start - 1)
    let tail ← slice (toInt32 (start + midlen) ≤ inlen) indata (toInt32 (start + midlen)) inlen
    concatChange head middle tail

def svecChange (svec : SvecType) (idx : Int32) (changed : SvecType) : Except Fault SvecType := do
  match ← changeSdata (sdataFromSvec svec) (sdataFromSvec changed) idx with
  | none => .error .nullPointer
  | some ret => svecFromSparsedata ret true

/-! ## Arrays of ones -/

theorem skipEntries_none (count : Nat) : skipEntries count none = .ok 0 := by
  induction count with
  | zero => rfl
  | succ count ih =>
      rw [skipEntries]
      show (skipEntries count none >>= fun rest => _) = _
      rw [ih]
      rfl

end Madlib.Svec
