import Madlib.Lib.Blocks
import Madlib.Sketch.DyadicSketch
import Madlib.Sketch.RangeEnds

/-!
# Counting in a finished sketch

`countmin.py_in` cuts the bytes of a finished sketch into rows, hashes the value it
looks for and takes the least of the eight counters it finds; a range is the sum of
the counts of its cells.  `none` stands for an exception.  The base64 text in between
is the bytes again and is left out.
-/

namespace Madlib.Sketch

open Madlib.Lib.Blocks Madlib.Lib.Dyadic Madlib.Lib.MachineInt

/-- `__countmin_sz`, which is the size of one row in bytes. -/
def countminSz : Nat := 8 * 1024

/-- `pack('@q', val)` -/
def packQ (val : Int) : Option (List UInt8) :=
  if -2 ^ 63 ≤ val ∧ val < 2 ^ 63 then some (int64Bytes val) else none

/-- `unpack('@q', x)[0]` -/
def unpackQ (x : List UInt8) : Option Int :=
  if x.length = 8 then some (toInt64 (ofLeBytes x)) else none

/-- `int(.., 16)` -/
def parseHex (digits : List Nat) : Nat := digits.foldl (fun n d => 16 * n + d) 0

/-- The bytes of every pair are flipped around. -/
def colPerRow (m : List Nat) (i : Nat) : Nat :=
  parseHex (slice m (4 * i + 2) (4 * i + 4) ++ slice m (4 * i) (4 * i + 2)) % 1024

def countInRow (m : List Nat) (rows : List (List UInt8)) (i : Nat) : Option Int := do
  let row ← rows[i]?
  unpackQ (slice row (colPerRow m i * 8) (colPerRow m i * 8 + 8))

def doCountRows (md5 : Md5) (rows : List (List UInt8)) (val : Int) : Option Int := do
  let packed ← packQ val
  let counts ← (List.range 8).mapM (countInRow (hexdigest (md5 packed)) rows)
  counts.min?

/-- The first rows of the levels. -/
def rowsOf (allSketch : List UInt8) (count : Nat) : List (List UInt8) :=
  (List.range count).map fun i => slice allSketch (i * countminSz) ((i + 1) * countminSz)

def doCount (md5 : Md5) (allSketch : List UInt8) (val : Int) : Option Int :=
  doCountRows md5 (rowsOf allSketch 8) val

/-- The count of one span, which is looked up on the level of its width. -/
def spanCount (md5 : Md5) (rows : List (List UInt8)) (span : Span) : Option Int :=
  let cell := lookupCell span
  doCountRows md5 (slice rows (cell.exponent * 8) ((cell.exponent + 1) * 8)) cell.index

def doRangecount (fuel : Nat) (md5 : Md5) (allSketch : List UInt8) (bot top : Int) :
    Option Int := do
  let r ← findRanges fuel bot top
  r.foldlM (fun cursum span => do
    let val ← spanCount md5 (rowsOf allSketch (8 * 64)) span
    pure (cursum + val)) 0

/-! ## The layout of the bytes -/

def rowBytes (row : Fin 1024 → UInt64) : List UInt8 :=
  (List.ofFn row).flatMap fun c => leBytes 8 c.toNat

theorem length_rowBytes (row : Fin 1024 → UInt64) : (rowBytes row).length = countminSz := by
  unfold rowBytes
  rw [length_flatMap_of_length (fun c : UInt64 => length_leBytes 8 c.toNat), List.length_ofFn]
  rfl

/-- The rows of all levels. -/
def sketchRows (sketches : Fin 64 → Countmin) : List (Fin 1024 → UInt64) :=
  (List.ofFn sketches).flatMap fun sketch => List.ofFn sketch

theorem sketchBytes_eq (sketches : Fin 64 → Countmin) :
    sketchBytes sketches = (sketchRows sketches).flatMap rowBytes := by
  unfold sketchBytes sketchRows
  rw [List.flatMap_assoc]
  rfl

theorem length_sketchRows (sketches : Fin 64 → Countmin) :
    (sketchRows sketches).length = 512 := by
  unfold sketchRows
  rw [length_flatMap_of_length (fun sketch => List.length_ofFn), List.length_ofFn]

theorem rowsOf_sketchBytes (sketches : Fin 64 → Countmin) {count : Nat} (h : count ≤ 512) :
    rowsOf (sketchBytes sketches) count = ((sketchRows sketches).take count).map rowBytes := by
  have hlen := length_sketchRows sketches
  apply List.ext_getElem
  · simp [rowsOf, hlen, h]
  · intro i hi hi'
    have hlt : i < count := by simpa [rowsOf] using hi
    simp only [rowsOf, List.getElem_map, List.getElem_range, List.getElem_take]
    rw [sketchBytes_eq]
    exact slice_flatMap length_rowBytes (by omega)

/-- The rows of one level. -/
theorem slice_sketchRows (sketches : Fin 64 → Countmin) (j : Fin 64) :
    slice (sketchRows sketches) (j * 8) ((j + 1) * 8) = List.ofFn (sketches j) := by
  have hj : j.val < (List.ofFn sketches).length := by
    rw [List.length_ofFn]
    exact j.isLt
  unfold sketchRows
  rw [slice_flatMap (fun sketch => List.length_ofFn) hj, List.getElem_ofFn]

/-! ## Looking up a value -/

theorem unpackQ_slice_rowBytes (row : Fin 1024 → UInt64) (k : Fin 1024) :
    unpackQ (slice (rowBytes row) (k * 8) (k * 8 + 8)) = some (signed64 (row k)) := by
  have hk : k.val < (List.ofFn row).length := by
    rw [List.length_ofFn]
    exact k.isLt
  have hslice := slice_flatMap (fun c : UInt64 => length_leBytes 8 c.toNat) hk
  rw [show (k.val + 1) * 8 = k.val * 8 + 8 by ring, List.getElem_ofFn] at hslice
  unfold rowBytes unpackQ signed64
  rw [hslice, if_pos (length_leBytes 8 _), ofLeBytes_leBytes]
  have hlt := (row k).toNat_lt
  rw [Nat.mod_eq_of_lt (by omega)]

/-- Python and C choose the same column. -/
theorem colPerRow_hexdigest (digest : Fin 16 → UInt8) (i : Fin 8) :
    colPerRow (hexdigest digest) i = (column (List.ofFn digest) i).val := by
  have hlen : (List.ofFn digest).length = 16 := List.length_ofFn
  generalize hbytes : List.ofFn digest = bytes at hlen ⊢
  have hlow : 2 * i.val < bytes.length := by omega
  have hhigh : 2 * i.val + 1 < bytes.length := by omega
  have hdigits : ∀ b : UInt8, [b.toNat / 16, b.toNat % 16].length = 2 := fun _ => rfl
  have hslice := slice_flatMap hdigits hlow
  have hslice' := slice_flatMap hdigits hhigh
  rw [show 2 * i.val * 2 = 4 * i.val by ring, show (2 * i.val + 1) * 2 = 4 * i.val + 2 by ring]
    at hslice
  rw [show (2 * i.val + 1) * 2 = 4 * i.val + 2 by ring,
    show (2 * i.val + 1 + 1) * 2 = 4 * i.val + 4 by ring] at hslice'
  have hpair : (bytes.drop (2 * i.val)).take 2 = [bytes[2 * i.val], bytes[2 * i.val + 1]] := by
    rw [List.drop_eq_getElem_cons hlow, List.drop_eq_getElem_cons hhigh]
    rfl
  unfold colPerRow hexdigest column
  rw [hbytes, hslice, hslice', hpair]
  have hb := (bytes[2 * i.val]).toNat_lt
  have hb' := (bytes[2 * i.val + 1]).toNat_lt
  simp only [parseHex, List.cons_append, List.nil_append, List.foldl_cons, List.foldl_nil,
    ofLeBytes, Fin.val_ofNat]
  congr 1
  omega

theorem countInRow_eq (digest : Fin 16 → UInt8) (sketch : Countmin) (i : Fin 8) :
    countInRow (hexdigest digest) ((List.ofFn sketch).map rowBytes) i =
      some (signed64 (sketch i (column (List.ofFn digest) i))) := by
  have hrow : ((List.ofFn sketch).map rowBytes)[i.val]? = some (rowBytes (sketch i)) := by
    rw [List.getElem?_map, List.getElem?_ofFn, dif_pos i.isLt]
    rfl
  unfold countInRow
  rw [hrow, Option.bind_eq_bind, Option.bind_some, colPerRow_hexdigest]
  exact unpackQ_slice_rowBytes (sketch i) _

theorem mapM_eq_some {α β : Type} {f : α → Option β} {g : α → β} {l : List α}
    (h : ∀ a ∈ l, f a = some (g a)) : l.mapM f = some (l.map g) := by
  induction l with
  | nil => rfl
  | cons a l ih =>
      have hhead := h a List.mem_cons_self
      have htail := ih fun b hb => h b (List.mem_cons_of_mem a hb)
      simp [List.mapM_cons, hhead, htail]

/-- The counter a value chooses in row `i`. -/
def chosenCounter (md5 : Md5) (sketch : Countmin) (val : Int) (i : Fin 8) : Int :=
  signed64 (sketch i (column (sketchMd5Bytea md5 (int64Bytes val)) i))

/-- The value found is the least of the counters the hash chooses. -/
theorem doCountRows_eq (md5 : Md5) (sketch : Countmin) {val : Int} (hlo : -2 ^ 63 ≤ val)
    (hhi : val < 2 ^ 63) :
    ∃ n, doCountRows md5 ((List.ofFn sketch).map rowBytes) val = some n ∧
      (∀ i, n ≤ chosenCounter md5 sketch val i) ∧ ∃ i, n = chosenCounter md5 sketch val i := by
  have hcounts : (List.range 8).mapM (countInRow (hexdigest (md5 (int64Bytes val)))
      ((List.ofFn sketch).map rowBytes)) =
      some ((List.range 8).map fun i => chosenCounter md5 sketch val (Fin.ofNat 8 i)) := by
    apply mapM_eq_some
    intro i hi
    have hlt := List.mem_range.mp hi
    have hrow := countInRow_eq (md5 (int64Bytes val)) sketch ⟨i, hlt⟩
    have hfin : Fin.ofNat 8 i = ⟨i, hlt⟩ := Fin.ext (Nat.mod_eq_of_lt hlt)
    rw [hrow, hfin, chosenCounter, sketchMd5Bytea_eq]
  generalize hlist : ((List.range 8).map fun i =>
    chosenCounter md5 sketch val (Fin.ofNat 8 i)) = counts at hcounts
  have hne : counts ≠ [] := by
    rw [← hlist]
    simp
  have ⟨n, hn⟩ := Option.isSome_iff_exists.mp (List.isSome_min?_of_ne_nil hne)
  have ⟨hmem, hle⟩ := List.min?_eq_some_iff.mp hn
  refine ⟨n, ?_, fun i => ?_, ?_⟩
  · unfold doCountRows packQ
    rw [if_pos ⟨hlo, hhi⟩, Option.bind_eq_bind, Option.bind_some, hcounts]
    exact hn
  · apply hle
    rw [← hlist]
    exact List.mem_map.mpr ⟨i, List.mem_range.mpr i.isLt, by rw [Fin.ofNat_val_eq_self]⟩
  · rw [← hlist] at hmem
    have ⟨i, _, hi⟩ := List.mem_map.mp hmem
    exact ⟨Fin.ofNat 8 i, hi.symm⟩

/-- What is looked up on a level of a finished sketch. -/
theorem doCountRows_level (md5 : Md5) (sketches : Fin 64 → Countmin) (j : Fin 64) {val : Int}
    (hlo : -2 ^ 63 ≤ val) (hhi : val < 2 ^ 63) :
    ∃ n, doCountRows md5
        (slice (rowsOf (sketchBytes sketches) (8 * 64)) (j * 8) ((j + 1) * 8)) val = some n ∧
      (∀ i, n ≤ chosenCounter md5 (sketches j) val i) ∧
      ∃ i, n = chosenCounter md5 (sketches j) val i := by
  have hrows : (sketchRows sketches).take (8 * 64) = sketchRows sketches := by
    apply List.take_of_length_le
    rw [length_sketchRows]
  rw [rowsOf_sketchBytes sketches (by omega), hrows, slice_map, slice_sketchRows]
  exact doCountRows_eq md5 (sketches j) hlo hhi

theorem doCount_eq (md5 : Md5) (sketches : Fin 64 → Countmin) {val : Int}
    (hlo : -2 ^ 63 ≤ val) (hhi : val < 2 ^ 63) :
    ∃ n, doCount md5 (sketchBytes sketches) val = some n ∧
      (∀ i, n ≤ chosenCounter md5 (sketches 0) val i) ∧
      ∃ i, n = chosenCounter md5 (sketches 0) val i := by
  have hrows : (sketchRows sketches).take 8 = List.ofFn (sketches 0) := by
    have hslice := slice_sketchRows sketches 0
    simpa [slice] using hslice
  unfold doCount
  rw [rowsOf_sketchBytes sketches (by omega), hrows]
  exact doCountRows_eq md5 (sketches 0) hlo hhi

end Madlib.Sketch
