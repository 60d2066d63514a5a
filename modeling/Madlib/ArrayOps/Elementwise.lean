import Madlib.ArrayOps.Datum
import Madlib.Lib.WordMemory
import Madlib.Svec.ArrayCast

/-!
# Arrays made element by element

The result is made as an array of one dimension from words of eight bytes, and is then given the
number of dimensions of the input.  A reader finds the extents, the lower bounds and the elements
in places that depend on this number.
-/

namespace Madlib.ArrayOps

open Madlib.Backend Madlib.Lib.MachineInt Madlib.Lib.WordMemory Madlib.Svec

/-- `typlen` -/
def ElementType.width : ElementType → Nat
  | .int2 => 2
  | .int4 | .float4 => 4
  | .int8 | .float8 => 8
  | .other _ => 0

/-- An array of the backend.  Its memory starts behind the element type; what stands behind the
array is read like the array itself. -/
structure DenseArray where
  ndim : Nat
  elementType : ElementType
  hasNull : Bool
  memory : Memory

namespace DenseArray

/-- `ARR_DIMS` -/
def dims (v : DenseArray) : List Int :=
  (List.range v.ndim).map fun i => toInt32 (readBytes v.memory 4 (4 * i))

/-- `ARR_LBOUND` -/
def lbound (v : DenseArray) : List Int :=
  (List.range v.ndim).map fun i => toInt32 (readBytes v.memory 4 (4 * v.ndim + 4 * i))

/-- `ARR_DATA_PTR` of an array without NULLs -/
def dataPtr (v : DenseArray) : Nat := 8 * v.ndim

def nitems (v : DenseArray) : Nat := arrayGetNItems (v.dims.map Int.toNat)

def element (v : DenseArray) (i : Nat) : Nat :=
  readBytes v.memory v.elementType.width (v.dataPtr + v.elementType.width * i)

end DenseArray

/-! ## Element functions -/

/-- Operations on the bits of a float. -/
structure FloatUnit (W : Type) where
  add : W → W → W
  sub : W → W → W
  mult : W → W → W
  div : W → W → W
  sqrt : W → W
  isZero : W → Bool

/-- `sqrtInt` is the square root of an integer, converted back to a type from `-half` to `half`. -/
structure Arithmetic where
  float4 : FloatUnit UInt32
  float8 : FloatUnit UInt64
  sqrtInt : (half : Int) → Int → Int

/-- An element function is given two words and makes the one it stores. -/
abbrev PairFunction := ElementType → Nat → Nat → Except Fault Nat

/-- A dispatch over the type.  Integers of two bytes are computed with as those of four. -/
def dispatch (int : Int → Int → Int → Except Fault Int)
    (float4 : UInt32 → UInt32 → Except Fault UInt32)
    (float8 : UInt64 → UInt64 → Except Fault UInt64) : PairFunction := fun type elt1 elt2 =>
  match type with
  | .int2 => do
      let x ← int 2147483648 (toInt16 elt1) (toInt16 elt2)
      pure (x % 65536).toNat
  | .int4 => do
      let x ← int 2147483648 (toInt32 elt1) (toInt32 elt2)
      pure (x % 4294967296).toNat
  | .int8 => do
      let x ← int 9223372036854775808 (toInt64 elt1) (toInt64 elt2)
      pure (x % 18446744073709551616).toNat
  | .float4 => do
      let x ← float4 (UInt32.ofNat elt1) (UInt32.ofNat elt2)
      pure x.toNat
  | .float8 => do
      let x ← float8 (UInt64.ofNat elt1) (UInt64.ofNat elt2)
      pure x.toNat
  | .other _ => .error typeNotSupported

def divisionByZero : Fault := .ereport .divisionByZero "division by zero is not allowed"

/-- The quotient of the smallest integer and -1 traps, and the handler of the signal raises. -/
def divideInt (half x y : Int) : Except Fault Int :=
  if y = 0 then .error divisionByZero
  else if x = -half ∧ y = -1 then .error (.elog "floating-point exception")
  else .ok (x.tdiv y)

def divideFloat {W : Type} (unit : FloatUnit W) (x y : W) : Except Fault W :=
  if unit.isZero y then .error divisionByZero else .ok (unit.div x y)

def elementSet : PairFunction :=
  dispatch (fun _ _ y => .ok y) (fun _ y => .ok y) (fun _ y => .ok y)

variable (arithmetic : Arithmetic)

def elementAdd : PairFunction :=
  dispatch (fun _ x y => .ok (x + y)) (fun x y => .ok (arithmetic.float4.add x y))
    (fun x y => .ok (arithmetic.float8.add x y))

def elementSub : PairFunction :=
  dispatch (fun _ x y => .ok (x - y)) (fun x y => .ok (arithmetic.float4.sub x y))
    (fun x y => .ok (arithmetic.float8.sub x y))

def elementMult : PairFunction :=
  dispatch (fun _ x y => .ok (x * y)) (fun x y => .ok (arithmetic.float4.mult x y))
    (fun x y => .ok (arithmetic.float8.mult x y))

def elementDiv : PairFunction :=
  dispatch divideInt (divideFloat arithmetic.float4) (divideFloat arithmetic.float8)

def elementSqrt : PairFunction :=
  dispatch (fun half x _ => .ok (arithmetic.sqrtInt half x))
    (fun x _ => .ok (arithmetic.float4.sqrt x)) (fun x _ => .ok (arithmetic.float8.sqrt x))

/-! ## The two loops -/

/-- The remaining rounds; `dat` is where the next elements stand. -/
def elementRounds (element : Nat → Nat → Except Fault Nat) (width : Nat)
    (fetch1 fetch2 : Nat → Nat) : Nat → Nat → Except Fault (List Nat)
  | 0, _ => .ok []
  | rounds + 1, dat => do
      let word ← element (fetch1 dat) (fetch2 dat)
      let words ← elementRounds element width fetch1 fetch2 rounds (dat + width)
      pure (word :: words)

/-- `construct_array`, for elements of eight bytes that are passed by value. -/
abbrev ConstructArray := ElementType → List Nat → Except Fault DenseArray

/-- The words of the loop are stored with the width of their type, behind which stands `heap`, and
are read as words of eight bytes. -/
def makeArray (constructArray : ConstructArray) (heap : Memory) (type : ElementType)
    (ndims nitems : Nat) (loop : Except Fault (List Nat)) : Except Fault DenseArray := do
  palloc (type.width * nitems)
  let words ← loop
  let result := packed type.width words heap
  let pgarray ← constructArray type ((List.range nitems).map fun i => readBytes result 8 (8 * i))
  pure { pgarray with ndim := ndims }

/-- `General_2Array_to_Array` -/
def general2ArrayToArray (constructArray : ConstructArray) (heap : Memory) (element : PairFunction)
    (v1 v2 : DenseArray) : Except Fault DenseArray :=
  if v1.ndim ≠ v2.ndim then
    .error (.ereport .arraySubscriptError "cannot perform operation arrays of different dimention")
  else if v1.ndim = 0 ∧ 0 < v2.ndim then .ok v2
  else if v2.ndim = 0 then .ok v1
  else do
    palloc (4 * v1.ndim)
    palloc (4 * v1.ndim)
    if v1.dims ≠ v2.dims ∨ v1.lbound ≠ v2.lbound then
      .error (.ereport .arraySubscriptError "cannot operate on arrays of different length")
    else if v1.hasNull || v2.hasNull then
      .error (.ereport .nullValueNotAllowed "arrays cannot contain nulls")
    else
      match v1.elementType with
      | .other _ => .error typeNotSupported
      | type =>
          makeArray constructArray heap type v1.ndim v1.nitems
            (elementRounds (element type) type.width (readBytes v1.memory type.width)
              (readBytes v2.memory type.width) v1.nitems v1.dataPtr)

/-- `General_Array_to_Array` -/
def generalArrayToArray (constructArray : ConstructArray) (heap : Memory) (element : PairFunction)
    (v1 : DenseArray) (elt2 : Nat) : Except Fault DenseArray :=
  if v1.ndim = 0 then .ok v1
  else do
    palloc (4 * v1.ndim)
    palloc (4 * v1.ndim)
    if v1.hasNull then .error (.ereport .nullValueNotAllowed "arrays cannot contain nulls")
    else
      match v1.elementType with
      | .other _ => .error typeNotSupported
      | type =>
          makeArray constructArray heap type v1.ndim v1.nitems
            (elementRounds (element type) type.width (readBytes v1.memory type.width)
              (fun _ => elt2) v1.nitems v1.dataPtr)

section Operators

variable (constructArray : ConstructArray) (heap : Memory)

def arrayAdd : DenseArray → DenseArray → Except Fault DenseArray :=
  general2ArrayToArray constructArray heap (elementAdd arithmetic)

def arraySub : DenseArray → DenseArray → Except Fault DenseArray :=
  general2ArrayToArray constructArray heap (elementSub arithmetic)

def arrayMult : DenseArray → DenseArray → Except Fault DenseArray :=
  general2ArrayToArray constructArray heap (elementMult arithmetic)

def arrayDiv : DenseArray → DenseArray → Except Fault DenseArray :=
  general2ArrayToArray constructArray heap (elementDiv arithmetic)

def arrayFill : DenseArray → Nat → Except Fault DenseArray :=
  generalArrayToArray constructArray heap elementSet

def arrayScalarMult : DenseArray → Nat → Except Fault DenseArray :=
  generalArrayToArray constructArray heap (elementMult arithmetic)

def arraySqrt (v : DenseArray) : Except Fault DenseArray :=
  generalArrayToArray constructArray heap (elementSqrt arithmetic) v 0

end Operators

/-! ## Shapes -/

/-- An array as the backend stores it, with up to `MAXDIM` dimensions and `MaxArraySize` items. -/
structure WellFormed (v : DenseArray) : Prop where
  ndim_pos : 0 < v.ndim
  ndim_le : v.ndim ≤ 6
  supported : ∀ oid, v.elementType ≠ .other oid
  hasNull : v.hasNull = false
  dims_pos : ∀ n ∈ v.dims, 0 < n
  nitems_le : 8 * v.nitems ≤ maxAllocSize

/-- The array has the shape of `v`, and these elements. -/
structure Shaped (out v : DenseArray) (words : List Nat) : Prop where
  elementType : out.elementType = v.elementType
  ndim : out.ndim = v.ndim
  dims : out.dims = v.dims
  lbound : out.lbound = v.lbound
  elements : (List.range v.nitems).map out.element = words

/-- The outcome of the operations, as an array with the shape of `v`. -/
def Gives (expected : Except Fault (List Nat)) (v : DenseArray) (r : Except Fault DenseArray) :
    Prop :=
  match expected with
  | .error e => r = .error e
  | .ok words => ∃ out, r = .ok out ∧ Shaped out v words

/-- The operation on the elements at every subscript. -/
def pairwise (element : PairFunction) (v1 v2 : DenseArray) : Except Fault (List Nat) :=
  (List.range v1.nitems).mapM fun i => element v1.elementType (v1.element i) (v2.element i)

def withScalar (element : PairFunction) (v : DenseArray) (elt2 : Nat) : Except Fault (List Nat) :=
  (List.range v.nitems).mapM fun i => element v.elementType (v.element i) elt2

/-- What `construct_array` makes: one dimension, the lower bound 1, and the words in eight bytes
each behind that. -/
structure ConstructsArray (constructArray : ConstructArray) : Prop where
  ok : ∀ type elems, elems ≠ [] → 24 + 8 * elems.length ≤ maxAllocSize →
    ∃ memory, constructArray type elems = .ok ⟨1, type, false, memory⟩ ∧
      readBytes memory 4 0 = elems.length ∧ readBytes memory 4 4 = 1 ∧
      ∀ a < 8 * elems.length, memory (8 + a) = packed 8 elems memory a
  refuses : ∀ type elems, maxAllocSize < 24 + 8 * elems.length →
    ∃ e, constructArray type elems = .error e

/-! ## The loop -/

theorem elementRounds_eq (element : Nat → Nat → Except Fault Nat) (width : Nat)
    (fetch1 fetch2 : Nat → Nat) (rounds dat : Nat) :
    elementRounds element width fetch1 fetch2 rounds dat =
      (List.range rounds).mapM fun i =>
        element (fetch1 (dat + width * i)) (fetch2 (dat + width * i)) := by
  induction rounds generalizing dat with
  | zero => rfl
  | succ rounds ih =>
      rw [elementRounds, ih, List.range_succ_eq_map, List.mapM_cons, List.mapM_map]
      have hshift : ∀ i, dat + width * (i + 1) = dat + width + width * i := by
        intro i
        ring
      simp only [Nat.mul_zero, Nat.add_zero, hshift, Function.comp_def, Nat.succ_eq_add_one]

/-- The results of an element function fit into the width of their type. -/
def Fitting (element : PairFunction) : Prop :=
  ∀ type elt1 elt2 word, element type elt1 elt2 = .ok word → word < 256 ^ type.width

theorem dispatch_fitting {int : Int → Int → Int → Except Fault Int}
    {float4 : UInt32 → UInt32 → Except Fault UInt32}
    {float8 : UInt64 → UInt64 → Except Fault UInt64} : Fitting (dispatch int float4 float8) := by
  intro type elt1 elt2 word h
  cases type with
  | int2 | int4 | int8 =>
      obtain ⟨x, -, hx⟩ := bind_eq_ok.mp h
      cases hx
      rw [ElementType.width]
      omega
  | float4 =>
      obtain ⟨x, -, hx⟩ := bind_eq_ok.mp h
      cases hx
      exact x.toNat_lt
  | float8 =>
      obtain ⟨x, -, hx⟩ := bind_eq_ok.mp h
      cases hx
      exact x.toNat_lt
  | other => cases h

theorem mapM_ok {β : Type} {f : β → Except Fault Nat} {is : List β} {words : List Nat}
    (h : is.mapM f = .ok words) :
    words.length = is.length ∧ ∀ word ∈ words, ∃ i, f i = .ok word := by
  induction is generalizing words with
  | nil =>
      cases h
      simp
  | cons i is ih =>
      rw [List.mapM_cons] at h
      obtain ⟨word, hword, hrest⟩ := bind_eq_ok.mp h
      obtain ⟨rest, hrun, heq⟩ := bind_eq_ok.mp hrest
      cases heq
      obtain ⟨hlength, hmem⟩ := ih hrun
      refine ⟨congrArg (· + 1) hlength, ?_⟩
      rw [List.forall_mem_cons]
      exact ⟨⟨i, hword⟩, hmem⟩

/-! ## The array that is made -/

theorem ElementType.width_le (type : ElementType) : type.width ≤ 8 := by
  cases type <;> simp [ElementType.width]

theorem nitems_pos {v : DenseArray} (h : WellFormed v) : 0 < v.nitems := by
  have hne : v.dims ≠ [] := by
    rw [← List.length_pos_iff, DenseArray.dims, List.length_map, List.length_range]
    exact h.ndim_pos
  rw [DenseArray.nitems, arrayGetNItems, if_neg (by simpa using hne)]
  apply List.prod_pos
  intro n hn
  obtain ⟨d, hd, rfl⟩ := List.mem_map.mp hn
  have hpos := h.dims_pos d hd
  omega

section Made

variable {constructArray : ConstructArray} {heap : Memory} {v : DenseArray} {words : List Nat}

/-- The words of eight bytes that are passed on. -/
def passedWords (heap : Memory) (v : DenseArray) (words : List Nat) : List Nat :=
  (List.range v.nitems).map fun i =>
    readBytes (packed v.elementType.width words heap) 8 (8 * i)

theorem length_passedWords : (passedWords heap v words).length = v.nitems := by
  rw [passedWords, List.length_map, List.length_range]

theorem makeArray_ok (h : WellFormed v) :
    makeArray constructArray heap v.elementType v.ndim v.nitems (.ok words) =
      constructArray v.elementType (passedWords heap v words) >>= fun pgarray =>
        .ok { pgarray with ndim := v.ndim } := by
  have hsize : v.elementType.width * v.nitems ≤ maxAllocSize :=
    (Nat.mul_le_mul_right _ v.elementType.width_le).trans h.nitems_le
  rw [makeArray, palloc_ok hsize]
  rfl

theorem makeArray_error (h : WellFormed v) (e : Fault) :
    makeArray constructArray heap v.elementType v.ndim v.nitems (.error e) = .error e := by
  have hsize : v.elementType.width * v.nitems ≤ maxAllocSize :=
    (Nat.mul_le_mul_right _ v.elementType.width_le).trans h.nitems_le
  rw [makeArray, palloc_ok hsize]
  rfl

/-- The bytes behind the header are those of the buffer. -/
theorem stored_byte {memory : Memory}
    (hdata : ∀ a < 8 * v.nitems, memory (8 + a) = packed 8 (passedWords heap v words) memory a)
    {a : Nat} (ha : a < 8 * v.nitems) :
    memory (8 + a) = packed v.elementType.width words heap a := by
  rw [hdata a ha, passedWords, packed_readBytes _ _ ha]

end Made

/-- The array fits into an allocation with its words of eight bytes, and has the shape it is made
with. -/
def OneDimension (v : DenseArray) : Prop :=
  v.ndim = 1 ∧ v.lbound = [1] ∧ 24 + 8 * v.nitems ≤ maxAllocSize

section Shape

variable {v : DenseArray} {words : List Nat} (h : WellFormed v) (hlength : words.length = v.nitems)
  (hwords : ∀ word ∈ words, word < 256 ^ v.elementType.width)

include h hlength hwords

theorem OneDimension.gives (hone : OneDimension v) {constructArray : ConstructArray}
    (hconstruct : ConstructsArray constructArray) (heap : Memory) :
    Gives (.ok words) v
      (makeArray constructArray heap v.elementType v.ndim v.nitems (.ok words)) := by
  obtain ⟨hndim, hlbound, hsize⟩ := hone
  have hpos := nitems_pos h
  have hlength' : (passedWords heap v words).length = v.nitems := length_passedWords
  have hne : passedWords heap v words ≠ [] := by
    rw [← List.length_pos_iff, hlength']
    exact hpos
  obtain ⟨memory, hrun, hdims, hlb, hdata⟩ :=
    hconstruct.ok v.elementType (passedWords heap v words) hne (by rw [hlength']; exact hsize)
  rw [hlength'] at hdims hdata
  rw [makeArray_ok h, hrun, ok_bind]
  refine ⟨_, rfl, rfl, rfl, ?_, ?_, ?_⟩
  · obtain ⟨d, hd⟩ : ∃ d, v.dims = [d] := by
      rw [DenseArray.dims, hndim]
      exact ⟨_, rfl⟩
    have hdpos := h.dims_pos d (by rw [hd]; exact List.mem_singleton_self d)
    have hnitems : v.nitems = d.toNat := by
      rw [DenseArray.nitems, hd, List.map_singleton, arrayGetNItems_singleton]
    have hdlt : d < 2147483648 := by
      have hle := h.nitems_le
      rw [maxAllocSize] at hle
      omega
    rw [hd, DenseArray.dims]
    dsimp only
    rw [hndim]
    have hread : toInt32 (readBytes memory 4 (4 * 0)) = d := by
      rw [Nat.mul_zero, hdims, hnitems, Int.toNat_of_nonneg hdpos.le,
        toInt32_of_mem (by omega) hdlt]
    exact congrArg (fun x => [x]) hread
  · rw [hlbound, DenseArray.lbound]
    dsimp only
    rw [hndim]
    have hread : toInt32 (readBytes memory 4 (4 * 1 + 4 * 0)) = 1 := by
      rw [hlb]
      decide
    exact congrArg (fun x => [x]) hread
  · apply List.ext_getElem
    · rw [List.length_map, List.length_range, hlength]
    · intro i hi hi'
      rw [List.getElem_map, List.getElem_range]
      rw [List.length_map, List.length_range] at hi
      rw [← readBytes_packed heap hi' (hwords _ (List.getElem_mem hi'))]
      change readBytes memory v.elementType.width (8 * v.ndim + v.elementType.width * i) = _
      apply readBytes_shift
      intro k hk
      have hplace : v.elementType.width * i + k < 8 * v.nitems := by
        calc v.elementType.width * i + k < v.elementType.width * i + v.elementType.width :=
              Nat.add_lt_add_left hk _
          _ = v.elementType.width * (i + 1) := (Nat.mul_succ _ i).symm
          _ ≤ 8 * v.nitems := Nat.mul_le_mul v.elementType.width_le hi
      rw [hndim, Nat.mul_one, Nat.add_assoc]
      exact stored_byte hdata hplace

end Shape

/-- An array of one dimension, with the byte `c` in all memory behind it. -/
def plainMemory (c : UInt8) (elems : List Nat) : Memory := fun a =>
  if a < 8 then packed 4 [elems.length, 1] (fun _ => c) a
  else packed 8 elems (fun _ => c) (a - 8)

def constructPlain (c : UInt8) : ConstructArray := fun type elems =>
  if maxAllocSize < 24 + 8 * elems.length then
    .error (.elog "invalid memory alloc request size")
  else .ok ⟨1, type, false, plainMemory c elems⟩

theorem plainMemory_header {c : UInt8} {elems : List Nat}
    (hsize : 24 + 8 * elems.length ≤ maxAllocSize) {i : Nat} (hi : i < 2) :
    readBytes (plainMemory c elems) 4 (4 * i) = [elems.length, 1][i] := by
  have hlt : [elems.length, 1][i] < 256 ^ 4 := by
    rw [maxAllocSize] at hsize
    interval_cases i
    · change elems.length < 256 ^ 4
      omega
    · change 1 < 256 ^ 4
      norm_num
  rw [← readBytes_packed (fun _ => c) hi hlt]
  apply readBytes_shift
  intro k hk
  exact if_pos (by omega)

theorem plainMemory_data (c : UInt8) (elems : List Nat) (a : Nat) :
    plainMemory c elems (8 + a) = packed 8 elems (fun _ => c) a := by
  rw [plainMemory, if_neg (by omega), Nat.add_sub_cancel_left]

theorem constructsArray_constructPlain (c : UInt8) : ConstructsArray (constructPlain c) where
  ok type elems _ hsize := by
    refine ⟨plainMemory c elems, if_neg (Nat.not_lt.mpr hsize),
      plainMemory_header hsize (i := 0) (by decide), plainMemory_header hsize (i := 1) (by decide),
      ?_⟩
    intro a ha
    rw [plainMemory_data, packed, packed, if_pos ha, if_pos ha]
  refuses type elems hsize := ⟨_, if_pos hsize⟩

section Shape

variable {v : DenseArray} {words : List Nat} (h : WellFormed v) (hlength : words.length = v.nitems)

include h hlength

/-- Behind a longer header, the last element is read from the memory behind the words. -/
theorem last_byte (c : UInt8) (hndim : v.ndim ≠ 1) :
    UInt8.ofNat (readBytes (plainMemory c (passedWords (fun _ => c) v words)) v.elementType.width
      (8 * v.ndim + v.elementType.width * (v.nitems - 1))) = c := by
  have hwidth : 0 < v.elementType.width := by
    have hsupported := h.supported
    cases htype : v.elementType with
    | other oid => exact absurd htype (hsupported oid)
    | _ => decide
  have hndim_pos := h.ndim_pos
  have hpos := nitems_pos h
  have hle := v.elementType.width_le
  have hbyte := byte_readBytes (plainMemory c (passedWords (fun _ => c) v words))
    (p := 8 * v.ndim + v.elementType.width * (v.nitems - 1)) hwidth
  rw [pow_zero, Nat.div_one, Nat.add_zero] at hbyte
  let a := 8 * (v.ndim - 1) + v.elementType.width * (v.nitems - 1)
  have hplace : 8 * v.ndim + v.elementType.width * (v.nitems - 1) = 8 + a := by omega
  have hbuffer : v.elementType.width * words.length ≤ a := by
    calc v.elementType.width * words.length
        = v.elementType.width + v.elementType.width * (v.nitems - 1) := by
          rw [hlength, Nat.add_comm, ← Nat.mul_succ]
          congr 1
          omega
      _ ≤ a := Nat.add_le_add_right (by omega) _
  rw [hbyte, hplace, plainMemory_data]
  by_cases hstored : a < 8 * v.nitems
  · rw [passedWords, packed_readBytes _ _ hstored, packed_behind hbuffer]
  · rw [packed_behind (by rw [length_passedWords]; exact not_lt.mp hstored)]

/-- Made with two different bytes behind, an array of more dimensions has two last elements. -/
theorem OneDimension.of_gives
    (hgives : ∀ constructArray heap, ConstructsArray constructArray →
      Gives (.ok words) v
        (makeArray constructArray heap v.elementType v.ndim v.nitems (.ok words))) :
    OneDimension v := by
  have hpos := nitems_pos h
  have hmade : ∀ c : UInt8, 24 + 8 * v.nitems ≤ maxAllocSize ∧
      Shaped ⟨v.ndim, v.elementType, false,
        plainMemory c (passedWords (fun _ => c) v words)⟩ v words := by
    intro c
    obtain ⟨out, hout, hshaped⟩ :=
      hgives (constructPlain c) (fun _ => c) (constructsArray_constructPlain c)
    rw [makeArray_ok h, constructPlain, length_passedWords] at hout
    by_cases hsize : maxAllocSize < 24 + 8 * v.nitems
    · rw [if_pos hsize] at hout
      cases hout
    · rw [if_neg hsize] at hout
      cases hout
      exact ⟨not_lt.mp hsize, hshaped⟩
  have hndim : v.ndim = 1 := by
    by_contra hndim
    have hlt : v.nitems - 1 < words.length := by omega
    have hlast : ∀ c : UInt8, UInt8.ofNat words[v.nitems - 1] = c := by
      intro c
      have helement := List.getElem_of_eq (hmade c).2.elements.symm hlt
      rw [List.getElem_map, List.getElem_range] at helement
      rw [helement]
      exact last_byte h hlength c hndim
    exact absurd ((hlast 0).symm.trans (hlast 1)) (by decide)
  refine ⟨hndim, ?_, (hmade 0).1⟩
  rw [← (hmade 0).2.lbound, DenseArray.lbound]
  dsimp only
  rw [hndim]
  have hread : toInt32 (readBytes (plainMemory 0 (passedWords (fun _ => 0) v words)) 4
      (4 * 1 + 4 * 0)) = 1 := by
    have hsize := (hmade 0).1
    rw [plainMemory_header (by rw [length_passedWords]; exact hsize) (i := 1) (by decide)]
    have hone : toInt32 ((1 : Nat) : Int) = 1 := by decide
    exact hone
  exact congrArg (fun x => [x]) hread

end Shape

/-! ## The operators -/

section Operators

variable {v1 v2 : DenseArray}

theorem makeArray_gives_iff (h : WellFormed v1) {expected : Except Fault (List Nat)}
    (hexpected : ∀ words, expected = .ok words →
      words.length = v1.nitems ∧ ∀ word ∈ words, word < 256 ^ v1.elementType.width) :
    (∀ constructArray heap, ConstructsArray constructArray →
      Gives expected v1
        (makeArray constructArray heap v1.elementType v1.ndim v1.nitems expected)) ↔
      (∃ e, expected = .error e) ∨ OneDimension v1 := by
  cases expected with
  | error e =>
      refine iff_of_true ?_ (.inl ⟨e, rfl⟩)
      intro constructArray heap _
      exact makeArray_error h e
  | ok words =>
      obtain ⟨hlength, hwords⟩ := hexpected words rfl
      constructor
      · exact fun hgives => .inr (OneDimension.of_gives h hlength hgives)
      · rintro (⟨e, he⟩ | hone) constructArray heap hconstruct
        · cases he
        · exact hone.gives h hlength hwords hconstruct heap

theorem palloc_dims (h : WellFormed v1) : palloc (4 * v1.ndim) = .ok () := by
  have hle := h.ndim_le
  apply palloc_ok
  rw [maxAllocSize]
  omega

/-- The elements a loop makes, whatever it takes as the second one. -/
theorem elementRounds_spec (element : PairFunction) (fetch2 : Nat → Nat) :
    elementRounds (element v1.elementType) v1.elementType.width
        (readBytes v1.memory v1.elementType.width) fetch2 v1.nitems v1.dataPtr =
      (List.range v1.nitems).mapM fun i => element v1.elementType (v1.element i)
        (fetch2 (v1.dataPtr + v1.elementType.width * i)) :=
  elementRounds_eq _ _ _ _ _ _

theorem general2ArrayToArray_eq (h1 : WellFormed v1) (h2 : WellFormed v2)
    (htype : v2.elementType = v1.elementType) (hndim : v2.ndim = v1.ndim)
    (hdims : v2.dims = v1.dims) (hlbound : v2.lbound = v1.lbound) (constructArray : ConstructArray)
    (heap : Memory) (element : PairFunction) :
    general2ArrayToArray constructArray heap element v1 v2 =
      makeArray constructArray heap v1.elementType v1.ndim v1.nitems
        (pairwise element v1 v2) := by
  have hpos := h1.ndim_pos
  have hloop : elementRounds (element v1.elementType) v1.elementType.width
      (readBytes v1.memory v1.elementType.width) (readBytes v2.memory v1.elementType.width)
      v1.nitems v1.dataPtr = pairwise element v1 v2 := by
    rw [elementRounds_spec, pairwise]
    simp only [DenseArray.element, DenseArray.dataPtr, htype, hndim]
  have hsupported := h1.supported
  rw [general2ArrayToArray, if_neg (by simp [hndim]), if_neg (by omega), if_neg (by omega),
    palloc_dims h1, ok_bind, ok_bind, if_neg (by simp [hdims, hlbound]), h1.hasNull, h2.hasNull,
    ← hloop]
  generalize v1.elementType = type at hsupported ⊢
  cases type with
  | other oid => exact absurd rfl (hsupported oid)
  | _ => rfl

theorem generalArrayToArray_eq (h1 : WellFormed v1) (constructArray : ConstructArray)
    (heap : Memory) (element : PairFunction) (elt2 : Nat) :
    generalArrayToArray constructArray heap element v1 elt2 =
      makeArray constructArray heap v1.elementType v1.ndim v1.nitems
        (withScalar element v1 elt2) := by
  have hpos := h1.ndim_pos
  have hsupported := h1.supported
  rw [generalArrayToArray, if_neg (by omega), palloc_dims h1, ok_bind, ok_bind, h1.hasNull,
    withScalar, ← elementRounds_spec element fun _ => elt2]
  generalize v1.elementType = type at hsupported ⊢
  cases type with
  | other oid => exact absurd rfl (hsupported oid)
  | _ => rfl

theorem fitting_mapM {element : PairFunction} (h : Fitting element) (elt1 elt2 : Nat → Nat)
    {words : List Nat}
    (hwords : ((List.range v1.nitems).mapM fun i =>
      element v1.elementType (elt1 i) (elt2 i)) = .ok words) :
    words.length = v1.nitems ∧ ∀ word ∈ words, word < 256 ^ v1.elementType.width := by
  obtain ⟨hlength, hmem⟩ := mapM_ok hwords
  rw [List.length_range] at hlength
  refine ⟨hlength, fun word hword => ?_⟩
  obtain ⟨i, hi⟩ := hmem word hword
  exact h _ _ _ _ hi

/-- Whatever the memory holds, the result has the shape of `v`. -/
def KeepsShape (v : DenseArray)
    (p : (ConstructArray → Memory → Except Fault DenseArray) × Except Fault (List Nat)) : Prop :=
  ∀ constructArray heap, ConstructsArray constructArray → Gives p.2 v (p.1 constructArray heap)

/-- The calls of the operators, and what they compute at each subscript. -/
def operators (arithmetic : Arithmetic) (v1 v2 : DenseArray) (elt2 : Nat) :
    List ((ConstructArray → Memory → Except Fault DenseArray) × Except Fault (List Nat)) :=
  [(fun constructArray heap => arrayAdd arithmetic constructArray heap v1 v2,
      pairwise (elementAdd arithmetic) v1 v2),
    (fun constructArray heap => arraySub arithmetic constructArray heap v1 v2,
      pairwise (elementSub arithmetic) v1 v2),
    (fun constructArray heap => arrayMult arithmetic constructArray heap v1 v2,
      pairwise (elementMult arithmetic) v1 v2),
    (fun constructArray heap => arrayDiv arithmetic constructArray heap v1 v2,
      pairwise (elementDiv arithmetic) v1 v2),
    (fun constructArray heap => arrayScalarMult arithmetic constructArray heap v1 elt2,
      withScalar (elementMult arithmetic) v1 elt2),
    (fun constructArray heap => arrayFill constructArray heap v1 elt2,
      withScalar elementSet v1 elt2),
    (fun constructArray heap => arraySqrt arithmetic constructArray heap v1,
      withScalar (elementSqrt arithmetic) v1 0)]

theorem general2ArrayToArray_keepsShape (h1 : WellFormed v1) (h2 : WellFormed v2)
    (htype : v2.elementType = v1.elementType) (hndim : v2.ndim = v1.ndim)
    (hdims : v2.dims = v1.dims) (hlbound : v2.lbound = v1.lbound) {element : PairFunction}
    (hfit : Fitting element) :
    KeepsShape v1
      (fun constructArray heap => general2ArrayToArray constructArray heap element v1 v2,
        pairwise element v1 v2) ↔ (∃ e, pairwise element v1 v2 = .error e) ∨ OneDimension v1 := by
  have hgives : _ ↔ (∃ e, pairwise element v1 v2 = .error e) ∨ OneDimension v1 :=
    makeArray_gives_iff h1 fun _ => fitting_mapM hfit v1.element v2.element
  simp only [← hgives, KeepsShape, general2ArrayToArray_eq h1 h2 htype hndim hdims hlbound]

theorem generalArrayToArray_keepsShape (h1 : WellFormed v1) {element : PairFunction}
    (hfit : Fitting element) (elt2 : Nat) :
    KeepsShape v1
      (fun constructArray heap => generalArrayToArray constructArray heap element v1 elt2,
        withScalar element v1 elt2) ↔
        (∃ e, withScalar element v1 elt2 = .error e) ∨ OneDimension v1 := by
  have hgives : _ ↔ (∃ e, withScalar element v1 elt2 = .error e) ∨ OneDimension v1 :=
    makeArray_gives_iff h1 fun _ => fitting_mapM hfit v1.element fun _ => elt2
  simp only [← hgives, KeepsShape, generalArrayToArray_eq h1]

/-- The operators keep the shape of arrays of one dimension with the lower bound 1, and of no
others. -/
theorem keepsShape_iff (arithmetic : Arithmetic) (h1 : WellFormed v1) (h2 : WellFormed v2)
    (htype : v2.elementType = v1.elementType) (hndim : v2.ndim = v1.ndim)
    (hdims : v2.dims = v1.dims) (hlbound : v2.lbound = v1.lbound) (elt2 : Nat) :
    ∀ p ∈ operators arithmetic v1 v2 elt2,
      KeepsShape v1 p ↔ (∃ e, p.2 = .error e) ∨ OneDimension v1 := by
  have hpair := fun {element : PairFunction} (hfit : Fitting element) =>
    general2ArrayToArray_keepsShape h1 h2 htype hndim hdims hlbound hfit
  have hscalar := fun {element : PairFunction} (hfit : Fitting element) =>
    generalArrayToArray_keepsShape h1 hfit
  simp only [operators, List.forall_mem_cons]
  exact ⟨hpair dispatch_fitting, hpair dispatch_fitting, hpair dispatch_fitting,
    hpair dispatch_fitting, hscalar dispatch_fitting _, hscalar dispatch_fitting _,
    hscalar dispatch_fitting _, by simp⟩

end Operators

/-- An array with a header and elements of four bytes, and zeros behind it. -/
def int4Stored (ndim : Nat) (header elements : List Nat) : DenseArray where
  ndim := ndim
  elementType := .int4
  hasNull := false
  memory a :=
    if a < 8 * ndim then packed 4 header (fun _ => 0) a
    else packed 4 elements (fun _ => 0) (a - 8 * ndim)

/-- No float is added, and square roots are rounded down. -/
def integerArithmetic : Arithmetic where
  float4 := ⟨fun x _ => x, fun x _ => x, fun x _ => x, fun x _ => x, id, fun x => x == 0⟩
  float8 := ⟨fun x _ => x, fun x _ => x, fun x _ => x, fun x _ => x, id, fun x => x == 0⟩
  sqrtInt _ x := x.toNat.sqrt

theorem wellFormed_int4Stored {ndim : Nat} {header elements : List Nat} {extents : List Int}
    (hpos : 0 < ndim) (hle : ndim ≤ 6) (hdims : (int4Stored ndim header elements).dims = extents)
    (hextents : ∀ n ∈ extents, 0 < n)
    (hnitems : 8 * arrayGetNItems (extents.map Int.toNat) ≤ maxAllocSize) :
    WellFormed (int4Stored ndim header elements) where
  ndim_pos := hpos
  ndim_le := hle
  supported oid := by simp [int4Stored]
  hasNull := rfl
  dims_pos := by rwa [hdims]
  nitems_le := by rwa [DenseArray.nitems, hdims]

/-- `{10,20}` with `{3,4}` and 5 -/
theorem keepsShape_two :
    List.Forall (KeepsShape (int4Stored 1 [2, 1] [10, 20]))
      (operators integerArithmetic (int4Stored 1 [2, 1] [10, 20]) (int4Stored 1 [2, 1] [3, 4])
        5) := by
  have hdims : (int4Stored 1 [2, 1] [10, 20]).dims = [2] := by decide +kernel
  have hdims' : (int4Stored 1 [2, 1] [3, 4]).dims = [2] := by decide +kernel
  have hwf := wellFormed_int4Stored (by decide) (by decide) hdims (by decide) (by decide)
  have hwf' := wellFormed_int4Stored (by decide) (by decide) hdims' (by decide) (by decide)
  have hlbound : (int4Stored 1 [2, 1] [10, 20]).lbound = [1] := by decide +kernel
  have hlbound' : (int4Stored 1 [2, 1] [3, 4]).lbound = [1] := by decide +kernel
  have hone : OneDimension (int4Stored 1 [2, 1] [10, 20]) := by
    refine ⟨rfl, hlbound, ?_⟩
    rw [DenseArray.nitems, hdims]
    decide
  apply List.forall_iff_forall_mem.mpr
  intro p hp
  exact (keepsShape_iff integerArithmetic hwf hwf' rfl rfl (hdims'.trans hdims.symm)
    (hlbound'.trans hlbound.symm) 5 p hp).mpr (.inr hone)

/-- The sum of `{{1,2},{3,4}}` with itself has other extents. -/
theorem not_keepsShape_square :
    ¬∀ (arithmetic : Arithmetic) (v1 v2 : DenseArray), WellFormed v1 → WellFormed v2 →
      v2.elementType = v1.elementType → v2.ndim = v1.ndim → v2.dims = v1.dims →
        v2.lbound = v1.lbound → ∀ elt2, ∀ p ∈ operators arithmetic v1 v2 elt2, KeepsShape v1 p := by
  intro hall
  have hdims : (int4Stored 2 [2, 2, 1, 1] [1, 2, 3, 4]).dims = [2, 2] := by decide +kernel
  have hwf := wellFormed_int4Stored (by decide) (by decide) hdims (by decide) (by decide)
  have hadd := hall integerArithmetic _ _ hwf hwf rfl rfl rfl rfl 0 _ List.mem_cons_self
  rcases (general2ArrayToArray_keepsShape hwf hwf rfl rfl rfl rfl dispatch_fitting).mp hadd with
    ⟨e, he⟩ | hone
  · have hsum : pairwise (elementAdd integerArithmetic)
        (int4Stored 2 [2, 2, 1, 1] [1, 2, 3, 4]) (int4Stored 2 [2, 2, 1, 1] [1, 2, 3, 4]) =
          .ok [2, 4, 6, 8] := by decide +kernel
    cases hsum.symm.trans he
  · cases hone.1

end Madlib.ArrayOps
