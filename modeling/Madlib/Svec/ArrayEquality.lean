import Mathlib
import Madlib.Svec.ArrayCast
import Madlib.Svec.Selection

/-!
# Equality of float8[]

`float8arr_equals_internal` compares where the extents of its operands lie, and neither the
extents nor the NULLs.  Only an array handed over twice gets as far as the values, of which
it reads one for every element, those that are NULL included.
-/

namespace Madlib.Svec

open Madlib.Backend

/-- An array in memory, and the doubles that lie behind its last value. -/
structure ArrayPointer where
  address : Nat
  array : ArrayType
  behind : Nat → Float8

namespace ArrayPointer

/-- `ARR_DIMS` -/
def arrDims (pointer : ArrayPointer) : Nat := pointer.address + 16

def arrNItems (pointer : ArrayPointer) : Nat := arrayGetNItems pointer.array.dims

/-- `((double *)ARR_DATA_PTR(array))[i]` -/
def vals (pointer : ArrayPointer) (i : Nat) : Float8 :=
  match pointer.array.data[i]? with
  | some v => v
  | none => pointer.behind (i - pointer.array.data.length)

end ArrayPointer

/-- The two operands of a call.  At one address lies one array. -/
structure ArrayOperands where
  left : ArrayPointer
  right : ArrayPointer
  coherent : left.address = right.address → left = right

/-- The loop over the bitmaps, which tests the bits of the left one twice. -/
def compareNulls : Nat → List UInt8 → Nat → Except Fault Bool
  | 0, _, _ => .ok true
  | _ + 1, [], _ => .error .outOfBounds
  | rounds + 1, b :: bitmap, bitmask =>
      let next := if 2 * bitmask = 0x100 then (bitmap, 1) else (b :: bitmap, 2 * bitmask)
      if b.toNat &&& bitmask = 0 ∧ b.toNat &&& bitmask ≠ 0 then .ok false
      else compareNulls rounds next.1 next.2

def compareNullbitmaps (numleft : Nat) : Option (List UInt8) → Option (List UInt8) →
    Except Fault Bool
  | none, none => .ok true
  | some bitmapLeft, some _ => compareNulls numleft bitmapLeft 1
  | _, _ => .ok false

def float8arrEqualsInternal (operands : ArrayOperands) : Except Fault Bool :=
  let left := operands.left
  let right := operands.right
  if left.arrDims ≠ right.arrDims ∨ left.arrNItems ≠ right.arrNItems then .ok false
  else do
    let sameNulls ← compareNullbitmaps left.arrNItems left.array.nullbitmap right.array.nullbitmap
    if sameNulls then
      pure ((List.range left.arrNItems).all fun i => float8Eq (left.vals i) (right.vals i))
    else pure false

def float8arrEquals (operands : ArrayOperands) : Except Fault Bool :=
  float8arrEqualsInternal operands

/-! ## Equal arrays -/

/-- Two elements are both NULL or equal as numbers. -/
def elementEq : Option Float8 → Option Float8 → Prop
  | none, none => True
  | some v, some w => float8Eq v w = true
  | _, _ => False

/-- The same extents, NULL at the same positions, equal values at the others. -/
structure ArrayEq (left right : ArrayType) : Prop where
  dims : left.dims = right.dims
  elements : List.Forall₂ elementEq left.elements right.elements

/-- The call returns, and `true` exactly for equal arrays. -/
def DecidesEquality (operands : ArrayOperands) : Prop :=
  ∃ result, float8arrEquals operands = .ok result ∧
    (result = true ↔ ArrayEq operands.left.array operands.right.array)

/-! ## One array twice -/

theorem float8Eq_self (v : Float8) : float8Eq v v = !isNaN v := by simp [float8Eq]

theorem elementEq_self (v : Option Float8) :
    elementEq v v ↔ ∀ w, v = some w → isNaN w = false := by
  cases v with
  | none => simp [elementEq]
  | some v => simp [elementEq, float8Eq_self]

/-- The elements that are not NULL are the data. -/
theorem mem_placeNulls {present : List Bool} {data : List Float8} {v : Float8}
    (h : data.length = present.count true) : some v ∈ placeNulls present data ↔ v ∈ data := by
  induction present generalizing data with
  | nil =>
      have hnil : data = [] := List.length_eq_zero_iff.mp h
      simp [placeNulls, hnil]
  | cons b present ih =>
      cases b with
      | false =>
          rw [List.count_cons_of_ne (by simp)] at h
          simp [placeNulls, ih h]
      | true =>
          rw [List.count_cons_self] at h
          cases data with
          | nil => simp at h
          | cons w data =>
              have hlen : data.length = present.count true := by simpa using h
              simp [placeNulls, ih hlen]

theorem arrayEq_self (array : ArrayType) :
    ArrayEq array array ↔ ∀ v ∈ array.data, isNaN v = false := by
  have helements : List.Forall₂ elementEq array.elements array.elements ↔
      ∀ v ∈ array.data, isNaN v = false := by
    rw [List.forall₂_same]
    constructor
    · intro h v hv
      have hmem : some v ∈ array.elements := (mem_placeNulls array.length_data).mpr hv
      exact (elementEq_self _).mp (h _ hmem) v rfl
    · intro h v hv
      rw [elementEq_self]
      intro w hw
      rw [hw] at hv
      exact h w ((mem_placeNulls array.length_data).mp hv)
  exact ⟨fun h => helements.mp h.elements, fun h => ⟨rfl, helements.mpr h⟩⟩

/-- No bit differs from itself. -/
theorem compareNulls_eq {bitmap : List UInt8} (rounds i : Nat)
    (hbits : i + rounds ≤ 8 * bitmap.length) :
    compareNulls rounds (bitmap.drop (i / 8)) (2 ^ (i % 8)) = .ok true := by
  induction rounds generalizing i with
  | zero => rfl
  | succ rounds ih =>
      have hlt : i / 8 < bitmap.length := by omega
      rw [List.drop_eq_getElem_cons hlt, compareNulls, ← List.drop_eq_getElem_cons hlt,
        next_bitmask, if_neg fun h => h.2 h.1]
      exact ih (i + 1) (by omega)

theorem compareNullbitmaps_self (array : ArrayType) :
    compareNullbitmaps (arrayGetNItems array.dims) array.nullbitmap array.nullbitmap =
      .ok true := by
  cases hbitmap : array.nullbitmap with
  | none => rfl
  | some bitmap =>
      have hbits := array.bitmap_le bitmap hbitmap
      exact compareNulls_eq (arrayGetNItems array.dims) 0 (by omega)

theorem length_data_le (array : ArrayType) :
    array.data.length ≤ arrayGetNItems array.dims := by
  have hlen : (presentElements (arrayGetNItems array.dims) array.nullbitmap).length =
      arrayGetNItems array.dims := by
    cases array.nullbitmap with
    | none => exact List.length_replicate
    | some bitmap => rw [presentElements, List.length_map, List.length_range]
  calc
    array.data.length = _ := array.length_data
    _ ≤ (presentElements (arrayGetNItems array.dims) array.nullbitmap).length :=
      List.count_le_length
    _ = _ := hlen

/-- The values read: those of the array, and as many behind them as elements are NULL. -/
theorem forall_vals_iff (pointer : ArrayPointer) (P : Float8 → Prop) :
    (∀ i < pointer.arrNItems, P (pointer.vals i)) ↔
      (∀ v ∈ pointer.array.data, P v) ∧
        ∀ i < pointer.arrNItems - pointer.array.data.length, P (pointer.behind i) := by
  have hle : pointer.array.data.length ≤ pointer.arrNItems := length_data_le pointer.array
  have hstored : ∀ i (hi : i < pointer.array.data.length),
      pointer.vals i = pointer.array.data[i] := by
    intro i hi
    unfold ArrayPointer.vals
    rw [List.getElem?_eq_getElem hi]
  have hbehind : ∀ i, pointer.vals (pointer.array.data.length + i) = pointer.behind i := by
    intro i
    unfold ArrayPointer.vals
    rw [List.getElem?_eq_none (by omega)]
    dsimp only
    rw [Nat.add_sub_cancel_left]
  constructor
  · intro h
    refine ⟨fun v hv => ?_, fun i hi => ?_⟩
    · have ⟨i, hi, hget⟩ := List.mem_iff_getElem.mp hv
      rw [← hget, ← hstored i hi]
      exact h i (by omega)
    · rw [← hbehind]
      exact h _ (by omega)
  · intro ⟨hdata, hnull⟩ i hi
    by_cases hlt : i < pointer.array.data.length
    · rw [hstored i hlt]
      exact hdata _ (List.getElem_mem hlt)
    · have hsplit : i = pointer.array.data.length + (i - pointer.array.data.length) := by omega
      rw [hsplit, hbehind]
      exact hnull _ (by omega)

/-! ## The comparison -/

/-- Two arrays at different places are different. -/
theorem float8arrEquals_apart {operands : ArrayOperands}
    (h : operands.left.address ≠ operands.right.address) :
    float8arrEquals operands = .ok false := by
  have hdims : operands.left.arrDims ≠ operands.right.arrDims := by
    unfold ArrayPointer.arrDims
    omega
  unfold float8arrEquals float8arrEqualsInternal
  exact if_pos (.inl hdims)

theorem float8arrEquals_same {operands : ArrayOperands}
    (h : operands.left.address = operands.right.address) :
    ∃ result, float8arrEquals operands = .ok result ∧
      (result = true ↔ ∀ i < operands.left.arrNItems, isNaN (operands.left.vals i) = false) := by
  have hsame : operands.right = operands.left := (operands.coherent h).symm
  unfold float8arrEquals float8arrEqualsInternal
  rw [hsame]
  dsimp only
  rw [if_neg (by simp), ArrayPointer.arrNItems, compareNullbitmaps_self, ok_bind, if_pos rfl]
  refine ⟨_, rfl, ?_⟩
  simp only [List.all_eq_true, List.mem_range, float8Eq_self, Bool.not_eq_true']

/-- Equality is decided for two arrays exactly if they are not equal, and for one array handed
over twice exactly if it has a NaN or no NaN is read behind its values. -/
theorem float8arrEquals_decides_iff (operands : ArrayOperands) :
    DecidesEquality operands ↔
      if operands.left.address = operands.right.address then
        (∃ v ∈ operands.left.array.data, isNaN v = true) ∨
          ∀ i < operands.left.arrNItems - operands.left.array.data.length,
            isNaN (operands.left.behind i) = false
      else ¬ ArrayEq operands.left.array operands.right.array := by
  unfold DecidesEquality
  by_cases h : operands.left.address = operands.right.address
  · have hsame : operands.right = operands.left := (operands.coherent h).symm
    have ⟨result, hresult, htrue⟩ := float8arrEquals_same h
    rw [if_pos h, hresult, hsame, arrayEq_self]
    rw [forall_vals_iff operands.left (fun v => isNaN v = false)] at htrue
    have hnan : (∃ v ∈ operands.left.array.data, isNaN v = true) ↔
        ¬ ∀ v ∈ operands.left.array.data, isNaN v = false := by simp
    rw [hnan]
    constructor
    · intro ⟨result', hresult', hiff⟩
      obtain rfl : result = result' := Except.ok.inj hresult'
      tauto
    · intro hcond
      exact ⟨result, rfl, by tauto⟩
  · rw [if_neg h, float8arrEquals_apart h]
    constructor
    · intro ⟨result, hresult, hiff⟩ heq
      have htrue := hiff.mpr heq
      rw [← Except.ok.inj hresult] at htrue
      cases htrue
    · intro hne
      exact ⟨false, rfl, iff_of_false (by simp) hne⟩

/-- The array `{5, 5, 7}` and a copy of it. -/
def copiedArray : ArrayOperands where
  left := ⟨0, plainArray [5, 5, 7] (by decide) (by decide), fun _ => 0⟩
  right := ⟨64, plainArray [5, 5, 7] (by decide) (by decide), fun _ => 0⟩
  coherent h := absurd h (show (0 : Nat) ≠ 64 by decide)

/-- An array without NaN is told apart from its copy. -/
theorem float8arrEquals_copy :
    (∀ v ∈ copiedArray.left.array.data, isNaN v = false) ∧
      copiedArray.right.array = copiedArray.left.array ∧
      float8arrEquals copiedArray = .ok false ∧ ¬ DecidesEquality copiedArray := by
  have hordinary : ∀ v ∈ ([5, 5, 7] : List Float8), isNaN v = false := by
    intro v hv
    have hcases : v = 5 ∨ v = 5 ∨ v = 7 := by simpa using hv
    rcases hcases with rfl | rfl | rfl <;> decide
  have happart : copiedArray.left.address ≠ copiedArray.right.address := by simp [copiedArray]
  have hfalse : float8arrEquals copiedArray = .ok false := float8arrEquals_apart happart
  refine ⟨hordinary, rfl, hfalse, ?_⟩
  rintro ⟨result, hresult, hiff⟩
  have htrue := hiff.mpr ((arrayEq_self _).mpr hordinary)
  rw [← Except.ok.inj (hfalse.symm.trans hresult)] at htrue
  cases htrue

end Madlib.Svec
