import Mathlib
import Madlib.Backend
import Madlib.Lib.MachineInt

/-!
# Arrays in the C++ abstraction layer

A C++ function keeps its transition state in one `float8[]`.  The fields of the state are
references and maps into that array, at offsets that are computed from a width the array holds
itself.  Taking the address of an element is checked against the size of the array, the extent of
a map is not.  The numbers are those of an ordered field, so arithmetic is exact.
-/

namespace Madlib.Dbal

open Madlib.Backend Madlib.Lib.MachineInt

/-- What is raised for a C++ exception with this text. -/
def thrown (what : String) : Fault := .elog what

/-- What is raised for `std::bad_alloc`. -/
def badAlloc : Fault :=
  thrown ("Memory allocation failed. Typically, this indicates that PostgreSQL limits the " ++
    "available memory to less than what is needed for this input.")

/-- `eigen_assert`, whose text also names the condition and the function. -/
def eigenAssert (cond : Prop) [Decidable cond] : Except Fault Unit :=
  if cond then .ok () else .error (thrown "Internal error. Eigen assertion failed")

/-- An index that is computed as an `int`. -/
@[irreducible] def intIndex (n : Nat) : Nat := sizeT (toInt32 n)

/-- A size that is computed as an `int` and returned as `uint32_t`. -/
@[irreducible] def uint32Size (n : Nat) : Nat := uint32 (toInt32 n)

section Storage

variable {α : Type}

/-- `mStorage[inIndex]` -/
def elementAt (storage : List α) (i : Nat) : Except Fault α :=
  match storage[i]? with
  | some x => .ok x
  | none => .error (thrown "Out-of-bounds array access detected.")

/-- `allocateArray<double>`, with an array header of 24 bytes and 16 bytes for the alignment. -/
def allocateArray [Zero α] (n : Nat) : Except Fault (List α) :=
  if (18446744073709551615 - 24) / 8 < n then .error badAlloc
  else if 18446744073709551615 - 16 < 8 * n + 24 then .error badAlloc
  else if maxAllocSize < 8 * n + 24 + 16 then .error badAlloc
  else .ok (List.replicate n 0)

/-- The elements a map of `n` elements stands for. -/
def mapAt (storage : List α) (offset n : Nat) : Except Fault (List α) :=
  if storage.length < offset + n then .error .outOfBounds
  else .ok ((storage.drop offset).take n)

/-- Each element grows by what is added at its place. -/
def plusEq [Add α] (storage : List α) (terms : Nat → α) : List α :=
  storage.mapIdx fun k a => a + terms k

/-- Something is added to the elements of a map of `n` elements. -/
def mapPlusEq [Add α] (storage : List α) (offset n : Nat) (terms : Nat → α) :
    Except Fault (List α) :=
  if storage.length < offset + n then .error .outOfBounds else .ok (plusEq storage terms)

/-- The elements of a map are assigned. -/
def mapAssign [Zero α] (storage : List α) (offset : Nat) (values : List α) :
    Except Fault (List α) :=
  if storage.length < offset + values.length then .error .outOfBounds
  else .ok (storage.mapIdx fun k a =>
    if offset ≤ k ∧ k < offset + values.length then values.getD (k - offset) 0 else a)

/-- All elements of a map of `n` elements are set to zero. -/
def fillZero [Zero α] (storage : List α) (offset n : Nat) : Except Fault (List α) :=
  if storage.length < offset + n then .error .outOfBounds
  else .ok (storage.mapIdx fun k a => if offset ≤ k ∧ k < offset + n then 0 else a)

/-- `dot` -/
def dot [NonUnitalNonAssocSemiring α] (x y : List α) : Except Fault α := do
  eigenAssert (x.length = y.length)
  pure (List.zipWith (fun a b => a * b) x y).sum

variable [Zero α]

/-- `x` at one index. -/
def scalarTerm (i : Nat) (x : α) (k : Nat) : α := if k = i then x else 0

/-- The elements of a vector from an offset on. -/
def vectorTerm (offset : Nat) (v : List α) (k : Nat) : α :=
  if offset ≤ k then v.getD (k - offset) 0 else 0

/-- The lower triangle of an `n` by `n` matrix that is stored column by column. -/
def lowerTerm (offset n : Nat) (entry : Nat → Nat → α) (k : Nat) : α :=
  if offset ≤ k ∧ k < offset + n * n ∧ (k - offset) / n ≤ (k - offset) % n then
    entry ((k - offset) % n) ((k - offset) / n)
  else 0

end Storage

/-! ## States with a width -/

section Layouts

variable {α : Type}

/-- A `double` converted to `uint16_t`. -/
def uint16 [Semiring α] [LinearOrder α] [FloorSemiring α] (x : α) : Nat := ⌊x⌋₊ % 65536

/-- A `double` converted to `uint64_t`, which has room for any number of rows. -/
def uint64 [Semiring α] [LinearOrder α] [FloorSemiring α] (x : α) : Nat := ⌊x⌋₊

/-- Where the width of a state is, how many elements are allocated for a width, the indices and
extents of the fields `rebind` binds, and which of them is the number of rows. -/
structure Layout where
  widthIndex : Nat
  arraySize : Nat → Nat
  fields : Nat → List (Nat × Nat)
  numRows : Nat → Nat

/-- The assignment of another state: as many elements are copied as this state has. -/
def assignFrom (storage other : List α) : Except Fault (List α) :=
  if other.length < storage.length then
    .error (thrown "Out-of-bounds array access detected.")
  else .ok (other.take storage.length)

namespace Layout

variable (layout : Layout)

/-- `rebind`, which takes the addresses of the fields. -/
def rebind (storage : List α) (inWidthOfX : Nat) : Except Fault Unit :=
  if (layout.fields inWidthOfX).all fun field => field.1 < storage.length then .ok ()
  else .error (thrown "Out-of-bounds array access detected.")

variable [Field α] [LinearOrder α] [FloorRing α]

/-- The constructor of a state; its width is returned. -/
def construct (storage : List α) : Except Fault Nat := do
  let width ← elementAt storage layout.widthIndex
  layout.rebind storage (uint16 width)
  pure (uint16 width)

/-- `initialize` for a row of `size` elements, a number that is converted to `uint16_t`. -/
def initializeState (size : Nat) : Except Fault (List α × Nat) := do
  let storage ← allocateArray (layout.arraySize (size % 65536))
  layout.rebind storage (size % 65536)
  pure (storage.set layout.widthIndex ((size % 65536 : Nat) : α), size % 65536)

/-- Where a transition function starts from: the state, or what the first row makes of it. -/
def start (state : List α) (first : Except Fault (List α × Nat)) : Except Fault (List α × Nat) := do
  let width ← layout.construct state
  let numRows ← elementAt state (layout.numRows width)
  if numRows = 0 then first else pure (state, width)

/-- What the first row of an iteration makes of the initial state: the previous state, if there
is one, is copied into a new one, whose intra-iteration fields are reset. -/
def initializeFrom (reset : List α → Nat → Except Fault (List α)) (previous : Option (List α))
    (size : Nat) : Except Fault (List α × Nat) := do
  let fresh ← layout.initializeState size
  match previous with
  | none => pure fresh
  | some previousState => do
      let _ ← layout.construct previousState
      let storage ← assignFrom fresh.1 previousState
      let storage ← reset storage fresh.2
      pure (storage, fresh.2)

/-- The functions that merge two states: an empty one leaves the other as it is. -/
def mergeStates (plusEqState : Nat → Nat → List α → List α → Except Fault (List α))
    (stateLeft stateRight : List α) : Except Fault (List α) := do
  let widthLeft ← layout.construct stateLeft
  let widthRight ← layout.construct stateRight
  let numRowsLeft ← elementAt stateLeft (layout.numRows widthLeft)
  let numRowsRight ← elementAt stateRight (layout.numRows widthRight)
  if numRowsLeft = 0 then pure stateRight
  else if ⌊numRowsRight⌋₊ = 0 then pure stateLeft
  else plusEqState widthLeft widthRight stateLeft stateRight

end Layout

end Layouts

/-! ## Elements -/

section Elements

variable {α : Type}

theorem elementAt_eq_ok {storage : List α} {i : Nat} {x : α} (h : storage[i]? = some x) :
    elementAt storage i = .ok x := by
  unfold elementAt
  rw [h]

theorem eigenAssert_true {cond : Prop} [Decidable cond] (h : cond) : eigenAssert cond = .ok () := by
  unfold eigenAssert
  rw [if_pos h]

theorem eigenAssert_eq_ok {cond : Prop} [Decidable cond] {u : Unit}
    (h : eigenAssert cond = .ok u) : cond := by
  unfold eigenAssert at h
  split at h
  case isTrue hcond => exact hcond
  case isFalse => cases h

theorem allocateArray_ok [Zero α] {n : Nat} (h : 8 * n + 40 ≤ maxAllocSize) :
    allocateArray n = .ok (List.replicate n (0 : α)) := by
  have hmax : maxAllocSize = 1073741823 := rfl
  unfold allocateArray
  rw [if_neg (by omega), if_neg (by omega), if_neg (by omega)]

theorem allocateArray_eq_ok [Zero α] {n : Nat} {storage : List α}
    (h : allocateArray n = .ok storage) :
    8 * n + 40 ≤ maxAllocSize ∧ storage = List.replicate n 0 := by
  unfold allocateArray at h
  split at h
  case isTrue => cases h
  case isFalse =>
    split at h
    case isTrue => cases h
    case isFalse =>
      split at h
      case isTrue => cases h
      case isFalse hsize =>
        cases h
        exact ⟨by omega, rfl⟩

/-- An index below 2^31 is the number it is computed from. -/
theorem intIndex_of_lt {n : Nat} (h : n < 2147483648) : intIndex n = n := by
  unfold intIndex sizeT
  rw [toInt32_of_mem (by omega) (by omega)]
  omega

/-- What wraps around to a negative `int` is no index of an array that can be allocated. -/
theorem lt_of_intIndex_le {n : Nat} (hn : n < 4294967296)
    (h : 8 * intIndex n + 40 ≤ maxAllocSize) : n < 2147483648 := by
  have hmax : maxAllocSize = 1073741823 := rfl
  by_contra hge
  unfold intIndex sizeT toInt32 wrapAt at h
  omega

theorem uint32Size_eq (n : Nat) : uint32Size n = n % 4294967296 := by
  unfold uint32Size uint32 toInt32 wrapAt
  omega

variable [AddMonoid α] {storage : List α} {f g : Nat → α}

@[simp] theorem length_plusEq : (plusEq storage f).length = storage.length :=
  List.length_mapIdx

theorem getElem?_plusEq (k : Nat) : (plusEq storage f)[k]? = storage[k]?.map (· + f k) :=
  List.getElem?_mapIdx

theorem plusEq_plusEq : plusEq (plusEq storage f) g = plusEq storage fun k => f k + g k := by
  apply List.ext_getElem?
  intro k
  rw [getElem?_plusEq, getElem?_plusEq, getElem?_plusEq, Option.map_map]
  congr 1
  funext a
  exact add_assoc a (f k) (g k)

theorem mapPlusEq_ok {offset n : Nat} (h : offset + n ≤ storage.length) :
    mapPlusEq storage offset n f = .ok (plusEq storage f) := by
  unfold mapPlusEq
  rw [if_neg (Nat.not_lt.mpr h)]

theorem mapPlusEq_eq_ok {offset n : Nat} {storage' : List α}
    (h : mapPlusEq storage offset n f = .ok storage') :
    offset + n ≤ storage.length ∧ storage' = plusEq storage f := by
  unfold mapPlusEq at h
  split at h
  case isTrue => cases h
  case isFalse hle =>
    cases h
    exact ⟨Nat.le_of_not_lt hle, rfl⟩

/-- An element nothing is added to stays as it is. -/
theorem getElem?_plusEq_zero {k : Nat} (h : f k = 0) : (plusEq storage f)[k]? = storage[k]? := by
  rw [getElem?_plusEq, h]
  simp only [add_zero, Option.map_id']

end Elements

/-! ## Maps -/

section Maps

variable {α : Type} {storage values : List α} {offset n : Nat}

theorem mapAt_ok (h : offset + n ≤ storage.length) :
    mapAt storage offset n = .ok ((storage.drop offset).take n) := by
  unfold mapAt
  rw [if_neg (Nat.not_lt.mpr h)]

theorem mapAt_eq_ok (h : mapAt storage offset n = .ok values) :
    offset + n ≤ storage.length ∧ values = (storage.drop offset).take n := by
  unfold mapAt at h
  split at h
  case isTrue => cases h
  case isFalse hle =>
    cases h
    exact ⟨Nat.le_of_not_lt hle, rfl⟩

theorem length_of_mapAt (h : mapAt storage offset n = .ok values) : values.length = n := by
  obtain ⟨hle, hvalues⟩ := mapAt_eq_ok h
  rw [hvalues, List.length_take, List.length_drop]
  omega

theorem getElem?_mapElements (storage : List α) (offset n i : Nat) :
    ((storage.drop offset).take n)[i]? = if i < n then storage[offset + i]? else none := by
  rw [List.getElem?_take, List.getElem?_drop]

theorem fillZero_ok [Zero α] (h : offset + n ≤ storage.length) :
    fillZero storage offset n =
      .ok (storage.mapIdx fun k a => if offset ≤ k ∧ k < offset + n then 0 else a) := by
  unfold fillZero
  rw [if_neg (Nat.not_lt.mpr h)]

theorem mapAssign_ok [Zero α] (h : offset + values.length ≤ storage.length) :
    mapAssign storage offset values = .ok (storage.mapIdx fun k a =>
      if offset ≤ k ∧ k < offset + values.length then values.getD (k - offset) 0 else a) := by
  unfold mapAssign
  rw [if_neg (Nat.not_lt.mpr h)]

theorem dot_ok [NonUnitalNonAssocSemiring α] {x y : List α} (h : x.length = y.length) :
    dot x y = .ok (List.zipWith (fun a b => a * b) x y).sum := by
  unfold dot
  rw [eigenAssert_true h, ok_bind]
  rfl

theorem length_of_dot [NonUnitalNonAssocSemiring α] {x y : List α} {a : α}
    (h : dot x y = .ok a) : x.length = y.length := by
  unfold dot at h
  obtain ⟨u, hassert, _⟩ := bind_eq_ok.mp h
  exact eigenAssert_eq_ok hassert

theorem mapElements_congr (h : ∀ k, offset ≤ k → k < offset + n → storage[k]? = values[k]?) :
    (storage.drop offset).take n = (values.drop offset).take n := by
  apply List.ext_getElem?
  intro i
  rw [getElem?_mapElements, getElem?_mapElements]
  by_cases hi : i < n
  · rw [if_pos hi, if_pos hi, h _ (by omega) (by omega)]
  · rw [if_neg hi, if_neg hi]

theorem set_eq_mapIdx {i : Nat} {a : α} :
    storage.set i a = storage.mapIdx fun k b => if k = i then a else b := by
  apply List.ext_getElem?
  intro k
  rw [List.getElem?_set, List.getElem?_mapIdx]
  by_cases hk : i = k
  · subst hk
    simp only
    by_cases hlt : i < storage.length
    · rw [if_pos hlt, List.getElem?_eq_getElem hlt]
      rfl
    · rw [if_neg hlt, List.getElem?_eq_none (Nat.le_of_not_lt hlt)]
      rfl
  · rw [if_neg hk]
    simp only [if_neg (Ne.symm hk), Option.map_id']

end Maps

/-! ## Terms -/

section Terms

variable {α : Type} [Zero α] {offset n k : Nat}

theorem scalarTerm_self (i : Nat) (x : α) : scalarTerm i x i = x := if_pos rfl

theorem scalarTerm_ne {i : Nat} {x : α} (h : k ≠ i) : scalarTerm i x k = 0 := if_neg h

theorem vectorTerm_lt {v : List α} (h : k < offset) : vectorTerm offset v k = 0 :=
  if_neg (Nat.not_le.mpr h)

theorem vectorTerm_add (v : List α) (i : Nat) : vectorTerm offset v (offset + i) = v.getD i 0 := by
  unfold vectorTerm
  rw [if_pos (Nat.le_add_right offset i), Nat.add_sub_cancel_left]

theorem vectorTerm_ge {v : List α} (h : offset + v.length ≤ k) : vectorTerm offset v k = 0 := by
  unfold vectorTerm
  rw [if_pos (by omega), List.getD_eq_default _ _ (by omega)]

theorem lowerTerm_lt {entry : Nat → Nat → α} (h : k < offset) :
    lowerTerm offset n entry k = 0 := if_neg fun hk => absurd hk.1 (Nat.not_le.mpr h)

theorem lowerTerm_ge {entry : Nat → Nat → α} (h : offset + n * n ≤ k) :
    lowerTerm offset n entry k = 0 := if_neg fun hk => absurd hk.2.1 (Nat.not_lt.mpr h)

/-- The element in row `i` and column `j`. -/
theorem lowerTerm_entry {entry : Nat → Nat → α} {i j : Nat} (hi : i < n) (hj : j < n) :
    lowerTerm offset n entry (offset + (j * n + i)) = if j ≤ i then entry i j else 0 := by
  have hend : j * n + n ≤ n * n := by
    rw [← Nat.succ_mul]
    exact Nat.mul_le_mul_right n (by omega)
  have hdiv : (j * n + i) / n = j := by
    rw [Nat.mul_comm, Nat.mul_add_div (by omega), Nat.div_eq_of_lt hi, Nat.add_zero]
  have hmod : (j * n + i) % n = i := by
    rw [Nat.mul_comm, Nat.mul_add_mod, Nat.mod_eq_of_lt hi]
  unfold lowerTerm
  rw [Nat.add_sub_cancel_left, hdiv, hmod]
  exact if_congr (by omega) rfl rfl

theorem lowerTerm_add {entry : Nat → Nat → α} {i j : Nat} (hji : j ≤ i) (hi : i < n) :
    lowerTerm offset n entry (offset + (j * n + i)) = entry i j := by
  rw [lowerTerm_entry hi (by omega), if_pos hji]

end Terms

/-! ## Parts of another state -/

section Parts

variable {α : Type} [AddMonoid α] {storage other : List α} {offset n k : Nat} {f g : Nat → α}

/-- The elements of a map of `n` elements, at their places. -/
def mapTerm (other : List α) (offset n k : Nat) : α :=
  if offset ≤ k ∧ k < offset + n then other.getD k 0 else 0

theorem vectorTerm_map :
    vectorTerm offset ((other.drop offset).take n) k = mapTerm other offset n k := by
  unfold vectorTerm mapTerm
  by_cases hlo : offset ≤ k
  · rw [if_pos hlo, List.getD_eq_getElem?_getD, getElem?_mapElements, Nat.add_sub_cancel' hlo]
    by_cases hhi : k - offset < n
    · rw [if_pos hhi, if_pos ⟨hlo, by omega⟩, List.getD_eq_getElem?_getD]
    · rw [if_neg hhi, if_neg (by omega)]
      rfl
  · rw [if_neg hlo, if_neg fun h => hlo h.1]

theorem scalarTerm_elementAt {a : α} (h : other[offset]? = some a) :
    scalarTerm offset a k = mapTerm other offset 1 k := by
  unfold scalarTerm mapTerm
  by_cases hk : k = offset
  · rw [if_pos hk, if_pos (by omega), List.getD_eq_getElem?_getD, hk, h]
    rfl
  · rw [if_neg hk, if_neg (by omega)]

/-- Two maps that follow each other are one map. -/
theorem mapTerm_add {next m : Nat} (hnext : next = offset + n) :
    mapTerm other offset n k + mapTerm other next m k = mapTerm other offset (n + m) k := by
  unfold mapTerm
  rcases Nat.lt_or_ge k next with hlt | hge
  · rw [if_neg (c := next ≤ k ∧ k < next + m) (by omega), add_zero]
    exact if_congr (by omega) rfl rfl
  · rw [if_neg (c := offset ≤ k ∧ k < offset + n) (by omega), zero_add]
    exact if_congr (by omega) rfl rfl

theorem plusEq_congr (h : ∀ k, k < storage.length → f k = g k) :
    plusEq storage f = plusEq storage g := by
  apply List.ext_getElem?
  intro k
  rw [getElem?_plusEq, getElem?_plusEq]
  by_cases hk : k < storage.length
  · rw [h k hk]
  · rw [List.getElem?_eq_none (Nat.le_of_not_lt hk)]
    rfl

/-- What is added elsewhere does not change the elements of a map. -/
theorem mapElements_plusEq (h : ∀ k, offset ≤ k → k < offset + n → f k = 0) :
    ((plusEq storage f).drop offset).take n = (storage.drop offset).take n := by
  apply mapElements_congr
  intro k hlo hhi
  exact getElem?_plusEq_zero (h k hlo hhi)

end Parts

/-! ## Widths -/

section Widths

variable {α : Type} {layout : Layout} {w len : Nat}

/-- `len` elements can be allocated for the width `w`, and every field lies within them. -/
structure Layout.Fits (layout : Layout) (w len : Nat) : Prop where
  width_lt : w < 65536
  size_eq : layout.arraySize w = len
  allocates : 8 * len + 40 ≤ maxAllocSize
  widthIndex_lt : layout.widthIndex < len
  numRows_lt : layout.numRows w < len
  field_lt : ∀ field ∈ layout.fields w, field.1 < len
  field_le : ∀ field ∈ layout.fields w, field.1 + field.2 ≤ len

theorem lt_of_mul_self_lt {n : Nat} (h : w * w < n * n) : w < n := by
  by_contra hge
  have hle := Nat.mul_le_mul (Nat.le_of_not_lt hge) (Nat.le_of_not_lt hge)
  omega

theorem Layout.Fits.of_fields (hsize : layout.arraySize w = len)
    (halloc : 8 * len + 40 ≤ maxAllocSize) (hsq : w * w < 65536 * 65536)
    (hwidth : layout.widthIndex < len) (hnumRows : layout.numRows w < len)
    (hfields : ∀ field ∈ layout.fields w, field.1 < len ∧ field.1 + field.2 ≤ len) :
    layout.Fits w len where
  width_lt := lt_of_mul_self_lt hsq
  size_eq := hsize
  allocates := halloc
  widthIndex_lt := hwidth
  numRows_lt := hnumRows
  field_lt := fun field hfield => (hfields field hfield).1
  field_le := fun field hfield => (hfields field hfield).2

theorem Layout.rebind_ok {storage : List α}
    (h : ∀ field ∈ layout.fields w, field.1 < storage.length) :
    layout.rebind storage w = .ok () := by
  have hall : ((layout.fields w).all fun field => decide (field.1 < storage.length)) = true := by
    rw [List.all_eq_true]
    exact fun field hfield => decide_eq_true (h field hfield)
  unfold Layout.rebind
  rw [if_pos hall]

theorem Layout.rebind_error {storage : List α} {field : Nat × Nat}
    (hfield : field ∈ layout.fields w) (h : storage.length ≤ field.1) :
    layout.rebind storage w = .error (thrown "Out-of-bounds array access detected.") := by
  have hnot : ((layout.fields w).all fun field => decide (field.1 < storage.length)) ≠ true := by
    intro hall
    have hlt := of_decide_eq_true (List.all_eq_true.mp hall field hfield)
    omega
  unfold Layout.rebind
  rw [if_neg hnot]

theorem Layout.rebind_eq_ok {storage : List α} {u : Unit} (h : layout.rebind storage w = .ok u) :
    ∀ field ∈ layout.fields w, field.1 < storage.length := by
  unfold Layout.rebind at h
  split at h
  case isTrue hall =>
    rw [List.all_eq_true] at hall
    exact fun field hfield => of_decide_eq_true (hall field hfield)
  case isFalse => cases h

theorem assignFrom_eq_ok {storage other copied : List α} (h : assignFrom storage other = .ok copied) :
    storage.length ≤ other.length ∧ copied = other.take storage.length := by
  unfold assignFrom at h
  split at h
  case isTrue => cases h
  case isFalse hlength =>
    cases h
    exact ⟨Nat.le_of_not_lt hlength, rfl⟩

variable [Field α]

/-- A state of this width, with all the elements of its layout. -/
structure Layout.Holds (layout : Layout) (w len : Nat) (storage : List α) : Prop where
  length_eq : storage.length = len
  width_eq : storage[layout.widthIndex]? = some (w : α)

theorem Layout.Fits.holds_initial (h : layout.Fits w len) :
    layout.Holds w len ((List.replicate len (0 : α)).set layout.widthIndex (w : α)) := by
  constructor
  · rw [List.length_set, List.length_replicate]
  · rw [List.getElem?_set_self (by rw [List.length_replicate]; exact h.widthIndex_lt)]

/-- A new state is zero but for its width. -/
theorem Layout.Fits.initializeState (h : layout.Fits w len) {size : Nat} (hsize : size = w) :
    layout.initializeState size =
      .ok ((List.replicate len (0 : α)).set layout.widthIndex (w : α), w) := by
  have hmod : size % 65536 = w := by
    rw [hsize, Nat.mod_eq_of_lt h.width_lt]
  have hrebind : layout.rebind (List.replicate len (0 : α)) w = .ok () := by
    apply Layout.rebind_ok
    rw [List.length_replicate]
    exact h.field_lt
  unfold Layout.initializeState
  rw [hmod, h.size_eq, allocateArray_ok h.allocates, ok_bind, hrebind, ok_bind]
  rfl

theorem Layout.initializeState_eq_ok {size : Nat} {fresh : List α × Nat}
    (h : layout.initializeState size = .ok fresh) :
    8 * layout.arraySize (size % 65536) + 40 ≤ maxAllocSize ∧
      (∀ field ∈ layout.fields (size % 65536), field.1 < layout.arraySize (size % 65536)) ∧
      fresh.2 = size % 65536 ∧ fresh.1.length = layout.arraySize (size % 65536) := by
  unfold Layout.initializeState at h
  obtain ⟨storage, hstorage, hrest⟩ := bind_eq_ok.mp h
  obtain ⟨u, hrebind, hfresh⟩ := bind_eq_ok.mp hrest
  obtain ⟨halloc, hzero⟩ := allocateArray_eq_ok hstorage
  have hfields := Layout.rebind_eq_ok hrebind
  rw [hzero, List.length_replicate] at hfields
  cases hfresh
  refine ⟨halloc, hfields, rfl, ?_⟩
  rw [List.length_set, hzero, List.length_replicate]

variable [LinearOrder α] [FloorRing α]

/-- What is known when a state was made of the first row. -/
theorem Layout.initializeFrom_eq_ok {reset : List α → Nat → Except Fault (List α)}
    {previous : Option (List α)} {size : Nat} {started : List α × Nat}
    (h : layout.initializeFrom reset previous size = .ok started) :
    started.2 = size % 65536 ∧ ∃ fresh, layout.initializeState size = .ok fresh ∧
      (previous = none → started = fresh) ∧
      ∀ state, previous = some state → ∃ p, layout.construct state = .ok p ∧
        fresh.1.length ≤ state.length ∧
        reset (state.take fresh.1.length) (size % 65536) = .ok started.1 := by
  unfold Layout.initializeFrom at h
  obtain ⟨fresh, hfresh, hrest⟩ := bind_eq_ok.mp h
  have hwidth := (Layout.initializeState_eq_ok hfresh).2.2.1
  cases previous with
  | none =>
      cases hrest
      exact ⟨hwidth, _, hfresh, fun _ => rfl, fun _ hstate => absurd hstate.symm (Option.some_ne_none _)⟩
  | some state =>
      obtain ⟨p, hconstruct, hrest⟩ := bind_eq_ok.mp hrest
      obtain ⟨copied, hcopied, hrest⟩ := bind_eq_ok.mp hrest
      obtain ⟨storage, hstorage, hstarted⟩ := bind_eq_ok.mp hrest
      obtain ⟨hlength, hcopy⟩ := assignFrom_eq_ok hcopied
      cases hstarted
      rw [hcopy, hwidth] at hstorage
      refine ⟨hwidth, fresh, hfresh, (fun hnone => absurd hnone (Option.some_ne_none state)), ?_⟩
      rintro _ ⟨⟩
      exact ⟨p, hconstruct, hlength, hstorage⟩

/-- What is known when the constructor returned. -/
theorem Layout.construct_eq_ok {storage : List α} {v : α} {p : Nat}
    (hwidth : storage[layout.widthIndex]? = some v) (h : layout.construct storage = .ok p) :
    p = uint16 v ∧ ∀ field ∈ layout.fields p, field.1 < storage.length := by
  unfold Layout.construct at h
  rw [elementAt_eq_ok hwidth, ok_bind] at h
  obtain ⟨u, hrebind, hp⟩ := bind_eq_ok.mp h
  cases hp
  exact ⟨rfl, Layout.rebind_eq_ok hrebind⟩

variable [IsStrictOrderedRing α]

theorem uint16_natCast (h : w < 65536) : uint16 (w : α) = w := by
  unfold uint16
  rw [Nat.floor_natCast, Nat.mod_eq_of_lt h]

theorem Layout.Fits.construct (h : layout.Fits w len) {storage : List α}
    (hholds : layout.Holds w len storage) : layout.construct storage = .ok w := by
  have hrebind : layout.rebind storage w = .ok () := by
    apply Layout.rebind_ok
    rw [hholds.length_eq]
    exact h.field_lt
  unfold Layout.construct
  rw [elementAt_eq_ok hholds.width_eq, ok_bind, uint16_natCast h.width_lt, hrebind, ok_bind]
  rfl

end Widths

end Madlib.Dbal
