import Madlib.ArrayOps.Datum
import Madlib.Svec.ArrayCast

/-!
# Reductions of an array

`General_Array_to_Element` folds the elements of an array into one word.  NULLs have a bit but no
element, and the bitmap is only advanced behind an element: from the first NULL on, the loop looks
at its bit again and takes everything for NULL.
-/

namespace Madlib.ArrayOps

open Madlib.Backend Madlib.Lib Madlib.Svec

variable {α : Type}

/-- An array of the backend with the elements that are not NULL. -/
structure StoredArray (α : Type) where
  elementType : ElementType
  dims : List Nat
  nullbitmap : Option (List UInt8)
  data : List (Datum α)
  dims_pos : ∀ n ∈ dims, 0 < n
  bitmap_le : ∀ bitmap, nullbitmap = some bitmap → arrayGetNItems dims ≤ 8 * bitmap.length
  length_data : data.length = (presentElements (arrayGetNItems dims) nullbitmap).count true

/-- An element function is given an element, the word `exta_val` and the result so far. -/
abbrev ElementFunction (α : Type) :=
  ElementType → Datum α → Datum α × Datum α → Except Fault (Datum α × Datum α)

section Loops

variable (element : Datum α → Datum α × Datum α → Except Fault (Datum α × Datum α))

/-- The remaining rounds of the loop over an array with a bitmap. -/
def nullRounds : Nat → List UInt8 → Nat → List (Datum α) → Datum α × Datum α → Nat →
    Except Fault ((Datum α × Datum α) × Nat)
  | 0, _, _, _, s, nullCount => .ok (s, nullCount)
  | _ + 1, [], _, _, _, _ => .error .outOfBounds
  | rounds + 1, b :: bitmap, bitmask, dat, s, nullCount =>
      if b.toNat &&& bitmask = 0 then
        nullRounds rounds (b :: bitmap) bitmask dat s (nullCount + 1)
      else
        match dat with
        | [] => .error .outOfBounds
        | elt :: dat => do
            let s ← element elt s
            let next := if 2 * bitmask = 0x100 then (bitmap, 1) else (b :: bitmap, 2 * bitmask)
            nullRounds rounds next.1 next.2 dat s nullCount

/-- The remaining rounds of the loop over an array without one. -/
def plainRounds : Nat → List (Datum α) → Datum α × Datum α → Except Fault (Datum α × Datum α)
  | 0, _, s => .ok s
  | _ + 1, [], _ => .error .outOfBounds
  | rounds + 1, elt :: dat, s => do
      let s ← element elt s
      plainRounds rounds dat s

end Loops

section Program

variable [Field α]

/-- The result before the loop. -/
def initialResult (type : ElementType) (flag : Int) : Except Fault (Datum α) :=
  if flag = 0 then
    match type with
    | .int2 => .ok (int16GetDatum 0)
    | .int4 => .ok (int32GetDatum 0)
    | .int8 => .ok (int64GetDatum 0)
    | .float4 => .ok (.float4 (.finite 0))
    | .float8 => .ok (.float8 (.finite 0))
    | .other _ => .error typeNotSupported
  else .ok (.float8 (.finite 0))

/-- `General_Array_to_Element` -/
def generalArrayToElement (v : StoredArray α) (extaVal : Datum α) (element : ElementFunction α)
    (finalize : Datum α → Nat → Datum α) (flag : Int) : Except Fault (Datum α) :=
  if v.dims = [] then .ok (.word 0)
  else do
    let nitems := arrayGetNItems v.dims
    let result ← initialResult v.elementType flag
    match v.nullbitmap with
    | some bitmap => do
        let ((_, result), nullCount) ←
          nullRounds (element v.elementType) nitems bitmap 1 v.data (extaVal, result) 0
        pure (finalize result (nitems - nullCount))
    | none => do
        let (_, result) ← plainRounds (element v.elementType) nitems v.data (extaVal, result)
        pure (finalize result nitems)

variable [LinearOrder α] (formats : Formats α)

def elementSum : ElementFunction α := fun type elt s => do
  let result ← compute formats type (fun get => get elt + get s.2)
    (fun get => (get elt).add (get s.2))
  pure (s.1, result)

def elementDiff : ElementFunction α := fun type elt s => do
  let result ← compute formats type
    (fun get => get s.2 + (get elt - get s.1) * (get elt - get s.1))
    (fun get => (get s.2).add (((get elt).sub (get s.1)).mul ((get elt).sub (get s.1))))
  pure (s.1, result)

/-- The word `exta_val` tells whether there has been an element before. -/
def elementExtreme (before : ElementType → Datum α → Datum α → Except Fault Bool) :
    ElementFunction α := fun type elt s =>
  if datumGetInt16 formats s.1 = 0 then .ok (int16GetDatum 1, elt)
  else do
    let replaces ← before type elt s.2
    pure (s.1, if replaces then elt else s.2)

def noopFinalize (elt : Datum α) (_ : Nat) : Datum α := elt

def averageFinalize (elt : Datum α) (size : Nat) : Datum α :=
  .float8 ((datumGetFloat8 formats elt).div (.finite size))

def averageRootFinalize (sqrt : Extended α → Extended α) (elt : Datum α) (size : Nat) : Datum α :=
  .float8 (sqrt ((datumGetFloat8 formats elt).div (.finite size)))

def arraySum (v : StoredArray α) : Except Fault (Datum α) :=
  generalArrayToElement v (int16GetDatum 0) (elementSum formats) noopFinalize 0

def arraySumBig (v : StoredArray α) : Except Fault (Datum α) :=
  generalArrayToElement v (int16GetDatum 0) (elementSum formats) noopFinalize 1

def arrayMean (v : StoredArray α) : Except Fault (Datum α) :=
  generalArrayToElement v (int16GetDatum 0) (elementSum formats) (averageFinalize formats) 1

def arrayStddev (sqrt : Extended α → Extended α) (v : StoredArray α) : Except Fault (Datum α) := do
  let mean ← generalArrayToElement v (.float8 (.finite 0)) (elementSum formats)
    (averageFinalize formats) 1
  generalArrayToElement v mean (elementDiff formats) (averageRootFinalize formats sqrt) 1

def elementMin : ElementFunction α :=
  elementExtreme formats fun type elt result => compareBy formats type elt result

def elementMax : ElementFunction α :=
  elementExtreme formats fun type elt result => compareBy formats type result elt

def arrayMin (v : StoredArray α) : Except Fault (Datum α) :=
  generalArrayToElement v (int16GetDatum 0) (elementMin formats) noopFinalize 0

def arrayMax (v : StoredArray α) : Except Fault (Datum α) :=
  generalArrayToElement v (int16GetDatum 0) (elementMax formats) noopFinalize 0

end Program

/-! ## The loop -/

section Loops

variable (element : Datum α → Datum α × Datum α → Except Fault (Datum α × Datum α))
  {bitmap : List UInt8} {dat : List (Datum α)} {s : Datum α × Datum α}

/-- Behind a NULL nothing changes any more. -/
theorem nullRounds_stuck {b : UInt8} {bitmask : Nat} (h : b.toNat &&& bitmask = 0)
    (rounds nullCount : Nat) :
    nullRounds element rounds (b :: bitmap) bitmask dat s nullCount =
      .ok (s, nullCount + rounds) := by
  induction rounds generalizing nullCount with
  | zero => rfl
  | succ rounds ih =>
      unfold nullRounds
      rw [if_pos h, ih, Nat.add_right_comm, Nat.add_assoc]

/-- How many elements stand in front of the first NULL. -/
def frontLength (present : List Bool) : Nat := (present.takeWhile id).length

theorem nullRounds_eq (rounds i nullCount : Nat) (hbits : i + rounds ≤ 8 * bitmap.length)
    (hdat : frontLength ((List.range' i rounds).map (bitmapBit bitmap)) ≤ dat.length) :
    nullRounds element rounds (bitmap.drop (i / 8)) (2 ^ (i % 8)) dat s nullCount =
      (dat.take (frontLength ((List.range' i rounds).map (bitmapBit bitmap)))).foldlM
        (fun s elt => element elt s) s >>= fun s =>
          .ok (s, nullCount +
            (rounds - frontLength ((List.range' i rounds).map (bitmapBit bitmap)))) := by
  induction rounds generalizing i dat s with
  | zero => rfl
  | succ rounds ih =>
      have hlt : i / 8 < bitmap.length := by omega
      have hget : bitmap[i / 8]? = some bitmap[i / 8] := List.getElem?_eq_getElem hlt
      rw [List.range'_succ, List.map_cons] at hdat ⊢
      cases hbit : bitmapBit bitmap i with
      | false =>
          have hnull := (and_bitmask_eq_zero hget).mpr hbit
          rw [List.drop_eq_getElem_cons hlt, nullRounds_stuck _ hnull]
          rfl
      | true =>
          rw [hbit] at hdat
          have hfront : frontLength (true :: (List.range' (i + 1) rounds).map (bitmapBit bitmap)) =
              frontLength ((List.range' (i + 1) rounds).map (bitmapBit bitmap)) + 1 := rfl
          rw [hfront] at hdat ⊢
          cases dat with
          | nil => exact absurd hdat (Nat.not_succ_le_zero _)
          | cons elt dat =>
              have hset : ¬bitmap[i / 8].toNat &&& 2 ^ (i % 8) = 0 := by
                rw [and_bitmask_eq_zero hget, hbit]
                simp
              rw [List.drop_eq_getElem_cons hlt, nullRounds, if_neg hset,
                ← List.drop_eq_getElem_cons hlt, next_bitmask, List.take_succ_cons,
                List.foldlM_cons, bind_assoc, Nat.add_sub_add_right]
              dsimp only
              congr 1
              funext s'
              exact ih (i + 1) (by omega) (Nat.le_of_succ_le_succ hdat)

theorem plainRounds_eq (rounds : Nat) (h : dat.length = rounds) :
    plainRounds element rounds dat s = dat.foldlM (fun s elt => element elt s) s := by
  induction rounds generalizing dat s with
  | zero =>
      rw [List.eq_nil_of_length_eq_zero h]
      rfl
  | succ rounds ih =>
      obtain ⟨elt, dat, rfl⟩ := List.exists_cons_of_length_eq_add_one h
      rw [plainRounds, List.foldlM_cons]
      congr 1
      funext s'
      exact ih (Nat.succ.inj h)

end Loops

namespace StoredArray

/-- The elements in front of the first NULL. -/
def front (v : StoredArray α) : List (Datum α) :=
  v.data.take (frontLength (presentElements (arrayGetNItems v.dims) v.nullbitmap))

theorem frontLength_le_count (present : List Bool) :
    frontLength present ≤ present.count true := by
  induction present with
  | nil => exact le_refl 0
  | cons b present ih =>
      cases b with
      | false => exact Nat.zero_le _
      | true =>
          rw [List.count_cons_self]
          exact Nat.succ_le_succ ih

theorem frontLength_le_length (present : List Bool) : frontLength present ≤ present.length :=
  (frontLength_le_count present).trans List.count_le_length

theorem length_front (v : StoredArray α) :
    v.front.length = frontLength (presentElements (arrayGetNItems v.dims) v.nullbitmap) := by
  rw [front, List.length_take, v.length_data, Nat.min_eq_left (frontLength_le_count _)]

theorem frontLength_replicate (n : Nat) : frontLength (List.replicate n true) = n := by
  simp [frontLength]

end StoredArray

theorem front_of_none {v : StoredArray α} (hnull : v.nullbitmap = none) : v.front = v.data := by
  have hlength := v.length_data
  rw [hnull, presentElements, List.count_replicate_self] at hlength
  rw [StoredArray.front, hnull, presentElements, StoredArray.frontLength_replicate, ← hlength,
    List.take_length]

/-- Only the elements in front of the first NULL are folded, and counted. -/
theorem generalArrayToElement_eq [Field α] {v : StoredArray α} (hdims : v.dims ≠ [])
    (extaVal : Datum α) (element : ElementFunction α) (finalize : Datum α → Nat → Datum α)
    (flag : Int) :
    generalArrayToElement v extaVal element finalize flag = (do
      let result ← initialResult v.elementType flag
      let s ← v.front.foldlM (fun s elt => element v.elementType elt s) (extaVal, result)
      pure (finalize s.2 v.front.length)) := by
  have hlength := v.length_data
  unfold generalArrayToElement
  rw [if_neg hdims, StoredArray.length_front, StoredArray.front]
  dsimp only
  congr 1
  funext result
  cases hbitmap : v.nullbitmap with
  | some bitmap =>
      have hbits : 0 + arrayGetNItems v.dims ≤ 8 * bitmap.length := by
        rw [Nat.zero_add]
        exact v.bitmap_le bitmap hbitmap
      have hpresent : presentElements (arrayGetNItems v.dims) (some bitmap) =
          (List.range' 0 (arrayGetNItems v.dims)).map (bitmapBit bitmap) := by
        rw [presentElements, List.range_eq_range']
      have hle := StoredArray.frontLength_le_length
        (presentElements (arrayGetNItems v.dims) (some bitmap))
      have hcount := StoredArray.frontLength_le_count
        (presentElements (arrayGetNItems v.dims) (some bitmap))
      rw [hbitmap] at hlength
      rw [← hlength] at hcount
      rw [hpresent] at hcount hle ⊢
      rw [List.length_map, List.length_range'] at hle
      have hrounds : nullRounds (element v.elementType) (arrayGetNItems v.dims) bitmap 1 v.data
          (extaVal, result) 0 = _ :=
        nullRounds_eq (element v.elementType) (s := (extaVal, result)) _ 0 0 hbits hcount
      simp only [hrounds, bind_assoc, ok_bind, Nat.zero_add, Nat.sub_sub_self hle]
  | none =>
      rw [hbitmap] at hlength
      have hfull : frontLength (presentElements (arrayGetNItems v.dims) none) =
          arrayGetNItems v.dims := StoredArray.frontLength_replicate _
      have hdata : v.data.length = arrayGetNItems v.dims := by
        rw [hlength, presentElements, List.count_replicate_self]
      rw [hfull, List.take_of_length_le hdata.le]
      simp only [plainRounds_eq _ _ hdata]

/-! ## Numbers of type float8 -/

section Float8

variable [Field α] {formats : Formats α}

/-- The elements of a `float8[]`. -/
def float8s (xs : List α) : List (Datum α) := xs.map fun x => .float8 (.finite x)

theorem elementSum_float8 (ps : List α) (flag : Datum α) (a : α) :
    (float8s ps).foldlM (fun s elt => elementSum formats .float8 elt s)
        (flag, .float8 (.finite a)) =
      .ok (flag, .float8 (.finite (a + ps.sum))) := by
  induction ps generalizing a with
  | nil =>
      rw [List.sum_nil, add_zero]
      rfl
  | cons x ps ih =>
      have hrest := ih (x + a)
      rw [float8s, List.map_cons, List.foldlM_cons, List.sum_cons]
      rw [add_comm x a, add_assoc] at hrest
      have hstep : elementSum formats .float8 (.float8 (.finite x))
          (flag, .float8 (.finite a)) = .ok (flag, .float8 (.finite (a + x))) := by
        rw [add_comm a x]
        rfl
      rw [hstep, ok_bind]
      exact hrest

/-- Behind the first element the one before all others is kept. -/
theorem elementExtreme_float8 (formats : Formats α)
    (before : ElementType → Datum α → Datum α → Except Fault Bool) (le : α → α → Prop)
    [DecidableRel le] (hrefl : ∀ x, le x x)
    (htotal : ∀ x y, le x y ∨ le y x) (htrans : ∀ x y z, le x y → le y z → le x z)
    (hbefore : ∀ x a, before .float8 (.float8 (.finite x)) (.float8 (.finite a)) =
      .ok (decide (¬le a x))) (ps : List α) (a : α) :
    ∃ e ∈ a :: ps, (∀ x ∈ a :: ps, le e x) ∧
      (float8s ps).foldlM (fun s elt => elementExtreme formats before .float8 elt s)
          (int16GetDatum 1, .float8 (.finite a)) =
        .ok (int16GetDatum 1, .float8 (.finite e)) := by
  induction ps generalizing a with
  | nil => exact ⟨a, List.mem_cons_self, by simp [hrefl], rfl⟩
  | cons x ps ih =>
      have hflag : datumGetInt16 formats (int16GetDatum 1) ≠ 0 := by
        rw [datumGetInt16_datum]
        decide
      have hstep : elementExtreme formats before .float8 (.float8 (.finite x))
          (int16GetDatum 1, .float8 (.finite a)) =
            .ok (int16GetDatum 1, .float8 (.finite (if le a x then a else x))) := by
        rw [elementExtreme, if_neg hflag, hbefore, ok_bind]
        by_cases hle : le a x
        · simp [hle]
        · simp [hle]
      rw [float8s, List.map_cons, List.foldlM_cons, hstep, ok_bind]
      by_cases hle : le a x
      · rw [if_pos hle]
        obtain ⟨e, hmem, hall, hrun⟩ := ih a
        refine ⟨e, ?_, ?_, hrun⟩
        · rcases List.mem_cons.mp hmem with rfl | hmem
          · exact List.mem_cons_self
          · exact List.mem_cons_of_mem _ (List.mem_cons_of_mem _ hmem)
        · intro y hy
          have ha := hall a List.mem_cons_self
          rcases List.mem_cons.mp hy with rfl | hy
          · exact ha
          · rcases List.mem_cons.mp hy with rfl | hy
            · exact htrans _ _ _ ha hle
            · exact hall y (List.mem_cons_of_mem _ hy)
      · rw [if_neg hle]
        obtain ⟨e, hmem, hall, hrun⟩ := ih x
        refine ⟨e, List.mem_cons_of_mem _ hmem, ?_, hrun⟩
        intro y hy
        rcases List.mem_cons.mp hy with rfl | hy
        · exact htrans _ _ _ (hall x List.mem_cons_self) ((htotal y x).resolve_left hle)
        · exact hall y hy

/-- The first element is taken as it is. -/
theorem elementExtreme_first {before : ElementType → Datum α → Datum α → Except Fault Bool}
    (x : α) (ps : List α) (s : Datum α) :
    (float8s (x :: ps)).foldlM (fun s elt => elementExtreme formats before .float8 elt s)
        (int16GetDatum 0, s) =
      (float8s ps).foldlM (fun s elt => elementExtreme formats before .float8 elt s)
        (int16GetDatum 1, .float8 (.finite x)) := by
  have hflag : datumGetInt16 formats (int16GetDatum 0) = 0 := by
    rw [datumGetInt16_datum]
    decide
  rw [float8s, List.map_cons, List.foldlM_cons, elementExtreme, if_pos hflag, ok_bind]
  rfl

variable [LinearOrder α] (formats)

theorem elementMin_float8 (x : α) (ps : List α) (s : Datum α) :
    ∃ lo, IsLeast {y | y ∈ x :: ps} lo ∧
      (float8s (x :: ps)).foldlM (fun s elt => elementMin formats .float8 elt s)
          (int16GetDatum 0, s) =
        .ok (int16GetDatum 1, .float8 (.finite lo)) := by
  obtain ⟨lo, hmem, hall, hrun⟩ := elementExtreme_float8 formats
    (fun type elt result => compareBy formats type elt result) (· ≤ ·) le_refl le_total
    (fun _ _ _ => le_trans) (fun x a => by simp [compareBy, datumGetFloat8]) ps x
  exact ⟨lo, ⟨hmem, hall⟩, (elementExtreme_first x ps s).trans hrun⟩

theorem elementMax_float8 (x : α) (ps : List α) (s : Datum α) :
    ∃ hi, IsGreatest {y | y ∈ x :: ps} hi ∧
      (float8s (x :: ps)).foldlM (fun s elt => elementMax formats .float8 elt s)
          (int16GetDatum 0, s) =
        .ok (int16GetDatum 1, .float8 (.finite hi)) := by
  obtain ⟨hi, hmem, hall, hrun⟩ := elementExtreme_float8 formats
    (fun type elt result => compareBy formats type result elt) (· ≥ ·) le_refl
    (fun a b => le_total b a) (fun _ _ _ hab hbc => hbc.trans hab)
    (fun x a => by simp [compareBy, datumGetFloat8]) ps x
  exact ⟨hi, ⟨hmem, hall⟩, (elementExtreme_first x ps s).trans hrun⟩

end Float8

/-! ## NULLs behind elements -/

/-- The array without its NULLs. -/
def StoredArray.withoutNulls (v : StoredArray α) : StoredArray α where
  elementType := v.elementType
  dims := if v.data = [] then [] else [v.data.length]
  nullbitmap := none
  data := v.data
  dims_pos n hn := by
    split_ifs at hn with hnil
    · cases hn
    · rw [List.mem_singleton] at hn
      rw [hn]
      exact List.length_pos_of_ne_nil hnil
  bitmap_le bitmap h := by cases h
  length_data := by
    split_ifs with hnil
    · rw [hnil]
      rfl
    · rw [arrayGetNItems_singleton, presentElements, List.count_replicate_self]

section Nulls

variable {v : StoredArray α} {xs : List α}

theorem dims_ne_nil (hne : v.data ≠ []) : v.dims ≠ [] := by
  intro hdims
  have hlength := v.length_data
  have hle : (presentElements (arrayGetNItems v.dims) v.nullbitmap).length = 0 := by
    rw [hdims]
    cases v.nullbitmap <;> rfl
  rw [List.eq_nil_of_length_eq_zero hle] at hlength
  exact hne (List.eq_nil_of_length_eq_zero hlength)

theorem float8s_ne_nil (hne : xs ≠ []) : float8s xs ≠ [] := by
  simpa [float8s] using hne

/-- How many elements stand in front of the first NULL. -/
def StoredArray.frontCount (v : StoredArray α) : Nat :=
  frontLength (presentElements (arrayGetNItems v.dims) v.nullbitmap)

theorem front_float8s (hdata : v.data = float8s xs) :
    v.front = float8s (xs.take v.frontCount) := by
  rw [StoredArray.front, hdata, float8s, float8s, List.map_take]
  rfl

theorem withoutNulls_frontCount (hdata : v.data = float8s xs) (hne : xs ≠ []) :
    xs.drop v.withoutNulls.frontCount = [] := by
  have hcount : v.withoutNulls.frontCount = xs.length := by
    have hfull := StoredArray.frontLength_replicate v.data.length
    have hnil : v.data ≠ [] := hdata ▸ float8s_ne_nil hne
    rw [StoredArray.frontCount, StoredArray.withoutNulls]
    simp only [if_neg hnil, arrayGetNItems_singleton, presentElements]
    rw [hfull, hdata, float8s, List.length_map]
  rw [hcount, List.drop_length]

theorem mem_take_or_drop {k : Nat} {x : α} (hx : x ∈ xs) : x ∈ xs.take k ∨ x ∈ xs.drop k := by
  rw [← List.take_append_drop k xs] at hx
  exact List.mem_append.mp hx

section Front

variable [Field α] {formats : Formats α} {ps : List α} (htype : v.elementType = .float8)
  (hdims : v.dims ≠ []) (hfront : v.front = float8s ps)

include htype hdims hfront

theorem sum_front (finalize : Datum α → Nat → Datum α) (flag : Int) :
    generalArrayToElement v (int16GetDatum 0) (elementSum formats) finalize flag =
      .ok (finalize (.float8 (.finite ps.sum)) ps.length) := by
  have hinitial : initialResult v.elementType flag = .ok (.float8 (.finite (0 : α))) := by
    rw [htype]
    exact ite_self _
  have hlength : v.front.length = ps.length := by rw [hfront, float8s, List.length_map]
  rw [generalArrayToElement_eq hdims, hinitial, ok_bind, hlength, hfront, htype,
    elementSum_float8, zero_add]
  rfl

variable [LinearOrder α] (formats)

theorem arrayMin_front (hne : ps ≠ []) :
    ∃ lo, IsLeast {x | x ∈ ps} lo ∧ arrayMin formats v = .ok (.float8 (.finite lo)) := by
  obtain ⟨x, ps, rfl⟩ := List.exists_cons_of_ne_nil hne
  obtain ⟨lo, hlo, hrun⟩ := elementMin_float8 formats x ps (.float8 (.finite 0))
  refine ⟨lo, hlo, ?_⟩
  have hinitial : initialResult .float8 0 = .ok (.float8 (.finite (0 : α))) := rfl
  rw [arrayMin, generalArrayToElement_eq hdims, htype, hfront, hinitial, ok_bind, hrun]
  rfl

theorem arrayMax_front (hne : ps ≠ []) :
    ∃ hi, IsGreatest {x | x ∈ ps} hi ∧ arrayMax formats v = .ok (.float8 (.finite hi)) := by
  obtain ⟨x, ps, rfl⟩ := List.exists_cons_of_ne_nil hne
  obtain ⟨hi, hhi, hrun⟩ := elementMax_float8 formats x ps (.float8 (.finite 0))
  refine ⟨hi, hhi, ?_⟩
  have hinitial : initialResult .float8 0 = .ok (.float8 (.finite (0 : α))) := rfl
  rw [arrayMax, generalArrayToElement_eq hdims, htype, hfront, hinitial, ok_bind, hrun]
  rfl

end Front

variable [Field α] [LinearOrder α] {formats : Formats α}

/-- The reductions are those of all elements, as for the array without its NULLs. -/
structure Reduces (formats : Formats α) (v : StoredArray α) (xs : List α) : Prop where
  sum : arraySum formats v = .ok (.float8 (.finite xs.sum))
  sumBig : arraySumBig formats v = .ok (.float8 (.finite xs.sum))
  min : ∃ lo, IsLeast {x | x ∈ xs} lo ∧ arrayMin formats v = .ok (.float8 (.finite lo))
  max : ∃ hi, IsGreatest {x | x ∈ xs} hi ∧ arrayMax formats v = .ok (.float8 (.finite hi))
  mean : arrayMean formats v = .ok (.float8 (.finite (xs.sum / xs.length)))

/-- Every array operation gives what it gives for the array without its NULLs. -/
def IgnoresNulls (formats : Formats α) (v : StoredArray α) : Prop :=
  ∀ f ∈ [arraySum formats, arraySumBig formats, arrayMin formats, arrayMax formats,
    arrayMean formats], f v = f v.withoutNulls

/-- What stands behind the first NULL does not matter. -/
def Meets (v : StoredArray α) (xs : List α) : Prop :=
  xs.drop v.frontCount = [] ∨
    xs.take v.frontCount ≠ [] ∧ (xs.take v.frontCount).sum = 0 ∧ (xs.drop v.frontCount).sum = 0 ∧
      ∀ x ∈ xs.drop v.frontCount, (∃ y ∈ xs.take v.frontCount, y ≤ x) ∧
        ∃ y ∈ xs.take v.frontCount, x ≤ y

theorem Meets.take_ne_nil (h : Meets v xs) (hne : xs ≠ []) : xs.take v.frontCount ≠ [] := by
  rcases h with hnone | ⟨hfront, -⟩
  · intro htake
    have hsplit := List.take_append_drop v.frontCount xs
    rw [htake, hnone] at hsplit
    exact hne hsplit.symm
  · exact hfront

/-- Elements that do not matter leave the sum and the mean as they are. -/
theorem Meets.sum_eq (h : Meets v xs) :
    (xs.take v.frontCount).sum = xs.sum ∧
      (xs.take v.frontCount).sum / (xs.take v.frontCount).length = xs.sum / xs.length := by
  have hsplit := List.take_append_drop v.frontCount xs
  rcases h with hnone | ⟨-, hfront, hbehind, -⟩
  · rw [hnone, List.append_nil] at hsplit
    rw [hsplit]
    exact ⟨rfl, rfl⟩
  · have hsum : xs.sum = 0 := by
      rw [← hsplit, List.sum_append, hfront, hbehind, add_zero]
    rw [hfront, hsum, zero_div, zero_div]
    exact ⟨rfl, rfl⟩

theorem Meets.isLeast (h : Meets v xs) {lo : α} (hlo : IsLeast {x | x ∈ xs.take v.frontCount} lo) :
    IsLeast {x | x ∈ xs} lo := by
  refine ⟨List.mem_of_mem_take hlo.1, fun x hx => ?_⟩
  rcases mem_take_or_drop hx with hx | hx
  · exact hlo.2 hx
  · rcases h with hnone | ⟨-, -, -, hbetween⟩
    · rw [hnone] at hx
      cases hx
    · obtain ⟨⟨y, hy, hle⟩, -⟩ := hbetween x hx
      exact (hlo.2 hy).trans hle

theorem Meets.isGreatest (h : Meets v xs) {hi : α}
    (hhi : IsGreatest {x | x ∈ xs.take v.frontCount} hi) : IsGreatest {x | x ∈ xs} hi := by
  refine ⟨List.mem_of_mem_take hhi.1, fun x hx => ?_⟩
  rcases mem_take_or_drop hx with hx | hx
  · exact hhi.2 hx
  · rcases h with hnone | ⟨-, -, -, hbetween⟩
    · rw [hnone] at hx
      cases hx
    · obtain ⟨-, y, hy, hle⟩ := hbetween x hx
      exact hle.trans (hhi.2 hy)

/-- Reductions of the same elements are the same. -/
theorem Reduces.ignoresNulls {w : StoredArray α} (h : Reduces formats v xs)
    (hw : Reduces formats w xs) :
    ∀ f ∈ [arraySum formats, arraySumBig formats, arrayMin formats, arrayMax formats,
      arrayMean formats], f v = f w := by
  obtain ⟨lo, hlo, hmin⟩ := h.min
  obtain ⟨lo', hlo', hmin'⟩ := hw.min
  obtain ⟨hi, hhi, hmax⟩ := h.max
  obtain ⟨hi', hhi', hmax'⟩ := hw.max
  simp only [List.forall_mem_cons]
  refine ⟨h.sum.trans hw.sum.symm, h.sumBig.trans hw.sumBig.symm, ?_, ?_,
    h.mean.trans hw.mean.symm, by simp⟩
  · rw [hmin, hmin', hlo.unique hlo']
  · rw [hmax, hmax', hhi.unique hhi']

variable [IsStrictOrderedRing α] (formats)

theorem Meets.reduces (h : Meets v xs) (htype : v.elementType = .float8)
    (hdata : v.data = float8s xs) (hne : xs ≠ []) : Reduces formats v xs := by
  have hdims := dims_ne_nil (hdata ▸ float8s_ne_nil hne)
  have hfront := front_float8s hdata
  have htake := h.take_ne_nil hne
  have hlength : ((xs.take v.frontCount).length : α) ≠ 0 := by
    rw [Nat.cast_ne_zero]
    exact fun hzero => htake (List.eq_nil_of_length_eq_zero hzero)
  obtain ⟨hsum, hmean⟩ := h.sum_eq
  obtain ⟨lo, hlo, hmin⟩ := arrayMin_front formats htype hdims hfront htake
  obtain ⟨hi, hhi, hmax⟩ := arrayMax_front formats htype hdims hfront htake
  constructor
  · rw [arraySum, sum_front htype hdims hfront, hsum]
    rfl
  · rw [arraySumBig, sum_front htype hdims hfront, hsum]
    rfl
  · exact ⟨lo, h.isLeast hlo, hmin⟩
  · exact ⟨hi, h.isGreatest hhi, hmax⟩
  · rw [arrayMean, sum_front htype hdims hfront, averageFinalize, datumGetFloat8,
      Extended.finite_div hlength, hmean]

/-- The mean of some of the elements is that of all, with the same sum, if the sum is zero. -/
theorem Reduces.meets (h : Reduces formats v xs) (htype : v.elementType = .float8)
    (hdata : v.data = float8s xs) (hne : xs ≠ []) : Meets v xs := by
  have hdims := dims_ne_nil (hdata ▸ float8s_ne_nil hne)
  have hfront := front_float8s hdata
  have hsplit := List.take_append_drop v.frontCount xs
  by_cases hnone : xs.drop v.frontCount = []
  · exact .inl hnone
  · have hsum := h.sum
    have hmean := h.mean
    rw [arraySum, sum_front htype hdims hfront] at hsum
    rw [arrayMean, sum_front htype hdims hfront] at hmean
    have hsum' : (xs.take v.frontCount).sum = xs.sum :=
      Extended.finite.inj (Datum.float8.inj (Except.ok.inj hsum))
    have hbehind : (xs.drop v.frontCount).sum = 0 := by
      rw [← hsplit, List.sum_append, hsplit] at hsum'
      linarith
    have htake : xs.take v.frontCount ≠ [] := by
      intro hnil
      rw [hnil] at hmean
      simp [averageFinalize, datumGetFloat8, Extended.div] at hmean
    have hzero : (xs.take v.frontCount).sum = 0 := by
      have hpos : (0 : α) < (xs.take v.frontCount).length :=
        Nat.cast_pos.mpr (List.length_pos_of_ne_nil htake)
      have hpos' : (0 : α) < (xs.drop v.frontCount).length :=
        Nat.cast_pos.mpr (List.length_pos_of_ne_nil hnone)
      have hlength : (xs.length : α) =
          (xs.take v.frontCount).length + (xs.drop v.frontCount).length := by
        rw [← Nat.cast_add, ← List.length_append, hsplit]
      rw [averageFinalize, datumGetFloat8, Extended.finite_div hpos.ne'] at hmean
      have hquotient := Extended.finite.inj (Datum.float8.inj (Except.ok.inj hmean))
      rw [← hsum', hlength, div_eq_div_iff hpos.ne' (by positivity), mul_add] at hquotient
      have hproduct : (xs.take v.frontCount).sum * (xs.drop v.frontCount).length = 0 := by linarith
      exact (mul_eq_zero.mp hproduct).resolve_right hpos'.ne'
    obtain ⟨lo, hlo, hmin⟩ := h.min
    obtain ⟨hi, hhi, hmax⟩ := h.max
    obtain ⟨lo', hlo', hmin'⟩ := arrayMin_front formats htype hdims hfront htake
    obtain ⟨hi', hhi', hmax'⟩ := arrayMax_front formats htype hdims hfront htake
    cases Extended.finite.inj (Datum.float8.inj (Except.ok.inj (hmin.symm.trans hmin')))
    cases Extended.finite.inj (Datum.float8.inj (Except.ok.inj (hmax.symm.trans hmax')))
    refine .inr ⟨htake, hzero, hbehind, fun x hx => ⟨⟨lo, hlo'.1, ?_⟩, hi, hhi'.1, ?_⟩⟩
    · exact hlo.2 (List.mem_of_mem_drop hx)
    · exact hhi.2 (List.mem_of_mem_drop hx)

/-- The reductions ignore the NULLs exactly when nothing that matters stands behind one. -/
theorem reduces_iff_meets (htype : v.elementType = .float8) (hdata : v.data = float8s xs)
    (hne : xs ≠ []) : Reduces formats v xs ∧ IgnoresNulls formats v ↔ Meets v xs := by
  constructor
  · exact fun h => h.1.meets formats htype hdata hne
  · intro h
    have hreduces := h.reduces formats htype hdata hne
    have hplain : Meets v.withoutNulls xs := .inl (withoutNulls_frontCount hdata hne)
    exact ⟨hreduces, hreduces.ignoresNulls (hplain.reduces formats htype hdata hne)⟩

/-- `{-2, 2, NULL, 1, -1}` -/
def balancedArray : StoredArray ℚ where
  elementType := .float8
  dims := [5]
  nullbitmap := some [27]
  data := float8s [-2, 2, 1, -1]
  dims_pos := by decide
  bitmap_le bitmap h := by
    cases h
    decide
  length_data := by
    rw [float8s, List.length_map]
    decide

theorem reduces_iff_meets_balanced :
    Reduces (zeroFormats ℚ) balancedArray [-2, 2, 1, -1] ∧
      IgnoresNulls (zeroFormats ℚ) balancedArray := by
  refine (reduces_iff_meets (zeroFormats ℚ) rfl rfl (by simp)).mpr (.inr ?_)
  have hcount : balancedArray.frontCount = 2 := by decide
  rw [hcount]
  exact ⟨List.cons_ne_nil _ _, by norm_num⟩

theorem three_pos : ∀ d ∈ [3], 0 < d := by decide

/-- `{1, NULL, 2}` -/
def nullBetween : StoredArray ℚ where
  elementType := .float8
  dims := [3]
  nullbitmap := some [5]
  data := float8s [1, 2]
  dims_pos := three_pos
  bitmap_le bitmap h := by
    cases h
    decide
  length_data := by
    rw [float8s, List.length_map]
    decide

/-- The sum of `{1, NULL, 2}` is 1. -/
theorem not_reduces_nullBetween :
    ¬∀ (v : StoredArray ℚ) (xs : List ℚ), v.elementType = .float8 → v.data = float8s xs →
      xs ≠ [] → Reduces (zeroFormats ℚ) v xs ∧ IgnoresNulls (zeroFormats ℚ) v := by
  intro hall
  have hsum := (hall nullBetween [1, 2] rfl rfl (by simp)).1.sum
  have hfront : nullBetween.front = float8s [1] := by
    have hcount : nullBetween.frontCount = 1 := by decide
    rw [front_float8s (v := nullBetween) rfl, hcount]
    rfl
  rw [arraySum, sum_front rfl (by simp [nullBetween]) hfront] at hsum
  have h13 := Extended.finite.inj (Datum.float8.inj (Except.ok.inj hsum))
  norm_num at h13

end Nulls

end Madlib.ArrayOps
