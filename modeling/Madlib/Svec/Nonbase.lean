import Madlib.Svec.CastPositions
import Madlib.Svec.Equality

/-!
# Positions and values that differ from a base value

`svec_nonbase_positions` and `svec_nonbase_values` go over the runs twice, once to count the
elements and once to write them.  Both do so only where the svec has an index.
-/

namespace Madlib.Svec

open Madlib.Backend Madlib.Lib.MachineInt Madlib.Lib.RunLength CountCode

/-! ## The two functions -/

/-- The first loop: the uncompressed index, and the elements in runs other than the base value. -/
def measureRuns (baseVal : Float8) (sdata : SparseData) :
    Nat → Nat → IndexPtr → Int → Except Fault (List Int × Int)
  | 0, _, _, resultSize => .ok ([], resultSize)
  | rounds + 1, i, iPtr, resultSize => do
      let n ← compwordToInt8 iPtr
      let v ← valref sdata i
      let iPtr ← advance iPtr
      let (rleIndex, resultSize) ← measureRuns baseVal sdata rounds (i + 1) iPtr
        (if baseVal ≠ v then toInt32 (resultSize + n) else resultSize)
      pure (n :: rleIndex, resultSize)

/-- The second loop writes `item` of every position and value.  Its pointer goes on behind the
index, where it reads the bytes `behind` to find its next place and nothing else. -/
def fillResult {α : Type} (item : Int → Float8 → α) (behind : Nat → UInt8) (baseVal : Float8)
    (sdata : SparseData) (resultSize : Int) :
    List Int → Nat → Nat → Int → List α → Except Fault (List α)
  | [], _, _, _, result => .ok result
  | n :: rleIndex, i, iPtr, sizeTracker, result => do
      let v ← valref sdata i
      let iPtr := iPtr + entrySize (behind iPtr)
      if baseVal ≠ v then
        if resultSize < result.length + max 0 n then .error .outOfBounds
        else
          fillResult item behind baseVal sdata resultSize rleIndex (i + 1) iPtr
            (sizeTracker + max 0 n)
            (result ++ (List.range n.toNat).map fun j : Nat => item (sizeTracker + j) v)
      else
        fillResult item behind baseVal sdata resultSize rleIndex (i + 1) iPtr (sizeTracker + n)
          result

/-- What the two functions share; `constructArray` is the function of the backend. -/
def svecNonbase {α A : Type} (item : Int → Float8 → α) (constructArray : List α → Except Fault A)
    (behind : Nat → UInt8) (svec : SvecType) (baseVal : Float8) : Except Fault A :=
  let sdata := sdataFromSvec svec
  match sdata.index.data with
  | none => constructArray []
  | some bytes => do
      palloc (8 * sdata.uniqueValueCount)
      let (rleIndex, resultSize) ← measureRuns baseVal sdata sdata.uniqueValueCount 0 (some bytes) 0
      palloc (sizeT (8 * resultSize))
      let result ← fillResult item behind baseVal sdata resultSize rleIndex 0 0 0 []
      if (result.length : Int) ≠ resultSize then .error .uninitialised
      else constructArray result

def svecNonbasePositions (constructArray : List Int64 → Except Fault Int8ArrayType)
    (behind : Nat → UInt8) (svec : SvecType) (baseVal : Float8) : Except Fault Int8ArrayType :=
  svecNonbase (fun sizeTracker _ => Int64.ofInt (sizeTracker + 1)) constructArray behind svec
    baseVal

def svecNonbaseValues (constructArray : List Float8 → Except Fault ArrayType)
    (behind : Nat → UInt8) (svec : SvecType) (baseVal : Float8) : Except Fault ArrayType :=
  svecNonbase (fun _ v => v) constructArray behind svec baseVal

/-! ## The elements that differ -/

/-- The places of an array, counted from 0, whose element has other bytes than the base value. -/
def nonbase (baseVal : Float8) (xs : List Float8) : List Nat :=
  (List.range xs.length).filter fun i => xs[i]? ≠ some baseVal

theorem nonbase_append (baseVal : Float8) (xs ys : List Float8) :
    nonbase baseVal (xs ++ ys) =
      nonbase baseVal xs ++ (nonbase baseVal ys).map (xs.length + ·) := by
  unfold nonbase
  rw [List.length_append, List.range_add, List.filter_append, List.filter_map]
  congr 1
  · apply List.filter_congr
    intro i hi
    rw [List.getElem?_append_left (List.mem_range.mp hi)]
  · congr 1
    apply List.filter_congr
    intro i _
    rw [Function.comp_apply, List.getElem?_append_right (by omega), Nat.add_sub_cancel_left]

theorem nonbase_replicate (baseVal v : Float8) (n : Nat) :
    nonbase baseVal (List.replicate n v) = if baseVal ≠ v then List.range n else [] := by
  unfold nonbase
  rw [List.length_replicate]
  by_cases h : baseVal ≠ v
  · rw [if_pos h, List.filter_eq_self]
    intro i hi
    rw [List.getElem?_replicate_of_lt (List.mem_range.mp hi)]
    simpa using h.symm
  · rw [if_neg h, List.filter_eq_nil_iff]
    intro i hi
    rw [List.getElem?_replicate_of_lt (List.mem_range.mp hi)]
    simpa using (not_not.mp h).symm

theorem nonbase_eq_nil_iff {baseVal : Float8} {xs : List Float8} :
    nonbase baseVal xs = [] ↔ ∀ x ∈ xs, x = baseVal := by
  unfold nonbase
  rw [List.filter_eq_nil_iff]
  constructor
  · intro h x hx
    have ⟨i, hi, hget⟩ := List.getElem_of_mem hx
    have hat := h i (List.mem_range.mpr hi)
    rw [List.getElem?_eq_getElem hi, hget] at hat
    simpa using hat
  · intro h i hi
    rw [List.mem_range] at hi
    rw [List.getElem?_eq_getElem hi, h _ (List.getElem_mem hi)]
    simp

/-- What the loop writes for an array that begins at position `sizeTracker`. -/
def nonbaseItems {α : Type} (item : Int → Float8 → α) (baseVal : Float8) (sizeTracker : Int)
    (xs : List Float8) : List α :=
  (nonbase baseVal xs).map fun i : Nat => item (sizeTracker + i) (xs.getD i 0)

section Items

variable {α : Type} (item : Int → Float8 → α) (baseVal : Float8)

theorem nonbaseItems_append (sizeTracker : Int) (xs ys : List Float8) :
    nonbaseItems item baseVal sizeTracker (xs ++ ys) =
      nonbaseItems item baseVal sizeTracker xs ++
        nonbaseItems item baseVal (sizeTracker + xs.length) ys := by
  unfold nonbaseItems
  rw [nonbase_append, List.map_append, List.map_map]
  congr 1
  · apply List.map_congr_left
    intro i hi
    have hlt : i < xs.length := List.mem_range.mp (List.mem_of_mem_filter hi)
    rw [List.getD_append _ _ _ _ hlt]
  · apply List.map_congr_left
    intro i _
    rw [Function.comp_apply, List.getD_append_right _ _ _ _ (by omega), Nat.add_sub_cancel_left,
      Nat.cast_add, add_assoc]

theorem nonbaseItems_replicate (sizeTracker : Int) (v : Float8) (n : Nat) :
    nonbaseItems item baseVal sizeTracker (List.replicate n v) =
      if baseVal ≠ v then (List.range n).map fun i : Nat => item (sizeTracker + i) v else [] := by
  unfold nonbaseItems
  rw [nonbase_replicate]
  by_cases h : baseVal ≠ v
  · rw [if_pos h, if_pos h]
    apply List.map_congr_left
    intro i hi
    rw [List.getD_replicate v (List.mem_range.mp hi)]
  · rw [if_neg h, if_neg h, List.map_nil]

theorem length_nonbaseItems (sizeTracker : Int) (xs : List Float8) :
    (nonbaseItems item baseVal sizeTracker xs).length = (nonbase baseVal xs).length :=
  List.length_map _

end Items

theorem length_nonbase_le (baseVal : Float8) (xs : List Float8) :
    (nonbase baseVal xs).length ≤ xs.length := by
  have hle := List.length_filter_le (fun i => decide (xs[i]? ≠ some baseVal)) (List.range xs.length)
  rwa [List.length_range] at hle

/-! ## The loops -/

theorem measureRuns_eq {baseVal : Float8} {sdata : SparseData} {runs : List Nat}
    {vals : List Float8} {i : Nat} {ptr : IndexPtr} {resultSize : Int}
    (hindex : IndexRuns ptr runs) (hdrop : sdata.vals.drop i = vals)
    (hlength : runs.length = vals.length) (hlo : 0 ≤ resultSize)
    (hhi : resultSize + (runs.sum : Nat) < 2147483648) :
    measureRuns baseVal sdata runs.length i ptr resultSize =
      .ok (runs.map fun n : Nat => (n : Int),
        resultSize + (nonbase baseVal (expand runs vals)).length) := by
  induction runs generalizing vals i ptr resultSize with
  | nil =>
      rw [expand_nil]
      show Except.ok ([], resultSize) = .ok ([], resultSize + ((0 : Nat) : Int))
      rw [Nat.cast_zero, add_zero]
  | cons n runs ih =>
      have ⟨v, vals', ptr', hvals, ⟨hrun, hv, hadvance⟩, hindex', hdrop', hlength'⟩ :=
        hindex.next hdrop hlength
      subst hvals
      rw [List.sum_cons, Nat.cast_add] at hhi
      rw [List.length_cons, measureRuns, hrun, ok_bind, hv, ok_bind, hadvance, ok_bind, expand_cons,
        nonbase_append, nonbase_replicate, List.length_append, List.length_map]
      by_cases hne : baseVal ≠ v
      · have hwrap : toInt32 (resultSize + n) = resultSize + n :=
          toInt32_of_mem (by omega) (by omega)
        rw [if_pos hne, if_pos hne, hwrap,
          ih hindex' hdrop' hlength' (by omega) (by omega), ok_bind]
        simp [add_assoc]
      · rw [if_neg hne, if_neg hne, ih hindex' hdrop' hlength' hlo (by omega),
          ok_bind]
        simp

theorem fillResult_eq {α : Type} (item : Int → Float8 → α) (behind : Nat → UInt8)
    {baseVal : Float8} {sdata : SparseData} {resultSize : Int} {runs : List Nat}
    {vals : List Float8} {i iPtr : Nat} {sizeTracker : Int} {result : List α}
    (hdrop : sdata.vals.drop i = vals) (hlength : runs.length = vals.length)
    (hroom : (result.length : Int) + (nonbase baseVal (expand runs vals)).length ≤ resultSize) :
    fillResult item behind baseVal sdata resultSize (runs.map fun n : Nat => (n : Int)) i iPtr
        sizeTracker result =
      .ok (result ++ nonbaseItems item baseVal sizeTracker (expand runs vals)) := by
  induction runs generalizing vals i iPtr sizeTracker result with
  | nil =>
      rw [expand_nil]
      show Except.ok result = .ok (result ++ [])
      rw [List.append_nil]
  | cons n runs ih =>
      have ⟨v, vals', hvals⟩ := List.exists_of_length_succ vals hlength.symm
      subst hvals
      have ⟨hv, hdrop'⟩ := valref_of_drop hdrop
      have hmax : max 0 (n : Int) = n := by omega
      rw [expand_cons, nonbase_append, nonbase_replicate, List.length_append, List.length_map] at hroom
      rw [List.map_cons, fillResult, hv, ok_bind, hmax, expand_cons, nonbaseItems_append,
        nonbaseItems_replicate, List.length_replicate]
      dsimp only
      by_cases hne : baseVal ≠ v
      · rw [if_pos hne, List.length_range] at hroom
        rw [if_pos hne, if_pos hne, if_neg (by omega), Int.toNat_natCast,
          ih hdrop' (by simpa using hlength) (by simp; omega), List.append_assoc]
      · rw [if_neg hne, List.length_nil] at hroom
        rw [if_neg hne, if_neg hne, ih hdrop' (by simpa using hlength) (by omega), List.nil_append]

/-! ## The arrays -/

/-- The documented behaviour of `construct_array`: an array of these elements, of one dimension
and without NULLs if there are any, unless it would be larger than an allocation. -/
structure Constructs {α A : Type} (constructArray : List α → Except Fault A) (data : A → List α)
    (shape : A → Int × List Nat × Option (List UInt8)) (oid : Int) : Prop where
  ok : ∀ elems, 24 + 8 * elems.length ≤ maxAllocSize → ∃ array, constructArray elems = .ok array
  error : ∀ elems, maxAllocSize < 24 + 8 * elems.length →
    ∃ e, constructArray elems = .error e ∧ e.isRaised
  data : ∀ elems array, constructArray elems = .ok array → data array = elems
  shape : ∀ elems array, elems ≠ [] → constructArray elems = .ok array →
    shape array = (oid, [elems.length], none)

def Int8ArrayType.shape (array : Int8ArrayType) : Int × List Nat × Option (List UInt8) :=
  (array.elemtype, array.dims, array.nullbitmap)

def ArrayType.shape (array : ArrayType) : Int × List Nat × Option (List UInt8) :=
  (array.elemtype, array.dims, array.nullbitmap)

/-- The array of the elements that differ is made as long as it fits into an allocation. -/
theorem svecNonbase_indexed {α A : Type} {constructArray : List α → Except Fault A}
    {data : A → List α} {shape : A → Int × List Nat × Option (List UInt8)} {oid : Int}
    (hconstruct : Constructs constructArray data shape oid) (item : Int → Float8 → α)
    (behind : Nat → UInt8) {svec : SvecType} (h : WellFormed (sdataFromSvec svec))
    (hindex : (sdataFromSvec svec).index.data ≠ none) (baseVal : Float8) :
    (24 + 8 * (nonbase baseVal (sdataFromSvec svec).dense).length ≤ maxAllocSize →
      ∃ array, svecNonbase item constructArray behind svec baseVal = .ok array ∧
        constructArray (nonbaseItems item baseVal 0 (sdataFromSvec svec).dense) = .ok array ∧
        data array = nonbaseItems item baseVal 0 (sdataFromSvec svec).dense) ∧
    (maxAllocSize < 24 + 8 * (nonbase baseVal (sdataFromSvec svec).dense).length →
      ∃ e, svecNonbase item constructArray behind svec baseVal = .error e ∧ e.isRaised) := by
  have ⟨runs, hruns, _, htotal⟩ := h.exists_runs
  have ⟨bytes, hbytes⟩ := Option.ne_none_iff_exists'.mp hindex
  have hlength := hruns.length_runs.trans hruns.length_vals.symm
  have hmax := (int32_mem (sdataFromSvec svec).totalValueCount).2
  have hmeasure := @measureRuns_eq baseVal (sdataFromSvec svec) runs _ 0 _ 0 hruns.index
    List.drop_zero hlength (le_refl 0) (by omega)
  rw [← hruns.dense_eq, zero_add, hruns.length_runs, hbytes] at hmeasure
  have hfill := @fillResult_eq α item behind baseVal (sdataFromSvec svec)
    (nonbase baseVal (sdataFromSvec svec).dense).length runs _ 0 0 0 [] List.drop_zero hlength (by
      rw [← hruns.dense_eq, List.length_nil, Nat.cast_zero, zero_add])
  rw [← hruns.dense_eq, List.nil_append] at hfill
  have hvals : 8 * (sdataFromSvec svec).uniqueValueCount ≤ maxAllocSize := by
    rw [← hruns.length_vals]
    exact svec.size_vals_le
  have hsizeT : sizeT (8 * ((nonbase baseVal (sdataFromSvec svec).dense).length : Int)) =
      8 * (nonbase baseVal (sdataFromSvec svec).dense).length := by
    have hle := length_nonbase_le baseVal (sdataFromSvec svec).dense
    have hdense := h.truthful.length_dense
    unfold sizeT
    omega
  unfold svecNonbase
  dsimp only
  rw [hbytes]
  dsimp only
  rw [palloc_ok hvals, ok_bind, hmeasure, ok_bind]
  dsimp only
  rw [hsizeT]
  constructor
  · intro hfits
    have ⟨array, harray⟩ := hconstruct.ok (nonbaseItems item baseVal 0 (sdataFromSvec svec).dense)
      (by rwa [length_nonbaseItems])
    refine ⟨array, ?_, harray, hconstruct.data _ _ harray⟩
    rw [palloc_ok (by omega), ok_bind, hfill, ok_bind, length_nonbaseItems,
      if_neg (not_not.mpr rfl), harray]
  · intro hlarge
    by_cases hroom : 8 * (nonbase baseVal (sdataFromSvec svec).dense).length ≤ maxAllocSize
    · have ⟨e, he, hraised⟩ := hconstruct.error
        (nonbaseItems item baseVal 0 (sdataFromSvec svec).dense) (by rwa [length_nonbaseItems])
      refine ⟨e, ?_, hraised⟩
      rw [palloc_ok hroom, ok_bind, hfill, ok_bind, length_nonbaseItems,
        if_neg (not_not.mpr rfl), he]
    · refine ⟨.elog "invalid memory alloc request size", ?_, rfl⟩
      rw [palloc_error (not_le.mp hroom), error_bind]

theorem svecNonbase_none {α A : Type} {constructArray : List α → Except Fault A}
    {data : A → List α} {shape : A → Int × List Nat × Option (List UInt8)} {oid : Int}
    (hconstruct : Constructs constructArray data shape oid) (item : Int → Float8 → α)
    (behind : Nat → UInt8) {svec : SvecType} (hindex : (sdataFromSvec svec).index.data = none)
    (baseVal : Float8) :
    ∃ array, svecNonbase item constructArray behind svec baseVal = .ok array ∧
      data array = [] := by
  have ⟨array, harray⟩ := hconstruct.ok [] (by simp [maxAllocSize])
  refine ⟨array, ?_, hconstruct.data _ _ harray⟩
  unfold svecNonbase
  dsimp only
  rw [hindex]
  exact harray

/-! ## Casting back -/

/-- The pairs of 1-based positions and values. -/
def nonbasePairs (baseVal : Float8) (xs : List Float8) : List PosVal :=
  (nonbase baseVal xs).map fun i : Nat => ((i : Int) + 1, xs.getD i 0)

theorem mem_nonbasePairs {baseVal : Float8} {xs : List Float8} {p : PosVal} :
    p ∈ nonbasePairs baseVal xs ↔
      1 ≤ p.1 ∧ xs[(p.1 - 1).toNat]? = some p.2 ∧ p.2 ≠ baseVal := by
  unfold nonbasePairs nonbase
  rw [List.mem_map]
  constructor
  · rintro ⟨i, hi, rfl⟩
    have ⟨hlt, hne⟩ := List.mem_filter.mp hi
    rw [List.mem_range] at hlt
    rw [List.getElem?_eq_getElem hlt] at hne
    have hplace : ((i : Int) + 1 - 1).toNat = i := by omega
    refine ⟨by dsimp only; omega, ?_, ?_⟩
    · dsimp only
      rw [hplace, List.getElem?_eq_getElem hlt, List.getD_eq_getElem _ _ hlt]
    · dsimp only
      rw [List.getD_eq_getElem _ _ hlt]
      simpa using hne
  · intro ⟨hone, hget, hne⟩
    have hlt := (List.getElem?_eq_some_iff.mp hget).1
    refine ⟨(p.1 - 1).toNat, List.mem_filter.mpr ⟨List.mem_range.mpr hlt, ?_⟩, ?_⟩
    · rw [hget]
      simpa using hne
    · rw [List.getD_eq_getElem?_getD, hget, Option.getD_some]
      exact Prod.ext (by dsimp only; omega) rfl

theorem nonbasePairs_sorted (baseVal : Float8) (xs : List Float8) :
    (nonbasePairs baseVal xs).Pairwise fun p q => p.1 ≤ q.1 := by
  unfold nonbasePairs nonbase
  rw [List.pairwise_map]
  apply List.Pairwise.filter
  exact List.pairwise_lt_range.imp fun hlt => by dsimp only; omega

theorem nonbasePairs_free (baseVal : Float8) (xs : List Float8) :
    ¬ Conflicting (nonbasePairs baseVal xs) := by
  intro hconflict
  have ⟨p, hp, q, hq, hpos, hval⟩ := hconflict
  have ⟨_, hgetp, _⟩ := mem_nonbasePairs.mp hp
  have ⟨_, hgetq, _⟩ := mem_nonbasePairs.mp hq
  rw [hpos, hgetq] at hgetp
  exact hval (Option.some.inj hgetp).symm

/-- The vector the pairs and the base value stand for is the array again. -/
theorem segment_nonbasePairs (baseVal : Float8) (xs : List Float8) :
    segment (valueAt (nonbasePairs baseVal xs) baseVal) 1 xs.length = xs := by
  apply List.ext_getElem?
  intro i
  by_cases hi : i < xs.length
  · have hplace : ((i : Int) + 1 - 1).toNat = i := by omega
    have hget := @getElem?_segment (valueAt (nonbasePairs baseVal xs) baseVal) ((i : Int) + 1)
      xs.length (by omega) (by omega)
    rw [hplace] at hget
    rw [hget, List.getElem?_eq_getElem hi]
    by_cases hbase : xs[i] = baseVal
    · rw [valueAt_of_forall_ne, hbase]
      intro p hp hpos
      have ⟨_, hgetp, hne⟩ := mem_nonbasePairs.mp hp
      rw [hpos, hplace, List.getElem?_eq_getElem hi, hbase] at hgetp
      exact hne (Option.some.inj hgetp).symm
    · have hmem : ((i : Int) + 1, xs[i]) ∈ nonbasePairs baseVal xs := by
        rw [mem_nonbasePairs]
        refine ⟨by dsimp only; omega, ?_, hbase⟩
        rw [hplace, List.getElem?_eq_getElem hi]
      rw [valueAt_of_mem (nonbasePairs_free baseVal xs) hmem]
  · rw [List.getElem?_eq_none (by rw [length_segment]; omega),
      List.getElem?_eq_none (by omega)]

theorem length_nonbasePairs (baseVal : Float8) (xs : List Float8) :
    (nonbasePairs baseVal xs).length = (nonbase baseVal xs).length :=
  List.length_map _

/-- The arrays the two functions make hold the pairs. -/
theorem posVals_nonbaseItems {positions : Int8ArrayType} {values : ArrayType} {baseVal : Float8}
    {xs : List Float8} (hlength : xs.length < 2147483648)
    (hpositions : positions.data =
      nonbaseItems (fun sizeTracker _ => Int64.ofInt (sizeTracker + 1)) baseVal 0 xs)
    (hvalues : values.data = nonbaseItems (fun _ v => v) baseVal 0 xs) :
    positions.data.map Int64.toInt = (nonbasePairs baseVal xs).map Prod.fst ∧
      values.data = (nonbasePairs baseVal xs).map Prod.snd ∧
      posVals positions values = nonbasePairs baseVal xs := by
  have hfst : positions.data.map Int64.toInt = (nonbasePairs baseVal xs).map Prod.fst := by
    rw [hpositions, nonbaseItems, nonbasePairs, List.map_map, List.map_map]
    apply List.map_congr_left
    intro i hi
    have hlt : i < xs.length := List.mem_range.mp (List.mem_of_mem_filter hi)
    rw [Function.comp_apply, Function.comp_apply, zero_add]
    exact Int64.toInt_ofInt_of_le (by omega) (by omega)
  have hsnd : values.data = (nonbasePairs baseVal xs).map Prod.snd := by
    rw [hvalues, nonbaseItems, nonbasePairs, List.map_map]
    rfl
  refine ⟨hfst, hsnd, ?_⟩
  rw [posVals, hfst, hsnd]
  exact (List.zip_of_prod rfl rfl).symm

/-- The pairs stand in order already. -/
theorem qsortOrder_nonbasePairs {qsort : Qsort} (hqsort : Sorts qsort) (baseVal : Float8)
    {xs : List Float8} (hlength : xs.length < 2147483648) :
    ∃ order, qsortOrder qsort (nonbasePairs baseVal xs) = .ok order ∧
      order.map (pick (nonbasePairs baseVal xs)) = nonbasePairs baseVal xs := by
  have hwithin : ∀ p ∈ nonbasePairs baseVal xs, 1 ≤ p.1 ∧ p.1 ≤ xs.length := by
    intro p hp
    have ⟨hone, hget, _⟩ := mem_nonbasePairs.mp hp
    have hlt := (List.getElem?_eq_some_iff.mp hget).1
    exact ⟨hone, by omega⟩
  have ⟨order, horder, hperm, hsorted⟩ :=
    qsortOrder_of_near hqsort (near_of_le (by omega) hwithin)
  exact ⟨order, horder, ordered_unique (nonbasePairs_free baseVal xs)
    (nonbasePairs_sorted baseVal xs) hsorted hperm⟩

/-- Cast back with the size of the array, the pairs become an svec of the array, unless it is too
large for an allocation. -/
theorem cast_nonbasePairs {qsort : Qsort} (hqsort : Sorts qsort) {positions : Int8ArrayType}
    {values : ArrayType} {n : Nat} (hplain : Plain positions values n) {baseVal : Float8}
    {xs : List Float8} (hpairs : posVals positions values = nonbasePairs baseVal xs)
    (hlength : xs.length < 2147483648) :
    (runsSize (orderedRuns xs.length baseVal (nonbasePairs baseVal xs)) ≤ maxAllocSize →
      ∃ w, svecCastPositionsFloat8arr qsort positions values (Int64.ofInt xs.length) baseVal =
          .ok w ∧
        WellFormed (sdataFromSvec w) ∧ (sdataFromSvec w).dense = xs) ∧
    (maxAllocSize < runsSize (orderedRuns xs.length baseVal (nonbasePairs baseVal xs)) →
      ∃ e, svecCastPositionsFloat8arr qsort positions values (Int64.ofInt xs.length) baseVal =
        .error e) := by
  have hsize : (Int64.ofInt (xs.length : Int)).toInt = xs.length :=
    Int64.toInt_ofInt_of_le (by omega) (by omega)
  have ⟨order, horder, hordered⟩ := qsortOrder_nonbasePairs hqsort baseVal hlength
  have ⟨_, _, hn, _⟩ := hplain.lengths
  have ⟨_, _, hcount⟩ := hplain.posVals_eq
  constructor
  · intro hfits
    have hgood : ¬ BadPosition (Int64.ofInt (xs.length : Int)).toInt (posVals positions values) := by
      rintro ⟨p, hp, hbad⟩
      rw [hpairs] at hp
      have ⟨hone, hget, _⟩ := mem_nonbasePairs.mp hp
      have hlt := (List.getElem?_eq_some_iff.mp hget).1
      rw [hsize] at hbad
      omega
    have hnonempty : 1 ≤ xs.length := by
      have hle := length_nonbase_le baseVal xs
      rw [hpairs, length_nonbasePairs] at hcount
      omega
    have hfree : ¬ Conflicting (posVals positions values) := by
      rw [hpairs]
      exact nonbasePairs_free baseVal xs
    have hsizeTrue : SizeTrue (Int64.ofInt (xs.length : Int)).toInt (posVals positions values) := by
      rw [hsize]
      exact ⟨fun _ => by omega, fun hlow => absurd hlow (by omega)⟩
    have hcastFits : CastFits qsort (posVals positions values)
        (Int64.ofInt (xs.length : Int)).toInt baseVal := by
      rw [hsize, hpairs]
      exact ⟨order, horder, by rwa [hordered]⟩
    have ⟨w, hcast, hwell, hdense, hdeclared, _⟩ :=
      hplain.cast_wellFormed hqsort hgood hfree hsizeTrue hcastFits
    refine ⟨w, hcast, hwell, ?_⟩
    rw [hdense, hdeclared (by omega), hsize, hpairs, Int.toNat_natCast, segment_nonbasePairs]
  · intro hlarge
    have ⟨e, he, _⟩ := (hplain.cast_raises_iff hqsort (Int64.ofInt (xs.length : Int)) baseVal).mpr
      (.inr (.inr ⟨order, by rw [hpairs]; exact horder, .inr (by rwa [hpairs, hsize, hordered])⟩))
    exact ⟨e, he⟩

/-! ## What the functions are for -/

section Nonbase

variable (qsort : Qsort) (constructInts : List Int64 → Except Fault Int8ArrayType)
  (constructFloats : List Float8 → Except Fault ArrayType) (behind behind' : Nat → UInt8)
  (svec : SvecType) (baseVal : Float8)

/-- The arrays hold the 1-based positions of the elements that differ, in ascending order, and
these elements, and the vector can be made from them again where there are any. -/
def NonbaseMeets : Prop :=
  ∃ positions values,
    svecNonbasePositions constructInts behind svec baseVal = .ok positions ∧
    svecNonbaseValues constructFloats behind' svec baseVal = .ok values ∧
    positions.data.map Int64.toInt =
      (nonbase baseVal (sdataFromSvec svec).dense).map (fun i : Nat => (i : Int) + 1) ∧
    values.data.map some = (nonbase baseVal (sdataFromSvec svec).dense).map
      (fun i => (sdataFromSvec svec).dense[i]?) ∧
    (positions.data ≠ [] → ∃ w,
      svecCastPositionsFloat8arr qsort positions values
        (Int64.ofInt (sdataFromSvec svec).dense.length) baseVal = .ok w ∧
      ∃ bound, ∀ fuel, bound ≤ fuel → svecEq fuel w svec = some (.ok true))

/-- The arrays of the elements that differ, and the svec that is made of them, fit into an
allocation. -/
def NonbaseFits : Prop :=
  24 + 8 * (nonbase baseVal (sdataFromSvec svec).dense).length ≤ maxAllocSize ∧
    (nonbase baseVal (sdataFromSvec svec).dense ≠ [] →
      runsSize (orderedRuns (sdataFromSvec svec).dense.length baseVal
        (nonbasePairs baseVal (sdataFromSvec svec).dense)) ≤ maxAllocSize)

end Nonbase

theorem svecEq_of_dense_eq {u v : SvecType} (hu : WellFormed (sdataFromSvec u))
    (hv : WellFormed (sdataFromSvec v)) (h : (sdataFromSvec u).dense = (sdataFromSvec v).dense) :
    ∃ bound, ∀ fuel, bound ≤ fuel → svecEq fuel u v = some (.ok true) := by
  refine ⟨(sdataFromSvec v).totalValueCount.toInt.toNat + 1, fun fuel hfuel => ?_⟩
  unfold svecEq
  rw [sparsedataEq_spec hu.proper hv.proper (by omega), decide_eq_true h]

theorem map_some_nonbaseItems (baseVal : Float8) (xs : List Float8) :
    (nonbaseItems (fun _ v => v) baseVal 0 xs).map some =
      (nonbase baseVal xs).map fun i => xs[i]? := by
  rw [nonbaseItems, List.map_map]
  apply List.map_congr_left
  intro i hi
  have hlt : i < xs.length := List.mem_range.mp (List.mem_of_mem_filter hi)
  rw [Function.comp_apply, List.getElem?_eq_getElem hlt, List.getD_eq_getElem _ _ hlt]

section Meets

variable {qsort : Qsort} {constructInts : List Int64 → Except Fault Int8ArrayType}
  {constructFloats : List Float8 → Except Fault ArrayType} {svec : SvecType}

theorem plain_of_constructs
    (hints : Constructs constructInts Int8ArrayType.data Int8ArrayType.shape int8Oid)
    (hfloats : Constructs constructFloats ArrayType.data ArrayType.shape float8Oid)
    {ints : List Int64} {floats : List Float8} {positions : Int8ArrayType} {values : ArrayType}
    (hne : ints ≠ []) (hlength : floats.length = ints.length)
    (hpositions : constructInts ints = .ok positions)
    (hvalues : constructFloats floats = .ok values) : Plain positions values ints.length := by
  have hne' : floats ≠ [] := by
    apply List.ne_nil_of_length_pos
    rw [hlength]
    exact List.length_pos_of_ne_nil hne
  have hshape := hints.shape _ _ hne hpositions
  have hshape' := hfloats.shape _ _ hne' hvalues
  rw [hlength] at hshape'
  simp only [Int8ArrayType.shape, ArrayType.shape, Prod.mk.injEq] at hshape hshape'
  exact ⟨hshape'.1, hshape.1, hshape'.2.1, hshape.2.1, hshape'.2.2, hshape.2.2⟩

/-- Without an index both arrays are empty. -/
theorem nonbaseMeets_none_iff
    (hints : Constructs constructInts Int8ArrayType.data Int8ArrayType.shape int8Oid)
    (hfloats : Constructs constructFloats ArrayType.data ArrayType.shape float8Oid)
    (hindex : (sdataFromSvec svec).index.data = none) (behind behind' : Nat → UInt8)
    (baseVal : Float8) :
    NonbaseMeets qsort constructInts constructFloats behind behind' svec baseVal ↔
      ∀ x ∈ (sdataFromSvec svec).dense, x = baseVal := by
  have ⟨positions, hpositions, hempty⟩ := svecNonbase_none hints
    (fun sizeTracker _ => Int64.ofInt (sizeTracker + 1)) behind hindex baseVal
  have ⟨values, hvalues, hempty'⟩ := svecNonbase_none hfloats (fun _ v => v) behind' hindex baseVal
  rw [← nonbase_eq_nil_iff]
  constructor
  · intro hmeets
    have ⟨positions', _, hpositions', _, hlist, _⟩ := hmeets
    have hsame : positions = positions' := Except.ok.inj (hpositions.symm.trans hpositions')
    rw [← hsame, hempty] at hlist
    exact List.map_eq_nil_iff.mp hlist.symm
  · intro hnil
    refine ⟨positions, values, hpositions, hvalues, ?_, ?_, fun hne => absurd hempty hne⟩
    · rw [hempty, hnil]
      rfl
    · rw [hempty', hnil]
      rfl

theorem nonbaseMeets_indexed_iff (hqsort : Sorts qsort)
    (hints : Constructs constructInts Int8ArrayType.data Int8ArrayType.shape int8Oid)
    (hfloats : Constructs constructFloats ArrayType.data ArrayType.shape float8Oid)
    (h : WellFormed (sdataFromSvec svec)) (hindex : (sdataFromSvec svec).index.data ≠ none)
    (behind behind' : Nat → UInt8) (baseVal : Float8) :
    NonbaseMeets qsort constructInts constructFloats behind behind' svec baseVal ↔
      NonbaseFits svec baseVal := by
  have hlength := h.truthful.length_dense
  have hmax := (int32_mem (sdataFromSvec svec).totalValueCount).2
  have hints' := svecNonbase_indexed hints
    (fun sizeTracker _ => Int64.ofInt (sizeTracker + 1)) behind h hindex baseVal
  have hfloats' := svecNonbase_indexed hfloats (fun _ v => v) behind' h hindex baseVal
  unfold NonbaseFits
  by_cases hfits : 24 + 8 * (nonbase baseVal (sdataFromSvec svec).dense).length ≤ maxAllocSize
  · have ⟨positions, hpositions, hmade, hdata⟩ := hints'.1 hfits
    have ⟨values, hvalues, hmade', hdata'⟩ := hfloats'.1 hfits
    have ⟨hfst, _, hpairs⟩ := posVals_nonbaseItems (by omega) hdata hdata'
    have hempty : positions.data = [] ↔ nonbase baseVal (sdataFromSvec svec).dense = [] := by
      rw [hdata, nonbaseItems, List.map_eq_nil_iff]
    have hcast : positions.data ≠ [] → _ := fun hne =>
      cast_nonbasePairs hqsort (plain_of_constructs hints hfloats (by rwa [← hdata])
        (by rw [length_nonbaseItems, length_nonbaseItems]) hmade hmade') hpairs (by omega)
    rw [and_iff_right hfits]
    constructor
    · intro hmeets hne
      have ⟨positions', values', hpositions', hvalues', _, _, hback⟩ := hmeets
      obtain rfl : positions = positions' := Except.ok.inj (hpositions.symm.trans hpositions')
      obtain rfl : values = values' := Except.ok.inj (hvalues.symm.trans hvalues')
      have hne' : positions.data ≠ [] := fun hnil => hne (hempty.mp hnil)
      have ⟨w, hw, _⟩ := hback hne'
      by_contra hlarge
      have ⟨e, he⟩ := (hcast hne').2 (not_le.mp hlarge)
      cases hw.symm.trans he
    · intro hsvec
      refine ⟨positions, values, hpositions, hvalues, ?_, ?_, fun hne => ?_⟩
      · rw [hfst, nonbasePairs, List.map_map]
        rfl
      · rw [hdata', map_some_nonbaseItems]
      · have ⟨w, hw, hwell, hdense⟩ := (hcast hne).1 (hsvec fun hnil => hne (hempty.mpr hnil))
        exact ⟨w, hw, svecEq_of_dense_eq hwell h hdense⟩
  · constructor
    · intro hmeets
      have ⟨positions, _, hpositions, _⟩ := hmeets
      have ⟨e, he, _⟩ := hints'.2 (not_le.mp hfits)
      cases hpositions.symm.trans he
    · exact fun hboth => absurd hboth.1 hfits

/-- The two functions describe an svec with an index as far as allocations go, and one without
only if it is the base value throughout. -/
theorem svecNonbase_meets_iff (hqsort : Sorts qsort)
    (hints : Constructs constructInts Int8ArrayType.data Int8ArrayType.shape int8Oid)
    (hfloats : Constructs constructFloats ArrayType.data ArrayType.shape float8Oid)
    (h : WellFormed (sdataFromSvec svec)) (behind behind' : Nat → UInt8) (baseVal : Float8) :
    NonbaseMeets qsort constructInts constructFloats behind behind' svec baseVal ↔
      ((sdataFromSvec svec).index.data = none ∧ ∀ x ∈ (sdataFromSvec svec).dense, x = baseVal) ∨
      ((sdataFromSvec svec).index.data ≠ none ∧ NonbaseFits svec baseVal) := by
  by_cases hindex : (sdataFromSvec svec).index.data = none
  · rw [nonbaseMeets_none_iff hints hfloats hindex, and_iff_right hindex, or_iff_left]
    exact fun hother => hother.1 hindex
  · rw [nonbaseMeets_indexed_iff hqsort hints hfloats h hindex, and_iff_right hindex, or_iff_right]
    exact fun hother => hindex hother.1

end Meets

/-- An array of these elements, which is `empty` if there are none. -/
def makeArray {α A : Type} (empty : A)
    (plain : ∀ elems : List α, elems ≠ [] → 24 + 8 * elems.length ≤ maxAllocSize → A)
    (elems : List α) : Except Fault A :=
  if hne : elems = [] then .ok empty
  else if hsize : 24 + 8 * elems.length ≤ maxAllocSize then .ok (plain elems hne hsize)
  else .error (.elog "array size exceeds the maximum allowed")

theorem constructs_makeArray {α A : Type} {empty : A}
    {plain : ∀ elems : List α, elems ≠ [] → 24 + 8 * elems.length ≤ maxAllocSize → A}
    {data : A → List α} {shape : A → Int × List Nat × Option (List UInt8)} {oid : Int}
    (hempty : data empty = []) (hdata : ∀ elems hne hsize, data (plain elems hne hsize) = elems)
    (hshape : ∀ elems hne hsize, shape (plain elems hne hsize) = (oid, [elems.length], none)) :
    Constructs (makeArray empty plain) data shape oid := by
  have hplain : ∀ {elems : List α} (hne : elems ≠ []) (hsize : 24 + 8 * elems.length ≤ maxAllocSize),
      makeArray empty plain elems = .ok (plain elems hne hsize) := by
    intro elems hne hsize
    rw [makeArray, dif_neg hne, dif_pos hsize]
  have hcases : ∀ {elems array}, elems ≠ [] → makeArray empty plain elems = .ok array →
      ∃ hne hsize, array = plain elems hne hsize := by
    intro elems array hne harray
    by_cases hsize : 24 + 8 * elems.length ≤ maxAllocSize
    · exact ⟨hne, hsize, Except.ok.inj (harray.symm.trans (hplain hne hsize))⟩
    · rw [makeArray, dif_neg hne, dif_neg hsize] at harray
      cases harray
  refine ⟨fun elems hsize => ?_, fun elems hlarge => ?_, fun elems array harray => ?_,
    fun elems array hne harray => ?_⟩
  · by_cases hne : elems = []
    · exact ⟨empty, by rw [makeArray, dif_pos hne]⟩
    · exact ⟨_, hplain hne hsize⟩
  · have hne : elems ≠ [] := by
      rintro rfl
      simp [maxAllocSize] at hlarge
    exact ⟨_, by rw [makeArray, dif_neg hne, dif_neg (not_le.mpr hlarge)], rfl⟩
  · by_cases hne : elems = []
    · rw [makeArray, dif_pos hne] at harray
      rw [← Except.ok.inj harray, hempty, hne]
    · have ⟨_, _, heq⟩ := hcases hne harray
      rw [heq, hdata]
  · have ⟨_, _, heq⟩ := hcases hne harray
    rw [heq, hshape]

def emptyPositions : Int8ArrayType where
  elemtype := int8Oid
  dims := []
  nullbitmap := none
  data := []
  dims_pos := by decide
  length_data := by decide
  size_le := by decide

def emptyValues : ArrayType where
  elemtype := float8Oid
  dims := []
  nullbitmap := none
  data := []
  dims_pos := by decide
  dims_le := by decide
  bitmap_le bitmap h := nomatch h
  length_data := by decide
  size_le := by decide

theorem constructs_positions : Constructs (makeArray emptyPositions plainPositions)
    Int8ArrayType.data Int8ArrayType.shape int8Oid :=
  constructs_makeArray rfl (fun _ _ _ => rfl) fun _ _ _ => rfl

theorem constructs_values : Constructs (makeArray emptyValues plainArray)
    ArrayType.data ArrayType.shape float8Oid :=
  constructs_makeArray rfl (fun _ _ _ => rfl) fun _ _ _ => rfl

/-- The vector 5, 5, 7 with an index. -/
theorem svecNonbase_meets_three :
    NonbaseMeets sortIndices (makeArray emptyPositions plainPositions)
      (makeArray emptyValues plainArray) (fun _ => 0) (fun _ => 0)
      (tightSvec 3 3 [5, 7] [254, 255] (by decide)) 5 := by
  have hwell : WellFormed (sdataFromSvec (tightSvec 3 3 [5, 7] [254, 255] (by decide))) :=
    ⟨⟨[2, 1], HasRuns.of_runLengths (by decide) rfl, by decide, by decide⟩, by decide⟩
  refine (svecNonbase_meets_iff sorts_sortIndices constructs_positions constructs_values hwell
    (fun _ => 0) (fun _ => 0) 5).mpr (.inr ⟨by decide, ?_⟩)
  have hdense : (sdataFromSvec (tightSvec 3 3 [5, 7] [254, 255] (by decide))).dense = [5, 5, 7] := by
    decide
  have hplaces : nonbase 5 [5, 5, 7] = [2] := by decide
  have hpairs : nonbasePairs 5 [5, 5, 7] = [(3, 7)] := by decide
  unfold NonbaseFits
  rw [hdense, hplaces, hpairs]
  exact ⟨by decide, fun _ => by decide⟩

/-- The same vector without an index. -/
theorem svecNonbase_not_meets_none :
    ¬ NonbaseMeets sortIndices (makeArray emptyPositions plainPositions)
      (makeArray emptyValues plainArray) (fun _ => 0) (fun _ => 0)
      (tightSvec 3 3 [5, 5, 7] [] (by decide)) 5 := by
  rw [nonbaseMeets_none_iff constructs_positions constructs_values (by decide)]
  intro h
  have hdense : (sdataFromSvec (tightSvec 3 3 [5, 5, 7] [] (by decide))).dense = [5, 5, 7] := by
    decide
  exact absurd (h 7 (by rw [hdense]; decide)) (by decide)

end Madlib.Svec
