import Mathlib
import Madlib.Lib.Loop
import Madlib.Svec.Comparison

/-!
# Partition selection

`partition_select` looks for the element of a given rank with random pivots.  The lists it
pivots alongside each other are kept as one list of entries, a value with what belongs to it.
The median of an svec is selected on the values and the run lengths of a private copy, which is
left permuted.
-/

namespace Madlib.Svec

open Madlib.Backend Madlib.Lib Madlib.Lib.MachineInt CountCode

/-! ## Pivoting -/

section Partition

variable {β : Type}

def entryAt (lists : List (Float8 × β)) (i : Int) : Except Fault (Float8 × β) :=
  if i < 0 then .error .outOfBounds
  else
    match lists[i.toNat]? with
    | none => .error .outOfBounds
    | some entry => .ok entry

/-- `SWAPN` -/
def swapn (lists : List (Float8 × β)) (i j : Int) : Except Fault (List (Float8 × β)) := do
  let x ← entryAt lists i
  let y ← entryAt lists j
  pure ((lists.set i.toNat y).set j.toNat x)

/-- `compar_float8`; a NaN on either side counts as greater. -/
def comparFloat8 (left right : Float8) : Int :=
  if float8Lt left right then -1 else if float8Eq left right then 0 else 1

/-- One round of the loop of `partition_pivot`, with `storeIndex` beside the lists. -/
def pivotRound (pvalue : Float8) (acc : List (Float8 × β) × Int) (i : Int) :
    Except Fault (List (Float8 × β) × Int) := do
  let entry ← entryAt acc.1 i
  if comparFloat8 entry.1 pvalue ≤ 0 then do
    let lists ← swapn acc.1 i acc.2
    pure (lists, acc.2 + 1)
  else pure acc

def partitionPivot (lists : List (Float8 × β)) (left right pivotIndex : Int) :
    Except Fault (List (Float8 × β) × Int) := do
  let pivot ← entryAt lists pivotIndex
  let lists ← swapn lists pivotIndex right
  let positions := (List.range (right - left).toNat).map fun i : Nat => left + i
  let (lists, storeIndex) ← positions.foldlM (pivotRound pivot.1) (lists, left)
  let lists ← swapn lists storeIndex right
  pure (lists, storeIndex)

/-- The locals of `partition_select` and the number of pivots drawn so far. -/
structure SelectState (β : Type) where
  lists : List (Float8 × β)
  left : Int
  right : Int
  drawn : Nat

/-- What follows the two index calculations of a round. -/
def narrow (st : SelectState β) (maxlen pivotNewIndex realIndex nextRealIndex k : Int) :
    Loop.Step (SelectState β) (List (Float8 × β) × Int) :=
  if realIndex ≤ k ∧ k < nextRealIndex then .done (st.lists, pivotNewIndex)
  else if k < realIndex then .next { st with right := pivotNewIndex - 1 }
  else if pivotNewIndex + 1 ≥ maxlen then .done (st.lists, maxlen)
  else .next { st with left := pivotNewIndex + 1 }

/-- `randomInt n x y` is what the `n`-th use of `RANDOM_INT(x, y)` gives. -/
def selectRound (randomInt : Nat → Int → Int → Int)
    (realIndexCalc : Int → List (Float8 × β) → Except Fault Int) (maxlen k : Int)
    (st : SelectState β) :
    Except Fault (Loop.Step (SelectState β) (List (Float8 × β) × Int)) := do
  let pivotIndex := randomInt st.drawn st.left st.right
  let (lists, pivotNewIndex) ← partitionPivot st.lists st.left st.right pivotIndex
  let realIndex ← realIndexCalc pivotNewIndex lists
  let nextRealIndex ← realIndexCalc (min maxlen (pivotNewIndex + 1)) lists
  pure (narrow { st with lists, drawn := st.drawn + 1 } maxlen pivotNewIndex realIndex
    nextRealIndex k)

/-- `partition_select` for at most `fuel` pivots; `none` when it is still looking. -/
def partitionSelect (fuel : Nat) (randomInt : Nat → Int → Int → Int)
    (realIndexCalc : Int → List (Float8 × β) → Except Fault Int)
    (lists : List (Float8 × β)) (left right k : Int) :
    Option (Except Fault (List (Float8 × β) × Int)) :=
  Loop.run (selectRound randomInt realIndexCalc right k) fuel { lists, left, right, drawn := 0 }

end Partition

/-! ## The median -/

def realIndexCalcDense {β : Type} (idx : Int) (_ : List (Float8 × β)) : Except Fault Int := .ok idx

/-- The elements in front of the run at `idx`. -/
def realIndexCalcSparseRLE (idx : Int) (lists : List (Float8 × Int64)) : Except Fault Int :=
  if (lists.length : Int) < idx then .error .outOfBounds
  else .ok ((lists.take idx.toNat).foldl (fun index entry => toInt32 (index + entry.2.toInt)) 0)

/-- The loop that writes the run lengths back, entry by entry from `bytes` on. -/
def compressIndex : List Int64 → List UInt8 → Except Fault (List UInt8)
  | [], bytes => .ok bytes
  | n :: rleIndex, bytes =>
      let entry := int8ToCompword n.toInt
      if bytes.length < entry.length then .error .outOfBounds
      else do
        let bytes := entry ++ bytes.drop entry.length
        let size ← int8compstoragesize (some bytes)
        let rest ← compressIndex rleIndex (bytes.drop size)
        return bytes.take size ++ rest

/-- Selection on the values alone. -/
def float8arrPartitionInternal (fuel : Nat) (randomInt : Nat → Int → Int → Int)
    (array : List Float8) (len k : Int) : Option (Except Fault (List Float8 × Int)) :=
  (partitionSelect fuel randomInt realIndexCalcDense (array.map fun v => (v, ())) 0 (len - 1) k).map
    fun out => out.map fun (lists, index) => (lists.map Prod.fst, index)

/-- Selection on the values and the run lengths of an index; both are left permuted. -/
def selectSparse (fuel : Nat) (randomInt : Nat → Int → Int → Int) (sdata : SparseData)
    (bytes : List UInt8) (k : Int) : Option (Except Fault (SparseData × Int)) :=
  match palloc (8 * sdata.uniqueValueCount), indexToInt64s sdata.uniqueValueCount (some bytes) with
  | .error e, _ => some (.error e)
  | .ok (), .error e => some (.error e)
  | .ok (), .ok rleIndex =>
      (partitionSelect fuel randomInt realIndexCalcSparseRLE (sdata.vals.zip rleIndex) 0
        (sdata.uniqueValueCount - 1) k).map fun out => do
          let (lists, index) ← out
          -- the entries are written over the old ones, and may reach into the space behind them
          let space := List.replicate (sdata.index.maxlen - bytes.length) 0
          let buffer ← compressIndex (lists.map Prod.snd) (bytes ++ space)
          pure ({ sdata with
            vals := lists.map Prod.fst ++ sdata.vals.drop sdata.uniqueValueCount
            index := { sdata.index with data := some (buffer.take bytes.length) } }, index)

/-- What `svec_median` makes of its copy and the index of the median. -/
def selectMedian (fuel : Nat) (randomInt : Nat → Int → Int → Int) (sdata : SparseData) :
    Option (Except Fault (SparseData × Int)) :=
  let medianIndex := (sdata.totalValueCount.toInt - 1).tdiv 2
  match sdata.index.data with
  | some bytes => selectSparse fuel randomInt sdata bytes medianIndex
  | none =>
      (float8arrPartitionInternal fuel randomInt sdata.vals sdata.totalValueCount.toInt
        medianIndex).map fun out => out.map fun (vals, index) => ({ sdata with vals }, index)

/-- The value at an index; an NVP stands for NULL. -/
def medianValue (sdata : SparseData) (index : Int) : Except Fault (Option Float8) :=
  if index < 0 then .error .outOfBounds
  else do
    let ret ← valref sdata index.toNat
    pure (if ret = NVP then none else some ret)

/-! ## Selection permutes -/

section Permutation

variable {β : Type} {lists lists' : List (Float8 × β)}

theorem entryAt_ok {i : Int} {entry : Float8 × β} (h : entryAt lists i = .ok entry) :
    lists[i.toNat]? = some entry := by
  unfold entryAt at h
  split at h
  · cases h
  · cases hget : lists[i.toNat]? with
    | none =>
        rw [hget] at h
        cases h
    | some found =>
        rw [hget] at h
        cases h
        rfl

theorem perm_swapn {i j : Int} (h : swapn lists i j = .ok lists') : lists'.Perm lists := by
  unfold swapn at h
  have ⟨x, hx, h⟩ := bind_eq_ok.mp h
  have ⟨y, hy, h⟩ := bind_eq_ok.mp h
  have heq := Except.ok.inj h
  have hi := List.getElem?_eq_some_iff.mp (entryAt_ok hx)
  have hj := List.getElem?_eq_some_iff.mp (entryAt_ok hy)
  have ⟨hilt, hix⟩ := hi
  have ⟨hjlt, hjy⟩ := hj
  rw [← heq, ← hix, ← hjy]
  exact List.set_set_perm hilt hjlt

theorem perm_pivotRound {pvalue : Float8} {storeIndex i : Int}
    {acc : List (Float8 × β) × Int} (h : pivotRound pvalue (lists, storeIndex) i = .ok acc) :
    acc.1.Perm lists := by
  unfold pivotRound at h
  have ⟨entry, _, h⟩ := bind_eq_ok.mp h
  split at h
  · have ⟨lists', hswap, h⟩ := bind_eq_ok.mp h
    cases h
    exact perm_swapn hswap
  · cases h
    exact List.Perm.refl lists

theorem perm_foldlM_pivotRound {pvalue : Float8} {positions : List Int} {storeIndex : Int}
    {acc : List (Float8 × β) × Int}
    (h : positions.foldlM (pivotRound pvalue) (lists, storeIndex) = .ok acc) :
    acc.1.Perm lists := by
  induction positions generalizing lists storeIndex with
  | nil =>
      cases h
      exact List.Perm.refl lists
  | cons i positions ih =>
      rw [List.foldlM_cons] at h
      have ⟨mid, hround, h⟩ := bind_eq_ok.mp h
      exact (ih h).trans (perm_pivotRound hround)

/-- A pivot only moves entries around. -/
theorem perm_partitionPivot {left right pivotIndex newIndex : Int}
    (h : partitionPivot lists left right pivotIndex = .ok (lists', newIndex)) :
    lists'.Perm lists := by
  unfold partitionPivot at h
  have ⟨pivot, _, h⟩ := bind_eq_ok.mp h
  have ⟨swapped, hswap, h⟩ := bind_eq_ok.mp h
  have ⟨acc, hloop, h⟩ := bind_eq_ok.mp h
  have ⟨last, hlast, h⟩ := bind_eq_ok.mp h
  cases h
  exact ((perm_swapn hlast).trans (perm_foldlM_pivotRound hloop)).trans (perm_swapn hswap)

/-- The entries are the same ones after every run of the selection, whatever is drawn. -/
theorem perm_partitionSelect {fuel : Nat} {randomInt : Nat → Int → Int → Int}
    {realIndexCalc : Int → List (Float8 × β) → Except Fault Int} {left right k index : Int}
    (h : partitionSelect fuel randomInt realIndexCalc lists left right k =
      some (.ok (lists', index))) : lists'.Perm lists := by
  have hround : ∀ (st : SelectState β), st.lists.Perm lists → ∀ step,
      selectRound randomInt realIndexCalc right k st = .ok step →
      match step with
      | .next st' => st'.lists.Perm lists
      | .done out => out.1.Perm lists := by
    intro st hst step hstep
    unfold selectRound at hstep
    have ⟨pivoted, hpivot, hstep⟩ := bind_eq_ok.mp hstep
    have ⟨realIndex, _, hstep⟩ := bind_eq_ok.mp hstep
    have ⟨nextRealIndex, _, hstep⟩ := bind_eq_ok.mp hstep
    have hperm := (perm_partitionPivot hpivot).trans hst
    have heq := Except.ok.inj hstep
    rw [← heq]
    unfold narrow
    split_ifs
    · exact hperm
    · exact hperm
    · exact hperm
    · exact hperm
  have ⟨st, hst, hdone⟩ := Loop.exists_done (fun st => st.lists.Perm lists)
    (fun st st' hst hnext => hround st hst _ hnext) h (List.Perm.refl lists)
  exact hround st hst _ hdone

end Permutation

end Madlib.Svec
