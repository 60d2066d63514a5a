import Madlib.Svec.Operators
import Madlib.Svec.Selection

/-!
# The median of an svec

The real index of a run is the number of elements in front of it, so selecting on the runs is
selecting on the elements.  The run lengths, permuted, are then written back over the index.
-/

namespace Madlib.Svec

open Madlib.Backend Madlib.Lib Madlib.Lib.MachineInt Madlib.Lib.RunLength CountCode

/-- `svec_median` with at most `fuel` pivots. -/
def svecMedian (fuel : Nat) (randomInt : Nat → Int → Int → Int) (svec : SvecType) :
    Option (Except Fault (Option Float8)) :=
  let sdata := sdataFromSvec svec
  if (sdata.vals.take sdata.uniqueValueCount).contains NVP then some (.ok none)
  else (selectMedian fuel randomInt sdata).map fun out => do
    let (selected, index) ← out
    medianValue selected index

def float8arrMedian (fuel : Nat) (randomInt : Nat → Int → Int → Int) (array : ArrayType) :
    Option (Except Fault (Option Float8)) :=
  match sdataUncompressedFromFloat8arr array with
  | .error e => some (.error e)
  | .ok sdata =>
      if (sdata.vals.take sdata.uniqueValueCount).contains NVP then some (.ok none)
      else (float8arrPartitionInternal fuel randomInt sdata.vals sdata.totalValueCount.toInt
        ((sdata.totalValueCount.toInt - 1).tdiv 2)).map fun out => do
          let (vals, index) ← out
          medianValue { sdata with vals } index

/-- The element of rank `(n - 1) / 2`. -/
def IsMedian (xs : List Float8) (m : Float8) : Prop :=
  OrderStatistic.HasRank float8Key xs ((xs.length - 1) / 2) m

/-! ## Arrays -/

theorem isNaN_NVP : isNaN NVP = true := by decide

theorem countsElements_dense (lists : List (Float8 × Unit)) :
    CountsElements (fun _ => 1) realIndexCalcDense lists := by
  intro front back _
  unfold realIndexCalcDense weightOf
  simp

theorem elementsOf_dense (vals : List Float8) :
    elementsOf (fun _ => 1) (vals.map fun v => (v, ())) = vals := by
  unfold elementsOf
  induction vals with
  | nil => rfl
  | cons v vals ih =>
      rw [List.map_cons, List.flatMap_cons, ih]
      rfl

/-- The value at the selected index, where no value is a NULL. -/
theorem medianValue_eq {sdata : SparseData} {before after : List Float8} {m : Float8}
    (hvals : sdata.vals = before ++ m :: after) (hm : isNaN m = false) :
    medianValue sdata (before.length : Int) = .ok (some m) := by
  have hne : m ≠ NVP := by
    rintro rfl
    rw [isNaN_NVP] at hm
    cases hm
  unfold medianValue valref
  rw [if_neg (by omega), Int.toNat_natCast, hvals, List.getElem?_append_right (le_refl _),
    Nat.sub_self, List.getElem?_cons_zero, ok_bind, if_neg hne]
  rfl

/-- Selection on the values of an array ends with their median. -/
theorem partitionInternal_spec {randomInt : Nat → Int → Int → Int} (hdraws : DrawsInside randomInt)
    {vals : List Float8} (hordinary : ∀ v ∈ vals, isNaN v = false) (hne : vals ≠ []) :
    ∃ m before after, isNaN m = false ∧ IsMedian vals m ∧ ∀ fuel, vals.length < fuel →
      float8arrPartitionInternal fuel randomInt vals vals.length
        (((vals.length - 1) / 2 : Nat) : Int) =
          some (.ok (before ++ m :: after, (before.length : Int))) := by
  have hpos := List.length_pos_of_ne_nil hne
  have hlists : Ordinary (vals.map fun v => (v, ())) := by
    intro entry hentry
    have ⟨v, hv, heq⟩ := List.mem_map.mp hentry
    rw [← heq]
    exact hordinary v hv
  have hk : (vals.length - 1) / 2 < weightOf (fun _ => 1) (vals.map fun v => (v, ())) := by
    rw [← length_elementsOf, elementsOf_dense]
    omega
  have ⟨out, ⟨before, x, after, hout, hselected⟩, hrun⟩ :=
    partitionSelect_spec hdraws hlists (countsElements_dense _) hk
  have hmem : x ∈ vals.map fun v => (v, ()) := hselected.perm.mem_iff.mp (by simp)
  refine ⟨x.1, before.map Prod.fst, after.map Prod.fst, hlists x hmem, ?_, fun fuel hfuel => ?_⟩
  · have hrank := hselected.hasRank
    rw [elementsOf_dense] at hrank
    exact hrank
  · rw [List.length_map] at hrun
    unfold float8arrPartitionInternal
    rw [hrun fuel hfuel, hout]
    simp [Except.map]

theorem medianIndex_eq {n : Nat} (h : 0 < n) :
    ((n : Int) - 1).tdiv 2 = (((n - 1) / 2 : Nat) : Int) := by
  have hcast : (n : Int) - 1 = ((n - 1 : Nat) : Int) := by omega
  rw [hcast, Int.tdiv_eq_ediv_of_nonneg (Int.natCast_nonneg _)]
  rfl

theorem not_contains_NVP {vals : List Float8} (k : Nat) (h : ∀ v ∈ vals, isNaN v = false) :
    ¬ (vals.take k).contains NVP = true := by
  intro hcontains
  have hmem := List.mem_of_mem_take (List.contains_iff_mem.mp hcontains)
  have hnan := h NVP hmem
  rw [isNaN_NVP] at hnan
  cases hnan

section Draws

variable {randomInt : Nat → Int → Int → Int} (hdraws : DrawsInside randomInt)
include hdraws

/-- A dense SparseData ends up with the median of its values. -/
theorem selectDense_spec {sdata : SparseData} (hindex : sdata.index.data = none)
    (htotal : sdata.totalValueCount.toInt = sdata.vals.length)
    (hordinary : ∀ v ∈ sdata.vals, isNaN v = false) (hne : sdata.vals ≠ []) :
    ∃ m, IsMedian sdata.vals m ∧ isNaN m = false ∧ ∀ fuel, sdata.vals.length < fuel →
      ∃ vals index, float8arrPartitionInternal fuel randomInt sdata.vals
          sdata.totalValueCount.toInt ((sdata.totalValueCount.toInt - 1).tdiv 2) =
          some (.ok (vals, index)) ∧
        selectMedian fuel randomInt sdata = some (.ok ({ sdata with vals }, index)) ∧
        medianValue { sdata with vals } index = .ok (some m) := by
  have ⟨m, before, after, hm, hmedian, hrun⟩ := partitionInternal_spec hdraws hordinary hne
  refine ⟨m, hmedian, hm, fun fuel hfuel => ⟨before ++ m :: after, before.length, ?_, ?_, ?_⟩⟩
  · rw [htotal, medianIndex_eq (List.length_pos_of_ne_nil hne)]
    exact hrun fuel hfuel
  · unfold selectMedian
    dsimp only
    rw [hindex, htotal, medianIndex_eq (List.length_pos_of_ne_nil hne)]
    dsimp only
    rw [hrun fuel hfuel]
    rfl
  · exact medianValue_eq rfl hm

theorem float8arrMedian_spec {array : ArrayType} {xs : List Float8}
    (hxs : array.elements = xs.map some) (hordinary : ∀ v ∈ xs, isNaN v = false) (hne : xs ≠ []) :
    ∃ m, IsMedian xs m ∧ isNaN m = false ∧ ∀ fuel, xs.length < fuel →
      float8arrMedian fuel randomInt array = some (.ok (some m)) := by
  have hlength : xs.length = arrayGetNItems array.dims := by
    rw [← array.length_elements, hxs, List.length_map]
  have hle := array.dims_le
  unfold maxAllocSize at hle
  have hvals : array.elements.map (fun v => v.getD NVP) = xs := by
    rw [hxs, List.map_map]
    exact List.map_id'' (fun _ => rfl) xs
  have htotal : (Int32.ofInt xs.length).toInt = (xs.length : Int) := by
    rw [int32_toInt_ofInt, toInt32_of_mem (by omega) (by omega)]
  have hbuilt : ∃ sdata, sdataUncompressedFromFloat8arr array = .ok sdata ∧ sdata.vals = xs ∧
      sdata.index.data = none ∧ sdata.totalValueCount.toInt = xs.length := by
    refine ⟨makeInplaceSparseData xs none xs.length (Int32.ofInt xs.length), ?_, rfl, rfl, htotal⟩
    unfold sdataUncompressedFromFloat8arr
    dsimp only
    rw [castElements_eq, ok_bind, hvals, ← hlength]
    rfl
  have ⟨sdata, hsdata, heq, hindex, hsum⟩ := hbuilt
  subst heq
  have ⟨m, hmedian, hm, hrun⟩ := selectDense_spec hdraws hindex hsum hordinary hne
  refine ⟨m, hmedian, hm, fun fuel hfuel => ?_⟩
  have ⟨vals, index, hpartition, _, hvalue⟩ := hrun fuel hfuel
  unfold float8arrMedian
  rw [hsdata]
  dsimp only
  rw [if_neg (not_contains_NVP _ hordinary), hpartition]
  exact congrArg some hvalue

end Draws

/-! ## Runs -/

/-- The number of elements of a run. -/
def runWeight (entry : Float8 × Int64) : Nat := entry.2.toInt.toNat

theorem sum_counts {lists : List (Float8 × Int64)} (hnonneg : ∀ entry ∈ lists, 0 ≤ entry.2.toInt)
    (index : Nat) (hmax : index + weightOf runWeight lists < 2147483648) :
    lists.foldl (fun index entry => toInt32 (index + entry.2.toInt)) (index : Int) =
      ((index + weightOf runWeight lists : Nat) : Int) := by
  induction lists generalizing index with
  | nil => rfl
  | cons entry lists ih =>
      have hentry := hnonneg entry List.mem_cons_self
      have hweight : entry.2.toInt = (runWeight entry : Int) := (Int.toNat_of_nonneg hentry).symm
      rw [weightOf_cons] at hmax ⊢
      rw [List.foldl_cons, hweight, toInt32_of_mem (by omega) (by omega), ← Nat.cast_add,
        ih (fun e he => hnonneg e (List.mem_cons_of_mem _ he)) _ (by omega), Nat.add_assoc]

theorem countsElements_sparse {lists : List (Float8 × Int64)}
    (hnonneg : ∀ entry ∈ lists, 0 ≤ entry.2.toInt) (hmax : weightOf runWeight lists < 2147483648) :
    CountsElements runWeight realIndexCalcSparseRLE lists := by
  intro front back hperm
  have hweight : weightOf runWeight front + weightOf runWeight back = weightOf runWeight lists := by
    rw [← weightOf_append]
    exact (hperm.map runWeight).sum_eq
  have hfront : ∀ entry ∈ front, 0 ≤ entry.2.toInt :=
    fun entry hentry => hnonneg entry (hperm.mem_iff.mp (List.mem_append_left _ hentry))
  have hsum := sum_counts hfront 0 (by omega)
  rw [Nat.zero_add] at hsum
  unfold realIndexCalcSparseRLE
  rw [if_neg (by rw [List.length_append]; omega), Int.toNat_natCast, List.take_left']
  · exact congrArg Except.ok hsum
  · rfl

/-- The bytes the counts take in their shortest entries. -/
def entriesLength (counts : List Int64) : Nat :=
  (counts.map fun n => (int8ToCompword n.toInt).length).sum

/-- The counts are written back exactly if they fit into the buffer. -/
theorem compressIndex_eq {counts : List Int64} (hnonneg : ∀ n ∈ counts, 0 ≤ n.toInt)
    (bytes : List UInt8) :
    (entriesLength counts ≤ bytes.length → ∃ out, compressIndex counts bytes = .ok out) ∧
      (bytes.length < entriesLength counts → compressIndex counts bytes = .error .outOfBounds) := by
  induction counts generalizing bytes with
  | nil => exact ⟨fun _ => ⟨bytes, rfl⟩, fun h => absurd h (Nat.not_lt_zero _)⟩
  | cons n counts ih =>
      have hn := hnonneg n List.mem_cons_self
      have hrest : ∀ m ∈ counts, 0 ≤ m.toInt := fun m hm => hnonneg m (List.mem_cons_of_mem n hm)
      have hsum : entriesLength (n :: counts) =
          (int8ToCompword n.toInt).length + entriesLength counts := by
        unfold entriesLength
        rw [List.map_cons, List.sum_cons]
      have hentry : IsEntry (int8ToCompword n.toInt) n.toInt.toNat :=
        isEntry_int8ToCompword hn n.toInt_lt
      have ⟨hok, herror⟩ := ih hrest (bytes.drop (int8ToCompword n.toInt).length)
      rw [List.length_drop] at hok herror
      rw [compressIndex]
      dsimp only
      constructor
      · intro hfits
        have ⟨out, hout⟩ := hok (by omega)
        rw [if_neg (by omega), hentry.size, ok_bind, List.drop_left', hout, ok_bind, pure_eq_ok]
        · exact ⟨_, rfl⟩
        · rfl
      · intro hlarge
        by_cases hshort : bytes.length < (int8ToCompword n.toInt).length
        · rw [if_pos hshort]
        · rw [if_neg hshort, hentry.size, ok_bind, List.drop_left', herror (by omega)]
          · rfl
          · rfl

theorem toInt_run {n : Nat} (h : n < 2147483648) : (Int64.ofInt n).toInt = n := by
  rw [Int64.toInt_ofInt, Int.bmod_def]
  simp only [Int64.size]
  omega

/-- The values with their run lengths stand for the vector. -/
theorem elementsOf_runs {runs : List Nat} {vals : List Float8} (h : runs.length = vals.length)
    (hmax : runs.sum < 2147483648) :
    elementsOf runWeight (vals.zip (runs.map fun n : Nat => Int64.ofInt n)) = expand runs vals := by
  induction runs generalizing vals with
  | nil => simp [elementsOf]
  | cons n runs ih =>
      obtain ⟨v, rest, hvals⟩ := List.exists_of_length_succ vals h.symm
      rw [List.sum_cons] at hmax
      have hlength : runs.length = rest.length := by
        rw [hvals] at h
        simpa using h
      have hweight : runWeight (v, Int64.ofInt n) = n := by
        unfold runWeight
        rw [toInt_run (by omega), Int.toNat_natCast]
      have htail := ih hlength (by omega)
      unfold elementsOf at htail ⊢
      rw [hvals, List.map_cons, List.zip_cons_cons, List.flatMap_cons, hweight, htail, expand_cons]

theorem entriesLength_runs {runs : List Nat} (hmax : ∀ n ∈ runs, n < 2147483648) :
    entriesLength (runs.map fun n : Nat => Int64.ofInt n) = (rleBytes runs).length := by
  have heach : ∀ n ∈ runs, (int8ToCompword (Int64.ofInt n).toInt).length =
      (int8ToCompword n).length := by
    intro n hn
    rw [toInt_run (hmax n hn)]
  rw [entriesLength, List.map_map, rleBytes, List.length_flatMap]
  exact congrArg List.sum (List.map_congr_left heach)

/-- The values of the svec beside their run lengths. -/
def runLists (v : SvecType) (runs : List Nat) : List (Float8 × Int64) :=
  v.vals.zip (runs.map fun n : Nat => Int64.ofInt n)

/-- What the copy holds when the permuted runs are written back. -/
def permuted (v : SvecType) (bytes : List UInt8) (lists : List (Float8 × Int64))
    (buffer : List UInt8) : SparseData :=
  { sdataFromSvec v with
    vals := lists.map Prod.fst ++ v.vals.drop v.uniqueValueCount
    index := { (sdataFromSvec v).index with data := some (buffer.take bytes.length) } }

section Sparse

variable {v : SvecType} {runs : List Nat} {bytes : List UInt8}

theorem length_runLists (hruns : HasRuns (sdataFromSvec v) runs) :
    (runLists v runs).length = v.uniqueValueCount := by
  have hlength : runs.length = v.uniqueValueCount := hruns.length_runs
  have hvals : v.vals.length = v.uniqueValueCount := hruns.length_vals
  rw [runLists, List.length_zip, List.length_map, hlength, hvals, Nat.min_self]

theorem runLists_nonneg (hmax : ∀ n ∈ runs, n < 2147483648) :
    ∀ entry ∈ runLists v runs, 0 ≤ entry.2.toInt := by
  intro entry hentry
  have ⟨n, hn, heq⟩ := List.mem_map.mp (List.of_mem_zip hentry).2
  rw [← heq, toInt_run (hmax n hn)]
  exact Int.natCast_nonneg n

theorem elementsOf_runLists (hruns : HasRuns (sdataFromSvec v) runs) (hmax : runs.sum < 2147483648) :
    elementsOf runWeight (runLists v runs) = (sdataFromSvec v).dense := by
  have hlength : runs.length = v.vals.length := hruns.length_runs.trans hruns.length_vals.symm
  rw [hruns.dense_eq]
  exact elementsOf_runs hlength hmax

theorem entriesLength_perm {lists : List (Float8 × Int64)} (hperm : lists.Perm (runLists v runs))
    (hruns : HasRuns (sdataFromSvec v) runs) (hmax : ∀ n ∈ runs, n < 2147483648) :
    entriesLength (lists.map Prod.snd) = (rleBytes runs).length := by
  have hlength : runs.length = v.vals.length := hruns.length_runs.trans hruns.length_vals.symm
  have hsnd : (runLists v runs).map Prod.snd = runs.map fun n : Nat => Int64.ofInt n :=
    List.map_snd_zip (by rw [List.length_map, hlength])
  rw [← entriesLength_runs hmax, ← hsnd]
  exact ((hperm.map Prod.snd).map _).sum_eq

/-- The buffer of the index, with the space behind its contents. -/
theorem length_indexBuffer (hdata : (sdataFromSvec v).index.data = some bytes) :
    (bytes ++ List.replicate (v.indexMaxlen - bytes.length) 0).length = v.indexMaxlen := by
  have hread : (if v.indexMaxlen = 0 then none else some v.index) = some bytes := hdata
  split at hread
  · cases hread
  · have hle := v.index_le
    rw [Option.some.inj hread] at hle
    rw [List.length_append, List.length_replicate]
    omega

/-- Behind the selection the counts are written back. -/
theorem selectMedian_sparse {fuel : Nat} {randomInt : Nat → Int → Int → Int}
    {lists : List (Float8 × Int64)} {index : Int} (hruns : HasRuns (sdataFromSvec v) runs)
    (hdata : (sdataFromSvec v).index.data = some bytes)
    (hselect : partitionSelect fuel randomInt realIndexCalcSparseRLE (runLists v runs) 0
      (((runLists v runs).length : Int) - 1) (((sdataFromSvec v).totalValueCount.toInt - 1).tdiv 2) =
        some (.ok (lists, index))) :
    selectMedian fuel randomInt (sdataFromSvec v) =
      some (compressIndex (lists.map Prod.snd)
        (bytes ++ List.replicate (v.indexMaxlen - bytes.length) 0) >>= fun buffer =>
          .ok (permuted v bytes lists buffer, index)) := by
  have hpalloc : palloc (8 * v.uniqueValueCount) = .ok () := by
    have hlength : v.vals.length = v.uniqueValueCount := hruns.length_vals
    have hvals := v.vals_le
    have hsize := v.size_le
    unfold svecSize at hsize
    exact palloc_ok (by omega)
  have hcounts : indexToInt64s v.uniqueValueCount (some bytes) =
      .ok (runs.map fun n : Nat => Int64.ofInt n) := by
    rw [← show runs.length = v.uniqueValueCount from hruns.length_runs, ← hdata]
    exact indexToInt64s_eq hruns.index
  rw [length_runLists hruns] at hselect
  unfold selectMedian selectSparse
  dsimp only
  rw [hdata]
  dsimp only
  rw [show (sdataFromSvec v).uniqueValueCount = v.uniqueValueCount from rfl, hpalloc, hcounts]
  dsimp only
  rw [show (sdataFromSvec v).vals.zip (runs.map fun n : Nat => Int64.ofInt n) = runLists v runs
    from rfl, hselect]
  rfl

/-- Selection on the runs ends with the median of the vector; the permuted counts are written back
exactly if they fit into the buffer of the index. -/
theorem selectSparse_spec {randomInt : Nat → Int → Int → Int} (hdraws : DrawsInside randomInt)
    (h : WellFormed (sdataFromSvec v)) (hruns : HasRuns (sdataFromSvec v) runs)
    (hdata : (sdataFromSvec v).index.data = some bytes)
    (hordinary : ∀ x ∈ v.vals, isNaN x = false) :
    ∃ m, IsMedian (sdataFromSvec v).dense m ∧ isNaN m = false ∧
      ∀ fuel, v.uniqueValueCount < fuel →
        ((rleBytes runs).length ≤ v.indexMaxlen → ∃ selected index,
          selectMedian fuel randomInt (sdataFromSvec v) = some (.ok (selected, index)) ∧
            medianValue selected index = .ok (some m)) ∧
        (v.indexMaxlen < (rleBytes runs).length →
          selectMedian fuel randomInt (sdataFromSvec v) = some (.error .outOfBounds)) := by
  have htotal := h.truthful.length_dense
  have hone := h.one_le_total
  have hmax := (int32_mem (sdataFromSvec v).totalValueCount).2
  have hsum : runs.sum < 2147483648 := by
    rw [← hruns.length_dense]
    omega
  have hmaxrun : ∀ n ∈ runs, n < 2147483648 := by
    intro n hn
    have hle := List.le_sum_of_mem hn
    omega
  have hnonneg := runLists_nonneg (v := v) hmaxrun
  have helements := elementsOf_runLists hruns hsum
  have hlists : Ordinary (runLists v runs) :=
    fun entry hentry => hordinary entry.1 (List.of_mem_zip hentry).1
  have hweight : weightOf runWeight (runLists v runs) = (sdataFromSvec v).dense.length := by
    rw [← length_elementsOf, helements]
  have ⟨out, ⟨before, x, after, hout, hselected⟩, hrun⟩ := partitionSelect_spec hdraws hlists
    (countsElements_sparse hnonneg (by omega)) (k := ((sdataFromSvec v).dense.length - 1) / 2)
    (by omega)
  have hm := hlists x (hselected.perm.mem_iff.mp (by simp))
  have hmedian : IsMedian (sdataFromSvec v).dense x.1 := by
    have hrank := hselected.hasRank
    rw [helements] at hrank
    exact hrank
  have hcounts := entriesLength_perm hselected.perm hruns hmaxrun
  have hpermNonneg : ∀ n ∈ (before ++ x :: after).map Prod.snd, 0 ≤ n.toInt := by
    intro n hn
    have ⟨entry, hentry, heq⟩ := List.mem_map.mp hn
    rw [← heq]
    exact hnonneg entry (hselected.perm.mem_iff.mp hentry)
  have ⟨hfits, hlarge⟩ := compressIndex_eq hpermNonneg
    (bytes ++ List.replicate (v.indexMaxlen - bytes.length) 0)
  rw [hcounts, length_indexBuffer hdata] at hfits hlarge
  refine ⟨x.1, hmedian, hm, fun fuel hfuel => ?_⟩
  have hselect := hrun fuel (by rw [length_runLists hruns]; exact hfuel)
  rw [hout, ← medianIndex_eq (by omega), htotal] at hselect
  rw [selectMedian_sparse hruns hdata hselect]
  constructor
  · intro hle
    have ⟨buffer, hbuffer⟩ := hfits hle
    have hvals : (permuted v bytes (before ++ x :: after) buffer).vals = before.map Prod.fst ++
        x.1 :: (after.map Prod.fst ++ v.vals.drop v.uniqueValueCount) := by
      simp [permuted]
    have hvalue := medianValue_eq hvals hm
    rw [List.length_map] at hvalue
    refine ⟨_, _, ?_, hvalue⟩
    rw [hbuffer, ok_bind]
  · intro hlt
    rw [hlarge hlt, error_bind]

end Sparse

/-! ## The same median -/

/-- Two medians of the same elements are equal as float8s. -/
theorem IsMedian.float8Eq {xs : List Float8} {m m' : Float8} (h : IsMedian xs m)
    (h' : IsMedian xs m') (hm : isNaN m = false) (hm' : isNaN m' = false) :
    float8Eq m m' = true :=
  (float8Eq_iff hm hm').mpr (h.key_eq (List.Perm.refl xs) h')

/-- Whatever pivots are drawn the call ends with the median, which is also the median
`float8arr_median` finds in the expanded array. -/
def FindsMedian (v : SvecType) : Prop :=
  ∀ randomInt, DrawsInside randomInt → ∃ m bound,
    (∀ fuel, bound ≤ fuel → svecMedian fuel randomInt v = some (.ok (some m))) ∧
    IsMedian (sdataFromSvec v).dense m ∧
    ∀ array : ArrayType, array.elements = (sdataFromSvec v).dense.map some →
      ∀ randomInt', DrawsInside randomInt' → ∃ m' bound',
        (∀ fuel, bound' ≤ fuel → float8arrMedian fuel randomInt' array = some (.ok (some m'))) ∧
        float8Eq m m' = true

/-- The call ends with a value that is a median of the vector. -/
def EndsWithMedian (v : SvecType) : Prop :=
  ∀ randomInt, DrawsInside randomInt → ∃ m bound, IsMedian (sdataFromSvec v).dense m ∧
    isNaN m = false ∧ ∀ fuel, bound ≤ fuel → svecMedian fuel randomInt v = some (.ok (some m))

theorem EndsWithMedian.findsMedian {v : SvecType} (h : EndsWithMedian v)
    (hordinary : ∀ x ∈ (sdataFromSvec v).dense, isNaN x = false)
    (hne : (sdataFromSvec v).dense ≠ []) : FindsMedian v := by
  intro randomInt hdraws
  have ⟨m, bound, hmedian, hm, hrun⟩ := h randomInt hdraws
  refine ⟨m, bound, hrun, hmedian, ?_⟩
  intro array harray randomInt' hdraws'
  have ⟨m', hmedian', hm', hrun'⟩ := float8arrMedian_spec hdraws' harray hordinary hne
  refine ⟨m', (sdataFromSvec v).dense.length + 1, fun fuel hfuel => hrun' fuel (by omega), ?_⟩
  exact hmedian.float8Eq hmedian' hm hm'

/-- Draws that are always inside. -/
theorem drawsInside_left : DrawsInside fun _ x _ => x := fun _ _ _ h => ⟨le_refl _, h⟩

/-- Without a NULL among the values the call is a selection. -/
theorem svecMedian_of_ordinary {v : SvecType} (hvals : ∀ x ∈ v.vals, isNaN x = false)
    (fuel : Nat) (randomInt : Nat → Int → Int → Int) :
    svecMedian fuel randomInt v = (selectMedian fuel randomInt (sdataFromSvec v)).map
      fun out => out >>= fun (sdata, index) => medianValue sdata index := by
  have hordered : ∀ x ∈ (sdataFromSvec v).vals, isNaN x = false := hvals
  unfold svecMedian
  dsimp only
  rw [if_neg (not_contains_NVP _ hordered)]

/-- An svec with a NULL index has its elements as values. -/
theorem endsWithMedian_dense {v : SvecType} (h : WellFormed (sdataFromSvec v))
    (hdata : (sdataFromSvec v).index.data = none) (hvals : ∀ x ∈ v.vals, isNaN x = false)
    (hne : (sdataFromSvec v).dense ≠ []) : EndsWithMedian v := by
  have ⟨runs, hruns, _, _⟩ := h.exists_runs
  have hlength : runs.length = v.vals.length := hruns.length_runs.trans hruns.length_vals.symm
  have hones : runs = List.replicate v.vals.length 1 := by
    have hindex := hruns.index
    rw [hdata] at hindex
    exact List.eq_replicate_iff.mpr ⟨hlength, hindex⟩
  have hdense : (sdataFromSvec v).dense = v.vals := by
    rw [hruns.dense_eq, hones]
    exact expand_replicate_one v.vals
  have htotal := h.truthful.length_dense
  rw [hdense] at htotal hne
  intro randomInt hdraws
  have ⟨m, hmedian, hm, hrun⟩ := selectDense_spec hdraws hdata htotal.symm hvals hne
  refine ⟨m, v.vals.length + 1, ?_, hm, fun fuel hfuel => ?_⟩
  · rw [hdense]
    exact hmedian
  · have ⟨vals, index, _, hselect, hvalue⟩ := hrun fuel hfuel
    rw [svecMedian_of_ordinary hvals, hselect]
    exact congrArg some hvalue

/-- With room for the counts the selection on the runs returns. -/
theorem endsWithMedian_sparse {v : SvecType} {runs : List Nat} {bytes : List UInt8}
    (h : WellFormed (sdataFromSvec v)) (hruns : HasRuns (sdataFromSvec v) runs)
    (hdata : (sdataFromSvec v).index.data = some bytes) (hvals : ∀ x ∈ v.vals, isNaN x = false)
    (hfits : (rleBytes runs).length ≤ v.indexMaxlen) : EndsWithMedian v := by
  intro randomInt hdraws
  have ⟨m, hmedian, hm, hrun⟩ := selectSparse_spec hdraws h hruns hdata hvals
  refine ⟨m, v.uniqueValueCount + 1, hmedian, hm, fun fuel hfuel => ?_⟩
  have ⟨selected, index, hselect, hvalue⟩ := (hrun fuel hfuel).1 hfits
  rw [svecMedian_of_ordinary hvals, hselect]
  exact congrArg some hvalue

/-- Without it the counts are written behind the index. -/
theorem not_findsMedian_of_large {v : SvecType} {runs : List Nat} {bytes : List UInt8}
    (h : WellFormed (sdataFromSvec v)) (hruns : HasRuns (sdataFromSvec v) runs)
    (hdata : (sdataFromSvec v).index.data = some bytes) (hvals : ∀ x ∈ v.vals, isNaN x = false)
    (hlarge : v.indexMaxlen < (rleBytes runs).length) : ¬ FindsMedian v := by
  intro hfinds
  have ⟨m, _, _, hrun⟩ := selectSparse_spec drawsInside_left h hruns hdata hvals
  have ⟨m', bound, hmedian, _⟩ := hfinds _ drawsInside_left
  have hfault := (hrun (max bound (v.uniqueValueCount + 1)) (by omega)).2 hlarge
  have hvalue := hmedian (max bound (v.uniqueValueCount + 1)) (by omega)
  rw [svecMedian_of_ordinary hvals, hfault] at hvalue
  cases hvalue

end Madlib.Svec
