import Madlib.Cart.IntArray
import Madlib.Lib.FirstMaximum
import Madlib.Lib.MachineInt
import Madlib.Lib.Segments

/-!
# Class counts for reduced-error pruning

The state is an array of `int64`: the number of misclassified rows, and then the number of rows of
every class.  There is none before the first row.
-/

namespace Madlib.Cart

open Madlib.Backend Madlib.Lib.FirstMaximum Madlib.Lib.MachineInt Madlib.Lib.Segments

def dimensionMessage (arrayDim : Nat) : String :=
  s!"invalid array dimension: {arrayDim}. The dimension of class count array must be equal to 1"

/-- `++class_count[i]` -/
def countOne (classCount : List Int) (i : Nat) : Except Fault (List Int) :=
  match classCount[i]? with
  | some c => .ok (classCount.set i (toInt64 (c + 1)))
  | none => .error .outOfBounds

/-- The counts of a new array, or those of the state. -/
def classCountOf (state : Option IntArray) (maxNumOfClasses : Int) : Except Fault (List Int) :=
  match state with
  | none => do
      palloc (sizeT (8 * toInt32 (maxNumOfClasses + 1)))
      pure (List.replicate (toInt32 (maxNumOfClasses + 1)).toNat 0)
  | some classCount => do
      dtCheckError (classCount.ndim = 1) (dimensionMessage classCount.ndim)
      dtCheckError ((classCount.data.length : Int) = toInt32 (maxNumOfClasses + 1))
        (s!"invalid array length: {classCount.data.length}. " ++
          "The length of class count array must be equal to the total number classes + 1")
      pure classCount.data

/-- A misclassified row is counted at the front, and every row at its class. -/
def countRow (classCount : List Int) (classifiedClass originalClass : Int) :
    Except Fault (List Int) := do
  let classCount ←
    if originalClass ≠ classifiedClass then countOne classCount 0 else pure classCount
  countOne classCount originalClass.toNat

/-- `dt_rep_aggr_class_count_sfunc`.  In an aggregate the state is updated in place and else a
copy of it; a new array is built only without a state. -/
def dtRepAggrClassCountSfunc (state : Option IntArray)
    (classifiedClass originalClass maxNumOfClasses : Int) : Except Fault IntArray := do
  dtCheckError (2 ≤ maxNumOfClasses)
    s!"invalid value: {maxNumOfClasses}. The number of classes must be greater than or equal to 2"
  dtCheckError (0 < originalClass ∧ originalClass ≤ maxNumOfClasses)
    (s!"invalid real class value: {originalClass}. " ++
      "It must be in range from 1 to the number of classes")
  dtCheckError (0 < classifiedClass ∧ classifiedClass ≤ maxNumOfClasses)
    (s!"invalid classified class value: {classifiedClass}. " ++
      "It must be in range from 1 to the number of classes")
  let classCount ← classCountOf state maxNumOfClasses
  let classCount ← countRow classCount classifiedClass originalClass
  match state with
  | none => constructArray 8 classCount
  | some array => pure { array with data := classCount }

/-- `dt_rep_aggr_class_count_prefunc` -/
def dtRepAggrClassCountPrefunc : Option IntArray → Option IntArray → Except Fault (Option IntArray)
  | none, none => .ok none
  | some classCount, none => .ok (some classCount)
  | none, some classCount2 => .ok (some classCount2)
  | some classCount, some classCount2 => do
      dtCheckError (classCount.ndim = 1) (dimensionMessage classCount.ndim)
      dtCheckError (classCount2.ndim = 1) (dimensionMessage classCount2.ndim)
      dtCheckError (classCount.data.length = classCount2.data.length)
        "the size of the two array must be the same in prefunction"
      let sums := List.zipWith (fun c c2 => toInt64 (c + c2)) classCount.data classCount2.data
      pure (some { classCount with data := sums })

/-- The variables of the loop over the classes. -/
structure ClassScan where
  max : Int
  sum : Int
  maxid : Nat

def scanRound (classCount : List Int) (scan : ClassScan) (i : Nat) : Except Fault ClassScan :=
  match classCount[i]? with
  | some c =>
      let scan := if scan.max < c then { scan with max := c, maxid := i } else scan
      .ok { scan with sum := toInt64 (scan.sum + c) }
  | none => .error .outOfBounds

/-- `dt_rep_aggr_class_count_ffunc` -/
def dtRepAggrClassCountFfunc (state : IntArray) : Except Fault IntArray := do
  dtCheckError (state.ndim = 1) (dimensionMessage state.ndim)
  match state.data with
  | misclassified :: first :: rest =>
      let scan ← (List.range' 2 rest.length).foldlM (scanRound state.data) ⟨first, first, 1⟩
      constructArray 8 [scan.maxid, toInt64 (misclassified - toInt64 (scan.sum - scan.max))]
  | _ => .error .outOfBounds

/-- `__rep_aggr_class_count` for so many classes; a row is the class the tree gives it, and its
own. -/
def repAggrClassCount (maxNumOfClasses : Int) :
    Aggregate Fault (Int × Int) (Option IntArray) where
  init := none
  transition := fun state row => do
    let classCount ← dtRepAggrClassCountSfunc state row.1 row.2 maxNumOfClasses
    pure (some classCount)
  merge := dtRepAggrClassCountPrefunc

/-! ## The counts of rows -/

def misclassified (rows : Multiset (Int × Int)) : ℕ := rows.countP fun row => row.2 ≠ row.1

def originalCount (rows : Multiset (Int × Int)) (c : ℕ) : ℕ :=
  rows.countP fun row => row.2 = (c : Int)

/-- What is counted at a position of the array. -/
def countAt (rows : Multiset (Int × Int)) : ℕ → ℕ
  | 0 => misclassified rows
  | c + 1 => originalCount rows (c + 1)

def countArray (K : ℕ) (rows : Multiset (Int × Int)) : List Int :=
  (List.range (K + 1)).map fun i => toInt64 (countAt rows i)

/-- The state after these rows. -/
def repState (K : ℕ) (rows : Multiset (Int × Int)) : Option IntArray :=
  if rows = 0 then none else some ⟨1, countArray K rows⟩

/-- Both classes of a row are among the classes `1..K`. -/
structure InClasses (K : ℕ) (row : Int × Int) : Prop where
  classified : 1 ≤ row.1 ∧ row.1 ≤ K
  original : 1 ≤ row.2 ∧ row.2 ≤ K

variable {K : ℕ} {rows rows' : Multiset (Int × Int)} {row : Int × Int}

theorem countAt_zero (i : ℕ) : countAt 0 i = 0 := by
  cases i with
  | zero => rfl
  | succ c => rfl

theorem countAt_cons (hrow : InClasses K row) (i : ℕ) :
    countAt (row ::ₘ rows) i = countAt rows i +
      ((if i = 0 ∧ row.2 ≠ row.1 then 1 else 0) + if i = row.2.toNat then 1 else 0) := by
  have horiginal := hrow.original
  cases i with
  | zero =>
      have hne : 0 ≠ row.2.toNat := by omega
      simp [countAt, misclassified, Multiset.countP_cons, hne]
  | succ c =>
      have hiff : row.2 = ((c + 1 : ℕ) : Int) ↔ c + 1 = row.2.toNat := by omega
      simp only [countAt, originalCount, Multiset.countP_cons, hiff]
      simp

theorem countAt_add (i : ℕ) : countAt (rows + rows') i = countAt rows i + countAt rows' i := by
  cases i with
  | zero => exact Multiset.countP_add ..
  | succ c => exact Multiset.countP_add ..

theorem countOne_map {n i : ℕ} (f : ℕ → Int) (hi : i < n) :
    countOne ((List.range n).map f) i =
      .ok ((List.range n).map fun j => if j = i then toInt64 (f j + 1) else f j) := by
  have hget : ((List.range n).map f)[i]? = some (f i) := by simp [hi]
  unfold countOne
  rw [hget]
  apply congrArg Except.ok
  apply List.ext_getElem
  · simp
  · intro j hj hj'
    simp only [List.getElem_set, List.getElem_map, List.getElem_range]
    grind

@[simp] theorem length_countArray : (countArray K rows).length = K + 1 := by
  simp [countArray]

theorem countArray_zero : countArray K 0 = List.replicate (K + 1) 0 := by
  apply List.eq_replicate_iff.mpr
  refine ⟨length_countArray, ?_⟩
  intro x hx
  obtain ⟨i, -, rfl⟩ := List.mem_map.mp hx
  rw [countAt_zero]
  exact toInt64_of_mem (by norm_num) (by norm_num)

theorem countRow_countArray (hrow : InClasses K row) :
    countRow (countArray K rows) row.1 row.2 = .ok (countArray K (row ::ₘ rows)) := by
  have horiginal := hrow.original
  have hstep : ∀ f : ℕ → Int,
      (∀ j, f j = toInt64 (countAt rows j + if j = 0 ∧ row.2 ≠ row.1 then 1 else 0)) →
        countOne ((List.range (K + 1)).map f) row.2.toNat =
          .ok (countArray K (row ::ₘ rows)) := by
    intro f hf
    rw [countOne_map f (by omega)]
    apply congrArg Except.ok
    apply List.map_congr_left
    intro j _
    rw [hf, countAt_cons hrow, toInt64_toInt64_add]
    split_ifs <;> simp_all [add_assoc]
  unfold countRow
  by_cases hne : row.2 ≠ row.1
  · rw [if_pos hne, countArray, countOne_map _ (Nat.succ_pos K), ok_bind]
    apply hstep
    intro j
    rw [toInt64_toInt64_add]
    split_ifs <;> simp_all
  · rw [if_neg hne, pure_eq_ok, ok_bind]
    apply hstep
    intro j
    simp [hne]

/-! ## The states of a run -/

theorem repState_cons (row : Int × Int) (rows : Multiset (Int × Int)) :
    repState K (row ::ₘ rows) = some ⟨1, countArray K (row ::ₘ rows)⟩ :=
  if_neg Multiset.cons_ne_zero

/-- The arrays of so many counts are ones the backend allocates. -/
def CountsFit (K : ℕ) : Prop := 24 + 8 * (K + 1) ≤ maxAllocSize

theorem toInt32_length (hfit : CountsFit K) : toInt32 ((K : Int) + 1) = (K + 1 : ℕ) := by
  unfold CountsFit maxAllocSize at hfit
  rw [toInt32_of_mem (by omega) (by omega)]
  rfl

theorem classCountOf_repState (hfit : CountsFit K) :
    classCountOf (repState K rows) K = .ok (countArray K rows) := by
  by_cases hzero : rows = 0
  · have hsize : sizeT (8 * ((K + 1 : ℕ) : Int)) ≤ maxAllocSize := by
      unfold CountsFit maxAllocSize at hfit
      unfold sizeT maxAllocSize
      omega
    rw [repState, if_pos hzero, classCountOf, toInt32_length hfit, palloc_ok hsize, ok_bind, hzero,
      countArray_zero]
    rfl
  · rw [repState, if_neg hzero, classCountOf, dtCheckError_ok rfl, ok_bind, toInt32_length hfit,
      dtCheckError_ok (by rw [length_countArray]), ok_bind]
    rfl

/-- A row is counted, in a new array or in that of the state. -/
theorem sfunc_repState (hK : 2 ≤ K) (hfit : CountsFit K) (hrow : InClasses K row) :
    dtRepAggrClassCountSfunc (repState K rows) row.1 row.2 K =
      .ok ⟨1, countArray K (row ::ₘ rows)⟩ := by
  have hcount : countRow (countArray K rows) row.1 row.2 = .ok (countArray K (row ::ₘ rows)) :=
    countRow_countArray hrow
  obtain ⟨hclassified, horiginal⟩ := hrow
  unfold dtRepAggrClassCountSfunc
  rw [dtCheckError_ok (by omega), ok_bind, dtCheckError_ok (by omega), ok_bind,
    dtCheckError_ok (by omega), ok_bind, classCountOf_repState hfit, ok_bind, hcount, ok_bind]
  by_cases hzero : rows = 0
  · have hne : countArray K (row ::ₘ rows) ≠ [] := by simp [countArray]
    rw [repState, if_pos hzero]
    apply constructArray_ok hne
    rw [length_countArray]
    exact hfit
  · rw [repState, if_neg hzero]
    rfl

theorem prefunc_repState (rows rows' : Multiset (Int × Int)) :
    dtRepAggrClassCountPrefunc (repState K rows) (repState K rows') =
      .ok (repState K (rows + rows')) := by
  by_cases hzero : rows = 0
  · by_cases hzero' : rows' = 0
    · simp [repState, hzero, hzero', dtRepAggrClassCountPrefunc]
    · simp [repState, hzero, hzero', dtRepAggrClassCountPrefunc]
  · by_cases hzero' : rows' = 0
    · simp [repState, hzero, hzero', dtRepAggrClassCountPrefunc]
    · have hadd : List.zipWith (fun c c2 => toInt64 (c + c2)) (countArray K rows)
          (countArray K rows') = countArray K (rows + rows') := by
        rw [countArray, countArray, countArray, List.zipWith_map, List.zipWith_self]
        apply List.map_congr_left
        intro i _
        rw [toInt64_toInt64_add, add_comm, toInt64_toInt64_add, countAt_add, Nat.cast_add,
          add_comm]
      have hsum : rows + rows' ≠ 0 := by simp [hzero]
      rw [repState, if_neg hzero, repState, if_neg hzero', repState, if_neg hsum, ← hadd,
        dtRepAggrClassCountPrefunc, dtCheckError_ok rfl, ok_bind, ok_bind,
        dtCheckError_ok (by simp), ok_bind]
      rfl

/-- However the rows are divided and merged, the state is that of all of them. -/
theorem repAggrClassCount_run (hK : 2 ≤ K) (hfit : CountsFit K) {plan : Plan (Int × Int)}
    (hrows : ∀ row ∈ plan.rows, InClasses K row) :
    (repAggrClassCount K).run plan = .ok (repState K plan.rows) := by
  apply Aggregate.run_of_state (Q := InClasses K) rfl _ prefunc_repState hrows
  intro rows row hrow
  simp only [repAggrClassCount]
  rw [sfunc_repState hK hfit hrow, ok_bind, repState_cons]
  rfl

/-- Without room for the counts there is no state after the first row. -/
theorem sfunc_none_error (hK : 2 ≤ K) (hK' : K < 2147483648) (hfit : ¬CountsFit K)
    (hrow : InClasses K row) :
    ∃ e, dtRepAggrClassCountSfunc none row.1 row.2 K = .error e := by
  have hcount : countRow (countArray K 0) row.1 row.2 = .ok (countArray K (row ::ₘ 0)) :=
    countRow_countArray hrow
  obtain ⟨hclassified, horiginal⟩ := hrow
  rw [CountsFit, not_le] at hfit
  unfold dtRepAggrClassCountSfunc
  rw [dtCheckError_ok (by omega), ok_bind, dtCheckError_ok (by omega), ok_bind,
    dtCheckError_ok (by omega), ok_bind, classCountOf]
  by_cases hsize : maxAllocSize < sizeT (8 * toInt32 ((K : Int) + 1))
  · rw [palloc_error hsize]
    exact ⟨_, rfl⟩
  · have hwrap : toInt32 ((K : Int) + 1) = (K + 1 : ℕ) := by
      unfold sizeT toInt32 wrapAt maxAllocSize at hsize
      rw [toInt32_of_mem (by omega) (by omega)]
      rfl
    have hne : countArray K (row ::ₘ 0) ≠ [] := by simp [countArray]
    rw [palloc_ok (not_lt.mp hsize), ok_bind, hwrap, Int.toNat_natCast, pure_eq_ok, ok_bind,
      ← countArray_zero, hcount, ok_bind, constructArray, if_neg hne, length_countArray,
      palloc_error hfit]
    exact ⟨_, rfl⟩

theorem repAggrClassCount_error (hK : 2 ≤ K) (hK' : K < 2147483648) (hfit : ¬CountsFit K)
    {plan : Plan (Int × Int)} (hrows : ∀ row ∈ plan.rows, InClasses K row) (hne : plan.rows ≠ 0) :
    ∃ e, (repAggrClassCount K).run plan = .error e := by
  apply Aggregate.run_error (Q := InClasses K) rfl _ hrows hne
  intro row hrow
  obtain ⟨e, he⟩ := sfunc_none_error hK hK' hfit hrow
  refine ⟨e, ?_⟩
  simp only [repAggrClassCount]
  rw [he, error_bind]

/-! ## The class to prune to -/

/-- Each row is one of its class. -/
theorem sum_originalCount (hrows : ∀ row ∈ rows, InClasses K row) :
    ∑ c ∈ Finset.Ico 1 (K + 1), originalCount rows c = rows.card := by
  induction rows using Multiset.induction with
  | empty => simp [originalCount]
  | cons row rows ih =>
      have horiginal := (hrows row (Multiset.mem_cons_self row rows)).original
      have hone : ∑ c ∈ Finset.Ico 1 (K + 1), (if row.2 = (c : Int) then 1 else 0) = 1 := by
        have hmem : row.2.toNat ∈ Finset.Ico 1 (K + 1) := Finset.mem_Ico.mpr (by omega)
        rw [Finset.sum_eq_single_of_mem _ hmem]
        · exact if_pos (by omega)
        · exact fun c _ hne => if_neg (by omega)
      have hrest := ih fun r hr => hrows r (Multiset.mem_cons_of_mem hr)
      calc
        ∑ c ∈ Finset.Ico 1 (K + 1), originalCount (row ::ₘ rows) c
            = ∑ c ∈ Finset.Ico 1 (K + 1),
                (originalCount rows c + if row.2 = (c : Int) then 1 else 0) :=
          Finset.sum_congr rfl fun c _ => Multiset.countP_cons ..
        _ = (row ::ₘ rows).card := by
          rw [Finset.sum_add_distrib, hrest, hone, Multiset.card_cons]

theorem getElem?_countArray {c : ℕ} (hc : c ∈ Finset.Ico 1 (K + 1)) (hcard : rows.card < 2 ^ 63) :
    (countArray K rows)[c]? = some (originalCount rows c : Int) := by
  obtain ⟨hpos, hle⟩ := Finset.mem_Ico.mp hc
  obtain ⟨c, rfl⟩ := Nat.exists_eq_succ_of_ne_zero (Nat.one_le_iff_ne_zero.mp hpos)
  have hcount : originalCount rows (c + 1) ≤ rows.card := Multiset.countP_le_card ..
  have hvalue : toInt64 (originalCount rows (c + 1)) = originalCount rows (c + 1) :=
    toInt64_of_mem (by omega) (by omega)
  rw [countArray, List.getElem?_map, List.getElem?_range hle]
  exact congrArg some hvalue

/-- What the loop knows before it comes to the class `hi`. -/
structure Scanned (rows : Multiset (Int × Int)) (scan : ClassScan) (hi : ℕ) : Prop where
  isFirstMax : IsFirstMax (originalCount rows) 1 hi scan.maxid
  max_eq : scan.max = originalCount rows scan.maxid
  sum_eq : scan.sum = (∑ c ∈ Finset.Ico 1 hi, originalCount rows c : ℕ)

theorem Scanned.round {scan : ClassScan} {hi : ℕ} (h : Scanned rows scan hi)
    (hrows : ∀ row ∈ rows, InClasses K row) (hcard : rows.card < 2 ^ 63)
    (hhi : hi ∈ Finset.Ico 1 (K + 1)) :
    ∃ scan', scanRound (countArray K rows) scan hi = .ok scan' ∧ Scanned rows scan' (hi + 1) := by
  obtain ⟨hpos, hlt⟩ := Finset.mem_Ico.mp hhi
  have hsum : ∑ c ∈ Finset.Ico 1 (hi + 1), originalCount rows c =
      ∑ c ∈ Finset.Ico 1 hi, originalCount rows c + originalCount rows hi :=
    Finset.sum_Ico_succ_top hpos _
  have hle : ∑ c ∈ Finset.Ico 1 (hi + 1), originalCount rows c ≤ rows.card := by
    rw [← sum_originalCount hrows]
    exact Finset.sum_le_sum_of_subset (Finset.Ico_subset_Ico_right hlt)
  have hvalue : toInt64 (scan.sum + originalCount rows hi) =
      (∑ c ∈ Finset.Ico 1 (hi + 1), originalCount rows c : ℕ) := by
    rw [h.sum_eq, ← Nat.cast_add, ← hsum]
    exact toInt64_of_mem (by omega) (by omega)
  unfold scanRound
  rw [getElem?_countArray hhi hcard]
  refine ⟨_, rfl, ?_⟩
  by_cases hmax : scan.max < originalCount rows hi
  · rw [if_pos hmax]
    rw [h.max_eq, Nat.cast_lt] at hmax
    exact ⟨h.isFirstMax.move hmax, rfl, hvalue⟩
  · rw [if_neg hmax]
    rw [h.max_eq, Nat.cast_lt, not_lt] at hmax
    exact ⟨h.isFirstMax.stay hmax, h.max_eq, hvalue⟩

/-- The loop over the remaining classes. -/
theorem Scanned.rounds (hrows : ∀ row ∈ rows, InClasses K row) (hcard : rows.card < 2 ^ 63)
    {scan : ClassScan} {hi n : ℕ} (h : Scanned rows scan hi) (hpos : 1 ≤ hi)
    (hn : hi + n = K + 1) :
    ∃ scan', (List.range' hi n).foldlM (scanRound (countArray K rows)) scan = .ok scan' ∧
      Scanned rows scan' (K + 1) := by
  induction n generalizing hi scan with
  | zero => exact ⟨scan, rfl, hn ▸ h⟩
  | succ n ih =>
      obtain ⟨next, hround, hnext⟩ := h.round hrows hcard (Finset.mem_Ico.mpr (by omega))
      obtain ⟨scan', hrest, hscan'⟩ := ih hnext (by omega) (by omega)
      refine ⟨scan', ?_, hscan'⟩
      rw [List.range'_succ, List.foldlM_cons, hround]
      exact hrest

/-- The largest number of rows of one class. -/
def largestClass (K : ℕ) (rows : Multiset (Int × Int)) : ℕ :=
  (Finset.Ico 1 (K + 1)).sup (originalCount rows)

theorem ffunc_countArray (hK : 1 ≤ K) (hrows : ∀ row ∈ rows, InClasses K row)
    (hcard : rows.card < 2 ^ 63) :
    ∃ maxid : ℕ, dtRepAggrClassCountFfunc ⟨1, countArray K rows⟩ =
        .ok ⟨1, [maxid, misclassified rows - (rows.card - largestClass K rows)]⟩ ∧
      IsLeast {c | c ∈ Finset.Ico 1 (K + 1) ∧ originalCount rows c = largestClass K rows}
        maxid := by
  have hfirst := getElem?_countArray (Finset.mem_Ico.mpr (⟨le_rfl, by omega⟩ : 1 ≤ 1 ∧ 1 < K + 1))
    hcard
  have hmis : misclassified rows ≤ rows.card := Multiset.countP_le_card ..
  have hmisValue : toInt64 (misclassified rows) = misclassified rows :=
    toInt64_of_mem (by omega) (by omega)
  have hzero : (countArray K rows)[0]? = some (misclassified rows : Int) := by
    rw [countArray, List.getElem?_map, List.getElem?_range (Nat.succ_pos K), ← hmisValue]
    rfl
  have hlength : (countArray K rows).length = K + 1 := length_countArray
  unfold dtRepAggrClassCountFfunc
  rw [dtCheckError_ok rfl, ok_bind]
  generalize hdata : countArray K rows = data at *
  match data, hzero, hfirst with
  | a :: b :: rest, hzero, hfirst =>
      obtain rfl : a = misclassified rows := Option.some.inj hzero
      obtain rfl : b = originalCount rows 1 := Option.some.inj hfirst
      have hstart : Scanned rows ⟨originalCount rows 1, originalCount rows 1, 1⟩ 2 :=
        ⟨IsFirstMax.single _ 1, rfl, by simp⟩
      simp only [List.length_cons] at hlength
      obtain ⟨scan, hrun, hscan⟩ := hstart.rounds hrows hcard (n := rest.length) (by omega)
        (by omega)
      have hsup : largestClass K rows = originalCount rows scan.maxid := hscan.isFirstMax.sup_eq
      have hmax : originalCount rows scan.maxid ≤ rows.card := Multiset.countP_le_card ..
      have hsum := hscan.sum_eq
      rw [sum_originalCount hrows] at hsum
      refine ⟨scan.maxid, ?_, hscan.isFirstMax.isLeast⟩
      have hothers : toInt64 (rows.card - originalCount rows scan.maxid) =
          rows.card - originalCount rows scan.maxid :=
        toInt64_of_mem (by omega) (by omega)
      have hdiff : toInt64 (misclassified rows - (rows.card - originalCount rows scan.maxid)) =
          misclassified rows - (rows.card - originalCount rows scan.maxid) :=
        toInt64_of_mem (by omega) (by omega)
      simp only
      rw [← hdata, hrun, ok_bind, hsum, hscan.max_eq, hothers, hdiff, hsup]
      apply constructArray_ok
      · simp
      · simp [maxAllocSize]

/-- The plan returns the smallest of the most frequent classes, and by how many the tree
misclassifies more rows than that class does. -/
def Prunes (K : ℕ) (plan : Plan (Int × Int)) : Prop :=
  ∃ (state : IntArray) (maxid : ℕ), (repAggrClassCount K).run plan = .ok (some state) ∧
    dtRepAggrClassCountFfunc state =
      .ok ⟨1, [maxid, misclassified plan.rows - (plan.rows.card - largestClass K plan.rows)]⟩ ∧
    IsLeast {c | c ∈ Finset.Ico 1 (K + 1) ∧ originalCount plan.rows c = largestClass K plan.rows}
      maxid

theorem prunes_of_fit (hK : 2 ≤ K) (hfit : CountsFit K) {plan : Plan (Int × Int)}
    (hne : plan.rows ≠ 0) (hrows : ∀ row ∈ plan.rows, InClasses K row)
    (hcard : plan.rows.card < 2 ^ 63) : Prunes K plan := by
  obtain ⟨maxid, hffunc, hleast⟩ := ffunc_countArray (by omega) hrows hcard
  refine ⟨⟨1, countArray K plan.rows⟩, maxid, ?_, hffunc, hleast⟩
  rw [repAggrClassCount_run hK hfit hrows, repState, if_neg hne]

/-- Two segments of three classes, and one without rows. -/
theorem prunes_of_fit_three :
    Prunes 3 (.merged (.merged (.segment [(1, 2), (3, 3)]) (.segment [])) (.segment [(2, 2)])) := by
  apply prunes_of_fit
  · decide
  · norm_num [CountsFit, maxAllocSize]
  · decide
  · intro row hrow
    simp only [Plan.rows, Multiset.coe_nil, add_zero, Multiset.coe_add, List.cons_append,
      List.nil_append, Multiset.mem_coe, List.mem_cons, List.not_mem_nil, or_false] at hrow
    rcases hrow with rfl | rfl | rfl
    · exact ⟨by decide, by decide⟩
    · exact ⟨by decide, by decide⟩
    · exact ⟨by decide, by decide⟩
  · decide

/-- Well classified rows of the first class. -/
def firstClassRows (n : ℕ) : List (Int × Int) := List.replicate n (1, 1)

theorem originalCount_firstClassRows (n c : ℕ) :
    originalCount (firstClassRows n) c = if c = 1 then n else 0 := by
  have hiff : (1 : Int) = (c : Int) ↔ c = 1 := by omega
  simp [originalCount, firstClassRows, List.countP_replicate, hiff]

theorem misclassified_firstClassRows (n : ℕ) : misclassified (firstClassRows n) = 0 := by
  simp [misclassified, firstClassRows, List.countP_replicate]

theorem largestClass_firstClassRows (hK : 1 ≤ K) (n : ℕ) :
    largestClass K (firstClassRows n) = n := by
  have hone : 1 ∈ Finset.Ico 1 (K + 1) := Finset.mem_Ico.mpr (by omega)
  apply le_antisymm
  · apply Finset.sup_le
    intro c _
    rw [originalCount_firstClassRows]
    split_ifs
    · exact le_rfl
    · exact Nat.zero_le n
  · have hle := Finset.le_sup (f := originalCount (firstClassRows n)) hone
    rwa [originalCount_firstClassRows, if_pos rfl] at hle

theorem inClasses_firstClassRows (hK : 1 ≤ K) (n : ℕ) :
    ∀ row ∈ (Plan.segment (firstClassRows n)).rows, InClasses K row := by
  intro row hrow
  obtain rfl := List.eq_of_mem_replicate (Multiset.mem_coe.mp hrow)
  exact ⟨by omega, by omega⟩

/-- A count of `2 ^ 63` is a negative one. -/
theorem countArray_firstClassRows :
    countArray 2 (firstClassRows (2 ^ 63)) = [0, -9223372036854775808, 0] := by
  simp [countArray, countAt, misclassified_firstClassRows, originalCount_firstClassRows,
    List.range_succ, toInt64, wrapAt]

/-- An array of 134217728 counts is not allocated, and a class of `2 ^ 63` rows is not found. -/
theorem not_prunes : ¬Prunes 134217727 (.segment (firstClassRows 1)) ∧
    ¬Prunes 2 (.segment (firstClassRows (2 ^ 63))) := by
  have hne : ∀ n, n ≠ 0 → (Plan.segment (firstClassRows n)).rows ≠ 0 := by
    intro n hn
    simp [Plan.rows, firstClassRows, hn]
  constructor
  · obtain ⟨e, he⟩ := repAggrClassCount_error (K := 134217727) (by norm_num) (by norm_num)
      (by norm_num [CountsFit, maxAllocSize]) (inClasses_firstClassRows (by norm_num) 1)
      (hne 1 one_ne_zero)
    rintro ⟨state, maxid, hrun, -⟩
    rw [he] at hrun
    cases hrun
  · have hclasses := inClasses_firstClassRows (K := 2) (by norm_num) (2 ^ 63)
    rintro ⟨state, maxid, hrun, hffunc, hleast⟩
    rw [repAggrClassCount_run le_rfl (by norm_num [CountsFit, maxAllocSize]) hclasses, repState,
      if_neg (hne _ (by norm_num))] at hrun
    obtain rfl : (⟨1, [0, -9223372036854775808, 0]⟩ : IntArray) = state := by
      rw [← countArray_firstClassRows]
      exact Option.some.inj (Except.ok.inj hrun)
    have hscan : dtRepAggrClassCountFfunc ⟨1, [0, -9223372036854775808, 0]⟩ =
        .ok ⟨1, [2, -9223372036854775808]⟩ := by
      rfl
    rw [hscan] at hffunc
    have htwo : (2 : Int) = maxid := by
      injection hffunc with harray
      injection harray with _ hlist
      exact (List.cons.inj hlist).1
    have hone : maxid ≤ 1 := by
      apply hleast.2
      refine ⟨by decide, ?_⟩
      exact (originalCount_firstClassRows (2 ^ 63) 1).trans
        (largestClass_firstClassRows (by norm_num) _).symm
    omega

end Madlib.Cart
