import Madlib.Lib.TopMerge
import Madlib.Sketch.MfvSketch

/-!
# Merging lists of most frequent values

The sketches of two transition values are added, the counts of both lists are taken again from
the sum, both lists are sorted by them, and the best of both are appended to a new transition
value.  A value that is in both lists is appended twice where there is room for it.
-/

namespace Madlib.Sketch

open Madlib.Backend Madlib.Lib Madlib.Lib.Loop Madlib.Lib.MachineInt

/-- `qsort` with a comparison function. -/
abbrev Qsort := (OffsetCnt → OffsetCnt → Int) → List OffsetCnt → List OffsetCnt

/-- The difference of the counts, cut down to an `int`. -/
def cntCmpDesc (i j : OffsetCnt) : Int := toInt32 (j.cnt - i.cnt).toNat

/-- `cmsketch_count_c` of the datum behind a pointer, stored into a `uint64`. -/
def cmsketchCountDatum (catalog : Catalog) (md5 : Md5) (sketch : Countmin) (dat : List UInt8)
    (typOid : Nat) : Except Fault UInt64 := do
  let nhash ← sketchMd5Datum catalog md5 dat typOid
  let count ← cmsketchCountMd5Datum sketch nhash
  pure (UInt64.ofNat (sizeT count))

/-- The loop that recomputes the counts. -/
def recount (catalog : Catalog) (md5 : Md5) (newval tv : MfvTransval) :
    Except Fault MfvTransval :=
  (List.finRange tv.nextMfv).foldlM (fun (out : MfvTransval) (i : Fin tv.nextMfv) => do
    let tmpp ← mfvTransvalGetval catalog out i
    let cnt ← cmsketchCountDatum catalog md5 newval.sketch (out.space.drop tmpp) newval.typOid
    pure (out.setCnt i cnt)) tv

/-- The entries in use are sorted. -/
def sortMfvs (qsort : Qsort) (tv : MfvTransval) : MfvTransval :=
  { tv with mfvs := qsort cntCmpDesc (tv.mfvs.take tv.nextMfv) ++ tv.mfvs.drop tv.nextMfv }

def cntAt (tv : MfvTransval) (i : Nat) : Except Fault UInt64 :=
  match tv.mfvs[i]? with
  | none => .error .outOfBounds
  | some entry => .ok entry.cnt

/-- Value `k` of `source` and its count are appended as value `cnt` of `newval`. -/
def appendFrom (catalog : Catalog) (source : MfvTransval) (k cnt : Nat) (newval : MfvTransval) :
    Except Fault MfvTransval := do
  let tmpp ← mfvTransvalGetval catalog source k
  let newval ← mfvTransvalAppend catalog newval (source.space.drop tmpp)
  let count ← cntAt source k
  pure (newval.setCnt cnt count)

/-- The next item comes from the first list. -/
def nextIsFirst (transval1 transval2 : MfvTransval) (i j : Nat) : Except Fault Bool :=
  if i < transval1.nextMfv then
    if j = transval2.nextMfv then .ok true
    else do
      let cnt1 ← cntAt transval1 i
      let cnt2 ← cntAt transval2 j
      pure (decide (cnt2 ≤ cnt1))
  else .ok false

/-- The next item comes from the second list. -/
def nextIsSecond (transval1 transval2 : MfvTransval) (i j : Nat) : Except Fault Bool :=
  if j < transval2.nextMfv then
    if i = transval1.nextMfv then .ok true
    else do
      let cnt1 ← cntAt transval1 i
      let cnt2 ← cntAt transval2 j
      pure (decide (cnt1 < cnt2))
  else .ok false

/-- The remaining rounds of the loop that chooses the best of two sorted lists. -/
def chooseTop (catalog : Catalog) (transval1 transval2 : MfvTransval) :
    Nat → Nat → Nat → Nat → MfvTransval → Except Fault MfvTransval
  | 0, _, _, _, newval => .ok newval
  | rounds + 1, i, j, cnt, newval =>
      if j < transval2.nextMfv ∨ i < transval1.nextMfv then do
        let first ← nextIsFirst transval1 transval2 i j
        if first then do
          let newval ← appendFrom catalog transval1 i cnt newval
          chooseTop catalog transval1 transval2 rounds (i + 1) j (cnt + 1) newval
        else do
          let second ← nextIsSecond transval1 transval2 i j
          if second then do
            let newval ← appendFrom catalog transval2 j cnt newval
            chooseTop catalog transval1 transval2 rounds i (j + 1) (cnt + 1) newval
          else chooseTop catalog transval1 transval2 rounds i j (cnt + 1) newval
      else .ok newval

def addSketches (sketch1 sketch2 : Countmin) : Countmin := fun i j => sketch1 i j + sketch2 i j

/-- The counts are taken again from the sketch of `newval`, and the best values are appended to
it. -/
def mergeInto (catalog : Catalog) (md5 : Md5) (qsort : Qsort)
    (newval transval1 transval2 : MfvTransval) : Except Fault MfvTransval := do
  let transval1 ← recount catalog md5 newval transval1
  let transval2 ← recount catalog md5 newval transval2
  chooseTop catalog (sortMfvs qsort transval1) (sortMfvs qsort transval2) newval.maxMfvs 0 0 0
    newval

/-- Both arguments are initialised. -/
def mergeTransvals (catalog : Catalog) (md5 : Md5) (qsort : Qsort)
    (transval1 transval2 : MfvTransval) : Except Fault MfvTransval := do
  let newval ← mfvInitTransval catalog (toInt32 transval1.maxMfvs) transval1.typOid
  let sketch := addSketches transval1.sketch transval2.sketch
  mergeInto catalog md5 qsort { newval with sketch } transval1 transval2

/-- `mfvsketch_merge_c`; `none` is a transition value too short to be initialised. -/
def mfvsketchMergeC (catalog : Catalog) (md5 : Md5) (qsort : Qsort) :
    Option MfvTransval → Option MfvTransval → Except Fault (Option MfvTransval)
  | none, none => .ok none
  | none, some transval2 => do
      let transval1 ← mfvInitTransval catalog (toInt32 transval2.maxMfvs) transval2.typOid
      let newblob ← mergeTransvals catalog md5 qsort transval1 transval2
      pure (some newblob)
  | some transval1, none => do
      let transval2 ← mfvInitTransval catalog (toInt32 transval1.maxMfvs) transval1.typOid
      let newblob ← mergeTransvals catalog md5 qsort transval1 transval2
      pure (some newblob)
  | some transval1, some transval2 => do
      let newblob ← mergeTransvals catalog md5 qsort transval1 transval2
      pure (some newblob)

/-! ## Counts -/

/-- The count a sketch gives for a datum. -/
def sketchCount (md5 : Md5) (sketch : Countmin) (v : List UInt8) : UInt64 :=
  match cmsketchCountC md5 sketch v with
  | .ok count => UInt64.ofNat (sizeT count)
  | .error _ => 0

def countIn (md5 : Md5) (sketch : Countmin) (v : List UInt8) : Nat :=
  (sketchCount md5 sketch v).toNat

theorem cmsketchCountMd5Datum_total (sketch : Countmin) (hashval : List UInt8) :
    ∃ count, cmsketchCountMd5Datum sketch hashval = .ok count := by
  have hrun : ∃ out, hashCountersIterate hashval sketch (signed64 int64Max) minCounter = .ok out ∧
      True := by
    apply foldlM_finRange_ok (fun _ _ => True) trivial
    intro i s _
    exact ⟨_, rfl, trivial⟩
  have ⟨out, hout, _⟩ := hrun
  refine ⟨out.2, ?_⟩
  unfold cmsketchCountMd5Datum
  rw [hout]
  rfl

theorem cmsketchCountDatum_append {catalog : Catalog} (md5 : Md5) (sketch : Countmin)
    {v : List UInt8} {typOid : Nat} (h : IsDatum catalog (catalog.typlen typOid) v)
    (rest : List UInt8) :
    cmsketchCountDatum catalog md5 sketch (v ++ rest) typOid = .ok (sketchCount md5 sketch v) := by
  have ⟨count, hcount⟩ := cmsketchCountMd5Datum_total sketch (sketchMd5Bytea md5 v)
  unfold cmsketchCountDatum sketchCount cmsketchCountC
  rw [sketchMd5Datum_append h rest, ok_bind, hcount]
  rfl

/-- The entry with the count of its value. -/
def recounted (catalog : Catalog) (md5 : Md5) (sketch : Countmin) (tv : MfvTransval)
    (entry : OffsetCnt) : OffsetCnt :=
  { entry with cnt := sketchCount md5 sketch (tv.valueAt catalog entry) }

/-- The first `n` entries have been counted again. -/
def recountedUpTo (catalog : Catalog) (md5 : Md5) (sketch : Countmin) (tv : MfvTransval)
    (n : Nat) : MfvTransval :=
  { tv with mfvs := (tv.mfvs.take n).map (recounted catalog md5 sketch tv) ++ tv.mfvs.drop n }

theorem valueAt_recounted {catalog : Catalog} {md5 : Md5} {sketch : Countmin}
    {tv : MfvTransval} (entry : OffsetCnt) :
    tv.valueAt catalog (recounted catalog md5 sketch tv entry) = tv.valueAt catalog entry := by
  unfold MfvTransval.valueAt recounted
  rfl

theorem offset_recounted {catalog : Catalog} {md5 : Md5} {sketch : Countmin}
    {tv : MfvTransval} (entry : OffsetCnt) :
    (recounted catalog md5 sketch tv entry).offset = entry.offset := by
  -- in constructor form, so that the counts are not compared
  cases entry with
  | mk offset cnt =>
      show (recounted catalog md5 sketch tv ⟨offset, cnt⟩).offset = offset
      rfl

theorem recountedUpTo_succ (catalog : Catalog) (md5 : Md5) (sketch : Countmin)
    {tv : MfvTransval} {n : Nat} {entry : OffsetCnt} (hentry : tv.mfvs[n]? = some entry) :
    (recountedUpTo catalog md5 sketch tv n).mfvs[n]? = some entry ∧
      (recountedUpTo catalog md5 sketch tv n).setCnt n
          (sketchCount md5 sketch (tv.valueAt catalog entry)) =
        recountedUpTo catalog md5 sketch tv (n + 1) := by
  have ⟨hlt, hget⟩ := List.getElem?_eq_some_iff.mp hentry
  have hlength : ((tv.mfvs.take n).map (recounted catalog md5 sketch tv)).length = n := by
    rw [List.length_map, List.length_take]
    omega
  have hmfvs : (recountedUpTo catalog md5 sketch tv n).mfvs =
      (tv.mfvs.take n).map (recounted catalog md5 sketch tv) ++
        entry :: tv.mfvs.drop (n + 1) := by
    rw [← hget, ← List.drop_eq_getElem_cons hlt]
    rfl
  constructor
  · rw [hmfvs, List.getElem?_append_right (by rw [hlength]), hlength, Nat.sub_self]
    rfl
  · have hmodify := modify_append_length
      ((tv.mfvs.take n).map (recounted catalog md5 sketch tv)) (tv.mfvs.drop (n + 1)) entry
      fun entry' => { entry' with cnt := sketchCount md5 sketch (tv.valueAt catalog entry) }
    rw [hlength, ← hmfvs] at hmodify
    ext : 1
    case mfvs =>
      show List.modify _ _ _ = (tv.mfvs.take (n + 1)).map (recounted catalog md5 sketch tv) ++ _
      rw [List.take_add_one, hentry, List.map_append, List.append_assoc]
      exact hmodify
    all_goals rfl

theorem recount_eq {catalog : Catalog} {md5 : Md5} {newval tv : MfvTransval}
    (h : MfvValid catalog tv) (htype : newval.typOid = tv.typOid) :
    recount catalog md5 newval tv =
      .ok (recountedUpTo catalog md5 newval.sketch tv tv.nextMfv) := by
  have hrun : ∃ out, recount catalog md5 newval tv = .ok out ∧
      out = recountedUpTo catalog md5 newval.sketch tv tv.nextMfv := by
    unfold recount
    apply foldlM_finRange_ok fun n out => out = recountedUpTo catalog md5 newval.sketch tv n
    · rfl
    · intro i out hout
      have hi := i.isLt
      have hlt : i.val < tv.mfvs.length := by
        rw [h.length_mfvs]
        exact hi.trans_le h.next_le
      have hentry := List.getElem?_eq_getElem hlt
      have hmem : tv.mfvs[i.val] ∈ tv.mfvs.take tv.nextMfv := by
        rw [List.mem_take_iff_getElem]
        exact ⟨i, by omega, rfl⟩
      have hdatum := h.isDatum _ (List.mem_map_of_mem (f := tv.valueAt catalog) hmem)
      have hvalue : IsDatum catalog tv.typLen
          ((recountedUpTo catalog md5 newval.sketch tv i).valueAt catalog tv.mfvs[i.val]) := hdatum
      have ⟨hcounted, hset⟩ := recountedUpTo_succ catalog md5 newval.sketch hentry
      have ⟨hget, rest, hrest⟩ := getval_eq hcounted hi.le (h.start_le _ hmem) hvalue
      rw [h.typLen_eq, ← htype] at hdatum
      have hcount := cmsketchCountDatum_append md5 newval.sketch hdatum rest
      refine ⟨_, ?_, hset⟩
      rw [hout, hget, ok_bind, hrest]
      show (cmsketchCountDatum catalog md5 newval.sketch
        (tv.valueAt catalog tv.mfvs[i.val] ++ rest) newval.typOid >>= fun cnt => _) = _
      rw [hcount, ok_bind]
      rfl
  have ⟨out, hout, heq⟩ := hrun
  rw [hout, heq]

/-! ## Choosing -/

/-- The list the loop reads from: these values and counts, in this order. -/
structure MfvSource (catalog : Catalog) (tv : MfvTransval) (pairs : List (List UInt8 × UInt64)) :
    Prop where
  next_eq : tv.nextMfv = pairs.length
  entry : ∀ (i : Nat) (p : List UInt8 × UInt64), pairs[i]? = some p →
    ∃ entry, tv.mfvs[i]? = some entry ∧ entry.cnt = p.2 ∧ tv.valuesStart ≤ entry.offset ∧
      tv.valueAt catalog entry = p.1 ∧ IsDatum catalog tv.typLen p.1

/-- Why the values of two lists may not be appended: the request for room is refused, or a
value is shorter than the header that is read where it goes. -/
def AppendFails (head : MfvTransval) (total : Nat) (pairs : List (List UInt8 × UInt64))
    (e : Fault) : Prop :=
  (e = .elog "invalid memory alloc request size" ∧
    maxAllocSize < 2 * head.varsize + 3 * total) ∨
  (head.typLen = -1 ∧ ∃ p ∈ pairs, p.1.length < 4)

section Choose

variable {catalog : Catalog} {head : MfvTransval} {pairs all : List (List UInt8 × UInt64)}
  {free total : Nat}

theorem MfvSource.cntAt_eq {tv : MfvTransval} (h : MfvSource catalog tv pairs) {i : Nat}
    {p : List UInt8 × UInt64} (hp : pairs[i]? = some p) : cntAt tv i = .ok p.2 := by
  have ⟨entry, hentry, hcnt, _⟩ := h.entry i p hp
  unfold cntAt
  rw [hentry]
  exact congrArg Except.ok hcnt

theorem MfvHolds.congr_cnt {v : List UInt8} {cnt : UInt64} (cnt' : UInt64)
    (h : MfvHolds catalog head (pairs ++ [(v, cnt)]) free) :
    MfvHolds catalog head (pairs ++ [(v, cnt')]) free := by
  have hvarsize : (head.holding (pairs ++ [(v, cnt)]) free).varsize =
      (head.holding (pairs ++ [(v, cnt')]) free).varsize := by
    rw [varsize_holding, varsize_holding, bytesOf_append, bytesOf_append]
  have hsize := h.varsize_le
  have hgrowth := h.growth
  rw [hvarsize] at hsize hgrowth
  rw [bytesOf_append] at hgrowth
  exact
    { le_max := by
        have hle := h.le_max
        rw [List.length_append] at hle ⊢
        exact hle
      isDatum := by
        intro p hp
        rcases List.mem_append.mp hp with hp | hp
        · exact h.isDatum p (List.mem_append_left _ hp)
        · rw [List.mem_singleton.mp hp]
          exact h.isDatum (v, cnt) (by simp)
      varsize_le := hsize
      fresh := fun hnil => absurd hnil (by simp)
      growth := by
        rw [bytesOf_append]
        exact hgrowth }

/-- One value and its count are copied from a source. -/
theorem appendFrom_ends (hzero : ZeroHeader catalog) {source : MfvTransval}
    {items : List (List UInt8 × UInt64)} (hsource : MfvSource catalog source items)
    (htype : source.typLen = head.typLen) (h : MfvHolds catalog head pairs free)
    (hlt : pairs.length < head.maxMfvs) {k : Nat} {p : List UInt8 × UInt64}
    (hp : items[k]? = some p) (hall : p ∈ all) (htotal : (bytesOf pairs).length + p.1.length ≤ total) :
    Ends (AppendFails head total all) (MfvBuilt catalog head (pairs ++ [p]))
      (appendFrom catalog source k pairs.length (head.holding pairs free)) := by
  have ⟨entry, hentry, hcnt, hstart, hvalue, hdatum⟩ := hsource.entry k p hp
  have hk : k ≤ source.nextMfv := by
    rw [hsource.next_eq]
    exact (List.getElem?_eq_some_iff.mp hp).1.le
  have ⟨hget, rest, hrest⟩ := getval_eq hentry hk hstart (hvalue ▸ hdatum)
  rw [htype] at hdatum
  unfold appendFrom
  rw [hget, ok_bind, hrest, hvalue, hsource.cntAt_eq hp]
  have happend := mfvTransvalAppend_ends hzero h hlt hdatum rest
  have hfails : Ends (AppendFails head total all) (MfvBuilt catalog head (pairs ++ [(p.1, 0)]))
      (mfvTransvalAppend catalog (head.holding pairs free) (p.1 ++ rest)) := by
    apply happend.imp
    · rintro e (⟨halloc, hlarge⟩ | ⟨hvar, hshort⟩)
      · exact .inl ⟨halloc, by omega⟩
      · exact .inr ⟨hvar, p, hall, hshort⟩
    · exact fun _ h => h
  apply hfails.bind
  rintro tv ⟨free', htv, hholds⟩
  rw [htv]
  exact ⟨free', setCnt_holding p.1 p.2, hholds.congr_cnt p.2⟩

theorem nextIsFirst_eq {tv1 tv2 : MfvTransval} {items1 items2 : List (List UInt8 × UInt64)}
    (h1 : MfvSource catalog tv1 items1) (h2 : MfvSource catalog tv2 items2) {i j : Nat}
    {p q : List UInt8 × UInt64} (hp : items1[i]? = some p) (hq : items2[j]? = some q) :
    nextIsFirst tv1 tv2 i j = .ok (decide (q.2 ≤ p.2)) ∧
      nextIsSecond tv1 tv2 i j = .ok (decide (p.2 < q.2)) := by
  have hi := (List.getElem?_eq_some_iff.mp hp).1
  have hj := (List.getElem?_eq_some_iff.mp hq).1
  rw [← h1.next_eq] at hi
  rw [← h2.next_eq] at hj
  unfold nextIsFirst nextIsSecond
  rw [if_pos hi, if_pos hj, if_neg hi.ne, if_neg hj.ne, h1.cntAt_eq hp, h2.cntAt_eq hq]
  exact ⟨rfl, rfl⟩

/-- The count a value is merged by. -/
def itemCnt (p : List UInt8 × UInt64) : Nat := p.2.toNat

theorem bytesOf_cons (p : List UInt8 × UInt64) (items : List (List UInt8 × UInt64)) :
    (bytesOf (p :: items)).length = p.1.length + (bytesOf items).length := by
  simp [bytesOf]

section Rounds

variable {tv1 tv2 : MfvTransval} {items1 items2 : List (List UInt8 × UInt64)} {i j : Nat}

/-- A round ends the loop behind both lists, or appends the first item of their merged rests. -/
theorem chooseTop_round (h1 : MfvSource catalog tv1 items1) (h2 : MfvSource catalog tv2 items2)
    (hi : i ≤ items1.length) (hj : j ≤ items2.length) (rounds cnt : Nat) (newval : MfvTransval) :
    (items1.drop i = [] ∧ items2.drop j = [] ∧
      chooseTop catalog tv1 tv2 (rounds + 1) i j cnt newval = .ok newval) ∨
    (∃ p, items1[i]? = some p ∧
      TopMerge.mergeRanked itemCnt (items1.drop i) (items2.drop j) =
        p :: TopMerge.mergeRanked itemCnt (items1.drop (i + 1)) (items2.drop j) ∧
      chooseTop catalog tv1 tv2 (rounds + 1) i j cnt newval =
        appendFrom catalog tv1 i cnt newval >>=
          chooseTop catalog tv1 tv2 rounds (i + 1) j (cnt + 1)) ∨
    ∃ p, items2[j]? = some p ∧
      TopMerge.mergeRanked itemCnt (items1.drop i) (items2.drop j) =
        p :: TopMerge.mergeRanked itemCnt (items1.drop i) (items2.drop (j + 1)) ∧
      chooseTop catalog tv1 tv2 (rounds + 1) i j cnt newval =
        appendFrom catalog tv2 j cnt newval >>=
          chooseTop catalog tv1 tv2 rounds i (j + 1) (cnt + 1) := by
  have hnext1 := h1.next_eq
  have hnext2 := h2.next_eq
  unfold chooseTop
  rw [hnext1, hnext2]
  by_cases hi' : i < items1.length
  · have hp := List.getElem?_eq_getElem hi'
    have hdrop1 := List.drop_eq_getElem_cons hi'
    rw [if_pos (.inr hi')]
    by_cases hj' : j < items2.length
    · have hq := List.getElem?_eq_getElem hj'
      have hdrop2 := List.drop_eq_getElem_cons hj'
      obtain ⟨hfirst, hsecond⟩ := nextIsFirst_eq h1 h2 hp hq
      rw [hfirst, ok_bind]
      by_cases hle : items2[j].2 ≤ items1[i].2
      · rw [decide_eq_true hle, if_pos rfl]
        refine .inr (.inl ⟨_, hp, ?_, rfl⟩)
        rw [hdrop1, hdrop2]
        exact TopMerge.mergeRanked_cons_le (UInt64.le_iff_toNat_le.mp hle)
      · have hgt : items1[i].2 < items2[j].2 := UInt64.not_le.mp hle
        rw [decide_eq_false hle, if_neg Bool.false_ne_true, hsecond, ok_bind,
          decide_eq_true hgt, if_pos rfl]
        refine .inr (.inr ⟨_, hq, ?_, rfl⟩)
        rw [hdrop1, hdrop2]
        exact TopMerge.mergeRanked_cons_lt (UInt64.lt_iff_toNat_lt.mp hgt)
    · -- the second list is used up
      have hjeq : j = items2.length := by omega
      have hnil : items2.drop j = [] := List.drop_eq_nil_of_le (by omega)
      have hfirst : nextIsFirst tv1 tv2 i j = .ok true := by
        unfold nextIsFirst
        rw [hnext1, hnext2, if_pos hi', if_pos hjeq]
      rw [hfirst, ok_bind, if_pos rfl]
      refine .inr (.inl ⟨_, hp, ?_, rfl⟩)
      rw [hdrop1, hnil, TopMerge.mergeRanked_nil_right, TopMerge.mergeRanked_nil_right]
  · have hieq : i = items1.length := by omega
    have hnil : items1.drop i = [] := List.drop_eq_nil_of_le (by omega)
    by_cases hj' : j < items2.length
    · -- the first list is used up
      have hq := List.getElem?_eq_getElem hj'
      have hfirst : nextIsFirst tv1 tv2 i j = .ok false := by
        unfold nextIsFirst
        rw [hnext1, if_neg hi']
      have hsecond : nextIsSecond tv1 tv2 i j = .ok true := by
        unfold nextIsSecond
        rw [hnext1, hnext2, if_pos hj', if_pos hieq]
      rw [if_pos (.inl hj'), hfirst, ok_bind, if_neg Bool.false_ne_true, hsecond, ok_bind,
        if_pos rfl]
      refine .inr (.inr ⟨_, hq, ?_, rfl⟩)
      rw [List.drop_eq_getElem_cons hj', hnil, TopMerge.mergeRanked_nil_left,
        TopMerge.mergeRanked_nil_left]
    · exact .inl ⟨hnil, List.drop_eq_nil_of_le (by omega), if_neg (by omega)⟩

/-- The bytes of the items from one on. -/
theorem bytesOf_drop {items : List (List UInt8 × UInt64)} {k : Nat} {p : List UInt8 × UInt64}
    (hp : items[k]? = some p) :
    k + 1 ≤ items.length ∧ p ∈ items ∧
      (bytesOf (items.drop k)).length = p.1.length + (bytesOf (items.drop (k + 1))).length := by
  obtain ⟨hk, hget⟩ := List.getElem?_eq_some_iff.mp hp
  rw [List.drop_eq_getElem_cons hk, hget, bytesOf_cons]
  exact ⟨hk, List.mem_of_getElem? hp, rfl⟩

/-- The rounds that are left append the first of the merged rests of both lists. -/
theorem chooseTop_ends (hzero : ZeroHeader catalog) (h1 : MfvSource catalog tv1 items1)
    (h2 : MfvSource catalog tv2 items2) (ht1 : tv1.typLen = head.typLen)
    (ht2 : tv2.typLen = head.typLen) {rounds : Nat} (hi : i ≤ items1.length)
    (hj : j ≤ items2.length) (h : MfvHolds catalog head pairs free)
    (hrounds : pairs.length + rounds = head.maxMfvs)
    (htotal : (bytesOf pairs).length + (bytesOf (items1.drop i)).length +
      (bytesOf (items2.drop j)).length ≤ total) :
    Ends (AppendFails head total (items1 ++ items2))
      (MfvBuilt catalog head (pairs ++
        (TopMerge.mergeRanked itemCnt (items1.drop i) (items2.drop j)).take rounds))
      (chooseTop catalog tv1 tv2 rounds i j pairs.length (head.holding pairs free)) := by
  induction rounds generalizing i j pairs free with
  | zero =>
      rw [List.take_zero, List.append_nil]
      exact ⟨free, rfl, h⟩
  | succ rounds ih =>
      have hlt : pairs.length < head.maxMfvs := by omega
      -- behind the append of an item the invariant holds with that item at the end
      have hnext {i' j' : Nat} {p : List UInt8 × UInt64} (hi' : i' ≤ items1.length)
          (hj' : j' ≤ items2.length)
          (hbytes : (bytesOf pairs).length + p.1.length + (bytesOf (items1.drop i')).length +
            (bytesOf (items2.drop j')).length ≤ total) (newval : MfvTransval)
          (hnewval : MfvBuilt catalog head (pairs ++ [p]) newval) :
          Ends (AppendFails head total (items1 ++ items2))
            (MfvBuilt catalog head (pairs ++ p :: (TopMerge.mergeRanked itemCnt
              (items1.drop i') (items2.drop j')).take rounds))
            (chooseTop catalog tv1 tv2 rounds i' j' (pairs.length + 1) newval) := by
        obtain ⟨free', rfl, hholds⟩ := hnewval
        have hlength : (pairs ++ [p]).length = pairs.length + 1 := by
          rw [List.length_append, List.length_singleton]
        rw [List.append_cons, ← hlength]
        apply ih hi' hj' hholds (by omega)
        rw [bytesOf_append, List.length_append]
        exact hbytes
      rcases chooseTop_round h1 h2 hi hj rounds pairs.length (head.holding pairs free) with
        ⟨hnil1, hnil2, hround⟩ | ⟨p, hp, hmerge, hround⟩ | ⟨p, hp, hmerge, hround⟩
      · rw [hround, hnil1, hnil2, TopMerge.mergeRanked_nil_left, List.take_nil, List.append_nil]
        exact ⟨free, rfl, h⟩
      · obtain ⟨hlast, hmem, hbytes⟩ := bytesOf_drop hp
        have hall : p ∈ items1 ++ items2 := List.mem_append_left items2 hmem
        rw [hround, hmerge, List.take_succ_cons]
        apply (appendFrom_ends hzero h1 ht1 h hlt hp hall (by omega)).bind
        exact hnext hlast hj (by omega)
      · obtain ⟨hlast, hmem, hbytes⟩ := bytesOf_drop hp
        have hall : p ∈ items1 ++ items2 := List.mem_append_right items1 hmem
        rw [hround, hmerge, List.take_succ_cons]
        apply (appendFrom_ends hzero h2 ht2 h hlt hp hall (by omega)).bind
        exact hnext hi hlast (by omega)

end Rounds

end Choose

/-! ## Sorting -/

/-- The comparisons of the elements of a list agree with one order. -/
structure Orders (cmp : OffsetCnt → OffsetCnt → Int) (l : List OffsetCnt) : Prop where
  flip : ∀ a ∈ l, ∀ b ∈ l, (cmp a b < 0 ↔ 0 < cmp b a)
  trans : ∀ a ∈ l, ∀ b ∈ l, ∀ c ∈ l, cmp a b ≤ 0 → cmp b c ≤ 0 → cmp a c ≤ 0

/-- What `qsort` does, in whatever order it leaves elements that compare equal. -/
structure SortsBy (qsort : Qsort) : Prop where
  perm : ∀ cmp l, Orders cmp l → (qsort cmp l).Perm l
  sorted : ∀ cmp l, Orders cmp l → (qsort cmp l).Pairwise fun a b => cmp a b ≤ 0

/-- No two of the counts are 2^31 or more apart. -/
def CountsClose (cnt : List UInt8 → Nat) (vs : List (List UInt8)) : Prop :=
  ∀ v ∈ vs, ∀ w ∈ vs, cnt v < cnt w + 2147483648

/-- The values of a list in the order `qsort` leaves them in. -/
def rankedValues (catalog : Catalog) (md5 : Md5) (qsort : Qsort) (sketch : Countmin)
    (tv : MfvTransval) : List (List UInt8) :=
  (qsort cntCmpDesc ((tv.mfvs.take tv.nextMfv).map (recounted catalog md5 sketch tv))).map
    (tv.valueAt catalog)

/-- Counts that are not far apart are compared. -/
theorem cntCmpDesc_eq {a b : OffsetCnt} (hab : a.cnt.toNat < b.cnt.toNat + 2147483648)
    (hba : b.cnt.toNat < a.cnt.toNat + 2147483648) :
    cntCmpDesc a b = (b.cnt.toNat : Int) - a.cnt.toNat := by
  have ha := a.cnt.toNat_lt
  have hsub := UInt64.toNat_sub b.cnt a.cnt
  unfold cntCmpDesc
  generalize (b.cnt - a.cnt).toNat = diff at hsub ⊢
  generalize a.cnt.toNat = m at *
  generalize b.cnt.toNat = n at *
  have hdiff : (diff : Int) % 4294967296 = ((n : Int) - m) % 4294967296 := by omega
  rw [toInt32_congr hdiff]
  exact toInt32_of_mem (by omega) (by omega)

section Ranked

variable {catalog : Catalog} {md5 : Md5} {qsort : Qsort} {sketch : Countmin} {tv : MfvTransval}

theorem cnt_recounted {entry : OffsetCnt}
    (h : entry ∈ (tv.mfvs.take tv.nextMfv).map (recounted catalog md5 sketch tv)) :
    entry.cnt = sketchCount md5 sketch (tv.valueAt catalog entry) ∧
      tv.valueAt catalog entry ∈ tv.listed catalog ∧
      ∃ stored ∈ tv.mfvs.take tv.nextMfv, entry.offset = stored.offset := by
  have ⟨stored, hstored, heq⟩ := List.mem_map.mp h
  rw [← heq, valueAt_recounted]
  exact ⟨rfl, List.mem_map_of_mem hstored, stored, hstored, offset_recounted stored⟩

theorem orders_recounted
    (hclose : CountsClose (countIn md5 sketch) (tv.listed catalog)) :
    Orders cntCmpDesc ((tv.mfvs.take tv.nextMfv).map (recounted catalog md5 sketch tv)) := by
  have hcmp (a : OffsetCnt)
      (ha : a ∈ (tv.mfvs.take tv.nextMfv).map (recounted catalog md5 sketch tv)) (b : OffsetCnt)
      (hb : b ∈ (tv.mfvs.take tv.nextMfv).map (recounted catalog md5 sketch tv)) :
      cntCmpDesc a b = (b.cnt.toNat : Int) - a.cnt.toNat := by
    have ⟨hacnt, hamem, _⟩ := cnt_recounted ha
    have ⟨hbcnt, hbmem, _⟩ := cnt_recounted hb
    apply cntCmpDesc_eq
    · rw [hacnt, hbcnt]
      exact hclose _ hamem _ hbmem
    · rw [hacnt, hbcnt]
      exact hclose _ hbmem _ hamem
  constructor
  · intro a ha b hb
    rw [hcmp a ha b hb, hcmp b hb a ha]
    omega
  · intro a ha b hb c hc
    rw [hcmp a ha b hb, hcmp b hb c hc, hcmp a ha c hc]
    omega

theorem rankedValues_perm (hsorts : SortsBy qsort)
    (hclose : CountsClose (countIn md5 sketch) (tv.listed catalog)) :
    (rankedValues catalog md5 qsort sketch tv).Perm (tv.listed catalog) := by
  have hperm := (hsorts.perm cntCmpDesc _ (orders_recounted hclose)).map (tv.valueAt catalog)
  have hlisted : ((tv.mfvs.take tv.nextMfv).map (recounted catalog md5 sketch tv)).map
      (tv.valueAt catalog) = tv.listed catalog := by
    rw [List.map_map]
    exact List.map_congr_left fun entry _ => valueAt_recounted entry
  rw [hlisted] at hperm
  exact hperm

/-- The values of a sorted list fall in their counts. -/
theorem ranked_rankedValues (hsorts : SortsBy qsort)
    (hclose : CountsClose (countIn md5 sketch) (tv.listed catalog)) :
    TopMerge.Ranked (countIn md5 sketch)
      (rankedValues catalog md5 qsort sketch tv) := by
  have horders := orders_recounted hclose
  have hperm := hsorts.perm cntCmpDesc _ horders
  apply List.Pairwise.map (tv.valueAt catalog) (fun _ _ h => h)
  apply List.Pairwise.imp_of_mem _ (hsorts.sorted cntCmpDesc _ horders)
  intro a b ha hb hle
  have ⟨hacnt, hamem, _⟩ := cnt_recounted (hperm.mem_iff.mp ha)
  have ⟨hbcnt, hbmem, _⟩ := cnt_recounted (hperm.mem_iff.mp hb)
  have hclose1 := hclose _ hamem _ hbmem
  have hclose2 := hclose _ hbmem _ hamem
  unfold countIn at hclose1 hclose2 ⊢
  rw [← hacnt, ← hbcnt] at hclose1 hclose2 ⊢
  rw [cntCmpDesc_eq hclose1 hclose2] at hle
  omega

/-- A list that was counted again and sorted is read in the order of its ranked values. -/
theorem source_sortMfvs (hsorts : SortsBy qsort) (h : MfvValid catalog tv)
    (hclose : CountsClose (countIn md5 sketch) (tv.listed catalog)) :
    MfvSource catalog (sortMfvs qsort (recountedUpTo catalog md5 sketch tv tv.nextMfv))
      ((rankedValues catalog md5 qsort sketch tv).map fun v => (v, sketchCount md5 sketch v)) := by
  have hlength : (tv.mfvs.take tv.nextMfv).length = tv.nextMfv := by
    rw [List.length_take, h.length_mfvs]
    exact Nat.min_eq_left h.next_le
  have hperm := hsorts.perm cntCmpDesc _ (orders_recounted hclose)
  have hsorted : (sortMfvs qsort (recountedUpTo catalog md5 sketch tv tv.nextMfv)).mfvs =
      qsort cntCmpDesc ((tv.mfvs.take tv.nextMfv).map (recounted catalog md5 sketch tv)) ++
        (recountedUpTo catalog md5 sketch tv tv.nextMfv).mfvs.drop tv.nextMfv := by
    unfold sortMfvs recountedUpTo
    dsimp only
    rw [List.take_left' (by rw [List.length_map, hlength])]
  constructor
  · show tv.nextMfv = _
    rw [List.length_map, rankedValues, List.length_map, hperm.length_eq, List.length_map, hlength]
  · intro i p hp
    rw [rankedValues, List.map_map, List.getElem?_map] at hp
    have ⟨entry, hentry, hpair⟩ := Option.map_eq_some_iff.mp hp
    have hmem := hperm.mem_iff.mp (List.mem_of_getElem? hentry)
    have ⟨hcnt, hlisted, stored, hstored, hoffset⟩ := cnt_recounted hmem
    have hi := (List.getElem?_eq_some_iff.mp hentry).1
    refine ⟨entry, ?_, ?_, ?_, ?_, ?_⟩
    · rw [hsorted, List.getElem?_append_left hi]
      exact hentry
    · rw [← hpair]
      exact hcnt
    · rw [hoffset]
      exact h.start_le stored hstored
    · rw [← hpair]
      rfl
    · rw [← hpair]
      exact h.isDatum _ hlisted

end Ranked

/-! ## Merging -/

/-- Why a merge fails that lists these values: a request for room is refused, or a value is
shorter than the header that is read where it goes. -/
def MergeRefuses (catalog : Catalog) (typOid maxMfvs : Nat) (vs : List (List UInt8))
    (e : Fault) : Prop :=
  (e = .elog "invalid memory alloc request size" ∧
    maxAllocSize < 2 * mfvInitialVarsize catalog maxMfvs typOid + 3 * vs.flatten.length) ∨
  (catalog.typlen typOid = -1 ∧ ∃ v ∈ vs, v.length < 4)

section Merge

variable {catalog : Catalog} {md5 : Md5} {qsort : Qsort} {tv tv1 tv2 : MfvTransval}

/-- The number of values a transition value has room for fits into an `int`. -/
theorem MfvValid.maxMfvs_lt (h : MfvValid catalog tv) : tv.maxMfvs < 2147483648 := by
  have hmax : maxAllocSize = 1073741823 := rfl
  have hsize := h.varsize_le
  unfold MfvTransval.varsize mfvTransvalSz at hsize
  omega

/-- `head` is begun like `tv`, and its sketch is set. -/
structure MfvBegun (catalog : Catalog) (tv : MfvTransval) (sketch : Countmin)
    (head : MfvTransval) (free : Nat) : Prop where
  typOid_eq : head.typOid = tv.typOid
  maxMfvs_eq : head.maxMfvs = tv.maxMfvs
  typLen_eq : head.typLen = tv.typLen
  sketch_eq : head.sketch = sketch
  varsize_eq : head.varsize = mfvInitialVarsize catalog tv.maxMfvs tv.typOid
  holding_nil : head = head.holding [] free
  holds : MfvHolds catalog head [] free

theorem MfvValid.begin (h : MfvValid catalog tv) :
    ∃ fresh, mfvInitTransval catalog tv.maxMfvs tv.typOid = .ok fresh ∧
      ∃ free, MfvBegun catalog tv (fun _ _ => 0) fresh free := by
  have ⟨fresh, hfresh⟩ := h.began
  have hlt := h.maxMfvs_lt
  have ⟨hempty, hvarsize, hself, hholds⟩ := mfvInitTransval_holds (by omega) hfresh
  refine ⟨fresh, hfresh, fresh.space.length, ?_⟩
  exact
    { typOid_eq := by rw [hempty]; rfl
      maxMfvs_eq := by rw [hempty]; rfl
      typLen_eq := by rw [h.typLen_eq, hempty]; rfl
      sketch_eq := by rw [hempty]; rfl
      varsize_eq := hvarsize
      holding_nil := hself
      holds := hholds }

theorem MfvBegun.withSketch {old : Countmin} {head : MfvTransval} {free : Nat}
    (h : MfvBegun catalog tv old head free) (sketch : Countmin) :
    MfvBegun catalog tv sketch { head with sketch } free := by
  have hsize := h.holds.varsize_le
  have hgrowth := h.holds.growth
  rw [varsize_holding] at hsize hgrowth
  exact
    { typOid_eq := h.typOid_eq
      maxMfvs_eq := h.maxMfvs_eq
      typLen_eq := h.typLen_eq
      sketch_eq := rfl
      varsize_eq := h.varsize_eq
      holding_nil := by
        have hnext := congrArg MfvTransval.nextMfv h.holding_nil
        have hoffset := congrArg MfvTransval.nextOffset h.holding_nil
        have hmfvs := congrArg MfvTransval.mfvs h.holding_nil
        have hspace := congrArg MfvTransval.space h.holding_nil
        ext : 1
        case nextMfv => exact hnext
        case nextOffset => exact hoffset
        case mfvs => exact hmfvs
        case space => exact hspace
        all_goals rfl
      holds :=
        { le_max := Nat.zero_le _
          isDatum := fun p hp => by cases hp
          varsize_le := by
            rw [varsize_holding]
            exact hsize
          fresh := h.holds.fresh
          growth := by
            rw [varsize_holding]
            exact hgrowth } }

/-- What is begun like `tv` and appended to is a transition value like `tv`. -/
theorem MfvBegun.valid {sketch : Countmin} {head : MfvTransval} {free free' : Nat}
    {pairs : List (List UInt8 × UInt64)} (h : MfvBegun catalog tv sketch head free)
    (htv : MfvValid catalog tv) (hpairs : MfvHolds catalog head pairs free') :
    MfvValid catalog (head.holding pairs free') := by
  apply hpairs.valid
  · rw [h.maxMfvs_eq, h.typOid_eq]
    exact htv.began
  · rw [h.typLen_eq, h.typOid_eq]
    exact htv.typLen_eq

/-- The values in the order they are merged in, with their counts. -/
def rankedItems (catalog : Catalog) (md5 : Md5) (qsort : Qsort) (sketch : Countmin)
    (tv : MfvTransval) : List (List UInt8 × UInt64) :=
  (rankedValues catalog md5 qsort sketch tv).map fun v => (v, sketchCount md5 sketch v)

theorem bytesOf_rankedItems {sketch : Countmin} (hsorts : SortsBy qsort)
    (hclose : CountsClose (countIn md5 sketch) (tv.listed catalog)) :
    (bytesOf (rankedItems catalog md5 qsort sketch tv)).length =
      (tv.listed catalog).flatten.length := by
  have hfst : (rankedItems catalog md5 qsort sketch tv).map Prod.fst =
      rankedValues catalog md5 qsort sketch tv := by
    rw [rankedItems, List.map_map]
    exact List.map_id _
  rw [bytesOf, hfst]
  exact (rankedValues_perm hsorts hclose).flatten.length_eq

/-- Merging the items is merging the values. -/
theorem map_fst_take_mergeRanked (sketch : Countmin) (vs ws : List (List UInt8)) (k : Nat) :
    ((TopMerge.mergeRanked itemCnt (vs.map fun v => (v, sketchCount md5 sketch v))
        (ws.map fun v => (v, sketchCount md5 sketch v))).take k).map Prod.fst =
      (TopMerge.mergeRanked (countIn md5 sketch) vs ws).take k := by
  have hmap : TopMerge.mergeRanked itemCnt (vs.map fun v => (v, sketchCount md5 sketch v))
      (ws.map fun v => (v, sketchCount md5 sketch v)) =
      (TopMerge.mergeRanked (countIn md5 sketch) vs ws).map
        fun v => (v, sketchCount md5 sketch v) :=
    (TopMerge.map_mergeRanked _ vs ws).symm
  rw [hmap, ← List.map_take, List.map_map]
  exact List.map_id _

theorem mem_rankedItems {sketch : Countmin} {p : List UInt8 × UInt64} (hsorts : SortsBy qsort)
    (hclose : CountsClose (countIn md5 sketch) (tv.listed catalog))
    (hp : p ∈ rankedItems catalog md5 qsort sketch tv) : p.1 ∈ tv.listed catalog := by
  have ⟨v, hv, hpair⟩ := List.mem_map.mp hp
  rw [← hpair]
  exact (rankedValues_perm hsorts hclose).mem_iff.mp hv

/-- The values of both lists, merged by their counts in the sketch of `head`. -/
theorem mergeInto_ends (hzero : ZeroHeader catalog) (hsorts : SortsBy qsort)
    (h1 : MfvValid catalog tv1) (h2 : MfvValid catalog tv2) (htype : tv2.typOid = tv1.typOid)
    {sketch : Countmin} {head : MfvTransval} {free : Nat}
    (hbegun : MfvBegun catalog tv1 sketch head free)
    (hclose1 : CountsClose (countIn md5 sketch) (tv1.listed catalog))
    (hclose2 : CountsClose (countIn md5 sketch) (tv2.listed catalog)) :
    Ends (MergeRefuses catalog tv1.typOid tv1.maxMfvs (tv1.listed catalog ++ tv2.listed catalog))
      (fun out => MfvValid catalog out ∧ out.typOid = tv1.typOid ∧ out.maxMfvs = tv1.maxMfvs ∧
        out.sketch = sketch ∧
        out.listed catalog =
          (TopMerge.mergeRanked (countIn md5 sketch)
            (rankedValues catalog md5 qsort sketch tv1)
            (rankedValues catalog md5 qsort sketch tv2)).take tv1.maxMfvs)
      (mergeInto catalog md5 qsort head tv1 tv2) := by
  have hsketch := hbegun.sketch_eq
  have htypLen2 : tv2.typLen = head.typLen := by
    rw [hbegun.typLen_eq, h1.typLen_eq, h2.typLen_eq, htype]
  have htotal : (bytesOf ([] : List (List UInt8 × UInt64))).length +
      (bytesOf ((rankedItems catalog md5 qsort sketch tv1).drop 0)).length +
      (bytesOf ((rankedItems catalog md5 qsort sketch tv2).drop 0)).length ≤
      (tv1.listed catalog ++ tv2.listed catalog).flatten.length := by
    rw [List.drop_zero, List.drop_zero, bytesOf_rankedItems hsorts hclose1,
      bytesOf_rankedItems hsorts hclose2, List.flatten_append, List.length_append]
    exact (Nat.zero_add _).symm ▸ le_refl _
  have hrounds : ([] : List (List UInt8 × UInt64)).length + head.maxMfvs = head.maxMfvs :=
    Nat.zero_add _
  have hchoose := chooseTop_ends hzero (source_sortMfvs hsorts h1 hclose1)
    (source_sortMfvs hsorts h2 hclose2) hbegun.typLen_eq.symm htypLen2 (Nat.zero_le _)
    (Nat.zero_le _) hbegun.holds hrounds htotal
  rw [← hbegun.holding_nil] at hchoose
  unfold mergeInto
  rw [recount_eq h1 hbegun.typOid_eq, ok_bind, recount_eq h2 (hbegun.typOid_eq.trans htype.symm),
    ok_bind, hsketch]
  apply hchoose.imp
  · rintro e (⟨halloc, hlarge⟩ | ⟨hvar, p, hp, hshort⟩)
    · exact .inl ⟨halloc, hbegun.varsize_eq ▸ hlarge⟩
    · refine .inr ⟨?_, p.1, ?_, hshort⟩
      · rw [← h1.typLen_eq, ← hbegun.typLen_eq]
        exact hvar
      · rw [List.mem_append] at hp ⊢
        exact hp.imp (mem_rankedItems hsorts hclose1) (mem_rankedItems hsorts hclose2)
  · rintro out ⟨free', hout, hbuilt⟩
    rw [hout]
    refine ⟨hbegun.valid h1 hbuilt, hbegun.typOid_eq, hbegun.maxMfvs_eq, hsketch, ?_⟩
    rw [hbuilt.listed_eq, List.nil_append, List.drop_zero, List.drop_zero, hbegun.maxMfvs_eq,
      map_fst_take_mergeRanked]

end Merge

/-! ## Transition values that may not be initialised -/

/-- The values that are listed; there are none before the first value comes. -/
def listedOf (catalog : Catalog) : Option MfvTransval → List (List UInt8)
  | none => []
  | some tv => tv.listed catalog

def sketchOf : Option MfvTransval → Countmin
  | none => fun _ _ => 0
  | some tv => tv.sketch

def rankedOf (catalog : Catalog) (md5 : Md5) (qsort : Qsort) (sketch : Countmin) :
    Option MfvTransval → List (List UInt8)
  | none => []
  | some tv => rankedValues catalog md5 qsort sketch tv

/-- A transition value for this type with room for this many values. -/
def OfKind (catalog : Catalog) (typOid maxMfvs : Nat) : Option MfvTransval → Prop
  | none => True
  | some tv => MfvValid catalog tv ∧ tv.typOid = typOid ∧ tv.maxMfvs = maxMfvs

/-- The count of a value in the sum of both sketches. -/
def mergedCnt (md5 : Md5) (blob1 blob2 : Option MfvTransval) : List UInt8 → Nat :=
  countIn md5 (addSketches (sketchOf blob1) (sketchOf blob2))

section Blobs

variable {catalog : Catalog} {md5 : Md5} {qsort : Qsort} {typOid maxMfvs : Nat}

/-- `tv` is what a transition value is merged as. -/
structure MergedAs (catalog : Catalog) (typOid maxMfvs : Nat) (blob : Option MfvTransval)
    (tv : MfvTransval) : Prop where
  valid : MfvValid catalog tv
  typOid_eq : tv.typOid = typOid
  maxMfvs_eq : tv.maxMfvs = maxMfvs
  listed_eq : tv.listed catalog = listedOf catalog blob
  sketch_eq : tv.sketch = sketchOf blob
  of_some : ∀ tv', blob = some tv' → tv' = tv

/-- The merged transition value: both sketches are added, and the best of both ranked lists are
listed. -/
structure MergedTo (catalog : Catalog) (md5 : Md5) (qsort : Qsort) (typOid maxMfvs : Nat)
    (blob1 blob2 out : Option MfvTransval) : Prop where
  ofKind : OfKind catalog typOid maxMfvs out
  sketch_eq : sketchOf out = addSketches (sketchOf blob1) (sketchOf blob2)
  listed_eq : listedOf catalog out =
    (TopMerge.mergeRanked (mergedCnt md5 blob1 blob2)
      (rankedOf catalog md5 qsort (addSketches (sketchOf blob1) (sketchOf blob2)) blob1)
      (rankedOf catalog md5 qsort (addSketches (sketchOf blob1) (sketchOf blob2)) blob2)).take
        maxMfvs

theorem OfKind.mergedAs {tv : MfvTransval} (h : OfKind catalog typOid maxMfvs (some tv)) :
    MergedAs catalog typOid maxMfvs (some tv) tv :=
  ⟨h.1, h.2.1, h.2.2, rfl, rfl, fun _ hsome => (Option.some.inj hsome).symm⟩

/-- What is not initialised is begun for the type and the number of the other argument. -/
theorem OfKind.begin {tv : MfvTransval} (h : OfKind catalog typOid maxMfvs (some tv)) :
    ∃ fresh, mfvInitTransval catalog (toInt32 tv.maxMfvs) tv.typOid = .ok fresh ∧
      MergedAs catalog typOid maxMfvs none fresh := by
  have ⟨hvalid, htypOid, hmaxMfvs⟩ := h
  have hlt := hvalid.maxMfvs_lt
  have ⟨fresh, hfresh, free, hbegun⟩ := hvalid.begin
  rw [toInt32_of_mem (by omega) (by omega)]
  refine ⟨fresh, hfresh, ?_⟩
  constructor
  · rw [hbegun.holding_nil]
    exact hbegun.valid hvalid hbegun.holds
  · exact hbegun.typOid_eq.trans htypOid
  · exact hbegun.maxMfvs_eq.trans hmaxMfvs
  · rw [hbegun.holding_nil]
    exact hbegun.holds.listed_eq
  · exact hbegun.sketch_eq
  · intro _ hsome
    cases hsome

theorem MergedAs.ranked_eq {blob : Option MfvTransval} {tv : MfvTransval} {sketch : Countmin}
    (h : MergedAs catalog typOid maxMfvs blob tv) (hsorts : SortsBy qsort)
    (hclose : CountsClose (countIn md5 sketch) (tv.listed catalog)) :
    rankedValues catalog md5 qsort sketch tv = rankedOf catalog md5 qsort sketch blob := by
  cases blob with
  | none =>
      have hperm := rankedValues_perm hsorts hclose
      rw [h.listed_eq] at hperm
      exact hperm.eq_nil
  | some tv' => rw [rankedOf, h.of_some tv' rfl]

theorem mergeTransvals_ends (hzero : ZeroHeader catalog) (hsorts : SortsBy qsort)
    {blob1 blob2 : Option MfvTransval} {tv1 tv2 : MfvTransval}
    (h1 : MergedAs catalog typOid maxMfvs blob1 tv1)
    (h2 : MergedAs catalog typOid maxMfvs blob2 tv2)
    (hclose1 : CountsClose (mergedCnt md5 blob1 blob2) (listedOf catalog blob1))
    (hclose2 : CountsClose (mergedCnt md5 blob1 blob2) (listedOf catalog blob2)) :
    Ends (MergeRefuses catalog typOid maxMfvs (listedOf catalog blob1 ++ listedOf catalog blob2))
      (fun out => MergedTo catalog md5 qsort typOid maxMfvs blob1 blob2 (some out))
      (mergeTransvals catalog md5 qsort tv1 tv2) := by
  have ⟨fresh, hfresh, free, hbegun⟩ := h1.valid.begin
  have hlt := h1.valid.maxMfvs_lt
  have htype : tv2.typOid = tv1.typOid := h2.typOid_eq.trans h1.typOid_eq.symm
  unfold mergedCnt at hclose1 hclose2
  generalize hsketch : addSketches (sketchOf blob1) (sketchOf blob2) = sketch at *
  rw [← h1.listed_eq] at hclose1
  rw [← h2.listed_eq] at hclose2
  have hmerge := mergeInto_ends hzero hsorts h1.valid h2.valid htype
    (hbegun.withSketch sketch) hclose1 hclose2
  rw [h1.ranked_eq hsorts hclose1, h2.ranked_eq hsorts hclose2, h1.listed_eq, h2.listed_eq,
    h1.typOid_eq, h1.maxMfvs_eq] at hmerge
  unfold mergeTransvals
  rw [toInt32_of_mem (by omega) (by omega), hfresh, ok_bind, h1.sketch_eq, h2.sketch_eq, hsketch]
  apply hmerge.imp (fun _ herror => herror)
  rintro out ⟨hvalid, htypOid, hmaxMfvs, hsum, hlisted⟩
  rw [← hsketch] at hsum hlisted
  exact ⟨⟨hvalid, htypOid, hmaxMfvs⟩, hsum, hlisted⟩

/-- What a merge returns, and why it does not return. -/
theorem mfvsketchMergeC_ends (hzero : ZeroHeader catalog) (hsorts : SortsBy qsort)
    {blob1 blob2 : Option MfvTransval} (h1 : OfKind catalog typOid maxMfvs blob1)
    (h2 : OfKind catalog typOid maxMfvs blob2)
    (hclose1 : CountsClose (mergedCnt md5 blob1 blob2) (listedOf catalog blob1))
    (hclose2 : CountsClose (mergedCnt md5 blob1 blob2) (listedOf catalog blob2)) :
    Ends (MergeRefuses catalog typOid maxMfvs (listedOf catalog blob1 ++ listedOf catalog blob2))
      (MergedTo catalog md5 qsort typOid maxMfvs blob1 blob2)
      (mfvsketchMergeC catalog md5 qsort blob1 blob2) := by
  have hinitialised (tv1 tv2 : MfvTransval) (hm1 : MergedAs catalog typOid maxMfvs blob1 tv1)
      (hm2 : MergedAs catalog typOid maxMfvs blob2 tv2) :
      Ends (MergeRefuses catalog typOid maxMfvs
          (listedOf catalog blob1 ++ listedOf catalog blob2))
        (MergedTo catalog md5 qsort typOid maxMfvs blob1 blob2)
        (mergeTransvals catalog md5 qsort tv1 tv2 >>= fun newblob => pure (some newblob)) := by
    exact Ends.bind (mergeTransvals_ends hzero hsorts hm1 hm2 hclose1 hclose2) fun _ hout => hout
  cases blob1 with
  | none =>
      cases blob2 with
      | none =>
          have hsum : (fun _ _ => 0 : Countmin) = addSketches (fun _ _ => 0) (fun _ _ => 0) := by
            funext i j
            rfl
          have hlisted : ([] : List (List UInt8)) =
              (TopMerge.mergeRanked (mergedCnt md5 none none) [] []).take maxMfvs := by
            rw [TopMerge.mergeRanked_nil_left, List.take_nil]
          exact ⟨trivial, hsum, hlisted⟩
      | some tv2 =>
          have ⟨fresh, hfresh, hbegun⟩ := h2.begin
          rw [mfvsketchMergeC, hfresh, ok_bind]
          exact hinitialised fresh tv2 hbegun h2.mergedAs
  | some tv1 =>
      cases blob2 with
      | none =>
          have ⟨fresh, hfresh, hbegun⟩ := h1.begin
          rw [mfvsketchMergeC, hfresh, ok_bind]
          exact hinitialised tv1 fresh h1.mergedAs hbegun
      | some tv2 => exact hinitialised tv1 tv2 h1.mergedAs h2.mergedAs

theorem rankedOf_perm {sketch : Countmin} (hsorts : SortsBy qsort) {blob : Option MfvTransval}
    (hclose : CountsClose (countIn md5 sketch) (listedOf catalog blob)) :
    (rankedOf catalog md5 qsort sketch blob).Perm (listedOf catalog blob) := by
  cases blob with
  | none => exact List.Perm.refl []
  | some tv => exact rankedValues_perm hsorts hclose

theorem ranked_rankedOf {sketch : Countmin} (hsorts : SortsBy qsort) {blob : Option MfvTransval}
    (hclose : CountsClose (countIn md5 sketch) (listedOf catalog blob)) :
    TopMerge.Ranked (countIn md5 sketch) (rankedOf catalog md5 qsort sketch blob) := by
  cases blob with
  | none => exact List.Pairwise.nil
  | some tv => exact ranked_rankedValues hsorts hclose

end Blobs

/-- A `qsort` that sorts. -/
def sortByMerging : Qsort := fun cmp l =>
  (l.attach.mergeSort fun a b => decide (cmp a.1 b.1 ≤ 0)).map Subtype.val

theorem sortByMerging_sortsBy : SortsBy sortByMerging where
  perm cmp l _ := by
    have hperm := (List.mergeSort_perm l.attach fun a b => decide (cmp a.1 b.1 ≤ 0)).map Subtype.val
    rw [List.attach_map_subtype_val] at hperm
    exact hperm
  sorted cmp l h := by
    apply List.Pairwise.map (R := fun a b => decide (cmp a.1 b.1 ≤ 0) = true)
    · exact fun _ _ hle => of_decide_eq_true hle
    · apply List.pairwise_mergeSort
      · intro a b c hab hbc
        rw [decide_eq_true_iff] at hab hbc ⊢
        exact h.trans a a.2 b b.2 c c.2 hab hbc
      · intro a b
        rw [Bool.or_eq_true, decide_eq_true_iff, decide_eq_true_iff]
        have hflip := h.flip b b.2 a a.2
        omega

def int4Catalog : Catalog where
  typlen _ := 4
  typbyval _ := true
  typOutput _ := 43
  varsizeAny bytes := if bytes.take 4 = [0, 0, 0, 0] then some 0 else none
  varsizeAny_append d rest h := by
    split at h
    case isTrue hzero =>
      have hlength : d = [] := List.eq_nil_of_length_eq_zero (Option.some.inj h).symm
      rw [hlength] at hzero
      cases hzero
    case isFalse => cases h

theorem int4_zeroHeader : ZeroHeader int4Catalog := by
  intro n hn
  have htake : (List.replicate n (0 : UInt8)).take 4 = [0, 0, 0, 0] := by
    rw [List.take_replicate, Nat.min_eq_left hn]
    rfl
  show (if _ = _ then _ else _) = _
  rw [if_pos htake]

/-- Room for two values of type `int4`, and the value 5. -/
def fives : MfvTransval :=
  (mfvEmpty int4Catalog 2 23 65636).holding [([5, 0, 0, 0], 1)] 28

theorem fives_holds : MfvHolds int4Catalog (mfvEmpty int4Catalog 2 23 65636)
    [([5, 0, 0, 0], 1)] 28 where
  le_max := by decide
  isDatum p hp := by
    rw [List.mem_singleton.mp hp]
    exact .inl ⟨by decide, rfl⟩
  varsize_le := by
    rw [varsize_holding]
    decide
  fresh hnil := by cases hnil
  growth := by
    rw [varsize_holding]
    decide

theorem int4_initialVarsize : mfvInitialVarsize int4Catalog (2 : Nat) 23 = 65636 := by decide

theorem int4_init :
    mfvInitTransval int4Catalog (2 : Nat) 23 = .ok (mfvEmpty int4Catalog 2 23 65636) := by
  unfold mfvInitTransval
  rw [int4_initialVarsize, uint32_of_mem (by decide)]
  rfl

theorem fives_ofKind : OfKind int4Catalog 23 2 (some fives) :=
  ⟨fives_holds.valid ⟨_, int4_init⟩ rfl, rfl, rfl⟩

theorem fives_listed : listedOf int4Catalog (some fives) = [[5, 0, 0, 0]] := fives_holds.listed_eq

theorem fives_nodup : (listedOf int4Catalog (some fives)).Nodup := by
  rw [fives_listed]
  exact List.nodup_singleton _

theorem fives_countsClose (cnt : List UInt8 → Nat) :
    CountsClose cnt (listedOf int4Catalog (some fives)) := by
  intro v hv w hw
  rw [fives_listed, List.mem_singleton] at hv hw
  rw [hv, hw]
  omega

end Madlib.Sketch
