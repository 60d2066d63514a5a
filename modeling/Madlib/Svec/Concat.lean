import Madlib.Svec.SparseVector

/-!
# Concatenation

`concat` joins the value buffers and the index buffers of two SparseData byte by
byte.  A NULL index has no bytes to join, so what the result's index holds
depends on which of the operands are run-length encoded.
-/

namespace Madlib.Svec

open Madlib.Backend Madlib.Lib.MachineInt Madlib.Lib.RunLength CountCode

def StringInfo.bytes (s : StringInfo) : List UInt8 := s.data.getD []

def concat : Option SparseData → Option SparseData → Except Fault (Option SparseData)
  | none, none => .ok none
  | none, some right => .ok (some (makeSparseDataCopy right))
  | some left, none => .ok (some (makeSparseDataCopy left))
  | some left, some right => do
      let valLen := toInt32 (left.valsLen + right.valsLen : Nat)
      let indLen := toInt32 (left.index.len + right.index.len : Nat)
      palloc (sizeT (valLen + 1))
      palloc (sizeT (indLen + 1))
      let vals ← fillBuffer (sizeT (valLen + 1)) 8 (left.vals ++ right.vals)
      let index ← fillBuffer (sizeT (indLen + 1)) 1 (left.index.bytes ++ right.index.bytes)
      return some
        { uniqueValueCount := left.uniqueValueCount + right.uniqueValueCount
          totalValueCount := Int32.ofInt (left.totalValueCount.toInt + right.totalValueCount.toInt)
          vals
          valsMaxlen := 8 * vals.length + 1
          index := makeStringInfoFromData (some index) }

/-- `svec_concat`; a NULL argument leaves the other one as the result. -/
def svecConcat : Option SvecType → Option SvecType → Except Fault (Option SvecType)
  | none, none => .ok none
  | none, some svec2 => .ok (some svec2)
  | some svec1, none => .ok (some svec1)
  | some svec1, some svec2 => do
      match ← concat (some (sdataFromSvec svec1)) (some (sdataFromSvec svec2)) with
      | none => .error .nullPointer
      | some sdata => return some (← svecFromSparsedata sdata true)

/-- One operand is an array of ones without index bytes, the other one has them. -/
def MixedIndex (left right : SparseData) : Prop :=
  (left.index.data = none ∧ 0 < left.uniqueValueCount ∧ right.index.bytes ≠ []) ∨
  (right.index.data = none ∧ 0 < right.uniqueValueCount ∧ left.index.bytes ≠ [])

instance (left right : SparseData) : Decidable (MixedIndex left right) := by
  unfold MixedIndex
  infer_instance

/-- The size of the datum that holds both operands. -/
def concatSize (left right : SparseData) : Nat :=
  svecSize (left.valsLen + right.valsLen) (left.index.len + right.index.len)

/-! ## Buffers -/

theorem sizeT_of_len {n : Nat} (h : n < 2147483648) : sizeT (toInt32 n + 1) = n + 1 := by
  rw [toInt32_of_mem (by omega) (by omega)]
  unfold sizeT
  omega

/-- The contents of a datum take less than one allocation. -/
theorem trimmedSize_sdataFromSvec_le (svec : SvecType) :
    (sdataFromSvec svec).trimmedSize ≤ maxAllocSize := by
  have hvals := svec.vals_le
  have hindex := svec.index_le
  have hsize := svec.size_le
  have hlen : (sdataFromSvec svec).index.len ≤ svec.indexMaxlen := by
    by_cases hmax : svec.indexMaxlen = 0
    · simp [sdataFromSvec, StringInfo.len, hmax]
    · simpa [sdataFromSvec, StringInfo.len, hmax] using hindex
  have hvalsLen : (sdataFromSvec svec).valsLen ≤ svec.valsMaxlen := hvals
  unfold SparseData.trimmedSize
  unfold svecSize at hsize ⊢
  omega

/-! ## The joined SparseData -/

def joined (left right : SparseData) : SparseData :=
  { uniqueValueCount := left.uniqueValueCount + right.uniqueValueCount
    totalValueCount := Int32.ofInt (left.totalValueCount.toInt + right.totalValueCount.toInt)
    vals := left.vals ++ right.vals
    valsMaxlen := 8 * (left.vals ++ right.vals).length + 1
    index := makeStringInfoFromData (some (left.index.bytes ++ right.index.bytes)) }

theorem trimmedSize_joined (left right : SparseData) :
    (joined left right).trimmedSize = concatSize left right := by
  simp [joined, SparseData.trimmedSize, concatSize, SparseData.valsLen, StringInfo.len,
    makeStringInfoFromData, StringInfo.bytes]
  ring_nf

/-- Operands below the allocation limit are joined, or the limit is hit. -/
theorem concat_eq {left right : SparseData} (hl : left.trimmedSize ≤ maxAllocSize)
    (hr : right.trimmedSize ≤ maxAllocSize) :
    concat (some left) (some right) = .ok (some (joined left right)) ∨
    (maxAllocSize < concatSize left right ∧ concat (some left) (some right) =
      .error (.elog "invalid memory alloc request size")) := by
  unfold SparseData.trimmedSize svecSize maxAllocSize at hl hr
  have hvals := sizeT_of_len (n := left.valsLen + right.valsLen) (by omega)
  have hindex := sizeT_of_len (n := left.index.len + right.index.len) (by omega)
  have hfillv : fillBuffer (left.valsLen + right.valsLen + 1) 8 (left.vals ++ right.vals) =
      .ok (left.vals ++ right.vals) := by
    apply fillBuffer_ok
    simp [SparseData.valsLen]
    omega
  have hfilli : fillBuffer (left.index.len + right.index.len + 1) 1
      (left.index.bytes ++ right.index.bytes) = .ok (left.index.bytes ++ right.index.bytes) := by
    apply fillBuffer_ok
    simp [StringInfo.len, StringInfo.bytes]
  by_cases hv : left.valsLen + right.valsLen + 1 ≤ maxAllocSize
  · by_cases hi : left.index.len + right.index.len + 1 ≤ maxAllocSize
    · left
      simp only [concat, hvals, hindex, palloc_ok hv, palloc_ok hi, hfillv, hfilli, ok_bind,
        pure_eq_ok, joined]
    · right
      refine ⟨?_, ?_⟩
      · unfold concatSize svecSize
        omega
      · simp only [concat, hvals, hindex, palloc_ok hv, palloc_error (Nat.lt_of_not_le hi),
          ok_bind, error_bind]
  · right
    refine ⟨?_, ?_⟩
    · unfold concatSize svecSize
      omega
    · simp only [concat, hvals, palloc_error (Nat.lt_of_not_le hv), error_bind]

theorem svecConcat_eq (l r : SvecType) :
    svecConcat (some l) (some r) =
      (svecFromSparsedata (joined (sdataFromSvec l) (sdataFromSvec r)) true).map some := by
  rcases concat_eq (trimmedSize_sdataFromSvec_le l) (trimmedSize_sdataFromSvec_le r) with
    hok | ⟨hlarge, herror⟩
  · simp only [svecConcat, hok, ok_bind]
    cases svecFromSparsedata (joined (sdataFromSvec l) (sdataFromSvec r)) true with
    | error e => simp only [error_bind, Except.map]
    | ok svec => simp only [ok_bind, pure_eq_ok, Except.map]
  · rw [← trimmedSize_joined] at hlarge
    simp only [svecConcat, herror, svecFromSparsedata_trim_error hlarge, error_bind, Except.map]

/-! ## What the joined index holds -/

theorem eq_replicate_one {runs : List Nat} (h : ∀ n ∈ runs, n = 1) :
    runs = List.replicate runs.length 1 :=
  List.eq_replicate_iff.mpr ⟨rfl, h⟩

/-- Beside an array of ones, bytes hold their own runs and no others. -/
theorem indexRuns_ones_bytes_iff {bytes : List UInt8} (runs ones : List Nat) {own : List Nat}
    (hones : ∀ n ∈ ones, n = 1) (hown : Walks bytes own) :
    (IndexRuns (trimIndex bytes) runs ∧ runs.length = ones.length + own.length) ↔
      ¬ (0 < ones.length ∧ bytes ≠ []) ∧ runs = ones ++ own := by
  by_cases hbytes : bytes = []
  · subst hbytes
    obtain rfl : own = [] := IndexRuns.eq_nil hown
    simp only [trimIndex, if_true, List.length_nil, Nat.add_zero, List.append_nil, ne_eq,
      not_true_eq_false, and_false, not_false_eq_true, true_and]
    constructor
    · intro h
      rw [eq_replicate_one h.1, h.2, ← eq_replicate_one hones]
    · intro h
      rw [h]
      exact ⟨hones, rfl⟩
  · rw [trimIndex_of_ne hbytes]
    constructor
    · intro h
      have heq : runs = own := Walks.unique h.1 hown
      have hnone : ones = [] := by
        apply List.length_eq_zero_iff.mp
        rw [heq] at h
        omega
      rw [hnone]
      exact ⟨fun hpos => by simp at hpos, heq⟩
    · intro h
      have hnone : ones = [] := by
        apply List.length_eq_zero_iff.mp
        by_contra hne
        exact h.1 ⟨Nat.pos_of_ne_zero hne, hbytes⟩
      rw [h.2, hnone]
      exact ⟨hown, by simp⟩

/-- Two index buffers of which one has no bytes can be swapped. -/
theorem append_comm_of_ones {bytes : List UInt8} {ones own : List Nat}
    (h : ¬ (0 < ones.length ∧ bytes ≠ [])) (hown : Walks bytes own) :
    ones ++ own = own ++ ones := by
  by_cases hbytes : bytes = []
  · subst hbytes
    have hnil : own = [] := IndexRuns.eq_nil hown
    simp [hnil]
  · have hnone : ones = [] := by
      apply List.length_eq_zero_iff.mp
      by_contra hne
      exact h ⟨Nat.pos_of_ne_zero hne, hbytes⟩
    simp [hnone]

/-- Two index buffers with bytes, and what they hold joined. -/
theorem indexRuns_both_iff {lbytes rbytes : List UInt8} {runs lruns rruns : List Nat}
    (hl : Walks lbytes lruns) (hr : Walks rbytes rruns) :
    (IndexRuns (trimIndex (lbytes ++ rbytes)) runs ∧
      runs.length = lruns.length + rruns.length) ↔ runs = lruns ++ rruns := by
  have hiff := indexRuns_ones_bytes_iff runs [] (by simp) (hl.append hr)
  rw [List.length_append] at hiff
  simpa using hiff

/-- The joined bytes hold the runs of both operands, except where the ones of an
uncompressed operand are missing among them. -/
theorem indexRuns_append_iff {left right : SparseData} {lruns rruns runs : List Nat}
    (hl : HasRuns left lruns) (hr : HasRuns right rruns) :
    (IndexRuns (trimIndex (left.index.bytes ++ right.index.bytes)) runs ∧
      runs.length = left.uniqueValueCount + right.uniqueValueCount) ↔
    ¬ MixedIndex left right ∧ runs = lruns ++ rruns := by
  have hlindex := hl.index
  have hrindex := hr.index
  rw [MixedIndex, ← hl.length_runs, ← hr.length_runs, StringInfo.bytes, StringInfo.bytes]
  cases hld : left.index.data with
  | none =>
      rw [hld] at hlindex
      cases hrd : right.index.data with
      | none =>
          rw [hrd] at hrindex
          have hones : ∀ n ∈ lruns ++ rruns, n = 1 := fun n hn =>
            (List.mem_append.mp hn).elim (hlindex n) (hrindex n)
          have hiff := indexRuns_ones_bytes_iff runs _ hones .nil
          rw [List.length_append] at hiff
          simpa using hiff
      | some rbytes =>
          rw [hrd] at hrindex
          simpa using indexRuns_ones_bytes_iff runs _ hlindex hrindex
  | some lbytes =>
      rw [hld] at hlindex
      cases hrd : right.index.data with
      | none =>
          rw [hrd] at hrindex
          have hiff := indexRuns_ones_bytes_iff runs _ hrindex hlindex
          rw [Nat.add_comm] at hiff
          simp only [Option.getD_none, Option.getD_some, List.append_nil, true_and, reduceCtorEq,
            false_and, false_or]
          rw [hiff]
          constructor
          · intro h
            exact ⟨h.1, append_comm_of_ones h.1 hlindex ▸ h.2⟩
          · intro h
            exact ⟨h.1, (append_comm_of_ones h.1 hlindex).symm ▸ h.2⟩
      | some rbytes =>
          rw [hrd] at hrindex
          simpa using indexRuns_both_iff hlindex hrindex

/-! ## The whole call -/

/-- `s` is what the joined operands are read back as. -/
structure ReadBackJoined (left right s : SparseData) : Prop where
  unique : s.uniqueValueCount = left.uniqueValueCount + right.uniqueValueCount
  total : s.totalValueCount.toInt = toInt32 (left.totalValueCount.toInt + right.totalValueCount.toInt)
  vals : s.vals = left.vals ++ right.vals
  index : s.index.data = trimIndex (left.index.bytes ++ right.index.bytes)

theorem svecConcat_ok (l r : SvecType)
    (h : concatSize (sdataFromSvec l) (sdataFromSvec r) ≤ maxAllocSize) :
    ∃ s, svecConcat (some l) (some r) = .ok (some s) ∧
      ReadBackJoined (sdataFromSvec l) (sdataFromSvec r) (sdataFromSvec s) := by
  rw [← trimmedSize_joined] at h
  obtain ⟨s, hs, _, hback⟩ := svecFromSparsedata_trim h
  refine ⟨s, ?_, ?_⟩
  · rw [svecConcat_eq, hs]
    rfl
  · rw [hback]
    exact ⟨rfl, int32_toInt_ofInt _, rfl, rfl⟩

theorem svecConcat_too_large (l r : SvecType)
    (h : maxAllocSize < concatSize (sdataFromSvec l) (sdataFromSvec r)) :
    svecConcat (some l) (some r) = .error (.elog "invalid memory alloc request size") := by
  rw [← trimmedSize_joined] at h
  rw [svecConcat_eq, svecFromSparsedata_trim_error h]
  rfl

theorem ReadBackJoined.hasRuns_iff {left right s : SparseData} {lruns rruns runs : List Nat}
    (h : ReadBackJoined left right s) (hl : HasRuns left lruns) (hr : HasRuns right rruns) :
    HasRuns s runs ↔ ¬ MixedIndex left right ∧ runs = lruns ++ rruns := by
  rw [← indexRuns_append_iff hl hr, ← h.index, ← h.unique]
  constructor
  · intro hruns
    exact ⟨hruns.index, hruns.length_runs⟩
  · intro hruns
    refine ⟨hruns.1, hruns.2, ?_⟩
    rw [h.vals, h.unique, List.length_append, hl.length_vals, hr.length_vals]

/-- The joined operands keep a true size exactly when no ones are lost and the sum
of the sizes is an `int`. -/
theorem ReadBackJoined.truthful_iff {left right s : SparseData} (h : ReadBackJoined left right s)
    (hl : Truthful left) (hr : Truthful right) :
    Truthful s ↔ ¬ MixedIndex left right ∧
      left.totalValueCount.toInt + right.totalValueCount.toInt < 2147483648 := by
  obtain ⟨lruns, hlruns, hltotal⟩ := hl
  obtain ⟨rruns, hrruns, hrtotal⟩ := hr
  have hsum : (((lruns ++ rruns).sum : Nat) : Int) =
      left.totalValueCount.toInt + right.totalValueCount.toInt := by
    rw [List.sum_append, hltotal, hrtotal]
    push_cast
    rfl
  constructor
  · intro hs
    obtain ⟨runs, hruns, htotal⟩ := hs
    obtain ⟨hmixed, rfl⟩ := (h.hasRuns_iff hlruns hrruns).mp hruns
    exact ⟨hmixed, (hruns.truthful_iff_lt hsum h.total).mp ⟨_, hruns, htotal⟩⟩
  · intro hs
    have hruns := (h.hasRuns_iff hlruns hrruns).mpr ⟨hs.1, rfl⟩
    exact (hruns.truthful_iff_lt hsum h.total).mpr hs.2

theorem ReadBackJoined.dense_eq {left right s : SparseData} (h : ReadBackJoined left right s)
    (hl : Truthful left) (hr : Truthful right) (hmixed : ¬ MixedIndex left right) :
    s.dense = left.dense ++ right.dense := by
  obtain ⟨lruns, hlruns, _⟩ := hl
  obtain ⟨rruns, hrruns, _⟩ := hr
  have hruns := (h.hasRuns_iff hlruns hrruns).mpr ⟨hmixed, rfl⟩
  have hlength : lruns.length = left.vals.length :=
    hlruns.length_runs.trans hlruns.length_vals.symm
  rw [hruns.dense_eq, hlruns.dense_eq, hrruns.dense_eq, h.vals, expand_append hlength]

/-- `svec_concat` is concatenation exactly when the result fits into a datum, its
size into an `int`, and the operands are not represented differently. -/
theorem svecConcat_eq_append_iff {l r : SvecType} (hl : Truthful (sdataFromSvec l))
    (hr : Truthful (sdataFromSvec r)) :
    (∃ s, svecConcat (some l) (some r) = .ok (some s) ∧ Truthful (sdataFromSvec s) ∧
      (sdataFromSvec s).dense = (sdataFromSvec l).dense ++ (sdataFromSvec r).dense) ↔
    ¬ MixedIndex (sdataFromSvec l) (sdataFromSvec r) ∧
      l.totalValueCount.toInt + r.totalValueCount.toInt < 2147483648 ∧
      concatSize (sdataFromSvec l) (sdataFromSvec r) ≤ maxAllocSize := by
  by_cases hsize : concatSize (sdataFromSvec l) (sdataFromSvec r) ≤ maxAllocSize
  · obtain ⟨s, hs, hback⟩ := svecConcat_ok l r hsize
    have htruthful := hback.truthful_iff hl hr
    constructor
    · intro h
      obtain ⟨s', hs', ht, _⟩ := h
      obtain rfl : s = s' := Option.some.inj (Except.ok.inj (hs.symm.trans hs'))
      exact ⟨(htruthful.mp ht).1, (htruthful.mp ht).2, hsize⟩
    · intro h
      exact ⟨s, hs, htruthful.mpr ⟨h.1, h.2.1⟩, hback.dense_eq hl hr h.1⟩
  · have herror := svecConcat_too_large l r (Nat.lt_of_not_le hsize)
    constructor
    · intro h
      obtain ⟨s, hs, _⟩ := h
      cases herror.symm.trans hs
    · intro h
      exact absurd h.2.2 hsize

/-- The array 1, 2 without index bytes, as an operator on a `float8[]` returns it. -/
def uncompressedPair : SvecType :=
  { dimension := 2, uniqueValueCount := 2, totalValueCount := 2
    vals := [0x3FF0000000000000, 0x4000000000000000], valsMaxlen := 16
    index := [], indexMaxlen := 0, indexCursor := 0
    vals_le := by decide, index_le := by decide, size_le := by decide }

/-- The svec `{2}:{3}` as `svec_in` returns it. -/
def compressedPair : SvecType :=
  { dimension := 2, uniqueValueCount := 1, totalValueCount := 2
    vals := [0x4008000000000000], valsMaxlen := 8
    index := [254], indexMaxlen := 1, indexCursor := 0
    vals_le := by decide, index_le := by decide, size_le := by decide }

theorem truthful_uncompressedPair : Truthful (sdataFromSvec uncompressedPair) :=
  ⟨[1, 1], .of_runLengths (by decide) rfl, by decide⟩

theorem truthful_compressedPair : Truthful (sdataFromSvec compressedPair) :=
  ⟨[2], .of_runLengths (by decide) rfl, by decide⟩

theorem svecConcat_eq_append_compressed :
    ∃ s, svecConcat (some compressedPair) (some compressedPair) = .ok (some s) ∧
      Truthful (sdataFromSvec s) ∧ (sdataFromSvec s).dense = List.replicate 4 0x4008000000000000 := by
  obtain ⟨s, hs, ht, hdense⟩ :=
    (svecConcat_eq_append_iff truthful_compressedPair truthful_compressedPair).mpr
      ⟨by decide, by decide, by decide⟩
  exact ⟨s, hs, ht, hdense.trans (by decide)⟩

/-- The ones of the left operand are lost in front of the right operand's bytes. -/
theorem svecConcat_mixed_not_append :
    ¬ ∀ l r : SvecType, Truthful (sdataFromSvec l) → Truthful (sdataFromSvec r) →
      ∃ s, svecConcat (some l) (some r) = .ok (some s) ∧ Truthful (sdataFromSvec s) ∧
        (sdataFromSvec s).dense = (sdataFromSvec l).dense ++ (sdataFromSvec r).dense := by
  intro h
  obtain ⟨s, hs, ht, _⟩ := h uncompressedPair compressedPair truthful_uncompressedPair
    truthful_compressedPair
  obtain ⟨s', hs', hback⟩ := svecConcat_ok uncompressedPair compressedPair (by decide)
  obtain rfl : s = s' := Option.some.inj (Except.ok.inj (hs.symm.trans hs'))
  have hmixed := ((hback.truthful_iff truthful_uncompressedPair truthful_compressedPair).mp ht).1
  exact hmixed (by decide)

end Madlib.Svec
