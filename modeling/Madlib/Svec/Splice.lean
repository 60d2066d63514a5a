import Madlib.Svec.Subarr

/-!
# Splicing

`svec_change` joins the elements in front of the replaced ones, the new elements and the
elements behind them.
-/

namespace Madlib.Svec

open Madlib.Backend Madlib.Lib.MachineInt Madlib.Lib.RunLength CountCode

/-- A proper SparseData whose index is stored. -/
structure Encoded (s : SparseData) : Prop where
  proper : Proper s
  index_ne : s.index.data ≠ none

theorem BuiltFrom.encoded {s : SparseData} {pairs : List (Nat × Float8)} (h : BuiltFrom s pairs) :
    Encoded s where
  proper := h.proper
  index_ne := by
    rw [h.index_eq]
    exact Option.some_ne_none _

/-! ## Joining -/

theorem concat_some_eq {left right : SparseData} {out : Option SparseData}
    (h : concat (some left) (some right) = .ok out) : out = some (joined left right) := by
  have ⟨_, _, hrest⟩ := bind_eq_ok.mp h
  have ⟨_, _, hrest⟩ := bind_eq_ok.mp hrest
  have ⟨vals, hvals, hrest⟩ := bind_eq_ok.mp hrest
  have ⟨index, hindex, hrest⟩ := bind_eq_ok.mp hrest
  unfold fillBuffer at hvals hindex
  split at hvals
  · cases hvals
  · split at hindex
    · cases hindex
    · cases hvals
      cases hindex
      cases hrest
      rfl

theorem concat_of_fits {left right : SparseData} (h : concatSize left right ≤ maxAllocSize) :
    concat (some left) (some right) = .ok (some (joined left right)) := by
  have hparts : left.trimmedSize ≤ maxAllocSize ∧ right.trimmedSize ≤ maxAllocSize := by
    unfold concatSize at h
    unfold SparseData.trimmedSize
    unfold svecSize at h ⊢
    omega
  rcases concat_eq hparts.1 hparts.2 with hok | ⟨hlarge, _⟩
  · exact hok
  · omega

theorem Encoded.joined {left right : SparseData} (hl : Encoded left) (hr : Encoded right)
    (htotal : left.totalValueCount.toInt + right.totalValueCount.toInt < 2147483648) :
    Encoded (joined left right) ∧ (joined left right).dense = left.dense ++ right.dense ∧
      (joined left right).totalValueCount.toInt =
        left.totalValueCount.toInt + right.totalValueCount.toInt := by
  have ⟨lruns, hlruns, hlpositive, hltotal⟩ := hl.proper
  have ⟨rruns, hrruns, hrpositive, hrtotal⟩ := hr.proper
  have ⟨lbytes, hlbytes⟩ := Option.ne_none_iff_exists'.mp hl.index_ne
  have ⟨rbytes, hrbytes⟩ := Option.ne_none_iff_exists'.mp hr.index_ne
  have hlwalks : Walks lbytes lruns := by simpa [IndexRuns, hlbytes] using hlruns.index
  have hrwalks : Walks rbytes rruns := by simpa [IndexRuns, hrbytes] using hrruns.index
  have hdata : (Svec.joined left right).index.data = some (lbytes ++ rbytes) := by
    simp [Svec.joined, makeStringInfoFromData, StringInfo.bytes, hlbytes, hrbytes]
  have hruns : HasRuns (Svec.joined left right) (lruns ++ rruns) := by
    refine ⟨?_, ?_, ?_⟩
    · rw [hdata]
      exact hlwalks.append hrwalks
    · rw [List.length_append, hlruns.length_runs, hrruns.length_runs]
      rfl
    · show (left.vals ++ right.vals).length = left.uniqueValueCount + right.uniqueValueCount
      rw [List.length_append, hlruns.length_vals, hrruns.length_vals]
  have hsum : (Svec.joined left right).totalValueCount.toInt =
      left.totalValueCount.toInt + right.totalValueCount.toInt := by
    show (Int32.ofInt _).toInt = _
    rw [int32_toInt_ofInt, toInt32_of_mem (by omega) htotal]
  refine ⟨⟨⟨lruns ++ rruns, hruns, ?_, ?_⟩, ?_⟩, ?_, hsum⟩
  · exact List.forall_mem_append.mpr ⟨hlpositive, hrpositive⟩
  · rw [hsum, hltotal, hrtotal, List.sum_append]
    push_cast
    rfl
  · rw [hdata]
    exact Option.some_ne_none _
  · have hlength : lruns.length = left.vals.length :=
      hlruns.length_runs.trans hlruns.length_vals.symm
    rw [hruns.dense_eq, hlruns.dense_eq, hrruns.dense_eq]
    exact expand_append hlength

/-! ## Up to three pieces -/

/-- The elements of a piece that may be missing. -/
def pieceDense (piece : Option SparseData) : List Float8 := (piece.map SparseData.dense).getD []

def pieceTotal (piece : Option SparseData) : Int :=
  (piece.map fun s => s.totalValueCount.toInt).getD 0

def pieceVals (piece : Option SparseData) : Nat := (piece.map SparseData.valsLen).getD 0

def pieceIndex (piece : Option SparseData) : Nat := (piece.map fun s => s.index.len).getD 0

/-- The size of the datum that holds all pieces. -/
def piecesSize (head : Option SparseData) (middle : SparseData) (tail : Option SparseData) : Nat :=
  svecSize (pieceVals head + middle.valsLen + pieceVals tail)
    (pieceIndex head + middle.index.len + pieceIndex tail)

theorem valsLen_joined (left right : SparseData) :
    (joined left right).valsLen = left.valsLen + right.valsLen := by
  simp [joined, SparseData.valsLen]
  omega

theorem index_len_joined (left right : SparseData) :
    (joined left right).index.len = left.index.len + right.index.len := by
  simp [joined, StringInfo.len, makeStringInfoFromData, StringInfo.bytes]

/-- What the pieces are joined to, if they are, has their size. -/
theorem concatChange_size {head tail : Option SparseData} {middle : SparseData}
    {out : Option SparseData} (h : concatChange head middle tail = .ok out) :
    ∃ ret, out = some ret ∧ ret.trimmedSize = piecesSize head middle tail := by
  unfold piecesSize SparseData.trimmedSize
  cases head with
  | none =>
      cases tail with
      | none =>
          cases h
          refine ⟨_, rfl, ?_⟩
          simp only [pieceVals, pieceIndex, Option.map_none, Option.getD_none, Nat.zero_add,
            Nat.add_zero]
          rfl
      | some tail =>
          refine ⟨_, concat_some_eq h, ?_⟩
          rw [valsLen_joined, index_len_joined]
          simp only [pieceVals, pieceIndex, Option.map_none, Option.getD_none, Nat.zero_add,
            Option.map_some, Option.getD_some]
  | some head =>
      cases tail with
      | none =>
          refine ⟨_, concat_some_eq h, ?_⟩
          rw [valsLen_joined, index_len_joined]
          simp only [pieceVals, pieceIndex, Option.map_none, Option.getD_none, Nat.add_zero,
            Option.map_some, Option.getD_some]
      | some tail =>
          have ⟨ret, hret, hrest⟩ := bind_eq_ok.mp h
          rw [concat_some_eq hret] at hrest
          refine ⟨_, concat_some_eq hrest, ?_⟩
          rw [valsLen_joined, index_len_joined, valsLen_joined, index_len_joined]
          rfl

/-- Pieces that fit into a datum are joined. -/
theorem concatChange_of_fits {head tail : Option SparseData} {middle : SparseData}
    (hhead : ∀ s, head = some s → Encoded s) (hmiddle : Encoded middle)
    (htail : ∀ s, tail = some s → Encoded s)
    (htotal : pieceTotal head + middle.totalValueCount.toInt + pieceTotal tail < 2147483648)
    (hfits : piecesSize head middle tail ≤ maxAllocSize) :
    ∃ ret, concatChange head middle tail = .ok (some ret) ∧ Encoded ret ∧
      ret.dense = pieceDense head ++ middle.dense ++ pieceDense tail ∧
      ret.totalValueCount.toInt =
        pieceTotal head + middle.totalValueCount.toInt + pieceTotal tail := by
  unfold piecesSize at hfits
  cases head with
  | none =>
      cases tail with
      | none =>
          have hsame : SameData (makeSparseDataCopy middle) middle := ⟨rfl, rfl, rfl, rfl⟩
          refine ⟨_, rfl, ⟨hsame.proper hmiddle.proper, hmiddle.index_ne⟩, ?_, ?_⟩
          · rw [hsame.dense_eq]
            exact (List.append_nil _).symm
          · rw [hsame.total]
            simp [pieceTotal]
      | some tail =>
          simp only [pieceTotal, pieceVals, pieceIndex, Option.map_none, Option.getD_none,
            Nat.zero_add, Int.zero_add, Option.map_some, Option.getD_some] at htotal hfits ⊢
          have ⟨hencoded, hdense, hsum⟩ := hmiddle.joined (htail tail rfl) htotal
          exact ⟨_, concat_of_fits hfits, hencoded, hdense, hsum⟩
  | some head =>
      have hhead' := hhead head rfl
      cases tail with
      | none =>
          simp only [pieceTotal, pieceVals, pieceIndex, Option.map_none, Option.getD_none,
            Nat.add_zero, Int.add_zero, Option.map_some, Option.getD_some] at htotal hfits ⊢
          have ⟨hencoded, hdense, hsum⟩ := hhead'.joined hmiddle htotal
          refine ⟨_, concat_of_fits hfits, hencoded, ?_, hsum⟩
          rw [hdense]
          exact (List.append_nil _).symm
      | some tail =>
          simp only [pieceTotal, pieceVals, pieceIndex, Option.map_some,
            Option.getD_some] at htotal hfits ⊢
          have htail' := htail tail rfl
          have hnonneg : 0 ≤ tail.totalValueCount.toInt := by
            rw [← htail'.proper.truthful.length_dense]
            exact Int.natCast_nonneg _
          have ⟨hencoded, hdense, hsum⟩ := hhead'.joined hmiddle (by omega)
          have ⟨hencoded', hdense', hsum'⟩ := hencoded.joined htail' (by omega)
          have hfirst : concatSize head middle ≤ maxAllocSize := by
            unfold concatSize svecSize
            unfold svecSize at hfits
            omega
          have hsecond : concatSize (Svec.joined head middle) tail ≤ maxAllocSize := by
            unfold concatSize
            rw [valsLen_joined, index_len_joined]
            exact hfits
          refine ⟨_, ?_, hencoded', ?_, ?_⟩
          · show (concat (some head) (some middle) >>= fun ret => concat ret (some tail)) = _
            rw [concat_of_fits hfirst, ok_bind, concat_of_fits hsecond]
          · rw [hdense', hdense]
            rfl
          · rw [hsum', hsum]

/-! ## svec_change -/

/-- The slice of the elements from `start` to `stop`, if there are any. -/
def slicePiece (s : SparseData) (start stop : Int) : List (Nat × Float8) :=
  sliceRuns s (s.runLengths.getD []) start stop

/-- The size of the datum that holds the elements in front of `i`, the new elements and those
from `j` on. -/
def spliceSize (v w : SparseData) (i j : Int) : Nat :=
  let head := slicePiece v 1 (i - 1)
  let tail := slicePiece v j v.totalValueCount.toInt
  svecSize (8 * head.length + w.valsLen + 8 * tail.length)
    ((rleBytes (head.map Prod.fst)).length + w.index.len + (rleBytes (tail.map Prod.fst)).length)

/-- The start index or the end of the new elements is not inside the vector. -/
def ChangeOutside (v w : SparseData) (idx : Int) : Prop :=
  idx < 1 ∨ v.totalValueCount.toInt < idx ∨
    v.totalValueCount.toInt < idx + w.totalValueCount.toInt - 1

/-- The call raises an error if the new elements do not fit in, and otherwise returns the vector
with them in place of the elements from `idx` on. -/
def Splices (v : SvecType) (idx : Int32) (w : SvecType) : Prop :=
  (ChangeOutside (sdataFromSvec v) (sdataFromSvec w) idx.toInt →
    ∃ e, svecChange v idx w = .error e ∧ e.isRaised = true) ∧
  (¬ ChangeOutside (sdataFromSvec v) (sdataFromSvec w) idx.toInt →
    ∃ r, svecChange v idx w = .ok r ∧ WellFormed (sdataFromSvec r) ∧
      r.totalValueCount = v.totalValueCount ∧
      r.dimension = (if v.totalValueCount = 1 then -1 else v.totalValueCount) ∧
      (sdataFromSvec r).dense =
        (sdataFromSvec v).dense.take (idx.toInt - 1).toNat ++ (sdataFromSvec w).dense ++
        (sdataFromSvec v).dense.drop (idx.toInt - 1 + w.totalValueCount.toInt).toNat)

/-- The slice from `start` to `stop` as a piece, which is missing if there is no such element. -/
structure IsPiece (s : SparseData) (start stop : Int) (piece : Option SparseData) : Prop where
  encoded : ∀ part, piece = some part → Encoded part
  dense_eq : pieceDense piece = (s.dense.drop (start - 1).toNat).take (stop - start + 1).toNat
  total_eq : pieceTotal piece = stop - start + 1
  vals_eq : pieceVals piece = 8 * (slicePiece s start stop).length
  index_eq : pieceIndex piece = (rleBytes ((slicePiece s start stop).map Prod.fst)).length

theorem slice_spec {s : SparseData} (h : Proper s) (start stop : Int) (hlo : 1 ≤ start)
    (hle : start ≤ stop + 1) (hhi : stop ≤ s.totalValueCount.toInt) :
    ∃ piece, slice (start ≤ stop) s start stop = .ok piece ∧ IsPiece s start stop piece := by
  have ⟨runs, hruns, hpositive, htotal⟩ := h
  have hslice : slicePiece s start stop = sliceRuns s runs start stop := by
    unfold slicePiece
    rw [hruns.runLengths_eq, Option.getD_some]
  unfold slice
  by_cases hpresent : start ≤ stop
  · have ⟨ret, hret, hbuilt⟩ := subarrForward_spec hruns hpositive htotal hlo hpresent hhi
    have hflat : flat (sliceRuns s runs start stop) = _ := flat_sliceRuns hruns start stop
    have hlen := congrArg List.length hflat
    rw [length_flat, List.length_take, List.length_drop] at hlen
    have hdense := h.truthful.length_dense
    refine ⟨some ret, ?_, ?_, ?_, ?_, ?_, ?_⟩
    · unfold subarr
      rw [decide_eq_true hpresent, if_pos rfl, if_neg (by omega), hret]
      rfl
    · intro part hpart
      rw [← Option.some.inj hpart]
      exact hbuilt.encoded
    · exact hbuilt.dense_eq.trans hflat
    · show ret.totalValueCount.toInt = _
      rw [hbuilt.total_eq, hlen]
      omega
    · show 8 * ret.vals.length = _
      rw [hbuilt.vals_eq, List.length_map, hslice]
    · show (ret.index.data.getD []).length = _
      rw [hbuilt.index_eq, hslice]
      rfl
  · have hnone : (stop - start + 1).toNat = 0 := by omega
    have hempty : slicePiece s start stop = [] := by
      rw [hslice]
      unfold sliceRuns
      rw [hnone, takeRuns_zero]
    refine ⟨none, ?_, ?_, ?_, ?_, ?_, ?_⟩
    · rw [decide_eq_false hpresent, if_neg Bool.false_ne_true]
    · exact fun part hpart => absurd hpart (by simp)
    · rw [hnone, List.take_zero]
      rfl
    · show (0 : Int) = _
      omega
    · rw [hempty]
      rfl
    · rw [hempty]
      rfl

variable {v w : SparseData} {idx : Int32}

theorem changeSdata_outside_start (h : idx.toInt < 1 ∨ v.totalValueCount.toInt < idx.toInt) :
    changeSdata v w idx = .error (.ereport .invalidParameterValue "Invalid start index") := by
  unfold changeSdata
  exact if_pos h

/-- A part that begins at a negative position is refused. -/
theorem slice_negative (s : SparseData) (start stop : Int) (hneg : start < 0) (hle : start ≤ stop) :
    slice true s start stop =
      .error (.ereport .invalidParameterValue "Array index out of bounds.") := by
  unfold slice subarr subarrForward
  rw [if_pos rfl, if_neg (by omega), if_pos (by omega)]
  rfl

/-- Where the position behind the new elements is no `int`, the tail is refused. -/
theorem changeSdata_wraps (hv : Proper v) (hlo : 1 ≤ idx.toInt)
    (hhi : idx.toInt ≤ v.totalValueCount.toInt)
    (hwrap : 2147483648 ≤ idx.toInt + w.totalValueCount.toInt)
    (hchecked : ¬ toInt32 (idx.toInt + w.totalValueCount.toInt - 1) > v.totalValueCount.toInt) :
    ∃ e, changeSdata v w idx = .error e ∧ e.isRaised = true := by
  have hvmax := (int32_mem v.totalValueCount).2
  have hwmax := (int32_mem w.totalValueCount).2
  have hnegative : toInt32 (idx.toInt + w.totalValueCount.toInt) < 0 := by
    unfold toInt32 wrapAt
    omega
  have hflag : decide (2 ≤ idx.toInt) = decide (1 ≤ idx.toInt - 1) := by
    rw [decide_eq_decide]
    omega
  have ⟨head, hhead, _⟩ := slice_spec hv 1 (idx.toInt - 1) (le_refl 1) (by omega) (by omega)
  have htail := slice_negative v _ v.totalValueCount.toInt hnegative (by omega)
  refine ⟨.ereport .invalidParameterValue "Array index out of bounds.", ?_, rfl⟩
  unfold changeSdata
  dsimp only
  rw [if_neg (by omega), if_neg hchecked, hflag, hhead, ok_bind, decide_eq_true (by omega), htail]
  rfl

variable (idx) in
/-- Inside the vector the pieces are joined. -/
theorem changeSdata_inside (hv : Proper v) (hlo : 1 ≤ idx.toInt)
    (hhi : idx.toInt ≤ v.totalValueCount.toInt) (hw : 0 ≤ w.totalValueCount.toInt)
    (hend : idx.toInt + w.totalValueCount.toInt - 1 ≤ v.totalValueCount.toInt)
    (hint : idx.toInt + w.totalValueCount.toInt < 2147483648) :
    ∃ head tail, changeSdata v w idx = concatChange head w tail ∧
      IsPiece v 1 (idx.toInt - 1) head ∧
      IsPiece v (idx.toInt + w.totalValueCount.toInt) v.totalValueCount.toInt tail := by
  have hstop : toInt32 (idx.toInt + w.totalValueCount.toInt - 1) =
      idx.toInt + w.totalValueCount.toInt - 1 := toInt32_of_mem (by omega) (by omega)
  have hbehind : toInt32 (idx.toInt + w.totalValueCount.toInt) =
      idx.toInt + w.totalValueCount.toInt := toInt32_of_mem (by omega) hint
  have hflag : decide (2 ≤ idx.toInt) = decide (1 ≤ idx.toInt - 1) := by
    rw [decide_eq_decide]
    omega
  have ⟨head, hhead, hhead'⟩ :=
    slice_spec hv 1 (idx.toInt - 1) (le_refl 1) (by omega) (by omega)
  have ⟨tail, htail, htail'⟩ := slice_spec hv
    (idx.toInt + w.totalValueCount.toInt) v.totalValueCount.toInt (by omega) (by omega) (le_refl _)
  refine ⟨head, tail, ?_, hhead', htail'⟩
  unfold changeSdata
  dsimp only
  rw [if_neg (by omega), hstop, if_neg (by omega), hflag, hhead, ok_bind, hbehind, htail, ok_bind]

/-- A request outside the vector raises an error. -/
theorem changeSdata_outside (hv : Proper v) (hw : 0 ≤ w.totalValueCount.toInt)
    (h : ChangeOutside v w idx.toInt) : ∃ e, changeSdata v w idx = .error e ∧ e.isRaised = true := by
  by_cases hstart : idx.toInt < 1 ∨ v.totalValueCount.toInt < idx.toInt
  · exact ⟨_, changeSdata_outside_start hstart, rfl⟩
  · have hidx := int32_mem idx
    have hwmax := (int32_mem w.totalValueCount).2
    unfold ChangeOutside at h
    by_cases hlong : toInt32 (idx.toInt + w.totalValueCount.toInt - 1) > v.totalValueCount.toInt
    · refine ⟨.ereport .invalidParameterValue "Change vector is too long", ?_, rfl⟩
      unfold changeSdata
      dsimp only
      rw [if_neg hstart, if_pos hlong]
    · have hwrap : 2147483648 ≤ idx.toInt + w.totalValueCount.toInt := by
        by_contra hsmall
        rw [toInt32_of_mem (by omega) (by omega)] at hlong
        omega
      exact changeSdata_wraps hv (by omega) (by omega) hwrap hlong

theorem svecChange_error {v w : SvecType}
    (h : ∃ e, changeSdata (sdataFromSvec v) (sdataFromSvec w) idx = .error e ∧ e.isRaised = true) :
    ∃ e, svecChange v idx w = .error e ∧ e.isRaised = true := by
  have ⟨e, he, hraised⟩ := h
  refine ⟨e, ?_, hraised⟩
  unfold svecChange
  rw [he]
  rfl

/-- The pieces are the vector with the new elements in place of the old ones. -/
theorem dense_splice {α : Type*} (xs ys : List α) (i m : Nat) :
    (xs.drop 0).take i ++ ys ++ (xs.drop (i + m)).take (xs.length - (i + m)) =
      xs.take i ++ ys ++ xs.drop (i + m) := by
  have hall : (xs.drop (i + m)).length ≤ xs.length - (i + m) := by rw [List.length_drop]
  rw [List.drop_zero, List.take_of_length_le hall]

/-- A call that returns has put the pieces into a datum. -/
theorem piecesSize_le_of_svecChange {v w r : SvecType} {head tail : Option SparseData}
    (hchange : changeSdata (sdataFromSvec v) (sdataFromSvec w) idx =
      concatChange head (sdataFromSvec w) tail) (hr : svecChange v idx w = .ok r) :
    piecesSize head (sdataFromSvec w) tail ≤ maxAllocSize := by
  unfold svecChange at hr
  have ⟨out, hout, hrest⟩ := bind_eq_ok.mp hr
  rw [hchange] at hout
  have ⟨ret, hret, hfits⟩ := concatChange_size hout
  rw [hret] at hrest
  rw [← hfits]
  by_contra hlarge
  have herror := svecFromSparsedata_trim_error (Nat.lt_of_not_le hlarge)
  rw [show svecFromSparsedata ret true = .ok r from hrest] at herror
  cases herror

/-- Pieces that are put together and fit into a datum are returned. -/
theorem svecChange_of_concatChange {v w : SvecType} {head tail : Option SparseData}
    {ret : SparseData} (hchange : changeSdata (sdataFromSvec v) (sdataFromSvec w) idx =
      concatChange head (sdataFromSvec w) tail)
    (hconcat : concatChange head (sdataFromSvec w) tail = .ok (some ret)) (hwell : WellFormed ret)
    (hfits : piecesSize head (sdataFromSvec w) tail ≤ maxAllocSize) :
    ∃ svec, svecChange v idx w = .ok svec ∧ SameData (sdataFromSvec svec) ret ∧
      svec.dimension = (if ret.totalValueCount = 1 then -1 else ret.totalValueCount) := by
  have ⟨ret', hret', hsize⟩ := concatChange_size hconcat
  rw [← Option.some.inj hret'] at hsize
  have ⟨svec, hsvec, hdimension, hsame⟩ :=
    svecFromSparsedata_wellFormed hwell (hsize.trans_le hfits)
  refine ⟨svec, ?_, hsame, hdimension⟩
  unfold svecChange
  rw [hchange, hconcat, ok_bind]
  exact hsvec

/-- Inside the vector the elements are replaced exactly if the position behind them is an `int`
and the pieces fit into a datum. -/
theorem svecChange_inside_iff {v w : SvecType} (hv : Encoded (sdataFromSvec v))
    (hw : Encoded (sdataFromSvec w))
    (h : ¬ ChangeOutside (sdataFromSvec v) (sdataFromSvec w) idx.toInt) :
    Splices v idx w ↔ idx.toInt + w.totalValueCount.toInt < 2147483648 ∧
      spliceSize (sdataFromSvec v) (sdataFromSvec w) idx.toInt
        (idx.toInt + w.totalValueCount.toInt) ≤ maxAllocSize := by
  have hvlen := hv.proper.truthful.length_dense
  have hwlen := hw.proper.truthful.length_dense
  have hvtotal : (sdataFromSvec v).totalValueCount.toInt = v.totalValueCount.toInt := rfl
  have hwtotal : (sdataFromSvec w).totalValueCount.toInt = w.totalValueCount.toInt := rfl
  have hvmax := (int32_mem v.totalValueCount).2
  rw [hvtotal] at hvlen
  rw [hwtotal] at hwlen
  have hinside := h
  unfold ChangeOutside at hinside
  rw [hvtotal, hwtotal] at hinside
  by_cases hint : idx.toInt + w.totalValueCount.toInt < 2147483648
  · have ⟨head, tail, hchange, hhead, htail⟩ := changeSdata_inside (v := sdataFromSvec v)
      (w := sdataFromSvec w) idx hv.proper (by omega) (by omega) (by omega) (by omega) (by omega)
    have hsize : piecesSize head (sdataFromSvec w) tail =
        spliceSize (sdataFromSvec v) (sdataFromSvec w) idx.toInt
          (idx.toInt + w.totalValueCount.toInt) := by
      unfold piecesSize spliceSize
      rw [hhead.vals_eq, hhead.index_eq, htail.vals_eq, htail.index_eq]
      rfl
    rw [← hsize, and_iff_right hint]
    constructor
    · intro hsplices
      have ⟨r, hr, _⟩ := hsplices.2 h
      exact piecesSize_le_of_svecChange hchange hr
    · intro hfits
      refine ⟨fun houtside => absurd houtside h, fun _ => ?_⟩
      have hsum : pieceTotal head + w.totalValueCount.toInt + pieceTotal tail =
          v.totalValueCount.toInt := by
        rw [hhead.total_eq, htail.total_eq, hvtotal, hwtotal]
        omega
      have ⟨ret, hret, hencoded, hdense, htotal⟩ :=
        concatChange_of_fits hhead.encoded hw htail.encoded (by omega) hfits
      rw [hwtotal, hsum] at htotal
      have hwell : WellFormed ret := ⟨hencoded.proper, by omega⟩
      have hcount : ret.totalValueCount = v.totalValueCount := Int32.toInt_inj.mp htotal
      have ⟨svec, hsvec, hsame, hdimension⟩ := svecChange_of_concatChange hchange hret hwell hfits
      refine ⟨svec, hsvec, hsame.wellFormed hwell, ?_, ?_, ?_⟩
      · exact hsame.total.trans hcount
      · rw [hdimension, hcount]
      · have hfirst : (idx.toInt - 1 - 1 + 1).toNat = (idx.toInt - 1).toNat := by omega
        have hfrom : (idx.toInt + w.totalValueCount.toInt - 1).toNat =
            (idx.toInt - 1).toNat + w.totalValueCount.toInt.toNat := by omega
        have hend : (idx.toInt - 1 + w.totalValueCount.toInt).toNat =
            (idx.toInt - 1).toNat + w.totalValueCount.toInt.toNat := by omega
        have hrest : (v.totalValueCount.toInt -
            (idx.toInt + w.totalValueCount.toInt) + 1).toNat = (sdataFromSvec v).dense.length -
              ((idx.toInt - 1).toNat + w.totalValueCount.toInt.toNat) := by omega
        rw [hsame.dense_eq, hdense, hhead.dense_eq, htail.dense_eq, hvtotal, hwtotal, Int.sub_self,
          Int.toNat_zero, hfirst, hfrom, hend, hrest]
        exact dense_splice _ _ _ _
  · refine ⟨fun hsplices => ?_, fun hcond => absurd hcond.1 hint⟩
    have hwrapped : ∃ e, changeSdata (sdataFromSvec v) (sdataFromSvec w) idx = .error e ∧
        e.isRaised = true := by
      refine changeSdata_wraps hv.proper (by omega) (by omega) (by omega) ?_
      rw [hwtotal, hvtotal, toInt32_of_mem (by omega) (by omega)]
      omega
    have ⟨e, he, _⟩ := svecChange_error hwrapped
    have ⟨r, hr, _⟩ := hsplices.2 h
    rw [he] at hr
    cases hr

/-- `svec_change` replaces the elements exactly where the position behind the new ones is an
`int` and the result fits into a datum. -/
theorem svecChange_splices_iff {v w : SvecType} (hv : Encoded (sdataFromSvec v))
    (hw : Encoded (sdataFromSvec w)) (idx : Int32) :
    Splices v idx w ↔ ChangeOutside (sdataFromSvec v) (sdataFromSvec w) idx.toInt ∨
      (idx.toInt + w.totalValueCount.toInt < 2147483648 ∧
        spliceSize (sdataFromSvec v) (sdataFromSvec w) idx.toInt
          (idx.toInt + w.totalValueCount.toInt) ≤ maxAllocSize) := by
  by_cases h : ChangeOutside (sdataFromSvec v) (sdataFromSvec w) idx.toInt
  · have hwnonneg : 0 ≤ (sdataFromSvec w).totalValueCount.toInt := by
      rw [← hw.proper.truthful.length_dense]
      exact Int.natCast_nonneg _
    exact iff_of_true ⟨fun _ => svecChange_error (changeSdata_outside hv.proper hwnonneg h),
      fun hinside => absurd h hinside⟩ (.inl h)
  · rw [svecChange_inside_iff hv hw h, or_iff_right h]

/-- The second and third element of a run of three are replaced. -/
theorem svecChange_splices_three :
    Splices (tightSvec 3 3 [7] [253] (by decide)) 2 (tightSvec 2 2 [5] [254] (by decide)) := by
  have hv : Encoded (sdataFromSvec (tightSvec 3 3 [7] [253] (by decide))) :=
    ⟨⟨[3], .of_runLengths (by decide) rfl, by decide, by decide⟩, by decide⟩
  have hw : Encoded (sdataFromSvec (tightSvec 2 2 [5] [254] (by decide))) :=
    ⟨⟨[2], .of_runLengths (by decide) rfl, by decide, by decide⟩, by decide⟩
  exact (svecChange_splices_iff hv hw 2).mpr (.inr (by decide))

/-- The last element of a vector of the greatest dimension is not replaced. -/
theorem svecChange_not_splices_last :
    ¬ Splices (tightSvec 2147483647 2147483647 [7] [4, 255, 255, 255, 127] (by decide)) 2147483647
      (tightSvec (-1) 1 [9] [255] (by decide)) := by
  have hv : Encoded (sdataFromSvec
      (tightSvec 2147483647 2147483647 [7] [4, 255, 255, 255, 127] (by decide))) :=
    ⟨⟨[2147483647], .of_runLengths (by decide) rfl, by decide, by decide⟩, by decide⟩
  have hw : Encoded (sdataFromSvec (tightSvec (-1) 1 [9] [255] (by decide))) :=
    ⟨⟨[1], .of_runLengths (by decide) rfl, by decide, by decide⟩, by decide⟩
  rw [svecChange_splices_iff hv hw 2147483647]
  rintro (houtside | ⟨hint, _⟩)
  · revert houtside
    unfold ChangeOutside
    decide
  · revert hint
    decide

end Madlib.Svec
