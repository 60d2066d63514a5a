import Madlib.Svec.Constructors

/-!
# Appending a block

`svec_append` hands its count to the byte code as it is.  Counts below one are stored like any
other, and a vector without an index has no buffer the entry could go into.
-/

namespace Madlib.Svec

open Madlib.Backend Madlib.Lib.MachineInt Madlib.Lib.RunLength CountCode

/-- The elements of an argument that may be NULL. -/
def argDense (svec : Option SvecType) : List Float8 :=
  (svec.map fun v => (sdataFromSvec v).dense).getD []

/-- A count below one is refused, and any other one appended. -/
def AppendsBlock (svec : Option SvecType) (newele : Option Float8) (runLen : Int64) : Prop :=
  (runLen.toInt ≤ 0 → ∃ e, svecAppend svec newele (some runLen) = .error e ∧ e.isRaised = true) ∧
  (0 < runLen.toInt → ∃ r, svecAppend svec newele (some runLen) = .ok r ∧
    WellFormed (sdataFromSvec r) ∧ (sdataFromSvec r).dense =
      argDense svec ++ List.replicate runLen.toInt.toNat (newele.getD NVP))

theorem proper_appendBase {svec : Option SvecType}
    (h : ∀ s, svec = some s → Proper (sdataFromSvec s)) :
    Proper (appendBase svec) ∧ (appendBase svec).dense = argDense svec := by
  cases svec with
  | none => exact ⟨⟨[], hasRuns_makeSparseData, by simp, rfl⟩, rfl⟩
  | some s =>
      have hsame : SameData (makeSparseDataCopy (sdataFromSvec s)) (sdataFromSvec s) :=
        ⟨rfl, rfl, rfl, rfl⟩
      exact ⟨hsame.proper (h s rfl), hsame.dense_eq⟩

/-- A positive run is appended to the runs there are. -/
theorem ReadBackAppended.hasRuns {sdata s : SparseData} {runLen : Int} {runs : List Nat}
    (h : ReadBackAppended sdata s runLen (int8ToCompword runLen)) (hruns : HasRuns sdata runs)
    (hindex : sdata.index.data ≠ none) (hpos : 0 < runLen)
    (hmax : runLen < 9223372036854775808) : HasRuns s (runs ++ [runLen.toNat]) := by
  have ⟨bytes, hbytes⟩ := Option.ne_none_iff_exists'.mp hindex
  have ⟨v, hvals⟩ := h.vals
  have hwalks : IndexRuns (some bytes) runs := hbytes ▸ hruns.index
  refine ⟨?_, ?_, ?_⟩
  · rw [h.index, StringInfo.bytes, hbytes]
    exact Walks.append hwalks (walks_entry (isEntry_int8ToCompword hpos.le hmax))
  · rw [List.length_append, hruns.length_runs, h.unique, List.length_singleton]
  · rw [hvals, List.length_append, hruns.length_vals, h.unique, List.length_singleton]

variable {svec : Option SvecType} (newele : Option Float8) (runLen : Int64)

theorem svecAppend_eq : svecAppend svec newele (some runLen) =
    (addRunToSdata (newele.getD NVP) runLen.toInt (appendBase svec) >>=
      fun s => svecFromSparsedata s true) := rfl

theorem svecAppend_nullIndex (h : (appendBase svec).index.data = none) :
    ∃ e, svecAppend svec newele (some runLen) = .error e ∧ e.isRaised = false := by
  have ⟨e, he, hraised⟩ := addRunToSdata_nullIndex h (newele.getD NVP) runLen.toInt
  refine ⟨e, ?_, hraised⟩
  rw [svecAppend_eq, he]
  rfl

/-- A count below one raises an error only where the run does not fit into a datum. -/
theorem svecAppend_refuses_iff (hindex : (appendBase svec).index.data ≠ none) :
    (∃ e, svecAppend svec newele (some runLen) = .error e ∧ e.isRaised = true) ↔
      AppendTooLarge (appendBase svec) runLen.toInt := by
  rw [svecAppend_eq]
  cases hentry : rleIndexBytes runLen.toInt with
  | error e =>
      have hfault := entryIn_error hentry
      have hadd : addRunToSdata (newele.getD NVP) runLen.toInt (appendBase svec) = .error e := by
        simp [addRunToSdata, appendToRleIndex, hentry, bind, Except.bind]
      constructor
      · rintro ⟨e', he', hraised⟩
        rw [hadd, hfault] at he'
        cases he'
        cases hraised
      · rintro ⟨entry, hok, _⟩
        cases hentry.symm.trans hok
  | ok entry =>
      rw [appendTooLarge_iff _ hentry]
      constructor
      · rintro ⟨e, he, _⟩
        by_contra hsmall
        obtain ⟨r, hr, _⟩ :=
          appendRun_fits (newele.getD NVP) hindex hentry (Nat.le_of_not_lt hsmall)
        cases hr.symm.trans he
      · intro hlarge
        exact ⟨_, appendRun_tooLarge (newele.getD NVP) hindex hentry hlarge, rfl⟩

/-- A positive count is appended exactly if the size stays an `int` and the run fits. -/
theorem svecAppend_appends_iff (h : ∀ s, svec = some s → Proper (sdataFromSvec s))
    (hindex : (appendBase svec).index.data ≠ none) (hpos : 0 < runLen.toInt) :
    (∃ r, svecAppend svec newele (some runLen) = .ok r ∧ WellFormed (sdataFromSvec r) ∧
      (sdataFromSvec r).dense =
        argDense svec ++ List.replicate runLen.toInt.toNat (newele.getD NVP)) ↔
      (appendBase svec).totalValueCount.toInt + runLen.toInt < 2147483648 ∧
        ¬ AppendTooLarge (appendBase svec) runLen.toInt := by
  have ⟨hproper, hdense⟩ := proper_appendBase h
  have ⟨runs, hruns, hpositive, htotal⟩ := hproper
  have hmax := int64_lt runLen
  have hentry := rleIndexBytes_eq hpos.le hmax
  have hstored : storedCount runLen.toInt = runLen.toInt := if_pos hpos.le
  rw [svecAppend_eq, appendTooLarge_iff _ hentry, Nat.not_lt]
  constructor
  · rintro ⟨r, hr, hwell, _⟩
    have hfits : svecSize ((appendBase svec).valsLen + 8)
        ((appendBase svec).index.len + (int8ToCompword runLen.toInt).length) ≤ maxAllocSize := by
      by_contra hlarge
      rw [appendRun_tooLarge _ hindex hentry (Nat.lt_of_not_le hlarge)] at hr
      cases hr
    have ⟨r', hr', _, hread⟩ := appendRun_fits (newele.getD NVP) hindex hentry hfits
    rw [← Except.ok.inj (hr.symm.trans hr')] at hread
    have hsum := ((hread.truthful_iff hmax hentry hproper.truthful hindex).mp hwell.truthful).2
    rw [hstored] at hsum
    exact ⟨hsum, hfits⟩
  · rintro ⟨hsum, hfits⟩
    have ⟨r, hr, hvals, hread⟩ := appendRun_fits (newele.getD NVP) hindex hentry hfits
    have hruns' := hread.hasRuns hruns hindex hpos hmax
    have hwrap : (sdataFromSvec r).totalValueCount.toInt =
        (appendBase svec).totalValueCount.toInt + runLen.toInt := by
      rw [hread.total, toInt32_of_mem (by omega) hsum]
    refine ⟨r, hr, ⟨⟨_, hruns', ?_, ?_⟩, by omega⟩, ?_⟩
    · rw [List.forall_mem_append, List.forall_mem_singleton]
      exact ⟨hpositive, Int.lt_toNat.mpr hpos⟩
    · rw [hwrap, htotal, List.sum_append, List.sum_singleton]
      push_cast
      omega
    · rw [hruns'.dense_eq, ← hdense, hruns.dense_eq]
      show expand _ r.vals = _
      rw [hvals, expand_append (hruns.length_runs.trans hruns.length_vals.symm), expand_singleton]

/-- When a block is appended, or refused, as it should be. -/
def AppendMeets (sdata : SparseData) (runLen : Int) : Prop :=
  sdata.index.data ≠ none ∧ (runLen ≤ 0 → AppendTooLarge sdata runLen) ∧
    (0 < runLen → sdata.totalValueCount.toInt + runLen < 2147483648 ∧ ¬ AppendTooLarge sdata runLen)

/-- `svec_append` appends the block it is given, and refuses counts below one, exactly where the
vector has an index, the count is positive and the result is neither too long nor too large, or the
count is not and storing it makes the result too large. -/
theorem svecAppend_block_iff
    (h : ∀ s, svec = some s → Proper (sdataFromSvec s)) :
    AppendsBlock svec newele runLen ↔ AppendMeets (appendBase svec) runLen.toInt := by
  by_cases hindex : (appendBase svec).index.data = none
  · have ⟨e, he, hraised⟩ := svecAppend_nullIndex newele runLen hindex
    constructor
    · rintro ⟨hrefuses, happends⟩
      rcases Int.lt_or_le 0 runLen.toInt with hpos | hle
      · have ⟨r, hr, _⟩ := happends hpos
        cases he.symm.trans hr
      · have ⟨e', he', hraised'⟩ := hrefuses hle
        rw [Except.error.inj (he.symm.trans he'), hraised'] at hraised
        cases hraised
    · exact fun hmeets => absurd hindex hmeets.1
  · unfold AppendsBlock AppendMeets
    rw [and_iff_right hindex]
    exact and_congr (imp_congr_right fun _ => svecAppend_refuses_iff newele runLen hindex)
      (imp_congr_right fun hpos => svecAppend_appends_iff newele runLen h hindex hpos)

/-- Two NULLs are appended to three fives. -/
theorem svecAppend_block_nulls :
    AppendsBlock (some (tightSvec 3 3 [5] [253] (by decide))) none 2 := by
  have hproper : Proper (sdataFromSvec (tightSvec 3 3 [5] [253] (by decide))) :=
    ⟨[3], .of_runLengths (by decide) rfl, by decide, by decide⟩
  have hentry : rleIndexBytes 2 = .ok [254] := by decide
  refine (svecAppend_block_iff none 2 ?_).mpr ⟨by decide, ?_, fun _ => ⟨by decide, ?_⟩⟩
  · intro s hs
    rw [← Option.some.inj hs]
    exact hproper
  · exact fun hle => absurd hle (by decide)
  · show ¬ AppendTooLarge _ 2
    rw [appendTooLarge_iff _ hentry]
    decide

/-- A count of minus two is not refused: it is stored as a run of none and makes the size one. -/
theorem svecAppend_block_negative :
    (∃ r, svecAppend (some (tightSvec 3 3 [5] [253] (by decide))) (some 7) (some (-2)) = .ok r ∧
      r.totalValueCount = 1 ∧ (sdataFromSvec r).dense = [5, 5, 5]) ∧
    ¬ AppendsBlock (some (tightSvec 3 3 [5] [253] (by decide))) (some 7) (-2) := by
  have hreturned : ∃ r, svecAppend (some (tightSvec 3 3 [5] [253] (by decide))) (some 7)
      (some (-2)) = .ok r ∧ r.totalValueCount = 1 ∧ (sdataFromSvec r).dense = [5, 5, 5] :=
    ⟨_, rfl, rfl, rfl⟩
  refine ⟨hreturned, ?_⟩
  rintro ⟨hrefuses, _⟩
  have ⟨r, hr, _⟩ := hreturned
  have ⟨e, he, _⟩ := hrefuses (by decide)
  cases hr.symm.trans he

end Madlib.Svec
