import Madlib.Sketch.MfvMerge

/-!
# Lists of most frequent values in the order of their counts

`__mfvsketch_final` sorts the entries as a merge does, and writes a row for each of them.  The
comparison is the low half of the difference of two counts: it tells which of them is larger only
if the difference has a low half that is neither zero nor negative.
-/

namespace Madlib.Sketch

open Madlib.Backend Madlib.Lib Madlib.Lib.MachineInt

/-- The texts of value `i` and of its count; `outFunc` is the output function of the type. -/
def histoRow (catalog : Catalog) (outFunc : List UInt8 → Except Fault String)
    (tv : MfvTransval) (i : Nat) : Except Fault (String × String) := do
  let tmpp ← mfvTransvalGetval catalog tv i
  let cnt ← cntAt tv i
  let countbuf := toString (signed64 cnt)
  let valbuf ← outFunc (tv.space.drop tmpp)
  pure (valbuf, countbuf)

/-- `__mfvsketch_final`; `none` is NULL, and a transition value too short to be initialised. -/
def mfvsketchFinal (catalog : Catalog) (qsort : Qsort)
    (outFunc : List UInt8 → Except Fault String) :
    Option MfvTransval → Except Fault (Option (List (String × String)))
  | none => .ok none
  | some transval => do
      let transval := sortMfvs qsort transval
      let histo ← (List.range transval.nextMfv).mapM (histoRow catalog outFunc transval)
      pure (some histo)

/-- What `qsort` needs of the comparison, and what the callers want of the list. -/
structure SortsDescending (l : List OffsetCnt) : Prop where
  smaller : ∀ a ∈ l, ∀ b ∈ l, (cntCmpDesc a b < 0 ↔ b.cnt < a.cnt)
  larger : ∀ a ∈ l, ∀ b ∈ l, (0 < cntCmpDesc a b ↔ a.cnt < b.cnt)
  perm : ∀ qsort, SortsBy qsort → (qsort cntCmpDesc l).Perm l
  descending : ∀ qsort, SortsBy qsort →
    (qsort cntCmpDesc l).Pairwise fun a b => b.cnt ≤ a.cnt

/-- The low half of the difference of two counts is positive. -/
def LowHalfPositive (smaller larger : UInt64) : Prop :=
  0 < (larger.toNat - smaller.toNat) % 4294967296 ∧
    (larger.toNat - smaller.toNat) % 4294967296 < 2147483648

variable {a b : OffsetCnt} {l : List OffsetCnt}

theorem cntCmpDesc_congr (a b : OffsetCnt) :
    cntCmpDesc a b = toInt32 ((b.cnt.toNat : Int) - a.cnt.toNat) := by
  have ha := a.cnt.toNat_lt
  have hb := b.cnt.toNat_lt
  have hsub := UInt64.toNat_sub b.cnt a.cnt
  unfold cntCmpDesc
  apply toInt32_congr
  omega

theorem cntCmpDesc_pos_iff (h : a.cnt < b.cnt) :
    0 < cntCmpDesc a b ↔ LowHalfPositive a.cnt b.cnt := by
  rw [UInt64.lt_iff_toNat_lt] at h
  rw [cntCmpDesc_congr]
  unfold LowHalfPositive toInt32 wrapAt
  omega

/-- A positive low half has a negative one when it is taken the other way. -/
theorem cntCmpDesc_neg (h : a.cnt < b.cnt) (hlow : LowHalfPositive a.cnt b.cnt) :
    cntCmpDesc b a < 0 := by
  rw [UInt64.lt_iff_toNat_lt] at h
  rw [cntCmpDesc_congr]
  unfold LowHalfPositive at hlow
  unfold toInt32 wrapAt
  omega

theorem cntCmpDesc_self (h : a.cnt = b.cnt) : cntCmpDesc a b = 0 := by
  rw [cntCmpDesc_congr, h, Int.sub_self]
  rfl

/-- The sign of the comparison is the order of the counts. -/
theorem cntCmpDesc_sign (hab : a.cnt < b.cnt → LowHalfPositive a.cnt b.cnt)
    (hba : b.cnt < a.cnt → LowHalfPositive b.cnt a.cnt) :
    (cntCmpDesc a b < 0 ↔ b.cnt < a.cnt) ∧ (0 < cntCmpDesc a b ↔ a.cnt < b.cnt) := by
  have htrichotomy : a.cnt < b.cnt ∨ a.cnt = b.cnt ∨ b.cnt < a.cnt := by
    rw [UInt64.lt_iff_toNat_lt, ← UInt64.toNat_inj, UInt64.lt_iff_toNat_lt]
    exact Nat.lt_trichotomy _ _
  rcases htrichotomy with hlt | heq | hgt
  · have hpos := (cntCmpDesc_pos_iff hlt).mpr (hab hlt)
    have hnot : ¬b.cnt < a.cnt := UInt64.lt_asymm hlt
    simp [hlt, hnot, hpos, hpos.le]
  · rw [cntCmpDesc_self heq, heq]
    simp
  · have hneg := cntCmpDesc_neg hgt (hba hgt)
    have hnot : ¬a.cnt < b.cnt := UInt64.lt_asymm hgt
    simp [hgt, hnot, hneg, hneg.le]

theorem orders_of_sign (hsmaller : ∀ a ∈ l, ∀ b ∈ l, (cntCmpDesc a b < 0 ↔ b.cnt < a.cnt))
    (hlarger : ∀ a ∈ l, ∀ b ∈ l, (0 < cntCmpDesc a b ↔ a.cnt < b.cnt)) :
    Orders cntCmpDesc l where
  flip a ha b hb := by rw [hsmaller a ha b hb, hlarger b hb a ha]
  trans a ha b hb c hc hab hbc := by
    rw [← Int.not_lt, hlarger a ha b hb, UInt64.not_lt] at hab
    rw [← Int.not_lt, hlarger b hb c hc, UInt64.not_lt] at hbc
    rw [← Int.not_lt, hlarger a ha c hc, UInt64.not_lt]
    exact UInt64.le_trans hbc hab

/-- The entries are sorted by falling counts exactly if the low half of the difference of any
two different counts, the smaller from the larger, is positive. -/
theorem cntCmpDesc_sortsDescending_iff (l : List OffsetCnt) :
    SortsDescending l ↔
      ∀ a ∈ l, ∀ b ∈ l, a.cnt < b.cnt → LowHalfPositive a.cnt b.cnt := by
  constructor
  · intro h a ha b hb hlt
    exact (cntCmpDesc_pos_iff hlt).mp ((h.larger a ha b hb).mpr hlt)
  · intro h
    have hsign : ∀ a ∈ l, ∀ b ∈ l,
        (cntCmpDesc a b < 0 ↔ b.cnt < a.cnt) ∧ (0 < cntCmpDesc a b ↔ a.cnt < b.cnt) :=
      fun a ha b hb => cntCmpDesc_sign (h a ha b hb) (h b hb a ha)
    have horders := orders_of_sign (fun a ha b hb => (hsign a ha b hb).1)
      fun a ha b hb => (hsign a ha b hb).2
    constructor
    case smaller => exact fun a ha b hb => (hsign a ha b hb).1
    case larger => exact fun a ha b hb => (hsign a ha b hb).2
    case perm => exact fun qsort hsorts => hsorts.perm _ _ horders
    case descending =>
        intro qsort hsorts
        have hperm := hsorts.perm _ _ horders
        apply (hsorts.sorted _ _ horders).imp_of_mem
        intro a b ha hb hle
        have hlarger := (hsign a (hperm.mem_iff.mp ha) b (hperm.mem_iff.mp hb)).2
        rw [← Int.not_lt, hlarger, UInt64.not_lt] at hle
        exact hle

/-- A value seen 2^31 times goes behind one that was not seen. -/
theorem cntCmpDesc_not_descending :
    ¬∀ l : List OffsetCnt, (∀ entry ∈ l, entry.cnt.toNat < 2 ^ 63) → SortsDescending l := by
  intro hclaim
  have h := hclaim [⟨65600, 2147483648⟩, ⟨65604, 0⟩] (by decide)
  have hlarger := (h.larger ⟨65604, 0⟩ (by simp) ⟨65600, 2147483648⟩ (by simp)).mpr (by decide)
  exact absurd hlarger (by decide)

/-! ## The rows of the result -/

theorem mapM_range' {β : Type} {f : Nat → Except Fault β} {g : OffsetCnt → β} {i : Nat}
    (h : ∀ j (hj : j < l.length), f (i + j) = .ok (g l[j])) :
    (List.range' i l.length).mapM f = .ok (l.map g) := by
  induction l generalizing i with
  | nil => rfl
  | cons entry l ih =>
      have hrest : ∀ j (hj : j < l.length), f (i + 1 + j) = .ok (g l[j]) := by
        intro j hj
        have hnext := h (j + 1) (Nat.succ_lt_succ hj)
        rwa [List.getElem_cons_succ, Nat.add_comm j, ← Nat.add_assoc] at hnext
      have hfirst := h 0 (Nat.zero_lt_succ _)
      rw [Nat.add_zero, List.getElem_cons_zero] at hfirst
      rw [List.length_cons, List.range'_succ, List.mapM_cons, hfirst, ok_bind, ih hrest]
      rfl

/-- The histogram lists every entry, in the order of falling counts. -/
theorem mfvsketchFinal_descending {catalog : Catalog} {qsort : Qsort} {tv : MfvTransval}
    {outFunc : List UInt8 → Except Fault String} {text : List UInt8 → String}
    (hsorts : SortsBy qsort) (h : MfvValid catalog tv)
    (hout : ∀ v rest, IsDatum catalog tv.typLen v → outFunc (v ++ rest) = .ok (text v))
    (hdescending : SortsDescending (tv.mfvs.take tv.nextMfv)) :
    ∃ entries : List OffsetCnt, entries.Perm (tv.mfvs.take tv.nextMfv) ∧
      (entries.Pairwise fun a b => b.cnt ≤ a.cnt) ∧
      mfvsketchFinal catalog qsort outFunc (some tv) =
        .ok (some (entries.map fun entry =>
          (text (tv.valueAt catalog entry), toString (signed64 entry.cnt)))) := by
  have hperm := hdescending.perm qsort hsorts
  refine ⟨_, hperm, hdescending.descending qsort hsorts, ?_⟩
  have hmfvs : (sortMfvs qsort tv).mfvs =
      qsort cntCmpDesc (tv.mfvs.take tv.nextMfv) ++ tv.mfvs.drop tv.nextMfv := rfl
  generalize qsort cntCmpDesc (tv.mfvs.take tv.nextMfv) = entries at hperm hmfvs
  have hlength : entries.length = tv.nextMfv := by
    rw [hperm.length_eq, List.length_take, h.length_mfvs]
    exact Nat.min_eq_left h.next_le
  have hrows : (List.range' 0 entries.length).mapM
      (histoRow catalog outFunc (sortMfvs qsort tv)) =
        .ok (entries.map fun entry =>
          (text (tv.valueAt catalog entry), toString (signed64 entry.cnt))) := by
    apply mapM_range'
    intro i hi
    have hmem := hperm.mem_iff.mp (List.getElem_mem hi)
    have hentry : (sortMfvs qsort tv).mfvs[i]? = some entries[i] := by
      rw [hmfvs, List.getElem?_append_left hi, List.getElem?_eq_getElem hi]
    have hdatum := h.isDatum _ (List.mem_map_of_mem (f := tv.valueAt catalog) hmem)
    have hstart : (sortMfvs qsort tv).valuesStart ≤ entries[i].offset := h.start_le _ hmem
    have hi' : i ≤ (sortMfvs qsort tv).nextMfv := hlength ▸ hi.le
    have hdatum' : IsDatum catalog (sortMfvs qsort tv).typLen
        ((sortMfvs qsort tv).valueAt catalog entries[i]) := hdatum
    have ⟨hget, rest, hrest⟩ := getval_eq hentry hi' hstart hdatum'
    have hcnt : cntAt (sortMfvs qsort tv) i = .ok entries[i].cnt := by
      unfold cntAt
      rw [hentry]
    unfold histoRow
    rw [Nat.zero_add, hget, ok_bind, hcnt, ok_bind, hrest]
    show (outFunc (tv.valueAt catalog entries[i] ++ rest) >>= fun valbuf => _) = _
    rw [hout _ rest hdatum]
    rfl
  unfold mfvsketchFinal
  show ((List.range tv.nextMfv).mapM _ >>= fun histo => _) = _
  rw [List.range_eq_range', ← hlength, hrows]
  rfl

end Madlib.Sketch
