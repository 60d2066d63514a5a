import Madlib.Dbal
import Madlib.Lib.Extended
import Madlib.Stats.RankSums

/-!
# The Mann-Whitney test

Rows of two samples arrive in ascending order of their value.  For numbers the statistic counts the
pairs that are in order.  The difference of two equal infinities is a NaN, so they are not found to
be a tie, and neither is one less than the other: the second one ends the aggregate.
-/

namespace Madlib.Stats

open Madlib.Backend Madlib.Dbal Madlib.Lib Madlib.Lib.Midrank Madlib.Lib.Extended

attribute [local instance] neZero_two

structure MWTestTransitionState extends RankState where
  last : Extended ℚ

/-- The arguments of the transition function. -/
structure MWRow where
  first : Bool
  value : Extended ℚ

def MWRow.sample (row : MWRow) : Fin 2 := if row.first then 0 else 1

/-- `utils::almostEqual` -/
def almostEqual (ε : MachineEpsilon ℚ) (inX inY : Extended ℚ) (inULP : ℚ) : Prop :=
  (inX.sub inY).abs.atMost (((inX.abs.max inY.abs).scale ε.times).scale (· * inULP))

instance (ε : MachineEpsilon ℚ) (inX inY : Extended ℚ) (inULP : ℚ) :
    Decidable (almostEqual ε inX inY inULP) := inferInstanceAs (Decidable (atMost _ _))

def mwNotOrdered : Fault :=
  thrown ("Must be used as an ordered aggregate, " ++
    "in ascending order of the second argument.")

def mwTestTransition (ε : MachineEpsilon ℚ) (state : MWTestTransitionState) (row : MWRow) :
    Except Fault MWTestTransitionState :=
  if almostEqual ε state.last row.value 2 then
    .ok { state.correctTies.addRank row.sample with last := row.value }
  else if state.last.lessThan row.value then
    .ok { state.clearTies.addRank row.sample with last := row.value }
  else if 0 < sumOfTwo state.num then .error mwNotOrdered
  else .ok { state.toRankState.addRank row.sample with last := row.value }

/-- `INITCOND` -/
def mwTestInit : MWTestTransitionState := { RankState.zero with last := .finite 0 }

/-- The state the final function is given. -/
def mwTest (ε : MachineEpsilon ℚ) (rows : List MWRow) : Except Fault MWTestTransitionState :=
  rows.foldlM (mwTestTransition ε) mwTestInit

/-- The vector of the final function. -/
def MWTestTransitionState.U (state : MWTestTransitionState) (i : Fin 2) : ℚ :=
  let u0 := state.rankSum 1 - state.num 1 * (state.num 1 + 1) / 2
  if i = 0 then u0 else state.num 0 * state.num 1 - u0

/-- The column `u_statistic` of the result. -/
def mwTestFinal (state : MWTestTransitionState) : ℚ := min (state.U 0) (state.U 1)

/-! ## Rows -/

/-- The values of each sample. -/
def samplesOf (rows : List MWRow) (i : Fin 2) : Multiset (Extended ℚ) :=
  (rows.filter (·.sample = i)).map (·.value)

def Ascending (rows : List MWRow) : Prop := (rows.map (·.value)).Pairwise (· ≤ ·)

/-- Distinct values are not within the tolerance of each other. -/
def Separated (ε : MachineEpsilon ℚ) (rows : List MWRow) : Prop :=
  ∀ a ∈ rows, ∀ b ∈ rows, a.value ≠ b.value → ¬almostEqual ε a.value b.value 2

instance (rows : List MWRow) : Decidable (Ascending rows) :=
  inferInstanceAs (Decidable (List.Pairwise _ _))

instance (ε : MachineEpsilon ℚ) (rows : List MWRow) : Decidable (Separated ε rows) :=
  inferInstanceAs (Decidable (∀ a ∈ rows, ∀ b ∈ rows, _))

/-- The statistic counts pairs, in whatever order ties arrive. -/
def CountsPairs (ε : MachineEpsilon ℚ) (rows : List MWRow) : Prop :=
  ∃ s, mwTest ε rows = .ok s ∧
    s.U 0 = pairsInOrder (samplesOf rows 0) (samplesOf rows 1) ∧
    s.U 0 + s.U 1 = (samplesOf rows 0).card * (samplesOf rows 1).card ∧
    ∀ rows', rows'.Perm rows → Ascending rows' → mwTest ε rows' = .ok s

theorem samplesOf_cons (samples : Fin 2 → Multiset (Extended ℚ)) (row : MWRow) (rows : List MWRow) :
    samples + samplesOf (row :: rows) =
      insertKey samples row.sample row.value + samplesOf rows := by
  ext1 i
  unfold samplesOf insertKey
  by_cases hi : row.sample = i
  · subst hi
    simp [← Multiset.cons_coe]
  · simp [hi, Function.update_of_ne (Ne.symm hi)]

theorem samplesOf_perm {rows rows' : List MWRow} (h : rows'.Perm rows) :
    samplesOf rows' = samplesOf rows := by
  ext1 i
  exact Multiset.coe_eq_coe.mpr ((h.filter _).map _)

/-! ## The tolerance -/

variable {ε : MachineEpsilon ℚ}

/-- A number is within the tolerance of itself. -/
theorem almostEqual_finite_self (x : ℚ) : almostEqual ε (.finite x) (.finite x) 2 := by
  have htimes := ε.times_nonneg |x| (abs_nonneg x)
  unfold almostEqual
  rw [finite_sub, sub_self]
  simp only [Extended.abs, max_same, scale, atMost_finite, abs_zero]
  positivity

/-- Nothing else is. -/
theorem finite_of_almostEqual_self {v : Extended ℚ} (h : almostEqual ε v v 2) :
    ∃ x, v = .finite x := by
  unfold almostEqual at h
  cases v with
  | finite x => exact ⟨x, rfl⟩
  | infinite negative =>
      rw [infinite_sub_self] at h
      exact absurd h (not_nan_atMost _)
  | nan =>
      rw [nan_sub] at h
      exact absurd h (not_nan_atMost _)

/-- An infinity is within the tolerance of every number and of the other infinity. -/
theorem finite_of_separated {a b : Extended ℚ} (hlt : a.lessThan b) (h : ¬almostEqual ε a b 2) :
    (∃ x, a = .finite x) ∧ ∃ y, b = .finite y := by
  unfold almostEqual at h
  have hinf := atMost_posInf_self (α := ℚ)
  rcases a with x | negative | _ <;> rcases b with y | negative' | _
  · exact ⟨⟨x, rfl⟩, y, rfl⟩
  · exact absurd (by simpa [Extended.sub, neg, add, Extended.abs, max_posInf, scale] using hinf) h
  · exact absurd rfl hlt.2
  · exact absurd (by simpa [Extended.sub, neg, add, Extended.abs, posInf_max, scale] using hinf) h
  · rcases eq_or_ne negative negative' with rfl | hne
    · exact absurd hlt (not_lessThan_self _)
    · have hsign : negative = !negative' := Bool.eq_not_of_ne hne
      refine absurd ?_ h
      simpa [Extended.sub, neg, add, Extended.abs, max_same, scale, hsign] using hinf
  · exact absurd rfl hlt.2
  · exact absurd hlt.1 (not_nan_lt _)
  · exact absurd hlt.1 (not_nan_lt _)
  · exact absurd hlt.1 (not_nan_lt _)

/-! ## Steps -/

/-- The value is a tie with the last one, or beyond the tolerance behind it. -/
def Follows (ε : MachineEpsilon ℚ) (last value : Extended ℚ) : Prop :=
  almostEqual ε last value 2 ∧ last = value ∨
    ¬almostEqual ε last value 2 ∧ last.lessThan value

/-- What a state says of the rows it has seen. -/
structure Passed (samples : Fin 2 → Multiset (Extended ℚ)) (s : MWTestTransitionState) : Prop where
  ranked : Ranked samples s.last s.toRankState
  mem : s.last ∈ together samples
  le : ∀ x ∈ together samples, x ≤ s.last

variable {samples : Fin 2 → Multiset (Extended ℚ)} {s t : MWTestTransitionState}

theorem Passed.unique (hs : Passed samples s) (ht : Passed samples t) : s = t := by
  have hlast : s.last = t.last := le_antisymm (ht.le _ hs.mem) (hs.le _ ht.mem)
  have hranks := ht.ranked
  rw [← hlast] at hranks
  have hstate := hs.ranked.unique hranks
  cases s
  cases t
  cases hlast
  cases hstate
  rfl

/-- The key of a new row takes the last place. -/
theorem passed_addRank {s : RankState} {row : MWRow} (h : Awaits samples row.value s)
    (hle : ∀ x ∈ together samples, x ≤ row.value) :
    Passed (insertKey samples row.sample row.value)
      { s.addRank row.sample with last := row.value } where
  ranked := h.addRank hle row.sample
  mem := by
    rw [together_insertKey]
    exact Multiset.mem_cons_self _ _
  le x hx := by
    rw [together_insertKey, Multiset.mem_cons] at hx
    rcases hx with rfl | hx
    · exact le_refl _
    · exact hle x hx

theorem Follows.le {last value : Extended ℚ} (h : Follows ε last value) : last ≤ value := by
  rcases h with ⟨-, rfl⟩ | ⟨-, hlt⟩
  · exact le_refl _
  · exact hlt.1.le

theorem Passed.step (h : Passed samples s) {row : MWRow} (hfollows : Follows ε s.last row.value) :
    ∃ t, mwTestTransition ε s row = .ok t ∧ t.last = row.value ∧
      Passed (insertKey samples row.sample row.value) t := by
  have hle : ∀ x ∈ together samples, x ≤ row.value := fun x hx => (h.le x hx).trans hfollows.le
  unfold mwTestTransition
  rcases hfollows with ⟨hequal, hlast⟩ | ⟨hequal, hlt⟩
  · have hranked := h.ranked
    rw [hlast] at hranked
    rw [if_pos hequal]
    exact ⟨_, rfl, rfl, passed_addRank (hranked.correctTies hle) hle⟩
  · have hbefore : ∀ x ∈ together samples, x < row.value := fun x hx => (h.le x hx).trans_lt hlt.1
    rw [if_neg hequal, if_pos hlt]
    exact ⟨_, rfl, rfl, passed_addRank (h.ranked.clearTies hbefore) hle⟩

/-- The first row is compared with a value that belongs to no row. -/
theorem passed_first (row : MWRow) :
    ∃ t, mwTestTransition ε mwTestInit row = .ok t ∧ t.last = row.value ∧
      Passed (insertKey (fun _ => 0) row.sample row.value) t := by
  have hnone : ∀ x ∈ together (fun _ => (0 : Multiset (Extended ℚ))), x < row.value := by
    simp [together]
  have hle := fun x hx => (hnone x hx).le
  have hzero := ranked_zero row.value
  unfold mwTestTransition
  split_ifs with hequal hlt hnum
  · exact ⟨_, rfl, rfl, passed_addRank (hzero.correctTies hle) hle⟩
  · exact ⟨_, rfl, rfl, passed_addRank (hzero.clearTies hnone) hle⟩
  · simp [mwTestInit, RankState.zero, sumOfTwo] at hnum
  · have hawaits : Awaits (fun _ => 0) row.value mwTestInit.toRankState :=
      ⟨hzero.num, hzero.numTies, fun i => by simp [mwTestInit, RankState.zero]⟩
    exact ⟨_, rfl, rfl, passed_addRank hawaits hle⟩

/-! ## Runs -/

theorem Passed.run {rows : List MWRow} (h : Passed samples s)
    (hfollows : (s.last :: rows.map (·.value)).IsChain (Follows ε)) :
    ∃ t, rows.foldlM (mwTestTransition ε) s = .ok t ∧ Passed (samples + samplesOf rows) t := by
  induction rows generalizing samples s with
  | nil =>
      refine ⟨s, rfl, ?_⟩
      have hnone : samplesOf [] = 0 := rfl
      rwa [hnone, add_zero]
  | cons row rows ih =>
      rw [List.map_cons, List.isChain_cons_cons] at hfollows
      obtain ⟨t, hstep, hlast, hpassed⟩ := h.step hfollows.1
      rw [← hlast] at hfollows
      obtain ⟨u, hrun, hu⟩ := ih hpassed hfollows.2
      refine ⟨u, ?_, ?_⟩
      · rw [List.foldlM_cons, hstep, ok_bind, hrun]
      · rwa [samplesOf_cons]

/-- Rows each of which follows the one before. -/
theorem mwTest_passed {rows : List MWRow} (hrows : rows ≠ [])
    (hfollows : (rows.map (·.value)).IsChain (Follows ε)) :
    ∃ s, mwTest ε rows = .ok s ∧ Passed (samplesOf rows) s := by
  obtain ⟨row, rows, rfl⟩ := List.exists_cons_of_ne_nil hrows
  obtain ⟨s, hstep, hlast, hpassed⟩ := passed_first (ε := ε) row
  rw [List.map_cons, ← hlast] at hfollows
  obtain ⟨t, hrun, ht⟩ := hpassed.run hfollows
  refine ⟨t, ?_, ?_⟩
  · rw [mwTest, List.foldlM_cons, hstep, ok_bind, hrun]
  · have hsamples := samplesOf_cons (fun _ => 0) row rows
    have hzero : (fun _ => 0) + samplesOf (row :: rows) = samplesOf (row :: rows) := zero_add _
    rwa [← hsamples, hzero] at ht

/-- What the code asks of a value behind another. -/
def Linked (ε : MachineEpsilon ℚ) (last value : Extended ℚ) : Prop :=
  almostEqual ε last value 2 ∨ last.lessThan value

theorem mwTestTransition_ok {row : MWRow} (h : mwTestTransition ε s row = .ok t) :
    t.last = row.value ∧ sumOfTwo t.num = sumOfTwo s.num + 1 ∧
      (0 < sumOfTwo s.num → Linked ε s.last row.value) := by
  unfold mwTestTransition at h
  split_ifs at h with hequal hlt hnum
  · cases h
    exact ⟨rfl, sumOfTwo_addRank _ _, fun _ => .inl hequal⟩
  · cases h
    exact ⟨rfl, sumOfTwo_addRank _ _, fun _ => .inr hlt⟩
  · cases h
    exact ⟨rfl, sumOfTwo_addRank _ _, fun hpos => absurd hpos hnum⟩

/-- Rows the code has accepted are linked. -/
theorem linked_of_run {rows : List MWRow} (h : rows.foldlM (mwTestTransition ε) s = .ok t)
    (hnum : 0 < sumOfTwo s.num) : (s.last :: rows.map (·.value)).IsChain (Linked ε) := by
  induction rows generalizing s with
  | nil => exact List.isChain_singleton _
  | cons row rows ih =>
      rw [List.foldlM_cons, bind_eq_ok] at h
      obtain ⟨u, hstep, hrun⟩ := h
      obtain ⟨hlast, hcount, hlinked⟩ := mwTestTransition_ok hstep
      have hrest := ih hrun (by linarith)
      rw [hlast] at hrest
      rw [List.map_cons, List.isChain_cons_cons]
      exact ⟨hlinked hnum, hrest⟩

theorem linked_of_mwTest {rows : List MWRow} (h : mwTest ε rows = .ok t) :
    (rows.map (·.value)).IsChain (Linked ε) := by
  cases rows with
  | nil => exact List.isChain_nil
  | cons row rows =>
      rw [mwTest, List.foldlM_cons, bind_eq_ok] at h
      obtain ⟨s, hstep, hrun⟩ := h
      obtain ⟨hlast, hcount, -⟩ := mwTestTransition_ok hstep
      have hzero : sumOfTwo mwTestInit.num = 0 := add_zero 0
      rw [List.map_cons, ← hlast]
      exact linked_of_run hrun (by linarith)

/-- There is one error. -/
theorem mwTest_ends (rows : List MWRow) : Ends (· = mwNotOrdered) (fun _ => True) (mwTest ε rows) := by
  unfold mwTest
  generalize mwTestInit = s
  induction rows generalizing s with
  | nil => trivial
  | cons row rows ih =>
      have hstep : Ends (· = mwNotOrdered) (fun _ => True) (mwTestTransition ε s row) := by
        unfold mwTestTransition
        split_ifs
        · trivial
        · trivial
        · rfl
        · trivial
      exact hstep.bind fun t _ => ih t

/-! ## The statistic -/

theorem U_of_ranked {last : Extended ℚ} (h : Ranked samples last s.toRankState) :
    s.U 0 = pairsInOrder (samples 0) (samples 1) ∧
      s.U 0 + s.U 1 = (samples 0).card * (samples 1).card := by
  have hrank := h.rankSum 1
  rw [together, sum_midrank_add, ← h.num 1] at hrank
  constructor
  · calc s.U 0 = s.rankSum 1 - s.num 1 * (s.num 1 + 1) / 2 := rfl
      _ = pairsInOrder (samples 0) (samples 1) := by
        rw [hrank]
        ring
  · calc s.U 0 + s.U 1 = s.num 0 * s.num 1 := add_sub_cancel _ _
      _ = (samples 0).card * (samples 1).card := by rw [h.num, h.num]

/-- Rows that follow each other in every order count pairs. -/
theorem countsPairs_of_follows {rows : List MWRow}
    (h : ∀ rows', rows'.Perm rows → Ascending rows' →
      (rows'.map (·.value)).IsChain (Follows ε)) (hascending : Ascending rows) :
    CountsPairs ε rows := by
  by_cases hrows : rows = []
  · subst hrows
    have hcounts := U_of_ranked (s := mwTestInit) (ranked_zero (.finite (0 : ℚ)))
    refine ⟨mwTestInit, rfl, hcounts.1, hcounts.2, ?_⟩
    intro rows' hperm _
    rw [hperm.eq_nil]
    rfl
  obtain ⟨s, hrun, hpassed⟩ := mwTest_passed hrows (h rows (List.Perm.refl rows) hascending)
  have hcounts := U_of_ranked hpassed.ranked
  refine ⟨s, hrun, hcounts.1, hcounts.2, ?_⟩
  intro rows' hperm hascending'
  have hrows' : rows' ≠ [] := fun hnil => hrows (List.nil_perm.mp (hnil ▸ hperm))
  obtain ⟨t, hrun', hpassed'⟩ := mwTest_passed hrows' (h rows' hperm hascending')
  rw [samplesOf_perm hperm] at hpassed'
  rw [hrun', hpassed'.unique hpassed]

theorem Separated.perm {rows rows' : List MWRow} (h : Separated ε rows) (hperm : rows'.Perm rows) :
    Separated ε rows' :=
  fun a ha b hb => h a (hperm.subset ha) b (hperm.subset hb)

theorem follows_of_finite {rows : List MWRow} (hascending : Ascending rows)
    (hseparated : Separated ε rows) (hfinite : ∀ row ∈ rows, ∃ x, row.value = .finite x) :
    (rows.map (·.value)).IsChain (Follows ε) := by
  apply List.Pairwise.isChain
  unfold Ascending at hascending
  rw [List.pairwise_map] at hascending ⊢
  refine hascending.imp_of_mem ?_
  intro a b ha hb hle
  obtain ⟨y, hy⟩ := hfinite b hb
  by_cases heq : a.value = b.value
  · left
    refine ⟨?_, heq⟩
    rw [heq, hy]
    exact almostEqual_finite_self y
  · right
    refine ⟨hseparated a ha b hb heq, lt_of_le_of_ne hle heq, ?_⟩
    rw [hy]
    exact nofun

/-- Of two rows that are linked none is infinite. -/
theorem finite_of_linked_pair {a b : Extended ℚ} (hlinked : Linked ε a b)
    (hseparated : a ≠ b → ¬almostEqual ε a b 2) :
    (∃ x, a = .finite x) ∧ ∃ y, b = .finite y := by
  by_cases heq : a = b
  · subst heq
    have hfinite := finite_of_almostEqual_self (hlinked.resolve_right (not_lessThan_self a))
    exact ⟨hfinite, hfinite⟩
  · exact finite_of_separated (hlinked.resolve_left (hseparated heq)) (hseparated heq)

theorem finite_of_linked {a b : MWRow} {rows : List MWRow}
    (hlinked : ((a :: b :: rows).map (·.value)).IsChain (Linked ε))
    (hseparated : Separated ε (a :: b :: rows)) :
    ∀ row ∈ a :: b :: rows, ∃ x, row.value = .finite x := by
  induction rows generalizing a b with
  | nil =>
      rw [List.map_cons, List.map_cons, List.isChain_cons_cons] at hlinked
      have hpair := finite_of_linked_pair hlinked.1 (hseparated a (by simp) b (by simp))
      simpa using hpair
  | cons c rows ih =>
      rw [List.map_cons, List.map_cons, List.isChain_cons_cons] at hlinked
      have hpair := finite_of_linked_pair hlinked.1 (hseparated a (by simp) b (by simp))
      have hrest := ih hlinked.2 fun x hx y hy =>
        hseparated x (List.mem_cons_of_mem a hx) y (List.mem_cons_of_mem a hy)
      exact List.forall_mem_cons.mpr ⟨hpair.1, hrest⟩

/-- A value beyond the tolerance in front of the one before ends the aggregate.  Rows in order count
pairs unless there are two of them and not all are finite. -/
theorem mwTest_countsPairs_iff (ε : MachineEpsilon ℚ) :
    (∀ pre a b post, b.value < a.value → ¬almostEqual ε a.value b.value 2 →
      mwTest ε (pre ++ a :: b :: post) = .error mwNotOrdered) ∧
    ∀ rows, Ascending rows → Separated ε rows →
      (CountsPairs ε rows ↔ (∀ row ∈ rows, ∃ x, row.value = .finite x) ∨ rows.length ≤ 1) := by
  constructor
  · intro pre a b post hlt hequal
    have hends := mwTest_ends (ε := ε) (pre ++ a :: b :: post)
    cases hrun : mwTest ε (pre ++ a :: b :: post) with
    | error e =>
        rw [hrun] at hends
        exact congrArg Except.error hends
    | ok s =>
        have hlinked := linked_of_mwTest hrun
        rw [List.map_append] at hlinked
        have hpair := (List.isChain_cons_cons.mp (List.isChain_append.mp hlinked).2.1).1
        rcases hpair with hsame | hless
        · exact absurd hsame hequal
        · exact absurd hlt hless.1.not_gt
  · intro rows hascending hseparated
    constructor
    · rintro ⟨s, hrun, -⟩
      rcases rows with _ | ⟨a, _ | ⟨b, rows⟩⟩
      · exact .inr (Nat.zero_le 1)
      · exact .inr (le_refl 1)
      · exact .inl (finite_of_linked (linked_of_mwTest hrun) hseparated)
    · intro h
      apply countsPairs_of_follows _ hascending
      intro rows' hperm hascending'
      rcases h with hfinite | hlength
      · exact follows_of_finite hascending' (hseparated.perm hperm) fun row hrow =>
          hfinite row (hperm.subset hrow)
      · rw [← hperm.length_eq] at hlength
        rcases rows' with _ | ⟨a, _ | ⟨b, rows'⟩⟩
        · exact List.isChain_nil
        · exact List.isChain_singleton _
        · simp at hlength

/-- Two ties and a larger value. -/
theorem mwTest_countsPairs_iff_three :
    CountsPairs exactEpsilon [⟨true, .finite 1⟩, ⟨false, .finite 1⟩, ⟨false, .finite 2⟩] ∧
      mwTest exactEpsilon [⟨true, .finite 2⟩, ⟨false, .finite 1⟩] = .error mwNotOrdered :=
  ⟨((mwTest_countsPairs_iff exactEpsilon).2 _ (by decide +kernel) (by decide +kernel)).mpr
      (.inl (by simp)),
    (mwTest_countsPairs_iff exactEpsilon).1 [] _ _ [] (by decide +kernel) (by decide +kernel)⟩

/-- Two rows with the value infinity are not found to be a tie. -/
theorem mwTest_infinite_error :
    ¬∀ rows, Ascending rows → Separated exactEpsilon rows → CountsPairs exactEpsilon rows := by
  intro h
  have hseparated : Separated exactEpsilon [⟨true, .infinite false⟩, ⟨false, .infinite false⟩] := by
    decide +kernel
  obtain ⟨s, hrun, -⟩ := h _ (by simp [Ascending]) hseparated
  obtain ⟨x, hx⟩ := finite_of_linked (linked_of_mwTest hrun) hseparated _ (List.mem_cons_self ..)
  cases hx

end Madlib.Stats
