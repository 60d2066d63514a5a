import Madlib.Stats.ChiSquaredMerge

/-!
# The statistic of the chi-squared test

The sums a state keeps are those of its rows, and what the final function returns is the sum of
the squared deviations from the expected numbers, each over the expected number, where these are
scaled to the total of the observed ones.
-/

namespace Madlib.Stats

open Madlib.Backend Madlib.Dbal Madlib.Lib.Segments

section Sums

variable {α : Type} [Field α]

/-- The expected number of a row, 1 when none is given. -/
def expectedNumber (row : Chi2Row α) : α := row.expected.getD 1

def expectSum (rows : Multiset (Chi2Row α)) : α := (rows.map expectedNumber).sum

def obsSum (rows : Multiset (Chi2Row α)) : α := (rows.map fun row => (row.observed : α)).sum

def obsSquareSum (rows : Multiset (Chi2Row α)) : α :=
  (rows.map fun row => (row.observed * row.observed / expectedNumber row : α)).sum

/-- The sums of a state are those of the rows it has seen. -/
structure Summed (rows : Multiset (Chi2Row α)) (s : Chi2TestTransitionState α) : Prop where
  numRows : s.numRows = rows.card
  sumExpect : s.sumExpect = expectSum rows
  sumObsSquareOverExpect : s.sumObsSquareOverExpect = obsSquareSum rows
  sumObs : s.sumObs = obsSum rows
  sumSquaredDeviations : s.sumSquaredDeviations =
    expectSum rows * obsSquareSum rows - obsSum rows * obsSum rows

theorem summed_rowState {row : Chi2Row α} (h : expectedNumber row ≠ 0) :
    Summed {row} (rowState row) := by
  have hcancel : expectedNumber row * (row.observed * row.observed / expectedNumber row) =
      (row.observed * row.observed : α) := mul_div_cancel₀ _ h
  constructor
  · simp [rowState]
  · simp [rowState, expectSum, expectedNumber]
  · simp [rowState, obsSquareSum, expectedNumber]
  · simp [rowState, obsSum]
  · simp [rowState, expectSum, obsSquareSum, obsSum, hcancel]

/-- The flags of a state do not matter for its sums. -/
theorem Summed.with_flags {rows : Multiset (Chi2Row α)} {s : Chi2TestTransitionState α}
    (hs : Summed rows s) (u : Bool) (df : Int) :
    Summed rows { s with uniformDist := u, df := df } := by
  constructor
  · exact hs.numRows
  · exact hs.sumExpect
  · exact hs.sumObsSquareOverExpect
  · exact hs.sumObs
  · exact hs.sumSquaredDeviations

variable [LinearOrder α] [IsStrictOrderedRing α] {rows rows' : Multiset (Chi2Row α)}
  {s r : Chi2TestTransitionState α}

/-- The product of the sums less the square: the mixed terms are what the update adds. -/
theorem Summed.update (hs : Summed rows s) (hr : Summed rows' r) :
    Summed (rows + rows') (updateSumSquaredDeviations s r) := by
  unfold updateSumSquaredDeviations
  split
  case isTrue hle =>
    rw [hr.numRows, Nat.cast_nonpos, Multiset.card_eq_zero] at hle
    rwa [hle, add_zero]
  case isFalse =>
    constructor
    · dsimp only
      rw [hs.numRows, hr.numRows, Multiset.card_add, Nat.cast_add]
    · dsimp only
      rw [hs.sumExpect, hr.sumExpect, expectSum, expectSum, expectSum, Multiset.map_add,
        Multiset.sum_add]
    · dsimp only
      rw [hs.sumObsSquareOverExpect, hr.sumObsSquareOverExpect, obsSquareSum, obsSquareSum,
        obsSquareSum, Multiset.map_add, Multiset.sum_add]
    · dsimp only
      rw [hs.sumObs, hr.sumObs, obsSum, obsSum, obsSum, Multiset.map_add, Multiset.sum_add]
    · dsimp only
      rw [hs.sumSquaredDeviations, hr.sumSquaredDeviations, hs.sumExpect, hr.sumExpect,
        hs.sumObsSquareOverExpect, hr.sumObsSquareOverExpect, hs.sumObs, hr.sumObs]
      simp only [expectSum, obsSquareSum, obsSum, Multiset.map_add, Multiset.sum_add]
      ring

variable [FloorRing α]

theorem summed_keeps : Keeps (chi2GofTest (α := α)) (fun row => expectedNumber row ≠ 0)
    fun rows s => Flagged rows s ∧ Summed rows s := by
  constructor
  · refine ⟨flagged_init, ?_⟩
    constructor
    · simp [chi2GofTest]
    · simp [chi2GofTest, expectSum]
    · simp [chi2GofTest, obsSquareSum]
    · simp [chi2GofTest, obsSum]
    · simp [chi2GofTest, expectSum, obsSum]
  · rintro rows s row s' hrow ⟨hflags, hsums⟩ hstep
    refine ⟨hflags.of_transition hstep, ?_⟩
    change chi2GofTestTransition s row = .ok s' at hstep
    unfold chi2GofTestTransition at hstep
    obtain ⟨s₁, h₁, hrest⟩ := bind_eq_ok.mp hstep
    obtain ⟨s₂, h₂, hlast⟩ := bind_eq_ok.mp hrest
    obtain ⟨rfl, -⟩ := checkUniformDist_eq_ok h₁
    obtain ⟨rfl, -⟩ := checkDf_eq_ok h₂
    cases hlast
    rw [← Multiset.singleton_add, add_comm]
    exact (hsums.with_flags _ _).update (summed_rowState hrow)
  · rintro rows s rows' s' t ⟨hflags, hsums⟩ ⟨hflags', hsums'⟩ hstep
    refine ⟨chi2GofTest_keeps.merge _ _ _ _ _ hflags hflags' hstep, ?_⟩
    have hmerge := merge_ok hflags hflags' (agree_of_merge hflags hflags' hstep)
    rw [show chi2GofTest.merge = chi2GofTestMergeStates from rfl, hmerge] at hstep
    cases hstep
    exact (hsums.with_flags _ _).update hsums'

end Sums

/-! ## The final function -/

section Final

variable {α : Type} [Field α]

/-- The expected number of a row, scaled so that the total is that of the observed numbers. -/
def scaledExpected (rows : Multiset (Chi2Row α)) (row : Chi2Row α) : α :=
  expectedNumber row * obsSum rows / expectSum rows

/-- The textbook formula. -/
def chiSquared (rows : Multiset (Chi2Row α)) : α :=
  (rows.map fun row =>
    ((row.observed : α) - scaledExpected rows row) ^ 2 / scaledExpected rows row).sum

theorem deviations_eq {rows : Multiset (Chi2Row α)} {c : α} (hc : c ≠ 0)
    (hrows : ∀ row ∈ rows, expectedNumber row ≠ 0) :
    (rows.map fun row =>
      ((row.observed : α) - expectedNumber row * c) ^ 2 / (expectedNumber row * c)).sum =
      obsSquareSum rows / c - 2 * obsSum rows + expectSum rows * c := by
  induction rows using Multiset.induction_on with
  | empty => simp [obsSquareSum, obsSum, expectSum]
  | cons row rows ih =>
      have hrow := hrows row (Multiset.mem_cons_self row rows)
      have hrest := ih fun r hr => hrows r (Multiset.mem_cons_of_mem hr)
      have hterm : ((row.observed : α) - expectedNumber row * c) ^ 2 / (expectedNumber row * c) =
          (row.observed * row.observed / expectedNumber row) / c - 2 * row.observed +
            expectedNumber row * c := by
        field_simp
        ring
      rw [Multiset.map_cons, Multiset.sum_cons, hrest, hterm]
      simp only [obsSquareSum, obsSum, expectSum, Multiset.map_cons, Multiset.sum_cons]
      ring

/-- What the state keeps is the textbook formula times the total of the observed numbers. -/
theorem chiSquared_eq {rows : Multiset (Chi2Row α)} (hobs : obsSum rows ≠ 0)
    (hexpect : expectSum rows ≠ 0) (hrows : ∀ row ∈ rows, expectedNumber row ≠ 0) :
    (expectSum rows * obsSquareSum rows - obsSum rows * obsSum rows) / obsSum rows =
      chiSquared rows := by
  have hc : obsSum rows / expectSum rows ≠ 0 := div_ne_zero hobs hexpect
  have hscaled : chiSquared rows = (rows.map fun row =>
      ((row.observed : α) - expectedNumber row * (obsSum rows / expectSum rows)) ^ 2 /
        (expectedNumber row * (obsSum rows / expectSum rows))).sum := by
    unfold chiSquared scaledExpected
    simp only [mul_div_assoc]
  rw [hscaled, deviations_eq hc hrows]
  field_simp
  ring

variable [LinearOrder α] [IsStrictOrderedRing α] [FloorRing α]

/-- In any order of rows and merges the statistic is that of the textbook, and one less than the
number of rows is the degree of freedom when none is given. -/
theorem chi2_gof_test_statistic (chiSquaredCDF : α → Int → α) (sqrt : α → α)
    (plan : Plan (Chi2Row α)) (hne : plan.rows ≠ 0)
    (hexpected : (∀ row ∈ plan.rows, ∃ e, row.expected = some e ∧ 0 < e) ∨
      ∀ row ∈ plan.rows, row.expected = none)
    (hdf : ∀ row ∈ plan.rows, row.df = none) (hobs : 0 < obsSum plan.rows) :
    ∃ state result, chi2GofTest.run plan = .ok state ∧
      chi2GofTestFinal chiSquaredCDF sqrt state = some result ∧
      result.statistic = chiSquared plan.rows ∧ result.df = plan.rows.card - 1 := by
  have hpositive : ∀ row ∈ plan.rows, 0 < expectedNumber row := by
    intro row hrow
    unfold expectedNumber
    rcases hexpected with hgiven | hnull
    · obtain ⟨e, he, hpos⟩ := hgiven row hrow
      rwa [he]
    · rw [hnull row hrow]
      exact one_pos
  have hexpect : 0 < expectSum plan.rows := by
    obtain ⟨row, hrow⟩ := Multiset.exists_mem_of_ne_zero hne
    obtain ⟨rows, hrows⟩ := Multiset.exists_cons_of_mem hrow
    have hrest : 0 ≤ expectSum rows := by
      apply Multiset.sum_nonneg
      intro e he
      obtain ⟨r, hr, rfl⟩ := Multiset.mem_map.mp he
      exact (hpositive r (by rw [hrows]; exact Multiset.mem_cons_of_mem hr)).le
    have hsum : expectSum plan.rows = expectedNumber row + expectSum rows := by
      rw [hrows, expectSum, expectSum, Multiset.map_cons, Multiset.sum_cons]
    rw [hsum]
    exact add_pos_of_pos_of_nonneg (hpositive row hrow) hrest
  have hstored : ∀ row ∈ plan.rows, storedDf row.df = -1 := by
    intro row hrow
    rw [hdf row hrow, storedDf_none]
  have hconsistent : ¬Inconsistent storedDf plan.rows := by
    refine not_inconsistent_iff.mpr ⟨fun row hrow d hd => ?_, fun row hrow row' hrow' => ?_,
      fun row hrow row' hrow' => ?_⟩
    · rw [hdf row hrow] at hd
      cases hd
    · rcases hexpected with hgiven | hnull
      · obtain ⟨e, he, -⟩ := hgiven row hrow
        obtain ⟨e', he', -⟩ := hgiven row' hrow'
        rw [he, he', Option.isNone_some, Option.isNone_some]
      · rw [hnull row hrow, hnull row' hrow']
    · rw [hstored row hrow, hstored row' hrow']
  have haccepted : ¬Rejected plan := by
    rintro (hbad | ⟨⟨row, hrow, hle⟩, -⟩)
    · exact hconsistent hbad
    · rw [hstored row hrow] at hle
      exact absurd hle (by decide)
  obtain ⟨state, hrun⟩ := run_ok_of_not_rejected haccepted
  obtain ⟨hflags, hsums⟩ := summed_keeps.run (fun row hrow => (hpositive row hrow).ne') hrun
  obtain ⟨row, hrow⟩ := Multiset.exists_mem_of_ne_zero hne
  have hminus : int64OfDouble state.df = -1 := by
    rw [← hflags.df row hrow, hstored row hrow]
    decide
  have hnum : uint64 state.numRows ≠ 0 := (hflags.uint64_pos.mpr hne).ne'
  refine ⟨state, _, hrun, if_neg hnum, ?_, ?_⟩
  · dsimp only
    rw [hsums.sumSquaredDeviations, hsums.sumObs]
    exact chiSquared_eq hobs.ne' hexpect.ne' fun row hrow => (hpositive row hrow).ne'
  · dsimp only
    rw [hminus, if_pos (by decide), hflags.uint64_numRows]

end Final

/-- Three events in two segments, expected alike. -/
theorem chi2_gof_test_statistic_uniform :
    ∃ state result,
      chi2GofTest.run (.merged (.segment [⟨1, none, none⟩]) (.merged (.segment [])
        (.segment [⟨2, none, none⟩, ⟨3, none, none⟩])) : Plan (Chi2Row ℚ)) = .ok state ∧
      chi2GofTestFinal (fun _ _ => 0) id state = some result ∧
      result.statistic = 1 ∧ result.df = 2 := by
  obtain ⟨state, result, hrun, hfinal, hstatistic, hdf⟩ :=
    chi2_gof_test_statistic (fun _ _ => 0) id
      (.merged (.segment [⟨1, none, none⟩]) (.merged (.segment [])
        (.segment [⟨2, none, none⟩, ⟨3, none, none⟩])) : Plan (Chi2Row ℚ))
      (by decide) (.inr (by decide)) (by decide) (by decide +kernel)
  refine ⟨state, result, hrun, hfinal, ?_, hdf⟩
  rw [hstatistic]
  decide +kernel

end Madlib.Stats
