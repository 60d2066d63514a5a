import Madlib.Dbal
import Madlib.Lib.EmpiricalDistribution
import Madlib.Lib.OrderStatistic
import Madlib.Stats.MannWhitney

/-!
# The Kolmogorov-Smirnov test

Rows of two samples arrive in ascending order of their value, and each row says how large the
samples are.  The statistic is the largest difference between the shares of the samples after any
row.  Between rows with equal values that is no difference of the distribution functions.
-/

namespace Madlib.Stats

open Madlib.Backend Madlib.Dbal Madlib.Lib Madlib.Lib.EmpiricalDistribution Madlib.Lib.Extended

attribute [local instance] neZero_two

structure KSTestTransitionState where
  num : Fin 2 → ℚ
  last : Extended ℚ
  maxDiff : Extended ℚ
  expectedNum : Fin 2 → ℚ

/-- The arguments of the transition function. -/
structure KSRow extends MWRow where
  numFirst : Int
  numSecond : Int

def bothSizes (numFirst numSecond : ℚ) (i : Fin 2) : ℚ := if i = 0 then numFirst else numSecond

def KSRow.expectedNum (row : KSRow) : Fin 2 → ℚ := bothSizes row.numFirst row.numSecond

def ksNotConstant : Fault := thrown "Number of samples must be constant parameters."

/-- The difference of the two quotients. -/
def quotientDiff (num expectedNum : Fin 2 → ℚ) : Extended ℚ :=
  (((finite (num 0)).div (finite (expectedNum 0))).sub
    ((finite (num 1)).div (finite (expectedNum 1)))).abs

def ksTestTransition (state : KSTestTransitionState) (row : KSRow) :
    Except Fault KSTestTransitionState :=
  if state.expectedNum ≠ row.expectedNum ∧ 0 < sumOfTwo state.num then .error ksNotConstant
  else if row.value.lessThan state.last ∧ 0 < sumOfTwo state.num then .error mwNotOrdered
  else
    let num := Function.update state.num row.sample (state.num row.sample + 1)
    let diff := quotientDiff num row.expectedNum
    .ok
      { num := num
        last := row.value
        maxDiff := if state.maxDiff.lessThan diff then diff else state.maxDiff
        expectedNum := row.expectedNum }

/-- `INITCOND` -/
def ksTestInit : KSTestTransitionState := ⟨0, .finite 0, .finite 0, 0⟩

structure KSTestResult where
  statistic : Extended ℚ
  kStatistic : Extended ℚ
  pValue : Extended ℚ

/-- Sizes are shown as `uint64_t`. -/
def ksSizesDiffer (state : KSTestTransitionState) : Fault :=
  thrown ("Actual sample sizes differ from specified sizes. Actual/specified: " ++
    toString (uint64 (state.num 0)) ++ "/" ++ toString (uint64 (state.expectedNum 0)) ++ " and " ++
    toString (uint64 (state.num 1)) ++ "/" ++ toString (uint64 (state.expectedNum 1)))

section Test

variable (sqrt kolmogorovCDF : Extended ℚ → Extended ℚ)

def ksTestFinal (state : KSTestTransitionState) : Except Fault KSTestResult :=
  if state.num ≠ state.expectedNum then .error (ksSizesDiffer state)
  else
    let root := sqrt ((finite (state.num 0 * state.num 1)).div (finite (sumOfTwo state.num)))
    let kolmogorovStatistic :=
      ((root.add (finite (12 / 100))).add ((finite (11 / 100)).div root)).mul state.maxDiff
    .ok ⟨state.maxDiff, kolmogorovStatistic,
      (finite 1).sub (kolmogorovCDF kolmogorovStatistic)⟩

def ksTest (rows : List KSRow) : Except Fault KSTestResult := do
  let state ← rows.foldlM ksTestTransition ksTestInit
  ksTestFinal sqrt kolmogorovCDF state

end Test

/-- The rows with the sizes of their samples, as the usage of the aggregate says. -/
def withSizes (numFirst numSecond : Nat) (rows : List MWRow) : List KSRow :=
  rows.map fun row => { row with numFirst := numFirst, numSecond := numSecond }

/-! ## Rows seen -/

/-- The difference of the shares that the rows make up. -/
def shareDiff (numFirst numSecond : Nat) (rows : List MWRow) : ℚ :=
  |((samplesOf rows 0).card : ℚ) / numFirst - (samplesOf rows 1).card / numSecond|

def prefixDiffs (numFirst numSecond : Nat) (rows : List MWRow) : Set ℚ :=
  {d | ∃ p, p <+: rows ∧ d = shareDiff numFirst numSecond p}

/-- What a state says of the rows it has seen. -/
structure AfterRows (numFirst numSecond : Nat) (rows : List MWRow) (s : KSTestTransitionState) :
    Prop where
  num : s.num = fun i => ((samplesOf rows i).card : ℚ)
  last : ∀ row ∈ rows.getLast?, s.last = row.value
  expectedNum : rows ≠ [] → s.expectedNum = bothSizes numFirst numSecond
  maxDiff : ∃ d, s.maxDiff = .finite d ∧ IsGreatest (prefixDiffs numFirst numSecond rows) d

variable {numFirst numSecond : Nat} {rows : List MWRow} {s : KSTestTransitionState}

theorem card_samplesOf_concat (rows : List MWRow) (row : MWRow) :
    (fun i => ((samplesOf (rows ++ [row]) i).card : ℚ)) =
      Function.update (fun i => ((samplesOf rows i).card : ℚ)) row.sample
        ((samplesOf rows row.sample).card + 1) := by
  ext i
  unfold samplesOf
  by_cases hi : row.sample = i
  · subst hi
    simp
  · simp [hi, Function.update_of_ne (Ne.symm hi)]

theorem samplesOf_nil (i : Fin 2) : samplesOf [] i = 0 := rfl

theorem shareDiff_nil : shareDiff numFirst numSecond [] = 0 := by
  simp [shareDiff, samplesOf_nil]

theorem prefixDiffs_nil : prefixDiffs numFirst numSecond [] = {0} := by
  ext d
  simp [prefixDiffs, shareDiff_nil]

theorem prefixDiffs_concat (rows : List MWRow) (row : MWRow) :
    prefixDiffs numFirst numSecond (rows ++ [row]) =
      insert (shareDiff numFirst numSecond (rows ++ [row])) (prefixDiffs numFirst numSecond rows) := by
  ext d
  simp only [prefixDiffs, Set.mem_ofPred_eq, Set.mem_insert_iff, List.prefix_concat_iff]
  constructor
  · rintro ⟨p, rfl | hp, rfl⟩
    · exact .inl rfl
    · exact .inr ⟨p, hp, rfl⟩
  · rintro (rfl | ⟨p, hp, rfl⟩)
    · exact ⟨_, .inl rfl, rfl⟩
    · exact ⟨p, .inr hp, rfl⟩

theorem afterRows_init : AfterRows numFirst numSecond [] ksTestInit where
  num := by
    ext i
    simp [ksTestInit, samplesOf_nil]
  last := by simp
  expectedNum h := absurd rfl h
  maxDiff := ⟨0, rfl, by rw [prefixDiffs_nil]; exact isGreatest_singleton⟩

/-- The difference the transition function computes. -/
theorem quotientDiff_eq (hfirst : numFirst ≠ 0) (hsecond : numSecond ≠ 0) (rows : List MWRow) :
    quotientDiff (fun i => ((samplesOf rows i).card : ℚ)) (bothSizes numFirst numSecond) =
      .finite (shareDiff numFirst numSecond rows) := by
  have hfirst' : (numFirst : ℚ) ≠ 0 := Nat.cast_ne_zero.mpr hfirst
  have hsecond' : (numSecond : ℚ) ≠ 0 := Nat.cast_ne_zero.mpr hsecond
  have hne : (1 : Fin 2) ≠ 0 := by decide
  simp only [quotientDiff, bothSizes, if_neg hne, if_true, finite_div hfirst', finite_div hsecond', finite_sub]
  rfl

/-- Before a row nothing has been seen, or the sizes are known and the last value is at most
that of the row. -/
theorem AfterRows.accepts (h : AfterRows numFirst numSecond rows s) {row : MWRow}
    (hascending : Ascending (rows ++ [row])) (hpos : 0 < sumOfTwo s.num) :
    s.expectedNum = bothSizes numFirst numSecond ∧ ¬row.value.lessThan s.last := by
  have hne : rows ≠ [] := by
    rintro rfl
    rw [h.num] at hpos
    simp [sumOfTwo, samplesOf_nil] at hpos
  refine ⟨h.expectedNum hne, fun hlt => ?_⟩
  have hlast := h.last _ (List.getLast?_eq_getLast_of_ne_nil hne)
  rw [Ascending, List.map_append, List.pairwise_append] at hascending
  have hle := hascending.2.2 _ (List.mem_map_of_mem (List.getLast_mem hne)) row.value (by simp)
  rw [hlast] at hlt
  exact hle.not_gt hlt.1

theorem AfterRows.step (h : AfterRows numFirst numSecond rows s) {row : MWRow}
    (hfirst : numFirst ≠ 0) (hsecond : numSecond ≠ 0) (hascending : Ascending (rows ++ [row])) :
    ∃ t, ksTestTransition s { row with numFirst := numFirst, numSecond := numSecond } = .ok t ∧
      AfterRows numFirst numSecond (rows ++ [row]) t := by
  have hsizes : KSRow.expectedNum { row with numFirst := numFirst, numSecond := numSecond } =
      bothSizes numFirst numSecond := by
    simp [KSRow.expectedNum]
  have hnum : Function.update s.num row.sample (s.num row.sample + 1) =
      fun i => ((samplesOf (rows ++ [row]) i).card : ℚ) := by
    rw [card_samplesOf_concat, h.num]
  obtain ⟨d, hmax, hgreatest⟩ := h.maxDiff
  have hinsert := hgreatest.insert (shareDiff numFirst numSecond (rows ++ [row]))
  rw [← prefixDiffs_concat] at hinsert
  unfold ksTestTransition
  rw [hsizes, if_neg fun hbad => hbad.1 (h.accepts hascending hbad.2).1,
    if_neg fun hbad => (h.accepts hascending hbad.2).2 hbad.1]
  refine ⟨_, rfl, ⟨hnum, ?_, fun _ => rfl, ?_⟩⟩
  · simp
  · refine ⟨_, ?_, hinsert⟩
    simp only [hnum, quotientDiff_eq hfirst hsecond, hmax, lessThan_finite]
    split_ifs with hlt
    · rw [max_eq_left hlt.le]
    · rw [max_eq_right (not_lt.mp hlt)]

/-- The run over rows in ascending order. -/
theorem afterRows_run (hfirst : numFirst ≠ 0) (hsecond : numSecond ≠ 0)
    (hascending : Ascending rows) :
    ∃ s, (withSizes numFirst numSecond rows).foldlM ksTestTransition ksTestInit = .ok s ∧
      AfterRows numFirst numSecond rows s := by
  induction rows using List.reverseRecOn with
  | nil => exact ⟨ksTestInit, rfl, afterRows_init⟩
  | append_singleton rows row ih =>
      have hfront : Ascending rows := by
        rw [Ascending, List.map_append, List.pairwise_append] at hascending
        exact hascending.1
      obtain ⟨s, hrun, hs⟩ := ih hfront
      obtain ⟨t, hstep, ht⟩ := hs.step hfirst hsecond hascending
      refine ⟨t, ?_, ht⟩
      rw [withSizes, List.map_append, List.foldlM_append, ← withSizes, hrun, ok_bind]
      simp only [List.map_cons, List.map_nil, List.foldlM_cons, List.foldlM_nil, hstep, ok_bind,
        pure_eq_ok]

/-! ## The statistic -/

variable {sqrt kolmogorovCDF : Extended ℚ → Extended ℚ} {samples : Fin 2 → Multiset (Extended ℚ)}
  {t : Extended ℚ}

/-- The result of the aggregate over rows in ascending order. -/
theorem ksTest_ok (sqrt kolmogorovCDF : Extended ℚ → Extended ℚ)
    (hne : ∀ i, samplesOf rows i ≠ 0) (hascending : Ascending rows) :
    ∃ result d, ksTest sqrt kolmogorovCDF
        (withSizes (samplesOf rows 0).card (samplesOf rows 1).card rows) = .ok result ∧
      result.statistic = .finite d ∧
      IsGreatest (prefixDiffs (samplesOf rows 0).card (samplesOf rows 1).card rows) d := by
  have hcard : ∀ i, (samplesOf rows i).card ≠ 0 := fun i h => hne i (Multiset.card_eq_zero.mp h)
  obtain ⟨s, hrun, hs⟩ := afterRows_run (hcard 0) (hcard 1) hascending
  obtain ⟨d, hmax, hgreatest⟩ := hs.maxDiff
  have hrows : rows ≠ [] := by
    rintro rfl
    exact hne 0 rfl
  have hsizes : s.num = s.expectedNum := by
    rw [hs.num, hs.expectedNum hrows]
    ext i
    fin_cases i <;> rfl
  rw [ksTest, hrun, ok_bind, ksTestFinal, if_neg (not_not.mpr hsizes)]
  exact ⟨_, d, rfl, hmax, hgreatest⟩

/-- A statistic that is found is the greatest difference. -/
theorem greatest_of_statistic (hne : ∀ i, samplesOf rows i ≠ 0) (hascending : Ascending rows)
    {result : KSTestResult} {d : ℚ}
    (hrun : ksTest sqrt kolmogorovCDF
      (withSizes (samplesOf rows 0).card (samplesOf rows 1).card rows) = .ok result)
    (hstatistic : result.statistic = .finite d) :
    IsGreatest (prefixDiffs (samplesOf rows 0).card (samplesOf rows 1).card rows) d := by
  obtain ⟨result', d', hrun', hstatistic', hgreatest⟩ :=
    ksTest_ok sqrt kolmogorovCDF hne hascending
  cases Except.ok.inj (hrun.symm.trans hrun')
  cases Extended.finite.inj (hstatistic.symm.trans hstatistic')
  exact hgreatest

theorem samplesOf_append (rows rows' : List MWRow) (i : Fin 2) :
    samplesOf (rows ++ rows') i = samplesOf rows i + samplesOf rows' i := by
  simp [samplesOf]

theorem mem_samplesOf {v : Extended ℚ} {i : Fin 2} (h : v ∈ samplesOf rows i) :
    v ∈ rows.map (·.value) := by
  simp only [samplesOf, Multiset.mem_coe, List.mem_map, List.mem_filter] at h ⊢
  obtain ⟨row, ⟨hrow, -⟩, hv⟩ := h
  exact ⟨row, hrow, hv⟩

/-- The rows up to any of them have passed to its value. -/
theorem passedTo_getLast {p : List MWRow} (hascending : Ascending rows) (hp : p <+: rows)
    (hne : p ≠ []) (i : Fin 2) :
    PassedTo (samplesOf rows i) (p.getLast hne).value (samplesOf p i) := by
  obtain ⟨q, rfl⟩ := hp
  rw [Ascending, List.map_append, List.pairwise_append] at hascending
  obtain ⟨hfront, -, hafter⟩ := hascending
  have hlast : (p.getLast hne).value ∈ p.map (·.value) := List.mem_map_of_mem (List.getLast_mem hne)
  have hle : ∀ v ∈ samplesOf p i, v ≤ (p.getLast hne).value := by
    intro v hv
    have hmem := mem_samplesOf hv
    have hsplit := List.dropLast_append_getLast hne
    rw [← hsplit, List.map_append, List.pairwise_append] at hfront
    rw [← hsplit, List.map_append, List.mem_append] at hmem
    rcases hmem with hmem | hmem
    · exact hfront.2.2 _ hmem _ (by simp)
    · rw [List.map_singleton, List.mem_singleton] at hmem
      exact hmem.le
  have hge : ∀ v ∈ samplesOf q i, ¬v < (p.getLast hne).value := by
    intro v hv
    exact (hafter _ hlast _ (mem_samplesOf hv)).not_gt
  constructor
  · rw [samplesOf_append, Multiset.filter_add, Multiset.filter_eq_nil.mpr hge, add_zero]
    exact Multiset.filter_le _ _
  · rw [samplesOf_append, Multiset.filter_add, Multiset.filter_eq_self.mpr hle]
    exact Multiset.le_add_right _ _

theorem card_samplesOf_filter {P : MWRow → Prop} [DecidablePred P] {Q : Extended ℚ → Prop}
    [DecidablePred Q] {i : Fin 2} (h : ∀ row, row.sample = i → (P row ↔ Q row.value)) :
    (samplesOf (rows.filter P) i).card = (samplesOf rows i).countP Q := by
  unfold samplesOf
  rw [Multiset.coe_card, List.length_map, Multiset.coe_countP, List.countP_map, List.filter_comm,
    ← List.countP_eq_length_filter]
  apply List.countP_congr
  intro row hrow
  have hi := of_decide_eq_true (List.mem_filter.mp hrow).2
  simpa using h row hi

/-- Every gap is a difference the walk passes. -/
theorem gap_mem_prefixDiffs (hascending : Ascending rows) (t : Extended ℚ) :
    gap (samplesOf rows 0) (samplesOf rows 1) t ∈
      prefixDiffs (samplesOf rows 0).card (samplesOf rows 1).card rows := by
  refine ⟨rows.filter fun row => row.value ≤ t, ?_, ?_⟩
  · exact filter_prefix_of_sorted (List.pairwise_map.mp hascending) t
  · unfold gap shareAtMost shareDiff
    rw [card_samplesOf_filter (Q := (· ≤ t)) fun _ _ => Iff.rfl,
      card_samplesOf_filter (Q := (· ≤ t)) fun _ _ => Iff.rfl]

theorem finite_prefixDiffs (numFirst numSecond : Nat) (rows : List MWRow) :
    (prefixDiffs numFirst numSecond rows).Finite := by
  refine (List.finite_toSet (rows.inits.map (shareDiff numFirst numSecond))).subset ?_
  rintro _ ⟨p, hp, rfl⟩
  exact List.mem_map_of_mem ((List.mem_inits _ _).mpr hp)

/-- If jumps stay within the gaps, the walk finds the distance. -/
theorem isDistance_of_jumpsWithin {d : ℚ} (hascending : Ascending rows)
    (h : JumpsWithin (samplesOf rows 0) (samplesOf rows 1))
    (hd : IsGreatest (prefixDiffs (samplesOf rows 0).card (samplesOf rows 1).card rows) d) :
    IsDistance (samplesOf rows 0) (samplesOf rows 1) d := by
  -- there are only finitely many gaps
  have hsub : Set.range (gap (samplesOf rows 0) (samplesOf rows 1)) ⊆
      prefixDiffs (samplesOf rows 0).card (samplesOf rows 1).card rows := by
    rintro _ ⟨t, rfl⟩
    exact gap_mem_prefixDiffs hascending t
  obtain ⟨D, hmem, hD⟩ := Set.exists_max_image _ id ((finite_prefixDiffs _ _ rows).subset hsub)
    ⟨_, Set.mem_range_self nan⟩
  have hgap : ∀ t, gap (samplesOf rows 0) (samplesOf rows 1) t ≤ D :=
    fun t => hD _ (Set.mem_range_self t)
  have hDd : D ≤ d := hd.2 (hsub hmem)
  have hdD : d ≤ D := by
    obtain ⟨p, hp, rfl⟩ := hd.1
    rcases eq_or_ne p [] with rfl | hne
    · rw [shareDiff_nil]
      exact (abs_nonneg _).trans (hgap nan)
    · exact h.passed_le hgap (passedTo_getLast hascending hp hne 0)
        (passedTo_getLast hascending hp hne 1)
  rw [le_antisymm hdD hDd]
  exact ⟨hmem, hD⟩

/-! ## Ties that arrive sample by sample -/

/-- Rows of one sample are in front of those of the other one with the same value. -/
def tieKey (first : Fin 2) (row : MWRow) : Extended ℚ ×ₗ Nat :=
  toLex (row.value, if row.sample = first then 0 else 1)

theorem exists_rows (samples : Fin 2 → Multiset (Extended ℚ)) (first : Fin 2) :
    ∃ rows, samplesOf rows = samples ∧ Ascending rows ∧
      OrderStatistic.SortedBy (tieKey first) rows := by
  obtain ⟨rows, hperm, hsorted⟩ := OrderStatistic.exists_sorted (tieKey first)
    ((samples 0).toList.map (fun v => ⟨true, v⟩) ++ (samples 1).toList.map fun v => ⟨false, v⟩)
  refine ⟨rows, ?_, ?_, hsorted⟩
  · rw [samplesOf_perm hperm]
    ext1 i
    fin_cases i
    · simp [samplesOf, MWRow.sample, List.filter_map, Function.comp_def]
    · simp [samplesOf, MWRow.sample, List.filter_map, Function.comp_def]
  · refine List.pairwise_map.mpr (hsorted.imp fun hle => ?_)
    exact Prod.Lex.monotone_fst _ _ hle

theorem tieKey_le_first {first : Fin 2} {row : MWRow} (h : row.sample = first) :
    tieKey first row ≤ toLex (t, 0) ↔ row.value ≤ t := by
  rw [tieKey, if_pos h, Prod.Lex.toLex_le_toLex]
  simp [le_iff_lt_or_eq]

theorem tieKey_le_other {first : Fin 2} {row : MWRow} (h : row.sample ≠ first) :
    tieKey first row ≤ toLex (t, 0) ↔ row.value < t := by
  simp [tieKey, Prod.Lex.toLex_le_toLex, h]

/-- What the rows up to the ties of the first sample hold of each. -/
theorem card_firstTies (first : Fin 2) (t : Extended ℚ) (i : Fin 2) :
    (samplesOf (rows.filter fun row => tieKey first row ≤ toLex (t, 0)) i).card =
      if i = first then (samplesOf rows i).countP (· ≤ t) else (samplesOf rows i).countP (· < t) := by
  split_ifs with hi
  · exact card_samplesOf_filter fun row hrow => tieKey_le_first (hrow.trans hi)
  · exact card_samplesOf_filter fun row hrow => tieKey_le_other fun h => hi (hrow.symm.trans h)

/-- For each order of the samples within ties some prefix ends behind the first one's ties. -/
theorem exists_tieDiff (samples : Fin 2 → Multiset (Extended ℚ)) (first : Fin 2)
    (t : Extended ℚ) :
    ∃ rows, samplesOf rows = samples ∧ Ascending rows ∧
      ∃ p, p <+: rows ∧ ∀ i, (samplesOf p i).card =
        if i = first then (samples i).countP (· ≤ t) else (samples i).countP (· < t) := by
  obtain ⟨rows, hsamples, hascending, hsorted⟩ := exists_rows samples first
  subst hsamples
  exact ⟨rows, rfl, hascending, _, filter_prefix_of_sorted hsorted (toLex (t, 0)),
    card_firstTies first t⟩

/-! ## The test -/

section Distance

variable (sqrt kolmogorovCDF)

/-- The statistic is the distance of the distribution functions, in whatever order ties arrive. -/
def MeasuresDistance (samples : Fin 2 → Multiset (Extended ℚ)) : Prop :=
  ∀ rows, samplesOf rows = samples → Ascending rows →
    ∃ result d, ksTest sqrt kolmogorovCDF
        (withSizes (samples 0).card (samples 1).card rows) = .ok result ∧
      result.statistic = .finite d ∧ IsDistance (samples 0) (samples 1) d

variable {sqrt kolmogorovCDF}

/-- The difference behind the ties of one sample is a gap or less. -/
theorem MeasuresDistance.tieDiff_le (h : MeasuresDistance sqrt kolmogorovCDF samples)
    (hne : ∀ i, samples i ≠ 0) (first : Fin 2) (t : Extended ℚ) :
    ∃ u p, shareDiff (samples 0).card (samples 1).card p ≤ gap (samples 0) (samples 1) u ∧
      ∀ i, (samplesOf p i).card =
        if i = first then (samples i).countP (· ≤ t) else (samples i).countP (· < t) := by
  obtain ⟨rows, rfl, hascending, p, hp, hcount⟩ := exists_tieDiff samples first t
  obtain ⟨result, d, hrun, hstatistic, ⟨u, hu⟩, -⟩ := h rows rfl hascending
  refine ⟨u, p, ?_, hcount⟩
  rw [hu]
  exact (greatest_of_statistic hne hascending hrun hstatistic).2 ⟨p, hp, rfl⟩

variable (sqrt kolmogorovCDF)

theorem measuresDistance_iff_jumpsWithin (samples : Fin 2 → Multiset (Extended ℚ))
    (hne : ∀ i, samples i ≠ 0) :
    MeasuresDistance sqrt kolmogorovCDF samples ↔ JumpsWithin (samples 0) (samples 1) := by
  have hne10 : (1 : Fin 2) ≠ 0 := by decide
  constructor
  · intro h t
    constructor
    · obtain ⟨u, p, hle, hcount⟩ := h.tieDiff_le hne 0 t
      rw [shareDiff, hcount, hcount, if_pos rfl, if_neg hne10] at hle
      exact ⟨u, (le_abs_self _).trans hle⟩
    · obtain ⟨u, p, hle, hcount⟩ := h.tieDiff_le hne 1 t
      rw [shareDiff, hcount, hcount, if_pos rfl, if_neg hne10.symm, abs_sub_comm] at hle
      exact ⟨u, (le_abs_self _).trans hle⟩
  · intro h rows hsamples hascending
    subst hsamples
    obtain ⟨result, d, hrun, hstatistic, hgreatest⟩ := ksTest_ok sqrt kolmogorovCDF hne hascending
    exact ⟨result, d, hrun, hstatistic, isDistance_of_jumpsWithin hascending h hgreatest⟩

end Distance

/-- Two samples without a common value. -/
theorem measuresDistance_alternating :
    MeasuresDistance id id
      (fun i => if i = 0 then {finite 1, finite 3} else {finite 2, finite 4}) := by
  refine (measuresDistance_iff_jumpsWithin id id _ ?_).mpr (jumpsWithin_of_disjoint ?_)
  · intro i
    split_ifs
    · exact Multiset.cons_ne_zero
    · exact Multiset.cons_ne_zero
  · have hne : (1 : Fin 2) ≠ 0 := by decide
    simp [hne]

/-- One row of each sample, with one value: the functions are the same, the statistic is 1. -/
theorem ksTest_tie_apart :
    ¬∀ (sqrt kolmogorovCDF : Extended ℚ → Extended ℚ) (rows : List MWRow),
      (∀ i, samplesOf rows i ≠ 0) → Ascending rows →
        ∃ result d, ksTest sqrt kolmogorovCDF
            (withSizes (samplesOf rows 0).card (samplesOf rows 1).card rows) = .ok result ∧
          result.statistic = .finite d ∧ IsDistance (samplesOf rows 0) (samplesOf rows 1) d := by
  intro h
  have hne : ∀ i, samplesOf [⟨true, finite 0⟩, ⟨false, finite 0⟩] i ≠ 0 := by
    intro i
    fin_cases i
    · exact Multiset.singleton_ne_zero (finite 0)
    · exact Multiset.singleton_ne_zero (finite 0)
  have hascending : Ascending [⟨true, finite 0⟩, ⟨false, finite 0⟩] := by simp [Ascending]
  obtain ⟨result, d, hrun, hstatistic, ⟨u, hu⟩, -⟩ := h id id _ hne hascending
  have hfirst : (1 : ℚ) ≤ d := by
    apply (greatest_of_statistic hne hascending hrun hstatistic).2
    refine ⟨[⟨true, finite 0⟩], List.prefix_append _ [MWRow.mk false (finite 0)], ?_⟩
    simp [shareDiff, samplesOf, MWRow.sample]
  have hgap : gap (samplesOf [⟨true, finite 0⟩, ⟨false, finite 0⟩] 0)
      (samplesOf [⟨true, finite 0⟩, ⟨false, finite 0⟩] 1) u = 0 := by
    have hsame : samplesOf [⟨true, finite 0⟩, ⟨false, finite 0⟩] 0 =
        samplesOf [⟨true, finite 0⟩, ⟨false, finite 0⟩] 1 := rfl
    rw [hsame, gap, sub_self, abs_zero]
  linarith

end Madlib.Stats
