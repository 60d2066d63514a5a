import Madlib.Stats.ChiSquared

/-!
# Merging the states of the chi-squared test

The sum of squared deviations is kept without the expected numbers: it is the product of two sums
less the square of a third.  The flags of a state are those of its rows, and a state without rows
takes those of the other one.
-/

namespace Madlib.Stats

open Madlib.Backend Madlib.Dbal Madlib.Lib.Segments

/-! ## Integers in doubles -/

theorem doubleOfNat_of_dvd {n : Nat} (h : 2 ^ (n.size - 53) ∣ n) : doubleOfNat n = n := by
  have hpos : 0 < 2 ^ (n.size - 53) := Nat.two_pow_pos _
  unfold doubleOfNat
  dsimp only
  rw [Nat.mod_eq_zero_of_dvd h, if_pos (.inl (by omega))]
  exact Nat.div_mul_cancel h

/-- A number with at most 53 bits, up to a power of two, is a `double`. -/
theorem doubleOfNat_mul_pow {q e : Nat} (hq : q ≤ 2 ^ 53) : doubleOfNat (q * 2 ^ e) = q * 2 ^ e := by
  apply doubleOfNat_of_dvd
  rcases Nat.lt_or_ge q (2 ^ 53) with hlt | hge
  · have hsize : (q * 2 ^ e).size ≤ 53 + e := by
      rw [Nat.size_le, pow_add]
      exact Nat.mul_lt_mul_of_pos_right hlt (Nat.two_pow_pos e)
    exact (Nat.pow_dvd_pow 2 (by omega)).mul_left q
  · have heq : q * 2 ^ e = 2 ^ (53 + e) := by
      rw [le_antisymm hq hge, pow_add]
    rw [heq, Nat.size_pow]
    exact Nat.pow_dvd_pow 2 (by omega)

theorem doubleOfNat_doubleOfNat (n : Nat) : doubleOfNat (doubleOfNat n) = doubleOfNat n := by
  have hq : n / 2 ^ (n.size - 53) < 2 ^ 53 := by
    rw [Nat.div_lt_iff_lt_mul (Nat.two_pow_pos _), ← pow_add]
    exact Nat.size_le.mp (by omega)
  nth_rewrite 2 [doubleOfNat]
  nth_rewrite 2 [doubleOfNat]
  apply doubleOfNat_mul_pow
  split
  · exact hq.le
  · exact hq

theorem doubleOfInt64_doubleOfInt64 {x : Int} (h : 0 ≤ x) :
    doubleOfInt64 (doubleOfInt64 x) = doubleOfInt64 x := by
  unfold doubleOfInt64
  rw [if_neg (c := x < 0) (by omega), if_neg (by omega), Int.natAbs_natCast,
    doubleOfNat_doubleOfNat]

/-- What a state keeps of the degree of freedom of a row. -/
def storedDf (df : Option Int) : Int := doubleOfInt64 (df.getD (-1))

theorem storedDf_nonneg {df : Int} (h : 0 < df) : 0 ≤ storedDf (some df) := by
  unfold storedDf doubleOfInt64
  rw [Option.getD_some, if_neg (by omega)]
  exact Int.natCast_nonneg _

theorem storedDf_none : storedDf none = -1 := by decide

/-- A stored degree of freedom is read back, unless it is beyond the range of `int64_t`. -/
theorem readBack_iff {df : Option Int} (h : ∀ d, df = some d → 0 < d) :
    doubleOfInt64 (int64OfDouble (storedDf df)) = storedDf df ↔
      storedDf df < 9223372036854775808 := by
  unfold int64OfDouble
  cases df with
  | none =>
      rw [storedDf_none]
      decide
  | some d =>
      have hnonneg := storedDf_nonneg (h d rfl)
      by_cases hlt : storedDf (some d) < 9223372036854775808
      · rw [if_pos ⟨by omega, hlt⟩]
        exact iff_of_true (doubleOfInt64_doubleOfInt64 (h d rfl).le) hlt
      · have hlow : doubleOfInt64 (-9223372036854775808) = -9223372036854775808 := by decide
        rw [if_neg fun hmem => hlt hmem.2, hlow]
        constructor
        · intro heq
          omega
        · intro hmem
          exact absurd hmem hlt

/-! ## Rows that fit together -/

section Rows

variable {α : Type}

/-- A degree of freedom is not positive, or rows differ in whether the expected number is given or
in what `f` makes of the degree of freedom. -/
def Inconsistent {β : Type} (f : Option Int → β) (rows : Multiset (Chi2Row α)) : Prop :=
  (∃ row ∈ rows, ∃ df, row.df = some df ∧ df ≤ 0) ∨
    (∃ row ∈ rows, ∃ row' ∈ rows, row.expected.isNone ≠ row'.expected.isNone) ∨
    ∃ row ∈ rows, ∃ row' ∈ rows, f row.df ≠ f row'.df

/-- A degree of freedom is stored as a number beyond the range of `int64_t`. -/
def Overflowing (rows : Multiset (Chi2Row α)) : Prop :=
  ∃ row ∈ rows, 9223372036854775808 ≤ storedDf row.df

/-- The number of segments with rows. -/
def segmentsWithRows (plan : Plan (Chi2Row α)) : Nat :=
  (plan.segments.filter fun segment => !segment.isEmpty).length

variable {β : Type} {f : Option Int → β} {rows rows' : Multiset (Chi2Row α)}

theorem not_inconsistent_iff : ¬Inconsistent f rows ↔
    (∀ row ∈ rows, ∀ df, row.df = some df → 0 < df) ∧
      (∀ row ∈ rows, ∀ row' ∈ rows, row.expected.isNone = row'.expected.isNone) ∧
      ∀ row ∈ rows, ∀ row' ∈ rows, f row.df = f row'.df := by
  unfold Inconsistent
  simp only [not_or, not_exists, not_and, not_le, not_not]

theorem Inconsistent.mono (h : Inconsistent f rows) (hsub : ∀ row ∈ rows, row ∈ rows') :
    Inconsistent f rows' := by
  rcases h with ⟨row, hrow, hdf⟩ | ⟨row, hrow, row', hrow', hne⟩ | ⟨row, hrow, row', hrow', hne⟩
  · exact .inl ⟨row, hsub row hrow, hdf⟩
  · exact .inr (.inl ⟨row, hsub row hrow, row', hsub row' hrow', hne⟩)
  · exact .inr (.inr ⟨row, hsub row hrow, row', hsub row' hrow', hne⟩)

theorem segmentsWithRows_merged (left right : Plan (Chi2Row α)) :
    segmentsWithRows (.merged left right) = segmentsWithRows left + segmentsWithRows right := by
  unfold segmentsWithRows
  rw [Plan.segments, List.filter_append, List.length_append]

theorem segmentsWithRows_eq_zero {plan : Plan (Chi2Row α)} :
    segmentsWithRows plan = 0 ↔ plan.rows = 0 := by
  induction plan with
  | segment rows =>
      cases rows with
      | nil => exact iff_of_true rfl rfl
      | cons row rows => simp [segmentsWithRows, Plan.segments, Plan.rows]
  | merged left right ihl ihr =>
      rw [segmentsWithRows_merged, Nat.add_eq_zero_iff, ihl, ihr, Plan.rows, add_eq_zero]

/-- What keeps a plan from returning. -/
def Rejected (plan : Plan (Chi2Row α)) : Prop :=
  Inconsistent storedDf plan.rows ∨ Overflowing plan.rows ∧ 2 ≤ segmentsWithRows plan

theorem Rejected.merged_left {left : Plan (Chi2Row α)} (h : Rejected left)
    (right : Plan (Chi2Row α)) : Rejected (.merged left right) := by
  rcases h with hbad | ⟨⟨row, hrow, hle⟩, htwo⟩
  · exact .inl (hbad.mono fun row hrow => Plan.mem_merged.mpr (.inl hrow))
  · refine .inr ⟨⟨row, Plan.mem_merged.mpr (.inl hrow), hle⟩, ?_⟩
    rw [segmentsWithRows_merged]
    omega

theorem Rejected.merged_right (left : Plan (Chi2Row α)) {right : Plan (Chi2Row α)}
    (h : Rejected right) : Rejected (.merged left right) := by
  rcases h with hbad | ⟨⟨row, hrow, hle⟩, htwo⟩
  · exact .inl (hbad.mono fun row hrow => Plan.mem_merged.mpr (.inr hrow))
  · refine .inr ⟨⟨row, Plan.mem_merged.mpr (.inr hrow), hle⟩, ?_⟩
    rw [segmentsWithRows_merged]
    omega

end Rows

/-! ## What a state says of its rows -/

section States

variable {α : Type} [Field α]

/-- The flags of a state are those of the rows it has seen. -/
structure Flagged (rows : Multiset (Chi2Row α)) (s : Chi2TestTransitionState α) : Prop where
  numRows : s.numRows = rows.card
  positive : ∀ row ∈ rows, ∀ df, row.df = some df → 0 < df
  uniformDist : ∀ row ∈ rows, row.expected.isNone = s.uniformDist
  df : ∀ row ∈ rows, storedDf row.df = s.df
  empty : rows = 0 → s.df = 0

theorem Flagged.consistent {rows : Multiset (Chi2Row α)} {s : Chi2TestTransitionState α}
    (h : Flagged rows s) : ¬Inconsistent storedDf rows := by
  rw [not_inconsistent_iff]
  refine ⟨h.positive, fun row hrow row' hrow' => ?_, fun row hrow row' hrow' => ?_⟩
  · rw [h.uniformDist row hrow, h.uniformDist row' hrow']
  · rw [h.df row hrow, h.df row' hrow']

/-- The degree of freedom of a state is read back unless it overflows. -/
theorem Flagged.readBack {rows : Multiset (Chi2Row α)} {s : Chi2TestTransitionState α}
    (h : Flagged rows s) :
    doubleOfInt64 (int64OfDouble s.df) = s.df ↔ ¬Overflowing rows := by
  by_cases hzero : rows = 0
  · rw [h.empty hzero, hzero]
    exact iff_of_true (by decide) fun ⟨row, hrow, _⟩ => absurd hrow (Multiset.notMem_zero row)
  · obtain ⟨row, hrow⟩ := Multiset.exists_mem_of_ne_zero hzero
    rw [← h.df row hrow, readBack_iff (h.positive row hrow), ← not_le, not_iff_not]
    constructor
    · intro hle
      exact ⟨row, hrow, hle⟩
    · rintro ⟨row', hrow', hle⟩
      rwa [h.df row hrow, ← h.df row' hrow']

variable {rows : Multiset (Chi2Row α)} {s : Chi2TestTransitionState α}

theorem Flagged.numRows_eq_zero [CharZero α] (h : Flagged rows s) : s.numRows = 0 ↔ rows = 0 := by
  rw [h.numRows, Nat.cast_eq_zero, Multiset.card_eq_zero]

/-- Beyond the range of `int64_t` the smallest one is read. -/
theorem Flagged.readBack_overflowing (h : Flagged rows s) (hover : Overflowing rows) :
    doubleOfInt64 (int64OfDouble s.df) = -9223372036854775808 := by
  obtain ⟨row, hrow, hle⟩ := hover
  rw [h.df row hrow] at hle
  have hlow : int64OfDouble s.df = -9223372036854775808 := if_neg fun hmem => by omega
  rw [hlow]
  decide

/-- The degree of freedom of the initial state is only read back from that of another one. -/
theorem Flagged.df_eq_zero (h : Flagged rows s)
    (hzero : doubleOfInt64 (int64OfDouble s.df) = 0) : s.df = 0 := by
  by_cases hover : Overflowing rows
  · rw [h.readBack_overflowing hover] at hzero
    exact absurd hzero (by decide)
  · rwa [h.readBack.mpr hover] at hzero

theorem Flagged.df_ge (h : Flagged rows s) : -1 ≤ s.df := by
  by_cases hzero : rows = 0
  · rw [h.empty hzero]
    decide
  · obtain ⟨row, hrow⟩ := Multiset.exists_mem_of_ne_zero hzero
    rw [← h.df row hrow]
    cases hdf : row.df with
    | none => rw [storedDf_none]
    | some d =>
        have hnonneg := storedDf_nonneg (h.positive row hrow d hdf)
        omega

/-- A state without rows may be given any flag. -/
theorem Flagged.with_uniformDist (h : Flagged rows s) {u : Bool}
    (hu : rows ≠ 0 → s.uniformDist = u) : Flagged rows { s with uniformDist := u } := by
  constructor
  · exact h.numRows
  · exact h.positive
  · intro row hrow
    rw [h.uniformDist row hrow]
    exact hu (Multiset.card_pos.mp (Multiset.card_pos_iff_exists_mem.mpr ⟨row, hrow⟩))
  · exact h.df
  · exact h.empty

/-- What two states with rows must agree on. -/
def Agree (rows rows' : Multiset (Chi2Row α)) (s s' : Chi2TestTransitionState α) : Prop :=
  rows ≠ 0 → rows' ≠ 0 → s.uniformDist = s'.uniformDist ∧ s.df = s'.df ∧ ¬Overflowing rows'

/-- States of rows that are not rejected agree. -/
theorem agree_of_not_rejected {left right : Plan (Chi2Row α)}
    {s' : Chi2TestTransitionState α} (h : ¬Rejected (.merged left right))
    (hl : Flagged left.rows s) (hr : Flagged right.rows s') : Agree left.rows right.rows s s' := by
  intro hne hne'
  obtain ⟨row, hrow⟩ := Multiset.exists_mem_of_ne_zero hne
  obtain ⟨row', hrow'⟩ := Multiset.exists_mem_of_ne_zero hne'
  have hmem : row ∈ (Plan.merged left right).rows := Plan.mem_merged.mpr (.inl hrow)
  have hmem' : row' ∈ (Plan.merged left right).rows := Plan.mem_merged.mpr (.inr hrow')
  obtain ⟨-, hexpected, hdf⟩ := not_inconsistent_iff.mp fun hbad => h (.inl hbad)
  refine ⟨?_, ?_, fun hover => h (.inr ⟨?_, ?_⟩)⟩
  · rw [← hl.uniformDist row hrow, ← hr.uniformDist row' hrow']
    exact hexpected row hmem row' hmem'
  · rw [← hl.df row hrow, ← hr.df row' hrow']
    exact hdf row hmem row' hmem'
  · obtain ⟨r, hr', hle⟩ := hover
    exact ⟨r, Plan.mem_merged.mpr (.inr hr'), hle⟩
  · have hpos := mt segmentsWithRows_eq_zero.mp hne
    have hpos' := mt segmentsWithRows_eq_zero.mp hne'
    rw [segmentsWithRows_merged]
    omega

variable [LinearOrder α] {rows rows' : Multiset (Chi2Row α)} {s s' : Chi2TestTransitionState α}

theorem updateSumSquaredDeviations_flags (s r : Chi2TestTransitionState α) :
    (updateSumSquaredDeviations s r).uniformDist = s.uniformDist ∧
      (updateSumSquaredDeviations s r).df = s.df := by
  unfold updateSumSquaredDeviations
  split
  · exact ⟨rfl, rfl⟩
  · exact ⟨rfl, rfl⟩

/-- The flags of the left state, or of the right one when the left one has no rows. -/
def mergedFlags (s s' : Chi2TestTransitionState α) : Chi2TestTransitionState α :=
  { s with
    uniformDist := if s.numRows = 0 then s'.uniformDist else s.uniformDist
    df := if s.numRows = 0 then s'.df else s.df }

theorem Flagged.of_mergeUniformDist [CharZero α] (hl : Flagged rows s) (s' : Chi2TestTransitionState α) :
    Flagged rows
      { s with uniformDist := if s.numRows = 0 then s'.uniformDist else s.uniformDist } := by
  apply hl.with_uniformDist
  intro hne
  rw [if_neg fun h0 => hne (hl.numRows_eq_zero.mp h0)]

theorem checkUniformDist_ok {isNull : Bool} (h : 0 < s.numRows → s.uniformDist = isNull) :
    checkUniformDist s isNull = .ok { s with uniformDist := isNull } := by
  unfold checkUniformDist
  by_cases heq : s.uniformDist = isNull
  · rw [if_neg (not_not.mpr heq), ← heq]
  · rw [if_pos heq, if_neg fun hpos => heq (h hpos)]

theorem checkUniformDist_eq_ok {isNull : Bool} (h : checkUniformDist s isNull = .ok s') :
    s' = { s with uniformDist := isNull } ∧ (0 < s.numRows → s.uniformDist = isNull) := by
  by_cases hagree : 0 < s.numRows → s.uniformDist = isNull
  · rw [checkUniformDist_ok hagree] at h
    exact ⟨(Except.ok.inj h).symm, hagree⟩
  · obtain ⟨hpos, hne⟩ := Classical.not_imp.mp hagree
    unfold checkUniformDist at h
    rw [if_pos hne, if_pos hpos] at h
    cases h

theorem checkDf_ok {df : Option Int} (hpositive : ∀ d, df = some d → 0 < d)
    (h : 0 < s.numRows → s.df = storedDf df) :
    checkDf s df = .ok { s with df := storedDf df } := by
  have hchecked : ¬(df.isSome ∧ df.getD (-1) ≤ 0) := by
    rintro ⟨hsome, hle⟩
    obtain ⟨d, hd⟩ := Option.isSome_iff_exists.mp hsome
    have hd' := hpositive d hd
    rw [hd, Option.getD_some] at hle
    omega
  unfold checkDf
  dsimp only
  rw [if_neg hchecked, ← storedDf]
  by_cases heq : s.df = storedDf df
  · rw [if_neg (not_not.mpr heq), ← heq]
  · rw [if_pos heq, if_neg fun hpos => heq (h hpos)]

theorem checkDf_eq_ok {df : Option Int} (h : checkDf s df = .ok s') :
    s' = { s with df := storedDf df } ∧ (∀ d, df = some d → 0 < d) ∧
      (0 < s.numRows → s.df = storedDf df) := by
  have hpositive : ∀ d, df = some d → 0 < d := by
    rintro d rfl
    by_contra hle
    unfold checkDf at h
    rw [if_pos ⟨rfl, not_lt.mp hle⟩] at h
    cases h
  by_cases hagree : 0 < s.numRows → s.df = storedDf df
  · rw [checkDf_ok hpositive hagree] at h
    exact ⟨(Except.ok.inj h).symm, hpositive, hagree⟩
  · obtain ⟨hpos, hne⟩ := Classical.not_imp.mp hagree
    unfold checkDf at h
    dsimp only at h
    rw [← storedDf, if_pos hne, if_pos hpos] at h
    split at h
    · cases h
    · cases h

theorem flagged_init [FloorRing α] : Flagged 0 (chi2GofTest (α := α)).init := by
  constructor
  · exact Nat.cast_zero.symm
  · intro row hrow
    exact absurd hrow (Multiset.notMem_zero row)
  · intro row hrow
    exact absurd hrow (Multiset.notMem_zero row)
  · intro row hrow
    exact absurd hrow (Multiset.notMem_zero row)
  · intro _
    rfl

variable [IsStrictOrderedRing α]

theorem Flagged.numRows_pos (h : Flagged rows s) : 0 < s.numRows ↔ rows ≠ 0 := by
  rw [h.numRows, Nat.cast_pos, Multiset.card_pos]

/-- A row is accepted when it fits to the rows that have been seen. -/
theorem Flagged.transition (h : Flagged rows s) {row : Chi2Row α}
    (hrow : ¬Inconsistent storedDf (row ::ₘ rows)) :
    ∃ s', chi2GofTestTransition s row = .ok s' := by
  obtain ⟨hpositive, hexpected, hdf⟩ := not_inconsistent_iff.mp hrow
  have hself : row ∈ row ::ₘ rows := Multiset.mem_cons_self row rows
  have hflags : 0 < s.numRows → s.uniformDist = row.expected.isNone ∧ s.df = storedDf row.df := by
    intro hpos
    obtain ⟨seen, hseen⟩ := Multiset.exists_mem_of_ne_zero (h.numRows_pos.mp hpos)
    have hmem : seen ∈ row ::ₘ rows := Multiset.mem_cons_of_mem hseen
    constructor
    · rw [← h.uniformDist seen hseen]
      exact hexpected seen hmem row hself
    · rw [← h.df seen hseen]
      exact hdf seen hmem row hself
  unfold chi2GofTestTransition
  rw [checkUniformDist_ok fun hpos => (hflags hpos).1, ok_bind,
    checkDf_ok (s := { s with uniformDist := row.expected.isNone }) (hpositive row hself)
      fun hpos => (hflags hpos).2, ok_bind]
  exact ⟨_, rfl⟩

theorem updateSumSquaredDeviations_numRows (r : Chi2TestTransitionState α) {n : Nat}
    (hr : r.numRows = n) : (updateSumSquaredDeviations s r).numRows = s.numRows + n := by
  unfold updateSumSquaredDeviations
  split
  case isTrue hle =>
    rw [hr, Nat.cast_nonpos] at hle
    rw [hle, Nat.cast_zero, add_zero]
  case isFalse => exact congrArg (s.numRows + ·) hr

theorem Flagged.of_transition (h : Flagged rows s) {row : Chi2Row α}
    (hstep : chi2GofTestTransition s row = .ok s') : Flagged (row ::ₘ rows) s' := by
  unfold chi2GofTestTransition at hstep
  obtain ⟨s₁, h₁, hrest⟩ := bind_eq_ok.mp hstep
  obtain ⟨s₂, h₂, hlast⟩ := bind_eq_ok.mp hrest
  obtain ⟨rfl, huniform⟩ := checkUniformDist_eq_ok h₁
  obtain ⟨rfl, hpositive, hdf⟩ := checkDf_eq_ok h₂
  cases hlast
  have hpos : ∀ seen ∈ rows, 0 < s.numRows := fun seen hseen =>
    h.numRows_pos.mpr (Multiset.card_pos.mp (Multiset.card_pos_iff_exists_mem.mpr ⟨seen, hseen⟩))
  constructor
  · rw [updateSumSquaredDeviations_numRows (rowState row) (n := 1) (Nat.cast_one).symm, h.numRows,
      Multiset.card_cons, Nat.cast_add]
  · intro seen hseen
    rcases Multiset.mem_cons.mp hseen with rfl | hseen
    · exact hpositive
    · exact h.positive seen hseen
  · intro seen hseen
    rw [(updateSumSquaredDeviations_flags _ _).1]
    rcases Multiset.mem_cons.mp hseen with rfl | hseen
    · rfl
    · rw [h.uniformDist seen hseen]
      exact huniform (hpos seen hseen)
  · intro seen hseen
    rw [(updateSumSquaredDeviations_flags _ _).2]
    rcases Multiset.mem_cons.mp hseen with rfl | hseen
    · rfl
    · rw [h.df seen hseen]
      exact hdf (hpos seen hseen)
  · intro hzero
    exact absurd hzero (Multiset.cons_ne_zero)

variable [FloorRing α]

theorem Flagged.uint64_numRows (h : Flagged rows s) : uint64 s.numRows = rows.card := by
  rw [h.numRows]
  exact Nat.floor_natCast _

theorem Flagged.uint64_pos (h : Flagged rows s) : 0 < uint64 s.numRows ↔ rows ≠ 0 := by
  rw [h.uint64_numRows, Multiset.card_pos]

theorem mergeUniformDist_ok (hl : Flagged rows s) (hr : Flagged rows' s')
    (h : rows ≠ 0 → rows' ≠ 0 → s.uniformDist = s'.uniformDist) :
    mergeUniformDist s s' =
      .ok { s with uniformDist := if s.numRows = 0 then s'.uniformDist else s.uniformDist } := by
  unfold mergeUniformDist
  by_cases heq : s.uniformDist = s'.uniformDist
  · rw [if_neg (not_not.mpr heq), heq, ite_self, ← heq]
  · rw [if_pos heq]
    by_cases hzero : s.numRows = 0
    · rw [if_pos hzero, if_pos hzero]
    · have hne : rows ≠ 0 := fun h0 => hzero (hl.numRows_eq_zero.mpr h0)
      rw [if_neg hzero, if_neg hzero, if_neg fun hpos => heq (h hne (hr.uint64_pos.mp hpos))]

theorem mergeUniformDist_eq_ok (hl : Flagged rows s) (hr : Flagged rows' s')
    {t : Chi2TestTransitionState α} (h : mergeUniformDist s s' = .ok t) (hne : rows ≠ 0)
    (hne' : rows' ≠ 0) : s.uniformDist = s'.uniformDist := by
  by_contra hdiffer
  unfold mergeUniformDist at h
  rw [if_pos hdiffer, if_neg fun h0 => hne (hl.numRows_eq_zero.mp h0),
    if_pos (hr.uint64_pos.mpr hne')] at h
  cases h

theorem mergeDf_ok (hl : Flagged rows s) (hr : Flagged rows' s')
    (h : rows ≠ 0 → rows' ≠ 0 → s.df = doubleOfInt64 (int64OfDouble s'.df)) :
    mergeDf s s' = .ok { s with df := if s.numRows = 0 then s'.df else s.df } := by
  unfold mergeDf
  by_cases heq : s.df = doubleOfInt64 (int64OfDouble s'.df)
  · rw [if_neg (not_not.mpr heq)]
    by_cases hzero : s.numRows = 0
    · have hdf := hl.empty (hl.numRows_eq_zero.mp hzero)
      rw [if_pos hzero, hr.df_eq_zero (heq.symm.trans hdf), ← hdf]
    · rw [if_neg hzero]
  · rw [if_pos heq]
    by_cases hzero : s.numRows = 0
    · rw [if_pos hzero, if_pos hzero]
    · have hne : rows ≠ 0 := fun h0 => hzero (hl.numRows_eq_zero.mpr h0)
      rw [if_neg hzero, if_neg hzero, if_neg fun hpos => heq (h hne (hr.uint64_pos.mp hpos))]

theorem mergeDf_eq_ok (hl : Flagged rows s) (hr : Flagged rows' s')
    {t : Chi2TestTransitionState α} (h : mergeDf s s' = .ok t) (hne : rows ≠ 0)
    (hne' : rows' ≠ 0) : s.df = doubleOfInt64 (int64OfDouble s'.df) := by
  by_contra hdiffer
  unfold mergeDf at h
  rw [if_pos hdiffer, if_neg fun h0 => hne (hl.numRows_eq_zero.mp h0),
    if_pos (hr.uint64_pos.mpr hne')] at h
  cases h

theorem merge_ok (hl : Flagged rows s) (hr : Flagged rows' s') (h : Agree rows rows' s s') :
    chi2GofTestMergeStates s s' = .ok (updateSumSquaredDeviations (mergedFlags s s') s') := by
  have hright : { s' with numRows := (uint64 s'.numRows : α) } = s' := by
    rw [hr.uint64_numRows, ← hr.numRows]
  have hread : rows ≠ 0 → rows' ≠ 0 → s.df = doubleOfInt64 (int64OfDouble s'.df) := by
    intro hne hne'
    obtain ⟨-, hdf, hover⟩ := h hne hne'
    rw [hdf, hr.readBack.mpr hover]
  unfold chi2GofTestMergeStates
  rw [mergeUniformDist_ok hl hr fun hne hne' => (h hne hne').1, ok_bind, hright,
    mergeDf_ok (hl.of_mergeUniformDist s') hr hread, ok_bind]
  rfl

theorem agree_of_merge (hl : Flagged rows s) (hr : Flagged rows' s')
    {t : Chi2TestTransitionState α} (h : chi2GofTestMergeStates s s' = .ok t) :
    Agree rows rows' s s' := by
  intro hne hne'
  unfold chi2GofTestMergeStates at h
  obtain ⟨s₁, h₁, hrest⟩ := bind_eq_ok.mp h
  obtain ⟨s₂, h₂, -⟩ := bind_eq_ok.mp hrest
  have huniform := mergeUniformDist_eq_ok hl hr h₁ hne hne'
  rw [mergeUniformDist_ok hl hr fun _ _ => huniform] at h₁
  cases h₁
  have hdf := mergeDf_eq_ok (hl.of_mergeUniformDist s') hr h₂ hne hne'
  dsimp only at hdf
  have hover : ¬Overflowing rows' := by
    intro hover
    have hge := hl.df_ge
    rw [hdf, hr.readBack_overflowing hover] at hge
    omega
  exact ⟨huniform, hdf.trans (hr.readBack.mpr hover), hover⟩

theorem Flagged.merge (hl : Flagged rows s) (hr : Flagged rows' s') (h : Agree rows rows' s s') :
    Flagged (rows + rows') (updateSumSquaredDeviations (mergedFlags s s') s') := by
  have hne : ∀ {rows : Multiset (Chi2Row α)} {row}, row ∈ rows → rows ≠ 0 := fun hrow =>
    Multiset.card_pos.mp (Multiset.card_pos_iff_exists_mem.mpr ⟨_, hrow⟩)
  have hleft : rows ≠ 0 → s.numRows ≠ 0 := fun hrows h0 => hrows (hl.numRows_eq_zero.mp h0)
  have hright : ∀ row ∈ rows', row.expected.isNone = (mergedFlags s s').uniformDist ∧
      storedDf row.df = (mergedFlags s s').df := by
    intro row hrow
    unfold mergedFlags
    by_cases hzero : s.numRows = 0
    · simp only [if_pos hzero]
      exact ⟨hr.uniformDist row hrow, hr.df row hrow⟩
    · have hagree := h (fun h0 => hzero (hl.numRows_eq_zero.mpr h0)) (hne hrow)
      simp only [if_neg hzero]
      exact ⟨(hr.uniformDist row hrow).trans hagree.1.symm,
        (hr.df row hrow).trans hagree.2.1.symm⟩
  constructor
  · rw [updateSumSquaredDeviations_numRows s' hr.numRows, Multiset.card_add, Nat.cast_add,
      ← hl.numRows]
    rfl
  · intro row hrow
    rcases Multiset.mem_add.mp hrow with hrow | hrow
    · exact hl.positive row hrow
    · exact hr.positive row hrow
  · intro row hrow
    rw [(updateSumSquaredDeviations_flags _ _).1]
    rcases Multiset.mem_add.mp hrow with hrow | hrow
    · rw [hl.uniformDist row hrow]
      exact (if_neg (hleft (hne hrow))).symm
    · exact (hright row hrow).1
  · intro row hrow
    rw [(updateSumSquaredDeviations_flags _ _).2]
    rcases Multiset.mem_add.mp hrow with hrow | hrow
    · rw [hl.df row hrow]
      exact (if_neg (hleft (hne hrow))).symm
    · exact (hright row hrow).2
  · intro hzero
    obtain ⟨hrows, hrows'⟩ := add_eq_zero.mp hzero
    rw [(updateSumSquaredDeviations_flags _ _).2]
    exact (if_pos (hl.numRows_eq_zero.mpr hrows)).trans (hr.empty hrows')

theorem chi2GofTest_keeps : Keeps (chi2GofTest (α := α)) (fun _ => True) Flagged where
  init := flagged_init
  transition _ _ _ _ _ hs hstep := hs.of_transition hstep
  merge _ _ _ _ _ hs hs' hstep := by
    have hagree := agree_of_merge hs hs' hstep
    have hok := merge_ok hs hs' hagree
    rw [show chi2GofTest.merge = chi2GofTestMergeStates from rfl, hok] at hstep
    cases hstep
    exact hs.merge hs' hagree

theorem flagged_run {plan : Plan (Chi2Row α)} (h : chi2GofTest.run plan = .ok s) :
    Flagged plan.rows s :=
  chi2GofTest_keeps.run (fun _ _ => trivial) h

/-! ## Which plans return -/

/-- Rows that fit together are accepted one after the other. -/
theorem foldlM_ok (rows : List (Chi2Row α)) {seen : Multiset (Chi2Row α)} (hs : Flagged seen s)
    (hrows : ¬Inconsistent storedDf (seen + (rows : Multiset (Chi2Row α)))) :
    ∃ s', rows.foldlM chi2GofTest.transition s = .ok s' := by
  induction rows generalizing seen s with
  | nil => exact ⟨s, rfl⟩
  | cons row rows ih =>
      rw [← Multiset.cons_coe, Multiset.add_cons, ← Multiset.cons_add] at hrows
      have hsub : ∀ r ∈ row ::ₘ seen, r ∈ row ::ₘ seen + (rows : Multiset (Chi2Row α)) :=
        fun r hr => Multiset.mem_add.mpr (.inl hr)
      obtain ⟨next, hnext⟩ := hs.transition fun hbad => hrows (hbad.mono hsub)
      rw [List.foldlM_cons, show chi2GofTest.transition s row = .ok next from hnext]
      exact ih (hs.of_transition hnext) hrows

theorem run_ok_of_not_rejected {plan : Plan (Chi2Row α)} (h : ¬Rejected plan) :
    ∃ s, chi2GofTest.run plan = .ok s := by
  induction plan with
  | segment rows =>
      apply foldlM_ok rows flagged_init
      rw [zero_add]
      exact fun hbad => h (.inl hbad)
  | merged left right ihl ihr =>
      obtain ⟨s, hs⟩ := ihl fun hbad => h (hbad.merged_left right)
      obtain ⟨s', hs'⟩ := ihr fun hbad => h (hbad.merged_right left)
      have hl := flagged_run hs
      have hr := flagged_run hs'
      rw [Aggregate.run_merged hs hs']
      exact ⟨_, merge_ok hl hr (agree_of_not_rejected h hl hr)⟩

/-- A stored number beyond the range of `int64_t` stays in one segment. -/
theorem segmentsWithRows_of_overflowing {plan : Plan (Chi2Row α)}
    (h : chi2GofTest.run plan = .ok s) (hover : Overflowing plan.rows) :
    segmentsWithRows plan ≤ 1 := by
  induction plan generalizing s with
  | segment rows => exact (List.length_filter_le _ _).trans_eq rfl
  | merged left right ihl ihr =>
      obtain ⟨t, t', ht, ht', hmerge⟩ := Aggregate.of_run_merged h
      have hl := flagged_run ht
      have hr := flagged_run ht'
      obtain ⟨row, hrow, hle⟩ := hover
      rw [segmentsWithRows_merged]
      by_cases hzero : left.rows = 0
      · rw [segmentsWithRows_eq_zero.mpr hzero, zero_add]
        rw [Plan.rows, hzero, zero_add] at hrow
        exact ihr ht' ⟨row, hrow, hle⟩
      by_cases hzero' : right.rows = 0
      · rw [segmentsWithRows_eq_zero.mpr hzero', add_zero]
        rw [Plan.rows, hzero', add_zero] at hrow
        exact ihl ht ⟨row, hrow, hle⟩
      obtain ⟨-, hdf, hnot⟩ := agree_of_merge hl hr hmerge hzero hzero'
      obtain ⟨row', hrow'⟩ := Multiset.exists_mem_of_ne_zero hzero'
      refine absurd ?_ hnot
      rcases Plan.mem_merged.mp hrow with hleft | hright
      · refine ⟨row', hrow', ?_⟩
        rwa [hr.df row' hrow', ← hdf, ← hl.df row hleft]
      · exact ⟨row, hright, hle⟩

theorem rejected_iff (plan : Plan (Chi2Row α)) :
    (∃ e, chi2GofTest.run plan = .error e) ↔ Rejected plan := by
  constructor
  · rintro ⟨e, he⟩
    by_contra h
    obtain ⟨s, hs⟩ := run_ok_of_not_rejected h
    rw [he] at hs
    cases hs
  · intro h
    cases hrun : chi2GofTest.run plan with
    | error e => exact ⟨e, rfl⟩
    | ok s =>
        rcases h with hbad | ⟨hover, htwo⟩
        · exact absurd hbad (flagged_run hrun).consistent
        · have hone := segmentsWithRows_of_overflowing hrun hover
          omega

/-- An error is raised for inconsistent rows, and only for these, when storing the degrees of
freedom as doubles neither hides a difference nor makes one. -/
theorem chi2_gof_test_rejects_iff (plan : Plan (Chi2Row α)) :
    ((∃ e, chi2GofTest.run plan = .error e) ↔ Inconsistent id plan.rows) ↔
      ((Inconsistent id plan.rows → Inconsistent storedDf plan.rows ∨
          Overflowing plan.rows ∧ 2 ≤ segmentsWithRows plan) ∧
        (Overflowing plan.rows ∧ 2 ≤ segmentsWithRows plan → Inconsistent id plan.rows)) := by
  have hstored : Inconsistent storedDf plan.rows → Inconsistent id plan.rows := by
    rintro (hbad | hbad | ⟨row, hrow, row', hrow', hne⟩)
    · exact .inl hbad
    · exact .inr (.inl hbad)
    · exact .inr (.inr ⟨row, hrow, row', hrow', fun heq => hne (congrArg storedDf heq)⟩)
  rw [rejected_iff]
  unfold Rejected
  constructor
  · intro h
    exact ⟨h.mpr, fun hover => h.mp (.inr hover)⟩
  · rintro ⟨hhidden, hmade⟩
    constructor
    · rintro (hbad | hover)
      · exact hstored hbad
      · exact hmade hover
    · exact hhidden

end States

/-- Up to 2^53 a degree of freedom is stored as it is. -/
theorem storedDf_some {d : Int} (hpos : 0 < d) (hle : d ≤ 9007199254740992) :
    storedDf (some d) = d := by
  have hnat := doubleOfNat_mul_pow (q := d.natAbs) (e := 0) (by omega)
  rw [pow_zero, mul_one] at hnat
  unfold storedDf doubleOfInt64
  rw [Option.getD_some, if_neg (by omega), hnat, Int.natAbs_of_nonneg hpos.le]

/-- Degrees of freedom up to 2^53 are compared as they are, and none of them overflows. -/
theorem storedDf_of_small {α : Type} {rows : Multiset (Chi2Row α)}
    (h : ∀ row ∈ rows, ∀ d, row.df = some d → d ≤ 9007199254740992) :
    (Inconsistent id rows → Inconsistent storedDf rows) ∧
      (Overflowing rows → Inconsistent id rows) := by
  have hvalue : ¬Inconsistent storedDf rows ∨ ¬Inconsistent id rows → ∀ row ∈ rows,
      storedDf row.df = row.df.getD (-1) := by
    intro hrows row hrow
    cases hdf : row.df with
    | none => exact storedDf_none
    | some d =>
        have hpos : 0 < d := by
          rcases hrows with hrows | hrows
          · exact (not_inconsistent_iff.mp hrows).1 row hrow d hdf
          · exact (not_inconsistent_iff.mp hrows).1 row hrow d hdf
        exact storedDf_some hpos (h row hrow d hdf)
  constructor
  · intro hbad
    by_contra hstored
    obtain ⟨hpositive, hexpected, hdf⟩ := not_inconsistent_iff.mp hstored
    refine not_inconsistent_iff.mpr ⟨hpositive, hexpected, fun row hrow row' hrow' => ?_⟩ hbad
    have heq := hdf row hrow row' hrow'
    rw [hvalue (.inl hstored) row hrow, hvalue (.inl hstored) row' hrow'] at heq
    cases hd : row.df with
    | none =>
        cases hd' : row'.df with
        | none => rfl
        | some d' =>
            have hpos := hpositive row' hrow' d' hd'
            rw [hd, hd', Option.getD_none, Option.getD_some] at heq
            omega
    | some d =>
        cases hd' : row'.df with
        | none =>
            have hpos := hpositive row hrow d hd
            rw [hd, hd', Option.getD_none, Option.getD_some] at heq
            omega
        | some d' =>
            rw [hd, hd', Option.getD_some, Option.getD_some] at heq
            rw [heq]
  · rintro ⟨row, hrow, hle⟩
    by_contra hrows
    rw [hvalue (.inr hrows) row hrow] at hle
    cases hd : row.df with
    | none =>
        rw [hd] at hle
        exact absurd hle (by decide)
    | some d =>
        have hsmall := h row hrow d hd
        rw [hd, Option.getD_some] at hle
        omega

/-- Two degrees of freedom in two segments. -/
theorem chi2_gof_test_rejects_segments :
    ∃ e, chi2GofTest.run (.merged (.segment [⟨1, some (1 : ℚ), some 3⟩])
      (.segment [⟨2, some 1, some 4⟩])) = .error e := by
  have hsmall : ∀ row ∈ (.merged (.segment [⟨1, some 1, some 3⟩])
      (.segment [⟨2, some 1, some 4⟩]) : Plan (Chi2Row ℚ)).rows,
      ∀ d, row.df = some d → d ≤ 9007199254740992 := by
    intro row hrow d hd
    rcases Plan.mem_merged.mp hrow with hleft | hright
    · obtain rfl := List.mem_singleton.mp hleft
      cases hd
      decide
    · obtain rfl := List.mem_singleton.mp hright
      cases hd
      decide
  obtain ⟨hhidden, hmade⟩ := storedDf_of_small hsmall
  refine ((chi2_gof_test_rejects_iff _).mpr ⟨fun hbad => .inl (hhidden hbad),
    fun hover => hmade hover.1⟩).mpr ?_
  refine .inr (.inr ⟨⟨1, some 1, some 3⟩, ?_, ⟨2, some 1, some 4⟩, ?_, by decide⟩)
  · exact Plan.mem_merged.mpr (.inl (List.mem_singleton.mpr rfl))
  · exact Plan.mem_merged.mpr (.inr (List.mem_singleton.mpr rfl))

/-- The two smallest integers that are the same `double` are taken for one degree of freedom. -/
theorem chi2_gof_test_accepts_rounded :
    Inconsistent id (.segment [⟨1, some 1, some 9007199254740992⟩,
        ⟨2, some 1, some 9007199254740993⟩] : Plan (Chi2Row ℚ)).rows ∧
      ¬∃ e, chi2GofTest.run (.segment [⟨1, some (1 : ℚ), some 9007199254740992⟩,
        ⟨2, some 1, some 9007199254740993⟩]) = .error e := by
  have hrun : chi2GofTest.run (.segment [⟨1, some (1 : ℚ), some 9007199254740992⟩,
      ⟨2, some 1, some 9007199254740993⟩]) =
      .ok ⟨2, 2, 5, 3, 1, false, 9007199254740992⟩ := by decide +kernel
  constructor
  · refine .inr (.inr ⟨⟨1, some 1, some 9007199254740992⟩, ?_,
      ⟨2, some 1, some 9007199254740993⟩, ?_, by decide⟩)
    · exact List.mem_cons_self
    · exact List.mem_cons_of_mem _ List.mem_cons_self
  · rintro ⟨e, he⟩
    rw [hrun] at he
    cases he

end Madlib.Stats
