import Madlib.Backend
import Madlib.Lib.Interpolation

/-!
# Quantiles of a table

`quantile` reads two neighbouring rows of the sorted column and interpolates between them.  The
first of them is the row whose number is the number of rows times the fraction, rounded down, so
there is none for a small fraction of a small table.
-/

namespace Madlib.Quantile

open Madlib.Backend Madlib.Lib.Interpolation

variable {α : Type} [Field α] [LinearOrder α] [FloorRing α]

/-- `OFFSET`, where the backends the code is written for differ: PostgreSQL raises an error for a
negative number, Greenplum skips no rows. -/
def offsetRows {ρ : Type} (clampsOffset : Bool) (offset : Int) (rows : List ρ) :
    Except Fault (List ρ) :=
  if 0 ≤ offset then .ok (rows.drop offset.toNat)
  else if clampsOffset then .ok rows
  else .error (.elog "OFFSET must not be negative")

def nullQuery : Fault := .elog "query string argument of EXECUTE is null"

/-- The third statement, whose text is NULL if one of its numbers is. -/
def interpolated (size : α) (result : List (WithTop α)) : Except Fault α :=
  match result.getD 1 ⊤, result.getD 0 ⊤ with
  | .some second, .some first => .ok (second * Int.fract size + first * (1 - Int.fract size))
  | _, _ => .error nullQuery

/-- `quantile` of a column, whose NULLs are behind all numbers in its order. -/
def quantile (clampsOffset : Bool) (column : Multiset (WithTop α)) (fraction : α) :
    Except Fault α := do
  if fraction < 0 ∨ 1 ≤ fraction then
    .error (.elog "Quantile should be between 0 and 0.99")
  else
    let size := (column.card : α) * fraction
    let rows ← offsetRows clampsOffset (⌊size⌋ - 1) column.sort
    interpolated size (rows.take 2)

/-- A column without NULLs. -/
def columnOf (values : Multiset α) : Multiset (WithTop α) := values.map WithTop.some

/-- The values in their order. -/
def sorted (values : Multiset α) (i : Nat) : α := values.sort.getD i 0

/-- Whether there is a pair of rows for the fraction. -/
def HasRows (clampsOffset : Bool) (n : Nat) (fraction : α) : Prop :=
  1 ≤ n * fraction ∨ clampsOffset = true ∧ 2 ≤ n

/-- The place among the values, counted from zero. -/
def place (n : Nat) (fraction : α) : α :=
  if 1 ≤ n * fraction then n * fraction - 1 else n * fraction

variable {values : Multiset α} {clampsOffset : Bool} {fraction : α}

omit [Field α] [FloorRing α] in
theorem sort_columnOf (values : Multiset α) :
    (columnOf values).sort = values.sort.map WithTop.some := by
  refine (Multiset.map_sort _ _ _ _ fun a _ b _ => ?_).symm
  exact WithTop.coe_le_coe.symm

omit [FloorRing α] in
theorem monotoneTo_sorted (values : Multiset α) : MonotoneTo (sorted values) (values.card - 1) := by
  intro i j hij hj
  rcases eq_or_lt_of_le hij with rfl | hlt
  · exact le_refl _
  · have hlen : values.sort.length = values.card := Multiset.length_sort _
    have hi : i < values.sort.length := by omega
    have hj' : j < values.sort.length := by omega
    unfold sorted
    rw [List.getD_eq_getElem _ _ hi, List.getD_eq_getElem _ _ hj']
    exact List.pairwise_iff_getElem.mp (Multiset.pairwise_sort values _) i j hi hj' hlt

/-- Two neighbouring rows are interpolated. -/
theorem interpolated_rows {k : Nat} {t size : α} (hk : k + 1 < values.card) (ht : ⌊t⌋.toNat = k)
    (hfract : Int.fract t = Int.fract size) :
    interpolated size (((columnOf values).sort.drop k).take 2) =
      .ok (between (sorted values) t) := by
  have hlen : values.sort.length = values.card := Multiset.length_sort _
  have hrow : ∀ i < 2, (((columnOf values).sort.drop k).take 2).getD i ⊤ =
      WithTop.some (sorted values (k + i)) := by
    intro i hi
    have hlt : k + i < values.sort.length := by omega
    rw [sort_columnOf, List.getD_eq_getElem?_getD, List.getElem?_take_of_lt hi, List.getElem?_drop,
      List.getElem?_map, List.getElem?_eq_getElem hlt, sorted, List.getD_eq_getElem _ _ hlt]
    rfl
  unfold interpolated between
  rw [hrow 0 (by decide), hrow 1 (by decide), ht, hfract]
  rfl

omit [Field α] [LinearOrder α] [FloorRing α] in
theorem card_columnOf (values : Multiset α) : (columnOf values).card = values.card :=
  Multiset.card_map _ _

variable [IsStrictOrderedRing α]

/-- The pair of rows ends in front of the last row. -/
theorem place_lt {n : Nat} (h0 : 0 < fraction) (h1 : fraction < 1)
    (h : HasRows clampsOffset n fraction) :
    0 ≤ place n fraction ∧ ⌊place n fraction⌋.toNat + 1 < n := by
  have hn : (0 : α) ≤ n := Nat.cast_nonneg n
  unfold place
  split_ifs with hone
  · have hpos : (0 : α) < n := by
      by_contra hle
      have hzero : (n : α) = 0 := le_antisymm (not_lt.mp hle) hn
      rw [hzero, zero_mul] at hone
      linarith
    have hlt : (n : α) * fraction < n := by
      have hmul := mul_lt_mul_of_pos_left h1 hpos
      rwa [mul_one] at hmul
    have hfloor : ⌊(n : α) * fraction - 1⌋ < (n : ℤ) - 1 := by
      apply Int.floor_lt.mpr
      push_cast
      linarith
    have hnonneg : 0 ≤ ⌊(n : α) * fraction - 1⌋ := Int.floor_nonneg.mpr (by linarith)
    exact ⟨by linarith, by omega⟩
  · have hrows := h.resolve_left hone
    have hnonneg : 0 ≤ (n : α) * fraction := mul_nonneg hn h0.le
    have hfloor : ⌊(n : α) * fraction⌋ = 0 :=
      Int.floor_eq_zero_iff.mpr ⟨hnonneg, not_le.mp hone⟩
    rw [hfloor]
    exact ⟨hnonneg, hrows.2⟩

/-- With rows to read the quantile is the value at its place. -/
theorem quantile_ok (h0 : 0 < fraction) (h1 : fraction < 1)
    (h : HasRows clampsOffset values.card fraction) :
    quantile clampsOffset (columnOf values) fraction =
      .ok (between (sorted values) (place values.card fraction)) := by
  obtain ⟨hplace, hlt⟩ := place_lt h0 h1 h
  unfold quantile
  rw [if_neg (by rintro (hlow | hhigh) <;> linarith), card_columnOf]
  dsimp only
  by_cases hone : 1 ≤ values.card * fraction
  · have hplace' : place values.card fraction = values.card * fraction - 1 := if_pos hone
    have hfloor : ⌊place values.card fraction⌋ = ⌊values.card * fraction⌋ - 1 := by
      rw [hplace', Int.floor_sub_one]
    have hfract : Int.fract (place values.card fraction) = Int.fract (values.card * fraction) := by
      rw [hplace', Int.fract_sub_one]
    have hnonneg : 0 ≤ ⌊place values.card fraction⌋ := Int.floor_nonneg.mpr hplace
    rw [← hfloor, offsetRows, if_pos hnonneg, ok_bind]
    exact interpolated_rows hlt rfl hfract
  · have hplace' : place values.card fraction = values.card * fraction := if_neg hone
    have hfloor : ⌊values.card * fraction⌋ = 0 := by
      rw [← hplace', Int.floor_eq_zero_iff]
      exact ⟨hplace, by rw [hplace']; exact not_le.mp hone⟩
    obtain ⟨hclamps, -⟩ := h.resolve_left hone
    have hfirst : ⌊place values.card fraction⌋.toNat = 0 := by
      rw [hplace', hfloor]
      rfl
    have hfract : Int.fract (place values.card fraction) = Int.fract (values.card * fraction) := by
      rw [hplace']
    have htwo : 0 + 1 < values.card := by omega
    have hrows := interpolated_rows htwo hfirst hfract
    rw [List.drop_zero] at hrows
    rwa [hfloor, offsetRows, if_neg (by decide), if_pos hclamps, ok_bind]

/-- Without them there is an error. -/
theorem quantile_error (h0 : 0 < fraction) (h1 : fraction < 1)
    (h : ¬HasRows clampsOffset values.card fraction) {v : α} :
    quantile clampsOffset (columnOf values) fraction ≠ .ok v := by
  have hone : ¬1 ≤ values.card * fraction := fun hle => h (.inl hle)
  have hfloor : ⌊values.card * fraction⌋ = 0 :=
    Int.floor_eq_zero_iff.mpr ⟨mul_nonneg (Nat.cast_nonneg _) h0.le, not_le.mp hone⟩
  unfold quantile
  rw [if_neg (by rintro (hlow | hhigh) <;> linarith), card_columnOf]
  dsimp only
  rw [hfloor, offsetRows, if_neg (by decide)]
  split_ifs with hclamps
  · have hlen : ((columnOf values).sort.take 2).length ≤ 1 := by
      rw [List.length_take, Multiset.length_sort, card_columnOf]
      have hfew : ¬2 ≤ values.card := fun hle => h (.inr ⟨hclamps, hle⟩)
      omega
    rw [ok_bind, interpolated, List.getD_eq_default _ _ hlen]
    simp
  · simp

/-! ## Two fractions -/

/-- Both quantiles are defined, in order, and between the smallest and the largest value. -/
def MonotoneBounded (clampsOffset : Bool) (values : Multiset α) (fraction fraction' : α) : Prop :=
  ∃ v v', quantile clampsOffset (columnOf values) fraction = .ok v ∧
    quantile clampsOffset (columnOf values) fraction' = .ok v' ∧ v ≤ v' ∧
    ∃ lo hi, IsLeast {x | x ∈ values} lo ∧ IsGreatest {x | x ∈ values} hi ∧
      v ∈ Set.Icc lo hi ∧ v' ∈ Set.Icc lo hi

omit [Field α] [FloorRing α] [IsStrictOrderedRing α] in
theorem mem_sort {x : α} : x ∈ values.sort ↔ x ∈ values := Multiset.mem_sort (r := (· ≤ ·))

omit [FloorRing α] [IsStrictOrderedRing α] in
theorem mem_sorted {i : Nat} (hi : i < values.card) : sorted values i ∈ values := by
  have hi' : i < values.sort.length := by rwa [Multiset.length_sort]
  rw [sorted, List.getD_eq_getElem _ _ hi', ← mem_sort]
  exact List.getElem_mem hi'

omit [FloorRing α] [IsStrictOrderedRing α] in
theorem exists_index {x : α} (hx : x ∈ values) : ∃ i < values.card, sorted values i = x := by
  rw [← mem_sort] at hx
  obtain ⟨i, hi, rfl⟩ := List.getElem_of_mem hx
  refine ⟨i, by rwa [Multiset.length_sort] at hi, ?_⟩
  rw [sorted, List.getD_eq_getElem _ _ hi]

omit [FloorRing α] [IsStrictOrderedRing α] in
theorem isLeast_sorted (hne : values ≠ 0) : IsLeast {x | x ∈ values} (sorted values 0) := by
  have hpos := Multiset.card_pos.mpr hne
  refine ⟨mem_sorted hpos, fun x hx => ?_⟩
  obtain ⟨i, hi, rfl⟩ := exists_index hx
  exact monotoneTo_sorted values 0 i (Nat.zero_le i) (by omega)

omit [FloorRing α] [IsStrictOrderedRing α] in
theorem isGreatest_sorted (hne : values ≠ 0) :
    IsGreatest {x | x ∈ values} (sorted values (values.card - 1)) := by
  have hpos := Multiset.card_pos.mpr hne
  refine ⟨mem_sorted (by omega), fun x hx => ?_⟩
  obtain ⟨i, hi, rfl⟩ := exists_index hx
  exact monotoneTo_sorted values i _ (by omega) (le_refl _)

/-- A value between two neighbours is between the first and the last. -/
theorem between_mem_Icc {t : α} (h : ⌊t⌋.toNat + 1 < values.card) :
    between (sorted values) t ∈ Set.Icc (sorted values 0) (sorted values (values.card - 1)) := by
  have hmono := monotoneTo_sorted values
  have hstep := hmono ⌊t⌋.toNat (⌊t⌋.toNat + 1) (Nat.le_succ _) (by omega)
  constructor
  · exact (hmono 0 _ (Nat.zero_le _) (by omega)).trans (le_between hstep)
  · exact (between_le hstep).trans (hmono _ _ (by omega) (le_refl _))

/-- The fractions whose quantiles are as they should be. -/
def Meets (clampsOffset : Bool) (values : Multiset α) (fraction fraction' : α) : Prop :=
  1 ≤ values.card * fraction ∨
    clampsOffset = true ∧ 2 ≤ values.card ∧
      (values.card * fraction' < 1 ∨ values.card * fraction + 1 ≤ values.card * fraction' ∨
        sorted values 0 = sorted values 1)

omit [FloorRing α] [IsStrictOrderedRing α] in
theorem Meets.hasRows {fraction' : α} (h : Meets clampsOffset values fraction fraction') :
    HasRows clampsOffset values.card fraction := by
  rcases h with hone | ⟨hclamps, htwo, -⟩
  · exact .inl hone
  · exact .inr ⟨hclamps, htwo⟩

omit [FloorRing α] in
theorem HasRows.mono {n : Nat} {fraction' : α} (hle : fraction ≤ fraction')
    (h : HasRows clampsOffset n fraction) : HasRows clampsOffset n fraction' := by
  have hmul := mul_le_mul_of_nonneg_left hle (Nat.cast_nonneg (α := α) n)
  exact h.imp_left fun hone => hone.trans hmul

theorem Meets.between_le {fraction' : α} (h0 : 0 < fraction) (hle : fraction ≤ fraction')
    (h1 : fraction' < 1) (h : Meets clampsOffset values fraction fraction') :
    between (sorted values) (place values.card fraction) ≤
      between (sorted values) (place values.card fraction') := by
  have h0' : 0 < fraction' := h0.trans_le hle
  have hn : (0 : α) ≤ values.card := Nat.cast_nonneg _
  have hmul := mul_le_mul_of_nonneg_left hle hn
  have hlow := mul_nonneg hn h0.le
  obtain ⟨hplace, hlt⟩ := place_lt h0 (hle.trans_lt h1) h.hasRows
  obtain ⟨-, hlt'⟩ := place_lt h0' h1 (h.hasRows.mono hle)
  -- in the order of their places, unless the values are the same up to there
  have hmono : place values.card fraction ≤ place values.card fraction' →
      between (sorted values) (place values.card fraction) ≤
        between (sorted values) (place values.card fraction') := by
    intro hplaces
    apply between_mono hplace hplaces
    intro i j hij hj
    exact monotoneTo_sorted values i j hij (by omega)
  by_cases hone : 1 ≤ values.card * fraction
  · apply hmono
    rw [place, if_pos hone, place, if_pos (hone.trans hmul)]
    linarith
  · rcases (h.resolve_left hone).2.2 with hsmall | hfar | hsame
    · apply hmono
      rw [place, if_neg hone, place, if_neg (not_le.mpr hsmall)]
      exact hmul
    · apply hmono
      rw [place, if_neg hone, place, if_pos (by linarith)]
      linarith
    · have hvalue : between (sorted values) (place values.card fraction) = sorted values 0 := by
        rw [place, if_neg hone, between_lt_one hlow (not_le.mp hone), hsame, sub_self, zero_mul,
          add_zero]
      rw [hvalue]
      exact (between_mem_Icc hlt').1

/-- Both quantiles are accepted and in order exactly for these fractions. -/
theorem monotoneBounded_iff_meets {fraction' : α} (hne : values ≠ 0) (h0 : 0 < fraction)
    (hle : fraction ≤ fraction') (h1 : fraction' < 1) :
    MonotoneBounded clampsOffset values fraction fraction' ↔
      Meets clampsOffset values fraction fraction' := by
  have h0' : 0 < fraction' := h0.trans_le hle
  have h1' : fraction < 1 := hle.trans_lt h1
  constructor
  · rintro ⟨v, v', hv, hv', hvv', -⟩
    have hrows : HasRows clampsOffset values.card fraction := by
      by_contra hnot
      exact quantile_error h0 h1' hnot hv
    have hrows' := hrows.mono hle
    rw [quantile_ok h0 h1' hrows] at hv
    rw [quantile_ok h0' h1 hrows'] at hv'
    cases hv
    cases hv'
    by_cases hone : 1 ≤ values.card * fraction
    · exact .inl hone
    · obtain ⟨hclamps, htwo⟩ := hrows.resolve_left hone
      refine .inr ⟨hclamps, htwo, ?_⟩
      by_contra hbad
      push Not at hbad
      obtain ⟨hone', hnear, hdiffer⟩ := hbad
      have hlow := mul_nonneg (Nat.cast_nonneg (α := α) values.card) h0.le
      have hstep := monotoneTo_sorted values 0 1 (Nat.zero_le 1) (by omega)
      have hless : sorted values 0 < sorted values 1 := lt_of_le_of_ne hstep hdiffer
      rw [place, if_neg hone, place, if_pos hone', between_lt_one hlow (not_le.mp hone),
        between_lt_one (by linarith) (by linarith)] at hvv'
      have hslope := mul_lt_mul_of_pos_left
        (show values.card * fraction' - 1 < values.card * fraction by linarith)
        (sub_pos.mpr hless)
      linarith
  · intro h
    exact ⟨_, _, quantile_ok h0 h1' h.hasRows, quantile_ok h0' h1 (h.hasRows.mono hle),
      h.between_le h0 hle h1, _, _, isLeast_sorted hne, isGreatest_sorted hne,
      between_mem_Icc (place_lt h0 h1' h.hasRows).2,
      between_mem_Icc (place_lt h0' h1 (h.hasRows.mono hle)).2⟩

/-- Two fractions of four rows. -/
theorem monotoneBounded_iff_meets_four :
    MonotoneBounded false ({1, 2, 4, 8} : Multiset ℚ) (1 / 3) (1 / 2) := by
  refine (monotoneBounded_iff_meets ?_ ?_ ?_ ?_).mpr (.inl ?_)
  · exact Multiset.cons_ne_zero
  · norm_num
  · norm_num
  · norm_num
  · norm_num

/-- A table with one row has no quantile. -/
theorem not_monotoneBounded_single :
    ¬∀ (clampsOffset : Bool) (values : Multiset ℚ) (fraction fraction' : ℚ), values ≠ 0 →
      0 < fraction → fraction ≤ fraction' → fraction' < 1 →
        MonotoneBounded clampsOffset values fraction fraction' := by
  intro h
  have hnot : ¬HasRows false ({7} : Multiset ℚ).card (1 / 2 : ℚ) := by
    rintro (hone | ⟨hclamps, -⟩)
    · norm_num at hone
    · cases hclamps
  obtain ⟨v, -, hv, -⟩ := h false {7} (1 / 2) (1 / 2) (Multiset.singleton_ne_zero 7)
    (by norm_num) (le_refl _) (by norm_num)
  exact quantile_error (by norm_num) (by norm_num) hnot hv

end Madlib.Quantile
