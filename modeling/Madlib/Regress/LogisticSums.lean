import Madlib.Regress.Logistic

/-!
# Sums of the conjugate-gradient and the least-squares method

Both methods keep the coefficients of the previous iteration and add what a row makes of them to
the elements from the number of rows on.
-/

namespace Madlib.Regress

open Madlib.Backend Madlib.Dbal Madlib.Lib.Segments

/-- The fields rows add to are the last ones, one behind the other. -/
structure SumFields.Consecutive (fields : SumFields) (w len : Nat) : Prop where
  coef_le : fields.coef w + w ≤ fields.numRows w
  vector_eq : fields.vector w = fields.numRows w + 1
  matrix_eq : fields.matrix w = fields.numRows w + 1 + w
  logLikelihood_eq : fields.logLikelihood w = fields.numRows w + 1 + w + w * w
  length_eq : len = fields.numRows w + 1 + w + w * w + 1

theorem logRegrCGFields_consecutive {w : Nat} (hfits : logRegrCGLayout.Fits w (logRegrCGLength w)) :
    logRegrCGFields.Consecutive w (logRegrCGLength w) := by
  have hmax : maxAllocSize = 1073741823 := rfl
  have halloc := hfits.allocates
  unfold logRegrCGLength at halloc
  constructor <;> simp (disch := omega) only [logRegrCGFields, logRegrCGLength, intIndex_of_lt] <;>
    omega

theorem logRegrIRLSFields_consecutive {w : Nat}
    (hfits : logRegrIRLSLayout.Fits w (logRegrIRLSLength w)) :
    logRegrIRLSFields.Consecutive w (logRegrIRLSLength w) := by
  have hmax : maxAllocSize = 1073741823 := rfl
  have halloc := hfits.allocates
  unfold logRegrIRLSLength at halloc
  constructor <;>
    simp (disch := omega) only [logRegrIRLSFields, logRegrIRLSLength, intIndex_of_lt] <;> omega

section Fields

variable {α : Type} [Field α] {fields : SumFields} {sigma logOnePlusExp : α → α}
  {factor : α → α → α} {w len : Nat} {storage : List α}

/-- Rows add to the elements from the number of rows on. -/
def SumFields.intra (fields : SumFields) (w k : Nat) : Bool := decide (fields.numRows w ≤ k)

/-- `x^T c` -/
def SumFields.linear (fields : SumFields) (w : Nat) (storage x : List α) : α :=
  (List.zipWith (fun a b => a * b) x ((storage.drop (fields.coef w)).take w)).sum

/-- What a row adds. -/
def SumFields.terms (fields : SumFields) (sigma logOnePlusExp : α → α) (factor : α → α → α)
    (w : Nat) (storage : List α) (row : Bool × List α) (k : Nat) : α :=
  let y := signOf row.1
  let xc := fields.linear w storage row.2
  scalarTerm (fields.numRows w) 1 k +
    vectorTerm (fields.vector w) (row.2.map fun b => b * factor y xc) k +
    crossTerm (fields.matrix w) row.2 (sigma xc * sigma (-xc)) k +
    scalarTerm (fields.logLikelihood w) (-logOnePlusExp (-y * xc)) k

theorem SumFields.reset_ok (h : fields.Consecutive w len) (hlen : storage.length = len) :
    fields.reset storage w = .ok (cleared (fields.intra w) storage) := by
  obtain ⟨hcoef, hvector, hmatrix, hlast, hlength⟩ := h
  unfold SumFields.reset
  dsimp only
  rw [fillZero_ok (by rw [List.length_set]; omega), ok_bind,
    fillZero_ok (by rw [List.length_mapIdx, List.length_set]; omega), ok_bind]
  unfold cleared
  simp only [set_eq_mapIdx, List.mapIdx_mapIdx, pure_eq_ok, Except.ok.injEq,
    List.mapIdx_eq_mapIdx_iff, Function.comp_apply, SumFields.intra, decide_eq_true_eq]
  intro k hk
  split_ifs <;> first | rfl | omega

theorem SumFields.addRow_ok (h : fields.Consecutive w len) (hlen : storage.length = len)
    {row : Bool × List α} (hrow : row.2.length = w) :
    fields.addRow sigma logOnePlusExp factor storage w (signOf row.1) row.2 =
      .ok (plusEq storage (fields.terms sigma logOnePlusExp factor w storage row)) := by
  obtain ⟨hcoef, hvector, hmatrix, hlast, hlength⟩ := h
  have hkeep : ((plusEq storage (scalarTerm (fields.numRows w) 1)).drop (fields.coef w)).take w =
      (storage.drop (fields.coef w)).take w := by
    apply mapElements_plusEq
    intro k _ hk
    exact scalarTerm_ne (by omega)
  have hdot : row.2.length = ((storage.drop (fields.coef w)).take w).length := by
    rw [List.length_take, List.length_drop]
    omega
  unfold SumFields.addRow
  dsimp only
  rw [mapAt_ok (by rw [length_plusEq]; omega), ok_bind, hkeep, dot_ok hdot, ok_bind,
    mapPlusEq_ok (by rw [length_plusEq]; omega), ok_bind,
    mapPlusEq_ok (by rw [length_plusEq, length_plusEq]; omega), ok_bind]
  simp only [plusEq_plusEq]
  rfl

theorem SumFields.terms_congr (h : fields.Consecutive w len) {storage' : List α}
    {row : Bool × List α} (hsame : ∀ k, fields.intra w k = false → storage[k]? = storage'[k]?) :
    fields.terms sigma logOnePlusExp factor w storage row =
      fields.terms sigma logOnePlusExp factor w storage' row := by
  have hcoef : (storage.drop (fields.coef w)).take w = (storage'.drop (fields.coef w)).take w := by
    apply mapElements_congr
    intro k _ hk
    have hle := h.coef_le
    exact hsame k (decide_eq_false (by omega))
  unfold SumFields.terms SumFields.linear
  rw [hcoef]

theorem SumFields.terms_zero (h : fields.Consecutive w len) {row : Bool × List α} {k : Nat}
    (hintra : fields.intra w k = false) :
    fields.terms sigma logOnePlusExp factor w storage row k = 0 := by
  obtain ⟨hcoef, hvector, hmatrix, hlast, hlength⟩ := h
  have hk : ¬fields.numRows w ≤ k := of_decide_eq_false hintra
  simp (disch := omega) only [SumFields.terms, crossTerm, scalarTerm_ne, vectorTerm_lt,
    lowerTerm_lt, add_zero]

theorem SumFields.terms_numRows (h : fields.Consecutive w len) {row : Bool × List α} :
    fields.terms sigma logOnePlusExp factor w storage row (fields.numRows w) = 1 := by
  obtain ⟨hcoef, hvector, hmatrix, hlast, hlength⟩ := h
  simp (disch := omega) only [SumFields.terms, crossTerm, scalarTerm_self, scalarTerm_ne,
    vectorTerm_lt, lowerTerm_lt, add_zero]

theorem SumFields.addsIntra [LinearOrder α] [IsStrictOrderedRing α] [FloorRing α] {layout : Layout}
    (h : fields.Consecutive w len) (hnumRows : layout.numRows w = fields.numRows w) :
    AddsIntra layout w len (fields.intra w)
      (fields.plusEqState (α := α) layout.widthIndex) := by
  intro l r n hl hr hn
  obtain ⟨hcoef, hvector, hmatrix, hlast, hlength⟩ := h
  obtain ⟨hllen, hlwidth⟩ := hl
  obtain ⟨hrlen, _⟩ := hr
  rw [hnumRows] at hn
  obtain ⟨ll, hll⟩ : ∃ a, r[fields.logLikelihood w]? = some a :=
    ⟨_, List.getElem?_eq_getElem (by omega)⟩
  unfold SumFields.plusEqState
  rw [elementAt_eq_ok hlwidth, ok_bind, if_neg (by simp [hllen, hrlen]), elementAt_eq_ok hn,
    ok_bind, mapAt_ok (by omega), ok_bind, mapPlusEq_ok (by rw [length_plusEq]; omega), ok_bind,
    mapAt_ok (by omega), ok_bind, mapPlusEq_ok (by rw [length_plusEq, length_plusEq]; omega),
    ok_bind, elementAt_eq_ok hll, ok_bind, Nat.floor_natCast]
  simp only [plusEq_plusEq]
  refine congrArg Except.ok (plusEq_congr ?_)
  intro k hk
  simp only [vectorTerm_map, scalarTerm_elementAt hn, scalarTerm_elementAt hll]
  rw [mapTerm_add hvector, mapTerm_add (by omega), mapTerm_add (by omega)]
  unfold mapTerm intraTerms SumFields.intra
  simp only [decide_eq_true_eq]
  exact if_congr (by omega) rfl rfl

/-- The state after the rows of an iteration that started from `start`. -/
structure SumFields.Sums (fields : SumFields) (sigma logOnePlusExp : α → α)
    (factor : α → α → α) (w len : Nat) (start : List α) (rows : Multiset (Bool × List α))
    (state : List α) : Prop where
  length_eq : state.length = len
  inter : ∀ k, k < fields.numRows w → state[k]? = start[k]?
  numRows : state[fields.numRows w]? = some (rows.card : α)
  vector : ∀ i, i < w → state[fields.vector w + i]? = some (rows.map fun row =>
    row.2.getD i 0 * factor (signOf row.1) (fields.linear w start row.2)).sum
  matrix : ∀ i j, j ≤ i → i < w → state[fields.matrix w + (j * w + i)]? =
    some (rows.map fun row => row.2.getD i 0 * row.2.getD j 0 *
      (sigma (fields.linear w start row.2) * sigma (-fields.linear w start row.2))).sum
  logLikelihood : state[fields.logLikelihood w]? = some (rows.map fun row =>
    -logOnePlusExp (-signOf row.1 * fields.linear w start row.2)).sum

theorem SumFields.linear_congr (h : fields.Consecutive w len) {storage' : List α}
    (hsame : ∀ k, k < fields.numRows w → storage[k]? = storage'[k]?) (x : List α) :
    fields.linear w storage x = fields.linear w storage' x := by
  have hcoef : (storage.drop (fields.coef w)).take w = (storage'.drop (fields.coef w)).take w := by
    apply mapElements_congr
    intro k _ hk
    have hle := h.coef_le
    exact hsame k (by omega)
  unfold SumFields.linear
  rw [hcoef]

theorem SumFields.sums_summed (h : fields.Consecutive w len) {layout : Layout}
    {base start : List α} {rows : Multiset (Bool × List α)}
    (hnumRows : layout.numRows w = fields.numRows w)
    (hsums : SumsOver layout w len base (fields.terms sigma logOnePlusExp factor w base)
      (fields.intra w) fun row => row.2.length = w)
    (hrows : ∀ row ∈ rows, row.2.length = w)
    (hstart : ∀ k, k < fields.numRows w → base[k]? = start[k]?) :
    fields.Sums sigma logOnePlusExp factor w len start rows
      (summed base (fields.terms sigma logOnePlusExp factor w base) rows) := by
  have hlinear := SumFields.linear_congr h hstart
  obtain ⟨hcoef, hvector, hmatrix, hlast, hlength⟩ := h
  constructor
  · exact (hsums.holds_summed hrows).length_eq
  · intro k hk
    rw [hsums.getElem?_summed_of_not hrows (decide_eq_false (by omega)), hstart k hk]
  · rw [← hnumRows]
    exact hsums.numRows_summed hrows
  · intro i hi
    apply hsums.getElem?_summed (by omega) (decide_eq_true (by omega))
    intro row hrow
    simp (disch := omega) only [SumFields.terms, crossTerm, scalarTerm_ne, vectorTerm_add,
      lowerTerm_lt, add_zero, zero_add, getD_map_mul, hlinear]
  · intro i j hji hi
    have hentry : j * w + w ≤ w * w := by
      rw [← Nat.succ_mul]
      exact Nat.mul_le_mul_right w (by omega)
    apply hsums.getElem?_summed (by omega) (decide_eq_true (by omega))
    intro row hrow
    have hw := hrows row hrow
    have hbehind : ∀ a, vectorTerm (fields.vector w) (row.2.map fun b => b * a)
        (fields.matrix w + (j * w + i)) = 0 := by
      intro a
      exact vectorTerm_ge (by rw [List.length_map]; omega)
    simp (disch := omega) only [SumFields.terms, crossTerm, scalarTerm_ne, hw, hbehind,
      lowerTerm_add hji hi, add_zero, zero_add, hlinear]
  · apply hsums.getElem?_summed (by omega) (decide_eq_true (by omega))
    intro row hrow
    have hw := hrows row hrow
    have hbehind : ∀ a, vectorTerm (fields.vector w) (row.2.map fun b => b * a)
        (fields.logLikelihood w) = 0 := by
      intro a
      exact vectorTerm_ge (by rw [List.length_map]; omega)
    have hmatrix' : ∀ entry, lowerTerm (α := α) (fields.matrix w) w entry
        (fields.logLikelihood w) = 0 := fun entry => lowerTerm_ge (by omega)
    simp (disch := omega) only [SumFields.terms, crossTerm, scalarTerm_self, scalarTerm_ne, hw,
      hbehind, hmatrix', zero_add, hlinear]

end Fields

/-! ## The two methods -/

section Methods

variable {α : Type} [Field α] {sigma logOnePlusExp : α → α} {w : Nat} {storage : List α}
  {row : Bool × List α}

/-- What a row adds in the conjugate-gradient method. -/
def cgTerms (sigma logOnePlusExp : α → α) : Nat → List α → Bool × List α → Nat → α :=
  logRegrCGFields.terms sigma logOnePlusExp fun y xc => sigma (-y * xc) * y

/-- What a row adds in the least-squares method. -/
def irlsTerms (sigma logOnePlusExp : α → α) : Nat → List α → Bool × List α → Nat → α :=
  logRegrIRLSFields.terms sigma logOnePlusExp
    fun y xc => xc * (sigma xc * sigma (-xc)) + sigma (-y * xc) * y

theorem logregrCGAddRow_ok (hfits : logRegrCGLayout.Fits w (logRegrCGLength w))
    (hlen : storage.length = logRegrCGLength w) (hrow : row.2.length = w) :
    logregrCGAddRow sigma logOnePlusExp storage w (signOf row.1) row.2 =
      .ok (plusEq storage (cgTerms sigma logOnePlusExp w storage row)) := by
  unfold logregrCGAddRow cgTerms
  exact SumFields.addRow_ok (logRegrCGFields_consecutive hfits) hlen hrow

theorem logregrIRLSAddRow_ok (hfits : logRegrIRLSLayout.Fits w (logRegrIRLSLength w))
    (hlen : storage.length = logRegrIRLSLength w) (hrow : row.2.length = w) :
    logregrIRLSAddRow sigma logOnePlusExp storage w (signOf row.1) row.2 =
      .ok (plusEq storage (irlsTerms sigma logOnePlusExp w storage row)) := by
  unfold logregrIRLSAddRow irlsTerms
  exact SumFields.addRow_ok (logRegrIRLSFields_consecutive hfits) hlen hrow

variable [LinearOrder α] [FloorRing α]

theorem logregrCG_sumsStep :
    SumsStep (logregrCG sigma logOnePlusExp) logRegrCGFields.intra
      (cgTerms sigma logOnePlusExp) := by
  constructor
  · intro v w hvw
    have hsq : v * v ≤ w * w := Nat.mul_le_mul hvw.le hvw.le
    simp only [logregrCG, logRegrCGLength]
    omega
  · intro w hfits
    have hfields := logRegrCGFields_consecutive hfits
    refine ⟨(logRegrCGFields.logLikelihood w, 1), ?_, ?_⟩
    · simp [logregrCG, logRegrCGLayout, logRegrCGFields]
    · rw [hfields.logLikelihood_eq]
      exact hfields.length_eq.symm
  · intro w storage hfits hlen
    exact SumFields.reset_ok (logRegrCGFields_consecutive hfits) hlen
  · intro previous w storage row hfits hlen hrow
    exact logregrCGAddRow_ok hfits hlen hrow
  · intro w storage storage' row hfits hsame
    exact SumFields.terms_congr (logRegrCGFields_consecutive hfits) hsame
  · intro w storage row k hfits hintra
    exact SumFields.terms_zero (logRegrCGFields_consecutive hfits) hintra
  · intro w storage row hfits _
    exact SumFields.terms_numRows (logRegrCGFields_consecutive hfits)
  · intro w hfits
    have hcoef : 2 + w ≤ logRegrCGFields.numRows w := (logRegrCGFields_consecutive hfits).coef_le
    have hwidth : 1 < logRegrCGFields.numRows w := by omega
    exact decide_eq_false (Nat.not_le.mpr hwidth)
  · intro w hfits
    exact decide_eq_true (le_refl (logRegrCGFields.numRows w))

theorem logregrIRLS_sumsStep :
    SumsStep (logregrIRLS sigma logOnePlusExp) logRegrIRLSFields.intra
      (irlsTerms sigma logOnePlusExp) := by
  constructor
  · intro v w hvw
    have hsq : v * v ≤ w * w := Nat.mul_le_mul hvw.le hvw.le
    simp only [logregrIRLS, logRegrIRLSLength]
    omega
  · intro w hfits
    have hfields := logRegrIRLSFields_consecutive hfits
    refine ⟨(logRegrIRLSFields.logLikelihood w, 1), ?_, ?_⟩
    · simp [logregrIRLS, logRegrIRLSLayout, logRegrIRLSFields]
    · rw [hfields.logLikelihood_eq]
      exact hfields.length_eq.symm
  · intro w storage hfits hlen
    exact SumFields.reset_ok (logRegrIRLSFields_consecutive hfits) hlen
  · intro previous w storage row hfits hlen hrow
    exact logregrIRLSAddRow_ok hfits hlen hrow
  · intro w storage storage' row hfits hsame
    exact SumFields.terms_congr (logRegrIRLSFields_consecutive hfits) hsame
  · intro w storage row k hfits hintra
    exact SumFields.terms_zero (logRegrIRLSFields_consecutive hfits) hintra
  · intro w storage row hfits _
    exact SumFields.terms_numRows (logRegrIRLSFields_consecutive hfits)
  · intro w hfits
    have hcoef : 1 + w ≤ logRegrIRLSFields.numRows w :=
      (logRegrIRLSFields_consecutive hfits).coef_le
    have hwidth : 0 < logRegrIRLSFields.numRows w := by omega
    exact decide_eq_false (Nat.not_le.mpr hwidth)
  · intro w hfits
    exact decide_eq_true (le_refl (logRegrIRLSFields.numRows w))

variable [IsStrictOrderedRing α] {previous : Option (List α)} {plan : Plan (Bool × List α)}
  {rows : List (Bool × List α)}

theorem logregrCG_plansAgree (hprevious : (logregrCG sigma logOnePlusExp).IsPrevious previous)
    (hplan : plan.rows = rows) (hrows : ∀ row ∈ rows, row.2.length = w) :
    (logregrCG sigma logOnePlusExp).PlansAgree previous w rows plan
      (logRegrCGFields.Sums sigma logOnePlusExp (fun y xc => sigma (-y * xc) * y) w
        (logRegrCGLength w) ((logregrCG sigma logOnePlusExp).start previous w) rows) := by
  apply logregrCG_sumsStep.plansAgree logregrCG_guards _ hprevious hplan hrows
  · intro hfits hmatch
    apply SumFields.sums_summed (logRegrCGFields_consecutive hfits) rfl
      (logregrCG_sumsStep.sumsOver hfits hmatch) (fun row hrow => hrows row hrow)
    intro k hk
    exact IterationMethod.base_eq_start hmatch (decide_eq_false (Nat.not_le.mpr hk))
  · intro w hfits
    exact SumFields.addsIntra (logRegrCGFields_consecutive hfits) rfl

theorem logregrIRLS_plansAgree (hprevious : (logregrIRLS sigma logOnePlusExp).IsPrevious previous)
    (hplan : plan.rows = rows) (hrows : ∀ row ∈ rows, row.2.length = w) :
    (logregrIRLS sigma logOnePlusExp).PlansAgree previous w rows plan
      (logRegrIRLSFields.Sums sigma logOnePlusExp
        (fun y xc => xc * (sigma xc * sigma (-xc)) + sigma (-y * xc) * y) w
        (logRegrIRLSLength w) ((logregrIRLS sigma logOnePlusExp).start previous w) rows) := by
  apply logregrIRLS_sumsStep.plansAgree logregrIRLS_guards _ hprevious hplan hrows
  · intro hfits hmatch
    apply SumFields.sums_summed (logRegrIRLSFields_consecutive hfits) rfl
      (logregrIRLS_sumsStep.sumsOver hfits hmatch) (fun row hrow => hrows row hrow)
    intro k hk
    exact IterationMethod.base_eq_start hmatch (decide_eq_false (Nat.not_le.mpr hk))
  · intro w hfits
    exact SumFields.addsIntra (logRegrIRLSFields_consecutive hfits) rfl

/-- However the rows of an iteration are cut into segments and the states are merged, the state
of one pass over all rows is returned. -/
theorem logregr_step_partition_independent (hplan : plan.rows = rows)
    (hrows : ∀ row ∈ rows, row.2.length = w) :
    (∀ previous, (logregrCG sigma logOnePlusExp).IsPrevious previous →
      (logregrCG sigma logOnePlusExp).PlansAgree previous w rows plan
        (logRegrCGFields.Sums sigma logOnePlusExp (fun y xc => sigma (-y * xc) * y) w
          (logRegrCGLength w) ((logregrCG sigma logOnePlusExp).start previous w) rows)) ∧
    ∀ previous, (logregrIRLS sigma logOnePlusExp).IsPrevious previous →
      (logregrIRLS sigma logOnePlusExp).PlansAgree previous w rows plan
        (logRegrIRLSFields.Sums sigma logOnePlusExp
          (fun y xc => xc * (sigma xc * sigma (-xc)) + sigma (-y * xc) * y) w
          (logRegrIRLSLength w) ((logregrIRLS sigma logOnePlusExp).start previous w) rows) := by
  constructor
  · intro previous hprevious
    exact logregrCG_plansAgree hprevious hplan hrows
  · intro previous hprevious
    exact logregrIRLS_plansAgree hprevious hplan hrows

end Methods

def twoRows : List (Bool × List ℚ) := [(true, [3]), (false, [5])]

/-- The two rows in two of three segments, the second row first. -/
def threeSegments : Plan (Bool × List ℚ) :=
  .merged (.segment [(false, [5])]) (.merged (.segment []) (.segment [(true, [3])]))

theorem logregr_step_threeSegments :
    (∀ previous, (logregrCG (fun _ : ℚ => 1 / 2) fun _ => 0).IsPrevious previous →
      (logregrCG (fun _ : ℚ => 1 / 2) fun _ => 0).PlansAgree previous 1 twoRows threeSegments
        (logRegrCGFields.Sums (fun _ => 1 / 2) (fun _ => 0) (fun y _ => 1 / 2 * y) 1
          (logRegrCGLength 1) ((logregrCG (fun _ : ℚ => 1 / 2) fun _ => 0).start previous 1)
          twoRows)) ∧
    ∀ previous, (logregrIRLS (fun _ : ℚ => 1 / 2) fun _ => 0).IsPrevious previous →
      (logregrIRLS (fun _ : ℚ => 1 / 2) fun _ => 0).PlansAgree previous 1 twoRows threeSegments
        (logRegrIRLSFields.Sums (fun _ => 1 / 2) (fun _ => 0)
          (fun y xc => xc * (1 / 2 * (1 / 2)) + 1 / 2 * y) 1 (logRegrIRLSLength 1)
          ((logregrIRLS (fun _ : ℚ => 1 / 2) fun _ => 0).start previous 1) twoRows) := by
  have hplan : threeSegments.rows = twoRows := Multiset.coe_eq_coe.mpr (List.Perm.swap _ _ _)
  have hrows : ∀ row ∈ twoRows, row.2.length = 1 := by
    unfold twoRows
    simp
  exact logregr_step_partition_independent hplan hrows

end Madlib.Regress
