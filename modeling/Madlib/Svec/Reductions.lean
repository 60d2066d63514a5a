import Madlib.Lib.Double
import Madlib.Svec.Selection
import Madlib.AssocRules.ItemSets

/-!
# Reductions

Sums and norms are accumulated run by run, a run's term times its length.  A dot product multiplies
first, which leaves the maximal runs of the products.  As long as no operation rounds, the results
are the sums over the elements.
-/

namespace Madlib.Svec

open Madlib.Backend Madlib.Lib Madlib.Lib.MachineInt Madlib.Lib.RunLength CountCode
open Madlib.AssocRules (myabs l1normSdataValuesDouble svecL1norm)

/-! ## The functions -/

def sumSdataValuesDouble (arith : Float8Arith) (sdata : SparseData) : Except Fault Float8 :=
  accumSdataValuesDouble arith sdata id

/-- NULL for NVP -/
def returnFloat8 (result : Float8) : Option Float8 := if result = NVP then none else some result

def svecSummate (arith : Float8Arith) (svec : SvecType) : Except Fault (Option Float8) := do
  let accum ← sumSdataValuesDouble arith (sdataFromSvec svec)
  pure (returnFloat8 accum)

def svecL2norm (arith : Float8Arith) (svec : SvecType) : Except Fault (Option Float8) := do
  let accum ← l2normSdataValuesDouble arith (sdataFromSvec svec)
  pure (returnFloat8 accum)

/-- A reduction of a float8[]. -/
def float8arrReduce (reduce : SparseData → Except Fault Float8) (array : ArrayType) :
    Except Fault (Option Float8) := do
  let sdata ← sdataUncompressedFromFloat8arr array
  let result ← reduce sdata
  pure (returnFloat8 result)

def float8arrSummate (arith : Float8Arith) := float8arrReduce (sumSdataValuesDouble arith)
def float8arrL1norm (arith : Float8Arith) := float8arrReduce (l1normSdataValuesDouble arith)
def float8arrL2norm (arith : Float8Arith) := float8arrReduce (l2normSdataValuesDouble arith)

/-- The sum of the products, which `op_sdata_by_sdata` makes first. -/
def sumOfProducts (fuel : Nat) (ops : Arith) (arith : Float8Arith) (left right : SparseData) :
    Option (Except Fault (Option Float8)) :=
  (opSdataBySdata fuel ops .multiply left right).map fun multResult => do
    let accum ← sumSdataValuesDouble arith (← multResult)
    pure (returnFloat8 accum)

/-- `svec_dot`, with `svec_svec_dot_product` -/
def svecDot (fuel : Nat) (ops : Arith) (arith : Float8Arith) (svec1 svec2 : SvecType) :
    Option (Except Fault (Option Float8)) :=
  match checkDimension svec1 svec2 "svec_svec_dot_product" with
  | .error e => some (.error e)
  | .ok () => sumOfProducts fuel ops arith (sdataFromSvec svec1) (sdataFromSvec svec2)

/-- A dot product of operands of which one at least is an array. -/
def operandDot (fuel : Nat) (ops : Arith) (arith : Float8Arith) (l r : Operand) :
    Option (Except Fault (Option Float8)) :=
  match l.sdata, r.sdata with
  | .error e, _ => some (.error e)
  | .ok _, .error e => some (.error e)
  | .ok left, .ok right => sumOfProducts fuel ops arith left right

section Versions

variable (fuel : Nat) (ops : Arith) (arith : Float8Arith) (svec : SvecType)
  (arrLeft arrRight arr : ArrayType)

def float8arrDot := operandDot fuel ops arith (.float8arr arrLeft) (.float8arr arrRight)
def svecDotFloat8arr := operandDot fuel ops arith (.svec svec) (.float8arr arr)
def float8arrDotSvec := operandDot fuel ops arith (.float8arr arr) (.svec svec)

end Versions

/-! ## The numbers of float8s -/

/-- The number a float8 stands for, 0 if it stands for none. -/
def number (v : Float8) : ℚ := (Double.value v).getD 0

/-- Every element stands for a number. -/
def AllNumbers (values : List Float8) : Prop := ∀ v ∈ values, Double.value v ≠ none

theorem value_eq_number {v : Float8} (h : Double.value v ≠ none) :
    Double.value v = some (number v) := by
  have ⟨a, ha⟩ := Option.ne_none_iff_exists'.mp h
  rw [number, ha, Option.getD_some]

theorem AllNumbers.values {values : List Float8} (h : AllNumbers values) :
    Double.Values values (values.map number) := by
  unfold Double.Values
  rw [List.map_map]
  exact List.map_congr_left fun v hv => value_eq_number (h v hv)

theorem allNumbers_of_values {values : List Float8} {as : List ℚ}
    (h : Double.Values values as) : AllNumbers values ∧ values.map number = as := by
  constructor
  · intro v hv
    have hmem : Double.value v ∈ as.map some := by
      rw [← h]
      exact List.mem_map_of_mem hv
    have ⟨a, _, ha⟩ := List.mem_map.mp hmem
    rw [← ha]
    exact Option.some_ne_none a
  · calc values.map number = (values.map Double.value).map fun a => a.getD 0 := by
          rw [List.map_map]
          rfl
      _ = as := by
          rw [h, List.map_map]
          exact List.map_id as

theorem returnFloat8_of_value {r : Float8} {a : ℚ} (h : Double.value r = some a) :
    returnFloat8 r = some r := by
  have hne : r ≠ NVP := by
    rintro rfl
    cases h
  rw [returnFloat8, if_neg hne]

theorem float8Lt_zero_iff {v : Float8} {a : ℚ} (h : Double.value v = some a) :
    float8Lt v 0 = true ↔ a < 0 := by
  have hmagnitude := toNat_magnitude v
  have hside : v < 0x8000000000000000 ↔ v.toNat < 2 ^ 63 := UInt64.lt_iff_toNat_lt
  have hfinite : ¬ 2047 ≤ v.toNat % 2 ^ 63 / 2 ^ 52 := by
    intro hge
    rw [Double.value, if_pos hge] at h
    cases h
  have hnan : isNaN v = false := by
    unfold isNaN
    rw [decide_eq_false_iff_not, gt_iff_lt, UInt64.lt_iff_toNat_lt, hmagnitude]
    show ¬ 0x7FF0000000000000 < v.toNat % 9223372036854775808
    omega
  have hlt : float8Lt v 0 = true ↔ float8Key v < 0 := by
    unfold float8Lt
    rw [hnan, show isNaN 0 = false from rfl, show float8Key 0 = 0 from rfl]
    simp
  rw [hlt, float8Key, hmagnitude]
  simp only [hside]
  rw [Double.value, if_neg hfinite] at h
  split_ifs at h with hpositive
  · have hnonneg := Double.magnitude_nonneg (v.toNat % 2 ^ 63)
    rw [if_pos hpositive, ← Option.some.inj h]
    constructor <;> intro hneg
    · omega
    · exact absurd hneg (not_lt.mpr hnonneg)
  · rw [if_neg hpositive, ← Option.some.inj h]
    constructor
    · intro hneg
      exact neg_neg_of_pos (Double.magnitude_pos (by omega))
    · intro hneg
      by_contra hzero
      have hbits : v.toNat % 2 ^ 63 = 0 := by omega
      rw [hbits, Double.magnitude_zero, neg_zero] at hneg
      exact absurd hneg (lt_irrefl 0)

theorem value_myabs {v : Float8} {a : ℚ} (h : Double.value v = some a) :
    Double.value (myabs v) = some |a| := by
  have hneg := float8Lt_zero_iff h
  unfold myabs
  split_ifs with hlt
  · rw [Double.value_neg, h, abs_of_neg (hneg.mp hlt)]
    rfl
  · rw [h, abs_of_nonneg (not_lt.mp (mt hneg.mpr hlt))]

/-! ## Arithmetic that does not round -/

/-- The operations return the exact result whenever it is the number of a double. -/
structure Float8Arith.Correct (arith : Float8Arith) : Prop where
  add : Double.RoundsTo arith.add (· + ·)
  mul : Double.RoundsTo arith.mul (· * ·)
  sqrt : ∀ x b, Double.value x = some (b * b) → 0 ≤ b → Double.IsDouble b →
    Double.value (arith.sqrt x) = some b
  ofInt64 : ∀ n : ℤ, Double.IsDouble n → Double.value (arith.ofInt64 n) = some (n : ℚ)

/-- The exact results of the operations of the loop over the runs. -/
def accumResults : ℚ → List Nat → List ℚ → List ℚ
  | total, n :: runs, t :: terms =>
      t :: t * n :: (total + t * n) :: accumResults (total + t * n) runs terms
  | _, _, _ => []

/-- No operation of the loop rounds. -/
def SumsExactly (term : ℚ → ℚ) (sdata : SparseData) : Prop :=
  ∀ runs, HasRuns sdata runs →
    ∀ a ∈ accumResults 0 runs (sdata.vals.map fun v => term (number v)), Double.IsDouble a

/-! ## The loop over the runs -/

/-- What the loop makes of the accumulator. -/
def accumulated (arith : Float8Arith) (func : Float8 → Float8) :
    Float8 → List Nat → List Float8 → Float8
  | accum, n :: runs, v :: vals =>
      accumulated arith func (arith.add accum (arith.mul (func v) (arith.ofInt64 n))) runs vals
  | accum, _, _ => accum

theorem accumRounds_eq (arith : Float8Arith) (func : Float8 → Float8) {sdata : SparseData}
    {runs : List Nat} {vals : List Float8} {i : Nat} {ix : IndexPtr} (accum : Float8)
    (hindex : IndexRuns ix runs) (hdrop : sdata.vals.drop i = vals)
    (hlength : runs.length = vals.length) :
    accumRounds arith func sdata runs.length i ix accum =
      .ok (accumulated arith func accum runs vals) := by
  induction runs generalizing vals i ix accum with
  | nil =>
      rw [accumulated]
      · rfl
      · simp
  | cons n runs ih =>
      have ⟨v, vals', ptr, hvals, ⟨hrun, hv, hadvance⟩, hindex', hdrop', hlength'⟩ :=
        hindex.next hdrop hlength
      subst hvals
      rw [List.length_cons, accumRounds, hrun, ok_bind, hv, ok_bind, hadvance, ok_bind,
        ih _ hindex' hdrop' hlength', accumulated]

theorem HasRuns.accum_eq (arith : Float8Arith) (func : Float8 → Float8) {sdata : SparseData}
    {runs : List Nat} (h : HasRuns sdata runs) :
    accumSdataValuesDouble arith sdata func = .ok (accumulated arith func 0 runs sdata.vals) := by
  rw [accumSdataValuesDouble, ← h.length_runs]
  exact accumRounds_eq arith func 0 h.index List.drop_zero
    (h.length_runs.trans h.length_vals.symm)

/-- Rounds that do not round add up the terms of the elements. -/
theorem accumulated_exact {arith : Float8Arith} (harith : arith.Correct)
    {func : Float8 → Float8} {term : ℚ → ℚ} {runs : List Nat} {vals : List Float8}
    {accum : Float8} {total : ℚ} (hlength : runs.length = vals.length)
    (hruns : ∀ n ∈ runs, n < 2 ^ 53)
    (hfunc : ∀ v ∈ vals, Double.IsDouble (term (number v)) →
      Double.value (func v) = some (term (number v)))
    (haccum : Double.value accum = some total)
    (hexact : ∀ a ∈ accumResults total runs (vals.map fun v => term (number v)),
      Double.IsDouble a) :
    Double.value (accumulated arith func accum runs vals) =
      some (total + ((expand runs vals).map fun v => term (number v)).sum) := by
  induction runs generalizing vals accum total with
  | nil =>
      rw [expand_nil, List.map_nil, List.sum_nil, add_zero, accumulated]
      · exact haccum
      · simp
  | cons n runs ih =>
      have ⟨v, vals', hvals⟩ := List.exists_of_length_succ vals hlength.symm
      subst hvals
      have ⟨hn, hruns'⟩ := List.forall_mem_cons.mp hruns
      have ⟨hfuncv, hfunc'⟩ := List.forall_mem_cons.mp hfunc
      rw [List.map_cons, accumResults] at hexact
      have ⟨hterm, hexact⟩ := List.forall_mem_cons.mp hexact
      have ⟨hproduct, hexact⟩ := List.forall_mem_cons.mp hexact
      have ⟨hsum, hexact⟩ := List.forall_mem_cons.mp hexact
      have hcount : Double.value (arith.ofInt64 n) = some (n : ℚ) := by
        have hvalue := harith.ofInt64 n (Double.isDouble_intCast (by rwa [Int.natAbs_natCast]))
        rwa [Int.cast_natCast] at hvalue
      have hmul := harith.mul.value_eq (hfuncv hterm) hcount hproduct
      have hadd := harith.add.value_eq haccum hmul hsum
      rw [accumulated, ih (Nat.succ.inj hlength) hruns' hfunc' hadd hexact, expand_cons,
        List.map_append, List.sum_append, List.map_replicate, List.sum_replicate, nsmul_eq_mul,
        ← add_assoc, mul_comm]

/-- The numbers a SparseData stands for. -/
def SparseData.numbers (sdata : SparseData) : List ℚ := sdata.dense.map number

theorem accumSdataValuesDouble_exact {arith : Float8Arith} (harith : arith.Correct)
    {func : Float8 → Float8} {term : ℚ → ℚ} {sdata : SparseData} (h : WellFormed sdata)
    (hfunc : ∀ v ∈ sdata.dense, Double.IsDouble (term (number v)) →
      Double.value (func v) = some (term (number v)))
    (hexact : SumsExactly term sdata) :
    ∃ r, accumSdataValuesDouble arith sdata func = .ok r ∧
      Double.value r = some (sdata.numbers.map term).sum := by
  have ⟨runs, hruns, hpositive, htotal⟩ := h.exists_runs
  have hlength := hruns.length_runs.trans hruns.length_vals.symm
  have hmax := (int32_mem sdata.totalValueCount).2
  have hshort : ∀ n ∈ runs, n < 2 ^ 53 := by
    intro n hn
    have hle := List.le_sum_of_mem hn
    omega
  have hfunc' : ∀ v ∈ sdata.vals, Double.IsDouble (term (number v)) →
      Double.value (func v) = some (term (number v)) := by
    intro v hv
    refine hfunc v ?_
    rw [hruns.dense_eq]
    exact mem_expand hpositive hlength hv
  refine ⟨_, hruns.accum_eq arith func, ?_⟩
  rw [accumulated_exact harith hlength hshort hfunc' Double.value_zero (hexact runs hruns),
    zero_add, SparseData.numbers, List.map_map, hruns.dense_eq]
  rfl

/-! ## Sums and norms -/

section Norms

variable {arith : Float8Arith} (harith : arith.Correct) {sdata : SparseData}
  (h : WellFormed sdata) (hnumbers : AllNumbers sdata.dense)
include harith h hnumbers

theorem sumSdataValuesDouble_exact (hexact : SumsExactly id sdata) :
    ∃ r, sumSdataValuesDouble arith sdata = .ok r ∧
      Double.value r = some sdata.numbers.sum := by
  have hfunc : ∀ v ∈ sdata.dense, Double.IsDouble (id (number v)) →
      Double.value (id v) = some (id (number v)) := by
    intro v hv _
    exact value_eq_number (hnumbers v hv)
  have ⟨r, hr, hvalue⟩ := accumSdataValuesDouble_exact harith h hfunc hexact
  rw [List.map_id] at hvalue
  exact ⟨r, hr, hvalue⟩

theorem l1normSdataValuesDouble_exact (hexact : SumsExactly abs sdata) :
    ∃ r, l1normSdataValuesDouble arith sdata = .ok r ∧
      Double.value r = some (sdata.numbers.map abs).sum := by
  refine accumSdataValuesDouble_exact harith h ?_ hexact
  intro v hv _
  exact value_myabs (value_eq_number (hnumbers v hv))

/-- No operation of the norm rounds, the root included. -/
structure NormExact (sdata : SparseData) : Prop where
  sums : SumsExactly (· ^ 2) sdata
  root : ∃ b, 0 ≤ b ∧ Double.IsDouble b ∧ b ^ 2 = (sdata.numbers.map (· ^ 2)).sum

theorem l2normSdataValuesDouble_exact (hexact : NormExact sdata) :
    ∃ r b, l2normSdataValuesDouble arith sdata = .ok r ∧ Double.value r = some b ∧
      b ^ 2 = (sdata.numbers.map (· ^ 2)).sum := by
  have hfunc : ∀ v ∈ sdata.dense, Double.IsDouble (number v ^ 2) →
      Double.value (square arith v) = some (number v ^ 2) := by
    intro v hv hdouble
    have hvalue := value_eq_number (hnumbers v hv)
    rw [pow_two] at hdouble ⊢
    exact harith.mul.value_eq hvalue hvalue hdouble
  have ⟨r, hr, hvalue⟩ := accumSdataValuesDouble_exact harith h hfunc hexact.sums
  have ⟨b, hnonneg, hdouble, hsquare⟩ := hexact.root
  refine ⟨arith.sqrt r, b, ?_, ?_, hsquare⟩
  · rw [l2normSdataValuesDouble, hr]
    rfl
  · rw [← hsquare, pow_two] at hvalue
    exact harith.sqrt r b hvalue hnonneg hdouble

end Norms

/-! ## Dot products -/

/-- Maximal runs have one form. -/
theorem Packed.accum_eq (arith : Float8Arith) (func : Float8 → Float8) {s t : SparseData}
    {values : List Float8} (hs : Packed s values) (ht : Packed t values) :
    accumSdataValuesDouble arith s func = accumSdataValuesDouble arith t func := by
  have hlength := hs.hasRuns.length_runs.trans hs.hasRuns.length_vals.symm
  have hlength' := ht.hasRuns.length_runs.trans ht.hasRuns.length_vals.symm
  have ⟨runs, hruns, hpositive, _⟩ := hs.wellFormed.exists_runs
  rw [hruns.unique hs.hasRuns] at hpositive
  have hdense : expand (runLens values) s.vals = expand (runLens values) t.vals := by
    rw [← hs.hasRuns.dense_eq, ← ht.hasRuns.dense_eq, hs.dense_eq, ht.dense_eq]
  rw [hs.hasRuns.accum_eq, ht.hasRuns.accum_eq, expand_vals_inj hpositive hlength hlength' hdense]

/-- The products of the elements, as they are computed. -/
def productsOf (ops : Arith) (left right : SparseData) : List Float8 :=
  List.zipWith (ops .multiply) left.dense right.dense

/-- The result is that of any SparseData with the maximal runs of the products. -/
theorem sumOfProducts_eq (ops : Arith) (arith : Float8Arith) {left right s : SparseData}
    {r : Float8} (hl : WellFormed left) (hr : WellFormed right)
    (htotal : left.totalValueCount = right.totalValueCount)
    (hs : Packed s (productsOf ops left right))
    (hsum : sumSdataValuesDouble arith s = .ok r) :
    ∃ bound, ∀ fuel, bound ≤ fuel →
      sumOfProducts fuel ops arith left right = some (.ok (returnFloat8 r)) := by
  have ⟨t, bound, hret, ht⟩ := opSdataBySdata_packed ops .multiply hl hr htotal
  refine ⟨bound, fun fuel hfuel => ?_⟩
  have hsame : sumSdataValuesDouble arith t = .ok r := (ht.accum_eq arith id hs).trans hsum
  rw [sumOfProducts, hret fuel hfuel, Option.map_some, ok_bind, hsame]
  rfl

/-- No operation of the dot product rounds. -/
structure DotExact (ops : Arith) (left right : SparseData) : Prop where
  products : ∀ a ∈ List.zipWith (· * ·) left.numbers right.numbers, Double.IsDouble a
  sums : ∀ s, Packed s (productsOf ops left right) → SumsExactly id s

theorem value_products {ops : Arith} (hops : Double.RoundsTo (ops .multiply) (· * ·))
    {xs ys : List Float8} (hxs : AllNumbers xs) (hys : AllNumbers ys)
    (hexact : ∀ a ∈ List.zipWith (· * ·) (xs.map number) (ys.map number), Double.IsDouble a) :
    AllNumbers (List.zipWith (ops .multiply) xs ys) ∧
      (List.zipWith (ops .multiply) xs ys).map number =
        List.zipWith (· * ·) (xs.map number) (ys.map number) :=
  allNumbers_of_values (hops.values_zipWith hxs.values hys.values hexact)

theorem sumOfProducts_value {ops : Arith} (hops : Double.RoundsTo (ops .multiply) (· * ·))
    {arith : Float8Arith} (harith : arith.Correct) {left right s : SparseData}
    (hleft : AllNumbers left.dense) (hright : AllNumbers right.dense)
    (hs : Packed s (productsOf ops left right)) (hexact : DotExact ops left right) :
    ∃ r, sumSdataValuesDouble arith s = .ok r ∧
      Double.value r = some (List.zipWith (· * ·) left.numbers right.numbers).sum := by
  have ⟨hall, hmap⟩ := value_products hops hleft hright hexact.products
  rw [← productsOf, ← hs.dense_eq] at hall
  have ⟨r, hr, hvalue⟩ := sumSdataValuesDouble_exact harith hs.wellFormed hall (hexact.sums s hs)
  refine ⟨r, hr, ?_⟩
  rw [hvalue, SparseData.numbers, hs.dense_eq, productsOf, hmap]
  rfl

/-! ## Whole numbers -/

/-- Whole numbers are added up through smaller ones. -/
theorem accumResults_whole {runs : List Nat} {ns : List ℕ} (hpositive : ∀ n ∈ runs, 0 < n)
    (hlength : runs.length = ns.length) (total : ℕ) :
    ∀ a ∈ accumResults total runs (ns.map Nat.cast),
      ∃ m : ℕ, a = m ∧ m ≤ total + (expand runs ns).sum := by
  induction runs generalizing ns total with
  | nil =>
      intro a ha
      rw [accumResults] at ha
      · cases ha
      · simp
  | cons n runs ih =>
      have ⟨m, ns', hns⟩ := List.exists_of_length_succ ns hlength.symm
      subst hns
      have ⟨hn, hpositive'⟩ := List.forall_mem_cons.mp hpositive
      have hle : m ≤ n * m := Nat.le_mul_of_pos_left m hn
      have hnext : (total : ℚ) + m * n = (total + n * m : ℕ) := by
        push_cast
        ring
      rw [List.map_cons, accumResults, hnext, expand_cons, List.sum_append, List.sum_replicate,
        smul_eq_mul]
      intro a ha
      rcases List.mem_cons.mp ha with hterm | ha
      · exact ⟨m, hterm, by omega⟩
      rcases List.mem_cons.mp ha with hproduct | ha
      · refine ⟨n * m, ?_, by omega⟩
        rw [hproduct]
        push_cast
        ring
      rcases List.mem_cons.mp ha with hsum | ha
      · exact ⟨total + n * m, hsum, by omega⟩
      · have ⟨k, hk, hbound⟩ := ih hpositive' (Nat.succ.inj hlength) (total + n * m) a ha
        exact ⟨k, hk, by omega⟩

/-- Nothing is rounded when the terms are whole numbers with a sum below 2^53. -/
theorem sumsExactly_of_whole {term : ℚ → ℚ} {sdata : SparseData} (h : WellFormed sdata)
    (ns : List ℕ) (hns : sdata.numbers.map term = ns.map Nat.cast) (hsum : ns.sum < 2 ^ 53) :
    SumsExactly term sdata := by
  intro runs' hruns'
  have ⟨runs, hruns, hpositive, _⟩ := h.exists_runs
  rw [hruns'.unique hruns]
  have hlength := hruns.length_runs.trans hruns.length_vals.symm
  have hrange : (sdata.vals.map fun v => term (number v)) ∈
      Set.range (List.map (Nat.cast : ℕ → ℚ)) := by
    rw [Set.range_list_map]
    intro t ht
    have hmem : t ∈ sdata.numbers.map term := by
      have hdense := mem_expand hpositive (hlength.trans (List.length_map _).symm) ht
      rw [map_expand, ← hruns.dense_eq] at hdense
      rw [SparseData.numbers, List.map_map]
      exact hdense
    rw [hns] at hmem
    have ⟨n, _, hn⟩ := List.mem_map.mp hmem
    exact ⟨n, hn⟩
  have ⟨ms, hms⟩ := hrange
  have hexpand : (expand runs ms).map Nat.cast = ns.map (Nat.cast : ℕ → ℚ) := by
    rw [← map_expand, hms, map_expand, ← hruns.dense_eq, ← hns, SparseData.numbers,
      List.map_map]
    rfl
  have hsame : expand runs ms = ns := List.map_injective_iff.mpr Nat.cast_injective hexpand
  have hlengthms : runs.length = ms.length := by
    have hmap := congrArg List.length hms
    rw [List.length_map, List.length_map] at hmap
    exact hlength.trans hmap.symm
  intro a ha
  rw [← hms] at ha
  have ⟨m, hm, hbound⟩ := accumResults_whole hpositive hlengthms 0 a (by exact_mod_cast ha)
  rw [hsame] at hbound
  rw [hm]
  exact Double.isDouble_natCast (by omega)

/-! ## Representations -/

/-- The array has the elements of a SparseData. -/
def Holds (array : ArrayType) (sdata : SparseData) : Prop :=
  array.dims ≠ [] ∧ array.elements = sdata.dense.map some

theorem Holds.sdata_spec {array : ArrayType} {sdata : SparseData} (h : Holds array sdata)
    (hsdata : WellFormed sdata) :
    ∃ s, sdataUncompressedFromFloat8arr array = .ok s ∧ WellFormed s ∧ s.dense = sdata.dense ∧
      s.totalValueCount = sdata.totalValueCount := by
  have ⟨hdims, helements⟩ := h
  have ⟨s, hs, hwell, hdense, _⟩ := sdataUncompressedFromFloat8arr_spec hdims
  have hsame : s.dense = sdata.dense := by
    rw [hdense, helements, List.map_map]
    exact List.map_id _
  refine ⟨s, hs, hwell, hsame, ?_⟩
  rw [← Int32.toInt_inj, ← hwell.truthful.length_dense, ← hsdata.truthful.length_dense, hsame]

theorem checkDimension_ok {u v : SvecType} {msg : String}
    (h : u.isScalar = true ∨ v.isScalar = true ∨ u.dimension = v.dimension) :
    checkDimension u v msg = .ok () := by
  unfold checkDimension
  rcases h with hu | hv | hsame
  · simp [hu]
  · simp [hv]
  · simp [hsame]

/-! ## Sums over elements -/

/-- Reductions over the runs of svecs, in whatever representation, are reductions over their
elements, and a dot product does not depend on which of its operands are arrays. -/
theorem reductions_elementwise {arith : Float8Arith} (harith : arith.Correct) {ops : Arith}
    (hops : Double.RoundsTo (ops .multiply) (· * ·)) {u v : SvecType} {a b : ArrayType}
    (hu : WellFormed (sdataFromSvec u)) (hv : WellFormed (sdataFromSvec v))
    (htotal : u.totalValueCount = v.totalValueCount)
    (hheader : u.isScalar = true ∨ v.isScalar = true ∨ u.dimension = v.dimension)
    (ha : Holds a (sdataFromSvec u)) (hb : Holds b (sdataFromSvec v))
    (hunumbers : AllNumbers (sdataFromSvec u).dense)
    (hvnumbers : AllNumbers (sdataFromSvec v).dense) :
    (SumsExactly id (sdataFromSvec u) → ∃ r, svecSummate arith u = .ok (some r) ∧
      Double.value r = some (sdataFromSvec u).numbers.sum) ∧
    (SumsExactly abs (sdataFromSvec u) → ∃ r, svecL1norm arith u = .ok (some r) ∧
      Double.value r = some ((sdataFromSvec u).numbers.map abs).sum) ∧
    (NormExact (sdataFromSvec u) → ∃ r norm, svecL2norm arith u = .ok (some r) ∧
      Double.value r = some norm ∧
      norm ^ 2 = ((sdataFromSvec u).numbers.map (· ^ 2)).sum) ∧
    ∃ answer bound, (∀ fuel, bound ≤ fuel →
        svecDot fuel ops arith u v = some (.ok answer) ∧
        svecDotFloat8arr fuel ops arith u b = some (.ok answer) ∧
        float8arrDotSvec fuel ops arith v a = some (.ok answer) ∧
        float8arrDot fuel ops arith a b = some (.ok answer)) ∧
      (DotExact ops (sdataFromSvec u) (sdataFromSvec v) → ∃ r, answer = some r ∧
        Double.value r =
          some (List.zipWith (· * ·) (sdataFromSvec u).numbers (sdataFromSvec v).numbers).sum) := by
  refine ⟨fun hexact => ?_, fun hexact => ?_, fun hexact => ?_, ?_⟩
  · obtain ⟨r, hr, hvalue⟩ := sumSdataValuesDouble_exact harith hu hunumbers hexact
    refine ⟨r, ?_, hvalue⟩
    rw [svecSummate, hr, ok_bind, returnFloat8_of_value hvalue]
    rfl
  · obtain ⟨r, hr, hvalue⟩ := l1normSdataValuesDouble_exact harith hu hunumbers hexact
    have hreturn := returnFloat8_of_value hvalue
    refine ⟨r, ?_, hvalue⟩
    rw [svecL1norm, hr, ok_bind, ← returnFloat8, hreturn]
    rfl
  · obtain ⟨r, norm, hr, hvalue, hsquare⟩ :=
      l2normSdataValuesDouble_exact harith hu hunumbers hexact
    refine ⟨r, norm, ?_, hvalue, hsquare⟩
    rw [svecL2norm, hr, ok_bind, returnFloat8_of_value hvalue]
    rfl
  · obtain ⟨ua, hua, huawell, huadense, huatotal⟩ := ha.sdata_spec hu
    obtain ⟨vb, hvb, hvbwell, hvbdense, hvbtotal⟩ := hb.sdata_spec hv
    have htotal' : (sdataFromSvec u).totalValueCount = (sdataFromSvec v).totalValueCount := htotal
    obtain ⟨s, _, _, hs⟩ := opSdataBySdata_packed ops .multiply hu hv htotal'
    have hs : Packed s (productsOf ops (sdataFromSvec u) (sdataFromSvec v)) := hs
    have hs1 : Packed s (productsOf ops (sdataFromSvec u) vb) := by
      rw [productsOf, hvbdense]
      exact hs
    have hs2 : Packed s (productsOf ops ua (sdataFromSvec v)) := by
      rw [productsOf, huadense]
      exact hs
    have hs3 : Packed s (productsOf ops ua vb) := by
      rw [productsOf, huadense, hvbdense]
      exact hs
    obtain ⟨r, hr⟩ : ∃ r, sumSdataValuesDouble arith s = .ok r :=
      ⟨_, hs.hasRuns.accum_eq arith id⟩
    obtain ⟨bound, hret⟩ := sumOfProducts_eq ops arith hu hv htotal' hs hr
    obtain ⟨bound1, hret1⟩ :=
      sumOfProducts_eq ops arith hu hvbwell (htotal'.trans hvbtotal.symm) hs1 hr
    obtain ⟨bound2, hret2⟩ := sumOfProducts_eq ops arith huawell hv (huatotal.trans htotal') hs2 hr
    obtain ⟨bound3, hret3⟩ := sumOfProducts_eq ops arith huawell hvbwell
      (huatotal.trans (htotal'.trans hvbtotal.symm)) hs3 hr
    refine ⟨returnFloat8 r, bound + bound1 + bound2 + bound3, ?_, ?_⟩
    · intro fuel hfuel
      refine ⟨?_, ?_, ?_, ?_⟩
      · rw [svecDot, checkDimension_ok hheader]
        exact hret fuel (by omega)
      · simp only [svecDotFloat8arr, operandDot, Operand.sdata, hvb]
        exact hret1 fuel (by omega)
      · simp only [float8arrDotSvec, operandDot, Operand.sdata, hua]
        exact hret2 fuel (by omega)
      · simp only [float8arrDot, operandDot, Operand.sdata, hua, hvb]
        exact hret3 fuel (by omega)
    · intro hexact
      obtain ⟨r', hr', hvalue⟩ := sumOfProducts_value hops harith hunumbers hvnumbers hs hexact
      have hsame : r = r' := Except.ok.inj (hr.symm.trans hr')
      subst hsame
      exact ⟨r, returnFloat8_of_value hvalue, hvalue⟩

theorem float8arrReduce_eq {reduce : SparseData → Except Fault Float8} {array : ArrayType}
    {sdata : SparseData} {r : Float8} {a : ℚ}
    (hsdata : sdataUncompressedFromFloat8arr array = .ok sdata) (hr : reduce sdata = .ok r)
    (hvalue : Double.value r = some a) : float8arrReduce reduce array = .ok (some r) := by
  rw [float8arrReduce, hsdata, ok_bind, hr, ok_bind, returnFloat8_of_value hvalue]
  rfl

/-- The sum and the norms of an array, whose runs are of length one. -/
theorem float8arrReductions_elementwise {arith : Float8Arith} (harith : arith.Correct)
    {array : ArrayType} (hdims : array.dims ≠ []) :
    ∃ s, sdataUncompressedFromFloat8arr array = .ok s ∧
      s.dense = array.elements.map (fun v => v.getD NVP) ∧ (AllNumbers s.dense →
        (SumsExactly id s → ∃ r, float8arrSummate arith array = .ok (some r) ∧
          Double.value r = some s.numbers.sum) ∧
        (SumsExactly abs s → ∃ r, float8arrL1norm arith array = .ok (some r) ∧
          Double.value r = some (s.numbers.map abs).sum) ∧
        (NormExact s → ∃ r norm, float8arrL2norm arith array = .ok (some r) ∧
          Double.value r = some norm ∧ norm ^ 2 = (s.numbers.map (· ^ 2)).sum)) := by
  have ⟨s, hs, hwell, hdense, _⟩ := sdataUncompressedFromFloat8arr_spec hdims
  refine ⟨s, hs, hdense, fun hnumbers => ⟨fun hexact => ?_, fun hexact => ?_, fun hexact => ?_⟩⟩
  · have ⟨r, hr, hvalue⟩ := sumSdataValuesDouble_exact harith hwell hnumbers hexact
    exact ⟨r, float8arrReduce_eq hs hr hvalue, hvalue⟩
  · have ⟨r, hr, hvalue⟩ := l1normSdataValuesDouble_exact harith hwell hnumbers hexact
    exact ⟨r, float8arrReduce_eq hs hr hvalue, hvalue⟩
  · have ⟨r, norm, hr, hvalue, hsquare⟩ :=
      l2normSdataValuesDouble_exact harith hwell hnumbers hexact
    exact ⟨r, norm, float8arrReduce_eq hs hr hvalue, hvalue, hsquare⟩

/-- The arithmetic that encodes exact results. -/
def exactArith : Float8Arith where
  add := Double.exactOp (· + ·)
  mul := Double.exactOp (· * ·)
  sqrt x := Double.exactOp (fun a _ => a.sqrt) x x
  ofInt64 n := Double.encode n

def exactOps : Arith
  | .subtract => Double.exactOp (· - ·)
  | .add => Double.exactOp (· + ·)
  | .multiply => Double.exactOp (· * ·)
  | .divide => Double.exactOp (· / ·)

theorem correct_exactArith : exactArith.Correct where
  add := Double.roundsTo_exactOp (· + ·)
  mul := Double.roundsTo_exactOp (· * ·)
  sqrt x b hx hnonneg hdouble := by
    have hroot : (b * b).sqrt = b := by rw [Rat.sqrt_eq, abs_of_nonneg hnonneg]
    have hvalue := (Double.roundsTo_exactOp fun a _ => a.sqrt).value_eq hx hx
    rw [hroot] at hvalue
    exact hvalue hdouble
  ofInt64 n h := Double.value_encode h

/-- The svec `{2,1}:{2,1}`. -/
def twosOne : SvecType :=
  tightSvec 3 3 [0x4000000000000000, 0x3FF0000000000000] [254, 255] (by decide)

/-- The svec `{1,2}:{1,4}`. -/
def oneFours : SvecType :=
  tightSvec 3 3 [0x3FF0000000000000, 0x4010000000000000] [255, 254] (by decide)

theorem wellFormed_twosOne : WellFormed (sdataFromSvec twosOne) :=
  ⟨⟨[2, 1], .of_runLengths (by decide) rfl, by decide, by decide⟩, by decide⟩

theorem wellFormed_oneFours : WellFormed (sdataFromSvec oneFours) :=
  ⟨⟨[1, 2], .of_runLengths (by decide) rfl, by decide, by decide⟩, by decide⟩

theorem dense_twosOne : (sdataFromSvec twosOne).dense =
    [0x4000000000000000, 0x4000000000000000, 0x3FF0000000000000] := by
  decide

theorem dense_oneFours : (sdataFromSvec oneFours).dense =
    [0x3FF0000000000000, 0x4010000000000000, 0x4010000000000000] := by
  decide

theorem value_small : Double.value 0x3FF0000000000000 = some 1 ∧
    Double.value 0x4000000000000000 = some 2 ∧ Double.value 0x4010000000000000 = some 4 := by
  rw [@Double.value_of_toNat _ 0x3FF0000000000000 rfl (by norm_num),
    @Double.value_of_toNat _ 0x4000000000000000 rfl (by norm_num),
    @Double.value_of_toNat _ 0x4010000000000000 rfl (by norm_num)]
  norm_num [Double.magnitude, Double.significand]

theorem numbers_twosOne : AllNumbers (sdataFromSvec twosOne).dense ∧
    (sdataFromSvec twosOne).numbers = [2, 2, 1] := by
  have ⟨hone, htwo, _⟩ := value_small
  rw [SparseData.numbers, dense_twosOne]
  simp [AllNumbers, number, hone, htwo]

theorem numbers_oneFours : AllNumbers (sdataFromSvec oneFours).dense ∧
    (sdataFromSvec oneFours).numbers = [1, 4, 4] := by
  have ⟨hone, _, hfour⟩ := value_small
  rw [SparseData.numbers, dense_oneFours]
  simp [AllNumbers, number, hone, hfour]

theorem dotExact_twosOne_oneFours :
    DotExact exactOps (sdataFromSvec twosOne) (sdataFromSvec oneFours) := by
  have ⟨htwosOne, hnumbers⟩ := numbers_twosOne
  have ⟨honeFours, hnumbers'⟩ := numbers_oneFours
  have hwhole : List.zipWith (· * ·) (sdataFromSvec twosOne).numbers
      (sdataFromSvec oneFours).numbers = [2, 8, 4].map ((↑) : ℕ → ℚ) := by
    rw [hnumbers, hnumbers']
    norm_num
  have hproducts : ∀ a ∈ List.zipWith (· * ·) (sdataFromSvec twosOne).numbers
      (sdataFromSvec oneFours).numbers, Double.IsDouble a := by
    rw [hwhole]
    intro a ha
    have ⟨n, hn, hcast⟩ := List.mem_map.mp ha
    have hle := List.le_sum_of_mem hn
    rw [← hcast]
    exact Double.isDouble_natCast (by norm_num at hle; omega)
  refine ⟨hproducts, fun s hs => ?_⟩
  have hops : Double.RoundsTo (exactOps .multiply) (· * ·) := Double.roundsTo_exactOp (· * ·)
  have hmap := (value_products hops htwosOne honeFours hproducts).2
  have hs' : s.numbers.map id = [2, 8, 4].map ((↑) : ℕ → ℚ) := by
    rw [List.map_id, ← hwhole, SparseData.numbers, hs.dense_eq]
    exact hmap
  exact sumsExactly_of_whole hs.wellFormed [2, 8, 4] hs' (by norm_num)

theorem reductions_elementwise_three :
    (∃ r, svecSummate exactArith twosOne = .ok (some r) ∧ Double.value r = some 5) ∧
    (∃ r, svecL1norm exactArith twosOne = .ok (some r) ∧ Double.value r = some 5) ∧
    (∃ r norm, svecL2norm exactArith twosOne = .ok (some r) ∧ Double.value r = some norm ∧
      norm ^ 2 = 9) ∧
    ∃ r bound, (∀ fuel, bound ≤ fuel →
        svecDot fuel exactOps exactArith twosOne oneFours = some (.ok (some r))) ∧
      Double.value r = some 14 := by
  obtain ⟨htwosOne, hnumbers⟩ := numbers_twosOne
  obtain ⟨honeFours, hnumbers'⟩ := numbers_oneFours
  have hu := wellFormed_twosOne
  have hv := wellFormed_oneFours
  have ha : Holds (plainArray [0x4000000000000000, 0x4000000000000000, 0x3FF0000000000000]
      (by decide) (by decide)) (sdataFromSvec twosOne) := by
    refine ⟨List.cons_ne_nil _ _, ?_⟩
    rw [elements_plainArray, dense_twosOne]
  have hb : Holds (plainArray [0x3FF0000000000000, 0x4010000000000000, 0x4010000000000000]
      (by decide) (by decide)) (sdataFromSvec oneFours) := by
    refine ⟨List.cons_ne_nil _ _, ?_⟩
    rw [elements_plainArray, dense_oneFours]
  have hops : Double.RoundsTo (exactOps .multiply) (· * ·) := Double.roundsTo_exactOp (· * ·)
  obtain ⟨hsum, hl1, hl2, answer, bound, hcalls, hdot⟩ := reductions_elementwise
    correct_exactArith hops hu hv rfl (.inr (.inr rfl)) ha hb htwosOne honeFours
  rw [hnumbers] at hsum hl1 hl2 hdot
  rw [hnumbers'] at hdot
  have hsums : SumsExactly id (sdataFromSvec twosOne) :=
    sumsExactly_of_whole hu [2, 2, 1] (by rw [hnumbers]; norm_num) (by norm_num)
  have habs : SumsExactly abs (sdataFromSvec twosOne) :=
    sumsExactly_of_whole hu [2, 2, 1] (by rw [hnumbers]; norm_num) (by norm_num)
  have hsquares : SumsExactly (· ^ 2) (sdataFromSvec twosOne) :=
    sumsExactly_of_whole hu [4, 4, 1] (by rw [hnumbers]; norm_num) (by norm_num)
  have hnorm : NormExact (sdataFromSvec twosOne) := by
    refine ⟨hsquares, 3, by norm_num, ?_, ?_⟩
    · exact_mod_cast Double.isDouble_natCast (n := 3) (by norm_num)
    · rw [hnumbers]
      norm_num
  obtain ⟨r, hr, hvalue⟩ := hdot dotExact_twosOne_oneFours
  subst hr
  obtain ⟨norm, root, hnormOk, hroot, hsquare⟩ := hl2 hnorm
  norm_num at hsum hl1 hsquare hvalue
  exact ⟨hsum hsums, hl1 habs, ⟨norm, root, hnormOk, hroot, hsquare⟩, r, bound,
    fun fuel hfuel => (hcalls fuel hfuel).1, hvalue⟩

end Madlib.Svec
