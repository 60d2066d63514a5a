import Madlib.Svec.Hash
import Madlib.Svec.Overlap
import Madlib.Svec.Operators
import Madlib.Svec.Comparison

/-!
# Item sets as svecs

`assoc_rules` keeps a set of products as an svec with an element for every product, which is 1 for
the products of the set and 0 for the others.  Its queries take such svecs apart with the svec
operators, so these become operations on sets.  The arithmetic of the svec functions is a
parameter.
-/

namespace Madlib.AssocRules

open Madlib.Backend Madlib.Lib.MachineInt Madlib.Lib.RunLength Madlib.Svec
open Madlib.Svec.CountCode

/-- The float8 1. -/
def one : Float8 := 0x3FF0000000000000

/-! ## Svecs in their maximal runs -/

/-- The svec that `svec_from_sparsedata` makes of the maximal runs of `values`. -/
structure HoldsRuns (svec : SvecType) (values : List Float8) : Prop where
  packed : Packed (sdataFromSvec svec) values
  dimension_eq : svec.dimension =
    if svec.totalValueCount = 1 then -1 else svec.totalValueCount

section HoldsRuns

variable {svec svec1 svec2 : SvecType} {values xs ys : List Float8}

theorem HoldsRuns.wellFormed (h : HoldsRuns svec values) : WellFormed (sdataFromSvec svec) :=
  h.packed.wellFormed

theorem HoldsRuns.total_eq (h : HoldsRuns svec values) :
    svec.totalValueCount.toInt = values.length := by
  have hlength := h.wellFormed.truthful.length_dense
  rw [h.packed.dense_eq] at hlength
  exact hlength.symm

theorem HoldsRuns.total_congr (h1 : HoldsRuns svec1 xs) (h2 : HoldsRuns svec2 ys)
    (hlength : xs.length = ys.length) : svec1.totalValueCount = svec2.totalValueCount := by
  rw [← Int32.toInt_inj, h1.total_eq, h2.total_eq, hlength]

/-- A stored svec is no larger than an allocation. -/
theorem HoldsRuns.packedSize_le (h : HoldsRuns svec values) : packedSize values ≤ maxAllocSize := by
  have hvals : 8 * (runLens values).length ≤ svec.valsMaxlen := by
    have hlength := h.packed.hasRuns.length_runs.trans h.packed.hasRuns.length_vals.symm
    rw [hlength]
    exact svec.vals_le
  have hindex : (rleBytes (runLens values)).length ≤ svec.indexMaxlen := by
    have hdata : (if svec.indexMaxlen = 0 then none else some svec.index) =
      some (rleBytes (runLens values)) := h.packed.index_eq
    by_cases hzero : svec.indexMaxlen = 0
    · rw [if_pos hzero] at hdata
      cases hdata
    · rw [if_neg hzero, Option.some.injEq] at hdata
      rw [← hdata]
      exact svec.index_le
  have hsize := svec.size_le
  unfold packedSize
  unfold svecSize at hsize ⊢
  omega

theorem HoldsRuns.valid (h : HoldsRuns svec values) : (Operand.svec svec).Valid := by
  have hpositive := h.wellFormed.one_le_total
  rw [totalValueCount_sdataFromSvec] at hpositive
  refine ⟨h.wellFormed, ?_, ?_⟩
  · rw [h.dimension_eq]
    constructor
    · intro hminus
      by_contra hone
      rw [if_neg hone] at hminus
      rw [hminus] at hpositive
      exact absurd hpositive (by decide)
    · intro hone
      rw [if_pos hone]
  · rw [h.dimension_eq]
    by_cases hone : svec.totalValueCount = 1
    · exact .inl (if_pos hone)
    · rw [if_neg hone]
      exact .inr (by omega)

theorem Packed.of_sameData {s t : SparseData} (h : Packed t values) (hsame : SameData s t) :
    Packed s values :=
  { hasRuns := hsame.hasRuns h.hasRuns
    wellFormed := hsame.wellFormed h.wellFormed
    dense_eq := hsame.dense_eq.trans h.dense_eq
    isChain := hsame.vals ▸ h.isChain
    index_eq := hsame.index.trans h.index_eq }

/-- A binary operator on two svecs of one length, which is not that of a scalar. -/
theorem svecBySvec_holdsRuns (name : String) (operation : Operation) (arith : Arith)
    (h1 : HoldsRuns svec1 xs) (h2 : HoldsRuns svec2 ys) (hlength : xs.length = ys.length)
    (hscalar : xs.length ≠ 1)
    (hsize : packedSize (List.zipWith (arith operation) xs ys) ≤ maxAllocSize) :
    ∃ svec bound, (∀ fuel, bound ≤ fuel →
        svecBySvec name operation fuel arith svec1 svec2 = some (.ok svec)) ∧
      HoldsRuns svec (List.zipWith (arith operation) xs ys) := by
  have htotal := h1.total_congr h2 hlength
  have hone1 : svec1.totalValueCount ≠ 1 := by
    intro hone
    have hvalue := h1.total_eq
    rw [hone] at hvalue
    have hvalue1 : (1 : Int32).toInt = 1 := rfl
    omega
  have hone2 : svec2.totalValueCount ≠ 1 := htotal ▸ hone1
  have ⟨sdata, bound, hret, hpacked⟩ := opSdataBySdata_packed arith operation h1.wellFormed
    h2.wellFormed htotal
  rw [h1.packed.dense_eq, h2.packed.dense_eq] at hpacked
  have htrimmed := hsize
  rw [← hpacked.trimmedSize_eq] at htrimmed
  have ⟨svec, hsvec, hdimension, hsame⟩ := svecFromSparsedata_wellFormed hpacked.wellFormed
    htrimmed
  have hresult : HoldsRuns svec (List.zipWith (arith operation) xs ys) := by
    constructor
    · exact Packed.of_sameData hpacked hsame
    · rw [hdimension, ← hsame.total]
      rfl
  refine ⟨svec, bound, fun fuel hfuel => ?_, hresult⟩
  have hheader : svec1.dimension = svec2.dimension := by
    rw [h1.dimension_eq, h2.dimension_eq, htotal]
  have hcheck : checkDimension svec1 svec2 name = .ok () := by
    unfold checkDimension
    rw [hheader]
    simp
  unfold svecBySvec
  rw [hcheck]
  show svecOperateOnSdataPair fuel arith (checkScalar svec1.isScalar svec2.isScalar) operation
    (sdataFromSvec svec1) (sdataFromSvec svec2) = _
  rw [isScalar_sdataFromSvec h1.valid, isScalar_sdataFromSvec h2.valid,
    isScalar_eq_false h1.wellFormed hone1, isScalar_eq_false h2.wellFormed hone2]
  show (opSdataBySdata fuel arith operation (sdataFromSvec svec1) (sdataFromSvec svec2)).map
    (fun result => result >>= fun sdata => svecFromSparsedata sdata true) = _
  rw [hret fuel hfuel, Option.map_some, ok_bind, hsvec]

end HoldsRuns

/-! ## Item sets -/

section ItemSets

variable {m : Nat} {svec svec1 svec2 : SvecType} {S T : Finset (Fin m)}

/-- 1 for the products of the set. -/
def indicator (S : Finset (Fin m)) : List Float8 := List.ofFn fun i => if i ∈ S then one else 0

/-- The svec of a set of products. -/
def IsItemset (svec : SvecType) (S : Finset (Fin m)) : Prop := HoldsRuns svec (indicator S)

@[simp] theorem length_indicator (S : Finset (Fin m)) : (indicator S).length = m := by
  rw [indicator, List.length_ofFn]

theorem getElem?_indicator (S : Finset (Fin m)) (i : Fin m) :
    (indicator S)[i.val]? = some (if i ∈ S then one else 0) := by
  rw [indicator, List.getElem?_ofFn, dif_pos i.isLt]

theorem indicator_injective : Function.Injective (indicator : Finset (Fin m) → List Float8) := by
  intro S T h
  ext i
  have hi : (indicator S)[i.val]? = (indicator T)[i.val]? := by rw [h]
  rw [getElem?_indicator, getElem?_indicator, Option.some.injEq] at hi
  by_cases hS : i ∈ S
  · by_cases hT : i ∈ T
    · exact iff_of_true hS hT
    · rw [if_pos hS, if_neg hT] at hi
      exact absurd hi (by decide)
  · by_cases hT : i ∈ T
    · rw [if_neg hS, if_pos hT] at hi
      exact absurd hi (by decide)
    · exact iff_of_false hS hT

theorem IsItemset.unique (hS : IsItemset svec S) (hT : IsItemset svec T) : S = T :=
  indicator_injective (hS.packed.dense_eq.symm.trans hT.packed.dense_eq)

/-- The hash of an item set is that of any svec of it. -/
theorem IsItemset.hash_congr {toUshort : Float8 → UInt16} (h1 : IsItemset svec1 S)
    (h2 : IsItemset svec2 S) : svecHash toUshort svec1 = svecHash toUshort svec2 := by
  have hruns := h1.packed.hasRuns.runLengths_eq.trans h2.packed.hasRuns.runLengths_eq.symm
  have hequal : SparsedataEq (sdataFromSvec svec1) (sdataFromSvec svec2) := by
    rw [sparsedataEq_iff h1.wellFormed.proper h2.wellFormed.proper, h1.packed.dense_eq,
      h2.packed.dense_eq]
  have ⟨hash, hhash1, hhash2⟩ :=
    svecHash_congr toUshort h1.wellFormed.proper h2.wellFormed.proper hequal hruns
  rw [hhash1, hhash2]

/-- Operations on the elements are operations on the sets. -/
theorem zipWith_indicator {f : Float8 → Float8 → Float8} {R : Finset (Fin m)}
    (h : ∀ i, f (if i ∈ S then one else 0) (if i ∈ T then one else 0) =
      if i ∈ R then one else 0) :
    List.zipWith f (indicator S) (indicator T) = indicator R := by
  apply List.ext_getElem?
  intro p
  by_cases hp : p < m
  · have hi := h ⟨p, hp⟩
    rw [List.getElem?_zipWith, getElem?_indicator S ⟨p, hp⟩, getElem?_indicator T ⟨p, hp⟩,
      getElem?_indicator R ⟨p, hp⟩]
    exact congrArg some hi
  · rw [List.getElem?_eq_none (by simp; omega), List.getElem?_eq_none (by simp; omega)]

/-! ## Containment -/

theorem containsNonzero_indicator :
    ContainsNonzero (indicator S) (indicator T) ↔ T ⊆ S := by
  constructor
  · intro h i hi
    have hT : (indicator T)[i.val]? = some one := by rw [getElem?_indicator, if_pos hi]
    have hS := h i.val one hT (by decide)
    rw [getElem?_indicator, Option.some.injEq] at hS
    by_contra hout
    rw [if_neg hout] at hS
    exact absurd hS (by decide)
  · intro h p w hw hnonzero
    have hp : p < m := by
      have hlt := (List.getElem?_eq_some_iff.mp hw).1
      rwa [length_indicator] at hlt
    rw [getElem?_indicator T ⟨p, hp⟩, Option.some.injEq] at hw
    by_cases hi : (⟨p, hp⟩ : Fin m) ∈ T
    · rw [if_pos hi] at hw
      rw [getElem?_indicator S ⟨p, hp⟩, if_pos (h hi), hw]
    · rw [if_neg hi] at hw
      rw [← hw] at hnonzero
      exact absurd hnonzero (by decide)

/-- `svec_contains` tells whether the second set is part of the first. -/
theorem svecContains_itemset (hS : IsItemset svec1 S) (hT : IsItemset svec2 T) :
    Answers (fun fuel => svecContains fuel svec1 svec2) (decide (T ⊆ S)) := by
  have hlengths : NothingHidden (sdataFromSvec svec1).dense (sdataFromSvec svec2).dense := by
    rw [hS.packed.dense_eq, hT.packed.dense_eq]
    exact .inl (by simp)
  have ⟨b, hb, hiff⟩ :=
    (decidesContainment_iff hS.wellFormed.proper hT.wellFormed.proper).mpr hlengths
  rw [hS.packed.dense_eq, hT.packed.dense_eq, containsNonzero_indicator] at hiff
  have heq : b = decide (T ⊆ S) := by
    rw [Bool.eq_iff_iff, hiff, decide_eq_true_iff]
  exact heq ▸ hb

/-! ## Difference -/

/-- How zeros and ones are subtracted. -/
structure SubtractsBits (arith : Arith) : Prop where
  one_one : arith .subtract one one = 0
  one_zero : arith .subtract one 0 = one
  zero_zero : arith .subtract 0 0 = 0

theorem zipWith_subtract {arith : Arith} (h : SubtractsBits arith) (hsub : T ⊆ S) :
    List.zipWith (arith .subtract) (indicator S) (indicator T) = indicator (S \ T) := by
  apply zipWith_indicator
  intro i
  by_cases hT : i ∈ T
  · have hout : i ∉ S \ T := fun hboth => (Finset.mem_sdiff.mp hboth).2 hT
    rw [if_pos hT, if_pos (hsub hT), if_neg hout]
    exact h.one_one
  · by_cases hS : i ∈ S
    · have hin : i ∈ S \ T := Finset.mem_sdiff.mpr ⟨hS, hT⟩
      rw [if_neg hT, if_pos hS, if_pos hin]
      exact h.one_zero
    · have hout : i ∉ S \ T := fun hboth => hS (Finset.mem_sdiff.mp hboth).1
      rw [if_neg hT, if_neg hS, if_neg hout]
      exact h.zero_zero

/-- `svec_minus` takes a part out of a set, if there is room for what is left. -/
theorem svecMinus_itemset {arith : Arith} (harith : SubtractsBits arith)
    (hS : IsItemset svec1 S) (hT : IsItemset svec2 T) (hsub : T ⊆ S) (hm : m ≠ 1)
    (hsize : packedSize (indicator (S \ T)) ≤ maxAllocSize) :
    ∃ svec bound, (∀ fuel, bound ≤ fuel → svecMinus fuel arith svec1 svec2 = some (.ok svec)) ∧
      IsItemset svec (S \ T) := by
  have hsubtract := zipWith_subtract harith hsub
  have hresult := svecBySvec_holdsRuns "svec_minus" .subtract arith hS hT (by simp) (by simpa)
    (hsubtract ▸ hsize)
  rw [hsubtract] at hresult
  exact hresult

/-! ## The number of items -/

/-- `myabs` -/
def myabs (x : Float8) : Float8 :=
  if float8Lt x 0 then x ^^^ 0x8000000000000000 else x

def l1normSdataValuesDouble (arith : Float8Arith) (sdata : SparseData) : Except Fault Float8 :=
  accumSdataValuesDouble arith sdata myabs

def svecL1norm (arith : Float8Arith) (svec : SvecType) : Except Fault (Option Float8) := do
  let accum ← l1normSdataValuesDouble arith (sdataFromSvec svec)
  pure (if accum = NVP then none else some accum)

/-- The float8 2. -/
def two : Float8 := 0x4000000000000000

/-- Counts up to a bound are added without rounding, and compared with 2. -/
structure CountsUpTo (arith : Float8Arith) (m : Nat) : Prop where
  zero : arith.ofInt64 0 = 0
  add : ∀ a b : Nat, a + b ≤ m →
    arith.add (arith.ofInt64 a) (arith.ofInt64 b) = arith.ofInt64 (a + b : Nat)
  one_mul : ∀ n : Nat, n ≤ m → arith.mul one (arith.ofInt64 n) = arith.ofInt64 n
  zero_mul : ∀ n : Nat, n ≤ m → arith.mul 0 (arith.ofInt64 n) = 0
  ne_nvp : ∀ n : Nat, n ≤ m → arith.ofInt64 n ≠ NVP
  lt_two : ∀ n : Nat, n ≤ m → float8Lt (arith.ofInt64 n) two = decide (n < 2)

/-- The loop over the runs adds up the lengths of the runs of ones. -/
theorem accumRounds_bits {arith : Float8Arith} (h : CountsUpTo arith m) {sdata : SparseData}
    {runs : List Nat} {vals : List Float8} {i : Nat} {ix : IndexPtr} (hindex : IndexRuns ix runs)
    (hdrop : sdata.vals.drop i = vals) (hlength : runs.length = vals.length)
    (hbits : ∀ v ∈ vals, v = one ∨ v = 0) {counted : Nat} (hsum : counted + runs.sum ≤ m) :
    accumRounds arith myabs sdata runs.length i ix (arith.ofInt64 counted) =
      .ok (arith.ofInt64 (counted + (expand runs vals).count one : Nat)) := by
  induction runs generalizing vals i ix counted with
  | nil =>
      rw [expand_nil, List.count_nil]
      rfl
  | cons n runs ih =>
      have ⟨v, vals', ptr, hvals, ⟨hrun, hv, hadvance⟩, hindex', hdrop', hlength'⟩ :=
        hindex.next hdrop hlength
      subst hvals
      have ⟨hbit, hbits'⟩ := List.forall_mem_cons.mp hbits
      rw [List.sum_cons] at hsum
      rw [List.length_cons, accumRounds, hrun, ok_bind, hv, ok_bind, hadvance, ok_bind, expand_cons,
        List.count_append]
      rcases hbit with rfl | rfl
      · have hround : arith.add (arith.ofInt64 counted)
            (arith.mul (myabs one) (arith.ofInt64 n)) = arith.ofInt64 (counted + n : Nat) := by
          rw [show myabs one = one from by decide, h.one_mul n (by omega),
            h.add counted n (by omega)]
        rw [hround, ih hindex' hdrop' hlength' hbits' (by omega), List.count_replicate_self,
          Nat.add_assoc]
      · have hround : arith.add (arith.ofInt64 counted)
            (arith.mul (myabs 0) (arith.ofInt64 n)) = arith.ofInt64 counted := by
          have hzero := h.add counted 0 (by omega)
          rw [Nat.add_zero] at hzero
          rw [show myabs 0 = 0 from by decide, h.zero_mul n (by omega), ← h.zero]
          exact hzero
        have hnone : (List.replicate n (0 : Float8)).count one = 0 :=
          List.count_eq_zero.mpr fun hmem => absurd (List.eq_of_mem_replicate hmem) (by decide)
        rw [hround, ih hindex' hdrop' hlength' hbits' (by omega), hnone, Nat.zero_add]

theorem count_indicator (S : Finset (Fin m)) : (indicator S).count one = S.card := by
  have hfilter : (List.finRange m).filter (fun i => decide (i ∈ S)) =
      (List.finRange m).filter fun i => (if i ∈ S then one else 0) == one := by
    apply List.filter_congr
    intro i _
    by_cases hi : i ∈ S <;> simp [hi, one]
  have hnodup := (List.nodup_finRange m).filter fun i => decide (i ∈ S)
  calc (indicator S).count one
      = ((List.finRange m).filter fun i => (if i ∈ S then one else 0) == one).length := by
        rw [indicator, List.ofFn_eq_map, List.count, List.countP_map, List.countP_eq_length_filter]
        rfl
    _ = ((List.finRange m).filter fun i => decide (i ∈ S)).toFinset.card := by
        rw [← hfilter, List.toFinset_card_of_nodup hnodup]
    _ = S.card := by
        congr 1
        ext i
        simp

/-- `svec_l1norm` counts the items of a set. -/
theorem svecL1norm_itemset {arith : Float8Arith} (h : CountsUpTo arith m) (hS : IsItemset svec S) :
    svecL1norm arith svec = .ok (some (arith.ofInt64 (S.card : Nat))) := by
  have hruns := hS.packed.hasRuns
  have hlength := hruns.length_runs.trans hruns.length_vals.symm
  have ⟨runs, hruns', hpositive, htotal⟩ := hS.wellFormed.exists_runs
  have hsame : runs = runLens (indicator S) :=
    Option.some.inj (hruns'.runLengths_eq.symm.trans hruns.runLengths_eq)
  rw [hsame] at hpositive htotal
  have hdense : expand (runLens (indicator S)) (sdataFromSvec svec).vals = indicator S :=
    hruns.dense_eq.symm.trans hS.packed.dense_eq
  have hbits : ∀ v ∈ (sdataFromSvec svec).vals, v = one ∨ v = 0 := by
    intro v hv
    have hmem := mem_expand hpositive hlength hv
    rw [hdense, indicator, List.mem_ofFn] at hmem
    have ⟨i, hi⟩ := hmem
    rw [← hi]
    by_cases hin : i ∈ S
    · exact .inl (if_pos hin)
    · exact .inr (if_neg hin)
  have hsum : 0 + (runLens (indicator S)).sum ≤ m := by
    have hlen := length_expand hlength
    rw [hdense, length_indicator] at hlen
    omega
  have haccum := accumRounds_bits h hruns.index List.drop_zero hlength hbits hsum
  rw [hdense, Nat.zero_add, count_indicator, hruns.length_runs, Nat.cast_zero, h.zero] at haccum
  have hle : S.card ≤ m := (Finset.card_le_univ S).trans_eq (Fintype.card_fin m)
  unfold svecL1norm l1normSdataValuesDouble accumSdataValuesDouble
  rw [haccum, ok_bind, if_neg (h.ne_nvp _ hle)]
  rfl

end ItemSets

end Madlib.AssocRules
