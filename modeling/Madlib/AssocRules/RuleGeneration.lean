import Madlib.Lib.Statement
import Madlib.AssocRules.ItemSets

/-!
# Generating the rules

The last statement of `assoc_rules` crosses the frequent item sets with themselves, keeps the pairs
of a set and a smaller part of it, looks up what is left by its hash and keeps the confident rules.
Supports are numerics, whose division is any function of its own.
-/

namespace Madlib.AssocRules

open Madlib.Backend Madlib.Lib.RunLength Madlib.Lib.Statement Madlib.Svec

/-- What the svec functions take from their surroundings. -/
structure Surroundings where
  arith : Arith
  float8 : Float8Arith
  toUshort : Float8 → UInt16

/-- A call that is given too few rounds counts as an error. -/
def returned {α : Type} (call : Option (Except Fault α)) : Except Fault α :=
  call.getD (.error .unfinished)

section Statements

variable {K : Type}

/-- A row of `assoc_rule_sets`; the `set_name` is not read. -/
structure RuleSet (K : Type) where
  setList : SvecType
  hashKey : Int32
  support : K
  iteration : Int

/-- A row of the subquery `c`. -/
structure Split (K : Type) where
  setList : SvecType
  productX : SvecType
  productY : SvecType
  hashKey : Int32
  supportXy : K
  supportX : K

/-- A row of `assoc_rules`. -/
structure Rule (K : Type) where
  setList : SvecType
  hashKey : Int32
  subsetX : SvecType
  subsetY : SvecType
  supportXy : K
  confidenceXy : K
  liftXy : K
  convictionXy : K

section Arithmetic

variable [CommRing K] [Div K] [LinearOrder K]

def numericDiv (x y : K) : Except Fault K :=
  if y = 0 then .error (.elog "division by zero") else .ok (x / y)

/-- `a.iteration > b.iteration AND svec_contains (a.set_list, b.set_list) IS TRUE` -/
def isProperPart (fuel : Nat) (pair : RuleSet K × RuleSet K) : Except Fault Bool :=
  if pair.2.iteration < pair.1.iteration then
    returned (svecContains fuel pair.1.setList pair.2.setList)
  else .ok false

/-- The select list of the subquery. -/
def split (fuel : Nat) (env : Surroundings) (pair : RuleSet K × RuleSet K) :
    Except Fault (Split K) := do
  let productY ← returned (svecMinus fuel env.arith pair.1.setList pair.2.setList)
  pure
    { setList := pair.1.setList
      productX := pair.2.setList
      productY
      hashKey := pair.1.hashKey
      supportXy := pair.1.support
      supportX := pair.2.support }

/-- `svec_hash(c.product_y) = d.hash_key` -/
def onHashKey (env : Surroundings) (joined : Split K × RuleSet K) : Except Fault Bool := do
  let key ← svecHash env.toUshort joined.1.productY
  pure (key = joined.2.hashKey)

/-- `c.support_xy/c.support_x >= i_confidence AND svec_l1norm(c.set_list)>=2` -/
def isConfident (env : Surroundings) (iConfidence : K) (joined : Split K × RuleSet K) :
    Except Fault Bool := do
  let confidence ← numericDiv joined.1.supportXy joined.1.supportX
  let norm ← svecL1norm env.float8 joined.1.setList
  pure (iConfidence ≤ confidence && norm.any fun v => !float8Lt v two)

/-- The select list. -/
def rule (joined : Split K × RuleSet K) : Except Fault (Rule K) := do
  let confidence ← numericDiv joined.1.supportXy joined.1.supportX
  let lift ← numericDiv joined.1.supportXy (joined.1.supportX * joined.2.support)
  let conviction ← if confidence = 1 then .ok 0
    else numericDiv (1 - joined.2.support) (1 - confidence)
  pure
    { setList := joined.1.setList
      hashKey := joined.1.hashKey
      subsetX := joined.1.productX
      subsetY := joined.1.productY
      supportXy := joined.1.supportXy
      confidenceXy := confidence
      liftXy := lift
      convictionXy := conviction }

/-- `INSERT INTO .. assoc_rules SELECT ..` -/
def generateRules (fuel : Nat) (env : Surroundings) (assocRuleSets : List (RuleSet K))
    (iConfidence : K) : Except Fault (List (Rule K)) := do
  let pairs ← selectWhere (isProperPart fuel) (assocRuleSets ×ˢ assocRuleSets)
  let c ← pairs.mapM (split fuel env)
  let joined ← selectWhere (onHashKey env) (c ×ˢ assocRuleSets)
  let confident ← selectWhere (isConfident env iConfidence) joined
  confident.mapM rule

end Arithmetic

/-! ## Tables of item sets -/

/-- The arithmetic is exact on zeros, ones and counts of products, and the hash tells the item
sets apart. -/
structure Surroundings.Suits (env : Surroundings) (m : Nat) : Prop where
  subtracts : SubtractsBits env.arith
  counts : CountsUpTo env.float8 m
  separates : ∀ (svec1 svec2 : SvecType) (S T : Finset (Fin m)), IsItemset svec1 S →
    IsItemset svec2 T → (svecHash env.toUshort svec1 = svecHash env.toUshort svec2 ↔ S = T)

/-- A table with one row for each of the item sets, which is closed under parts. -/
structure IsRuleSets [Zero K] {m : Nat} (env : Surroundings) (itemsets : List (Finset (Fin m)))
    (row : Finset (Fin m) → RuleSet K) : Prop where
  nodup : itemsets.Nodup
  nonempty : ∀ S ∈ itemsets, S.Nonempty
  closed : ∀ S ∈ itemsets, ∀ T ⊆ S, T.Nonempty → T ∈ itemsets
  setList : ∀ S ∈ itemsets, IsItemset (row S).setList S
  hashKey : ∀ S ∈ itemsets, svecHash env.toUshort (row S).setList = .ok (row S).hashKey
  iteration : ∀ S ∈ itemsets, (row S).iteration = S.card
  support_ne : ∀ S ∈ itemsets, (row S).support ≠ 0

section Table

variable [CommRing K] {m : Nat} {env : Surroundings} {itemsets : List (Finset (Fin m))}
  {row : Finset (Fin m) → RuleSet K}
  {difference : Finset (Fin m) × Finset (Fin m) → SvecType}

/-- The pair is selected when the second set is a proper part of the first. -/
theorem isProperPart_eq (h : IsRuleSets env itemsets row) {pair : Finset (Fin m) × Finset (Fin m)}
    (hpair : pair ∈ itemsets ×ˢ itemsets) :
    ∃ bound, ∀ fuel, bound ≤ fuel →
      isProperPart fuel (Prod.map row row pair) = .ok (decide (pair.2 ⊂ pair.1)) := by
  have ⟨Z, X⟩ := pair
  have ⟨hZ, hX⟩ := List.mem_product.mp hpair
  have ⟨bound, hbound⟩ := svecContains_itemset (h.setList Z hZ) (h.setList X hX)
  have hless : (row X).iteration < (row Z).iteration ↔ X.card < Z.card := by
    rw [h.iteration Z hZ, h.iteration X hX, Nat.cast_lt]
  refine ⟨bound, fun fuel hfuel => ?_⟩
  unfold isProperPart
  dsimp only [Prod.map]
  by_cases hcard : X.card < Z.card
  · have hpart : X ⊆ Z ↔ X ⊂ Z := by
      rw [ssubset_iff_subset_ne]
      refine ⟨fun hsub => ⟨hsub, ?_⟩, fun hboth => hboth.1⟩
      rintro rfl
      exact lt_irrefl _ hcard
    have hcall : svecContains fuel (row Z).setList (row X).setList =
      some (.ok (decide (X ⊆ Z))) := hbound fuel hfuel
    rw [if_pos (hless.mpr hcard), hcall]
    exact congrArg Except.ok (decide_eq_decide.mpr hpart)
  · have hpart : ¬ X ⊂ Z := fun hss => hcard (Finset.card_lt_card hss)
    rw [if_neg (mt hless.mp hcard)]
    exact congrArg Except.ok (decide_eq_false hpart).symm

/-- The sets of the table, each with its proper parts. -/
def properPairs (itemsets : List (Finset (Fin m))) : List (Finset (Fin m) × Finset (Fin m)) :=
  (itemsets ×ˢ itemsets).filter fun pair => pair.2 ⊂ pair.1

/-- The row of the subquery for a set and a part of it. -/
def splitOf (row : Finset (Fin m) → RuleSet K)
    (difference : Finset (Fin m) × Finset (Fin m) → SvecType)
    (pair : Finset (Fin m) × Finset (Fin m)) : Split K :=
  { setList := (row pair.1).setList
    productX := (row pair.2).setList
    productY := difference pair
    hashKey := (row pair.1).hashKey
    supportXy := (row pair.1).support
    supportX := (row pair.2).support }

/-- What is left of a set is found in the table, so there is room for it. -/
theorem split_eq (h : IsRuleSets env itemsets row) (harith : SubtractsBits env.arith)
    {pair : Finset (Fin m) × Finset (Fin m)} (hZ : pair.1 ∈ itemsets) (hX : pair.2 ∈ itemsets)
    (hpart : pair.2 ⊂ pair.1) :
    ∃ svec, IsItemset svec (pair.1 \ pair.2) ∧ ∃ bound, ∀ fuel, bound ≤ fuel →
      split fuel env (Prod.map row row pair) = .ok (splitOf row (fun _ => svec) pair) := by
  have hrest : (pair.1 \ pair.2).Nonempty :=
    Finset.sdiff_nonempty.mpr (Finset.ssubset_def.mp hpart).2
  have hY := h.closed _ hZ _ Finset.sdiff_subset hrest
  have hm : m ≠ 1 := by
    have hless := Finset.card_lt_card hpart
    have hpositive := (h.nonempty _ hX).card_pos
    have hle : pair.1.card ≤ m := (Finset.card_le_univ _).trans_eq (Fintype.card_fin m)
    omega
  have ⟨difference, bound, hcall, hdifference⟩ := svecMinus_itemset harith (h.setList _ hZ)
    (h.setList _ hX) hpart.subset hm (h.setList _ hY).packedSize_le
  refine ⟨difference, hdifference, bound, fun fuel hfuel => ?_⟩
  have hreturned : returned (svecMinus fuel env.arith (row pair.1).setList
      (row pair.2).setList) = .ok difference := by
    rw [hcall fuel hfuel]
    rfl
  unfold split
  dsimp only [Prod.map]
  rw [hreturned]
  rfl

/-- The svecs of what is left, and a number of rounds that is enough for all of them. -/
theorem exists_differences (h : IsRuleSets env itemsets row) (harith : SubtractsBits env.arith) :
    ∃ difference : Finset (Fin m) × Finset (Fin m) → SvecType,
      (∀ pair ∈ properPairs itemsets,
        IsItemset (difference pair) (pair.1 \ pair.2)) ∧
      ∃ bound, ∀ fuel, bound ≤ fuel →
        ∀ pair ∈ properPairs itemsets,
          split fuel env (Prod.map row row pair) = .ok (splitOf row difference pair) := by
  have hsplit : ∀ pair, ∃ svec,
      pair ∈ properPairs itemsets →
      IsItemset svec (pair.1 \ pair.2) ∧ ∃ bound, ∀ fuel, bound ≤ fuel →
        split fuel env (Prod.map row row pair) = .ok (splitOf row (fun _ => svec) pair) := by
    intro pair
    by_cases hpair : pair ∈ properPairs itemsets
    · have ⟨hmem, hpart⟩ := List.mem_filter.mp hpair
      have ⟨hZ, hX⟩ := List.mem_product.mp hmem
      have ⟨svec, hsvec⟩ := split_eq h harith hZ hX (of_decide_eq_true hpart)
      exact ⟨svec, fun _ => hsvec⟩
    · exact ⟨(row pair.1).setList, fun hin => absurd hin hpair⟩
  choose difference hdifference using hsplit
  exact ⟨difference, fun pair hpair => (hdifference pair hpair).1,
    exists_common_bound fun pair hpair => (hdifference pair hpair).2⟩

/-- The joined row has what is left of the set on the right. -/
theorem onHashKey_eq (h : IsRuleSets env itemsets row) (henv : env.Suits m)
    {joined : (Finset (Fin m) × Finset (Fin m)) × Finset (Fin m)}
    (hdifference : IsItemset (difference joined.1) (joined.1.1 \ joined.1.2))
    (hZ : joined.1.1 ∈ itemsets) (hpart : joined.1.2 ⊂ joined.1.1) (hY : joined.2 ∈ itemsets) :
    onHashKey env (Prod.map (splitOf row difference) row joined) =
      .ok (decide (joined.2 = joined.1.1 \ joined.1.2)) := by
  have hrest : (joined.1.1 \ joined.1.2).Nonempty :=
    Finset.sdiff_nonempty.mpr (Finset.ssubset_def.mp hpart).2
  have hmem := h.closed _ hZ _ Finset.sdiff_subset hrest
  have hkey : svecHash env.toUshort (difference joined.1) =
      .ok (row (joined.1.1 \ joined.1.2)).hashKey := by
    rw [← h.hashKey _ hmem]
    exact (henv.separates _ _ _ _ hdifference (h.setList _ hmem)).mpr rfl
  have hsame : (row (joined.1.1 \ joined.1.2)).hashKey = (row joined.2).hashKey ↔
      joined.2 = joined.1.1 \ joined.1.2 := by
    rw [eq_comm (a := joined.2), ← henv.separates _ _ _ _ (h.setList _ hmem) (h.setList _ hY),
      h.hashKey _ hmem, h.hashKey _ hY, Except.ok.injEq]
  unfold onHashKey
  dsimp only [Prod.map, splitOf]
  rw [hkey, ok_bind]
  exact congrArg Except.ok (decide_eq_decide.mpr hsame)

end Table

section Result

variable [CommRing K] [NoZeroDivisors K] [Div K] [LinearOrder K] {m : Nat} {env : Surroundings}
  {itemsets : List (Finset (Fin m))} {row : Finset (Fin m) → RuleSet K}
  {difference : Finset (Fin m) × Finset (Fin m) → SvecType}

omit [NoZeroDivisors K] in
theorem numericDiv_of_ne {x y : K} (h : y ≠ 0) : numericDiv x y = .ok (x / y) := if_neg h

omit [NoZeroDivisors K] in
theorem isConfident_eq (h : IsRuleSets env itemsets row) (henv : env.Suits m) (iConfidence : K)
    {joined : (Finset (Fin m) × Finset (Fin m)) × Finset (Fin m)} (hZ : joined.1.1 ∈ itemsets)
    (hX : joined.1.2 ∈ itemsets) (hpart : joined.1.2 ⊂ joined.1.1) :
    isConfident env iConfidence (Prod.map (splitOf row difference) row joined) =
      .ok (decide (iConfidence ≤ (row joined.1.1).support / (row joined.1.2).support)) := by
  have hcard : ¬ joined.1.1.card < 2 := by
    have hless := Finset.card_lt_card hpart
    have hpositive := (h.nonempty _ hX).card_pos
    omega
  have hle : joined.1.1.card ≤ m := (Finset.card_le_univ _).trans_eq (Fintype.card_fin m)
  unfold isConfident
  dsimp only [Prod.map, splitOf]
  rw [numericDiv_of_ne (h.support_ne _ hX), ok_bind,
    svecL1norm_itemset henv.counts (h.setList _ hZ), ok_bind, Option.any_some,
    henv.counts.lt_two _ hle, decide_eq_false hcard, Bool.not_false, Bool.and_true]
  rfl

/-- The rule for a set, a part of it and what is left. -/
def ruleOf (row : Finset (Fin m) → RuleSet K)
    (difference : Finset (Fin m) × Finset (Fin m) → SvecType)
    (joined : (Finset (Fin m) × Finset (Fin m)) × Finset (Fin m)) : Rule K :=
  let confidence := (row joined.1.1).support / (row joined.1.2).support
  { setList := (row joined.1.1).setList
    hashKey := (row joined.1.1).hashKey
    subsetX := (row joined.1.2).setList
    subsetY := difference joined.1
    supportXy := (row joined.1.1).support
    confidenceXy := confidence
    liftXy := (row joined.1.1).support / ((row joined.1.2).support * (row joined.2).support)
    convictionXy :=
      if confidence = 1 then 0 else (1 - (row joined.2).support) / (1 - confidence) }

theorem rule_eq (h : IsRuleSets env itemsets row)
    {joined : (Finset (Fin m) × Finset (Fin m)) × Finset (Fin m)}
    (hX : joined.1.2 ∈ itemsets) (hY : joined.2 ∈ itemsets) :
    rule (Prod.map (splitOf row difference) row joined) = .ok (ruleOf row difference joined) := by
  have hproduct : (row joined.1.2).support * (row joined.2).support ≠ 0 :=
    mul_ne_zero (h.support_ne _ hX) (h.support_ne _ hY)
  unfold rule ruleOf
  dsimp only [Prod.map, splitOf]
  rw [numericDiv_of_ne (h.support_ne _ hX), ok_bind, numericDiv_of_ne hproduct, ok_bind]
  by_cases hone : (row joined.1.1).support / (row joined.1.2).support = 1
  · rw [if_pos hone, if_pos hone]
    rfl
  · rw [if_neg hone, if_neg hone, numericDiv_of_ne (sub_ne_zero.mpr (Ne.symm hone))]
    rfl

/-- The confident sets and parts, joined with what is left. -/
def confidentJoins (itemsets : List (Finset (Fin m))) (row : Finset (Fin m) → RuleSet K)
    (iConfidence : K) : List ((Finset (Fin m) × Finset (Fin m)) × Finset (Fin m)) :=
  ((properPairs itemsets ×ˢ itemsets).filter fun joined =>
    joined.2 = joined.1.1 \ joined.1.2).filter fun joined =>
      iConfidence ≤ (row joined.1.1).support / (row joined.1.2).support

omit [CommRing K] [NoZeroDivisors K] in
theorem mem_confidentJoins {iConfidence : K}
    {joined : (Finset (Fin m) × Finset (Fin m)) × Finset (Fin m)} :
    joined ∈ confidentJoins itemsets row iConfidence ↔
      ((joined.1.1 ∈ itemsets ∧ joined.1.2 ∈ itemsets) ∧ joined.1.2 ⊂ joined.1.1) ∧
        joined.2 ∈ itemsets ∧ joined.2 = joined.1.1 \ joined.1.2 ∧
          iConfidence ≤ (row joined.1.1).support / (row joined.1.2).support := by
  rw [confidentJoins, List.mem_filter, List.mem_filter, decide_eq_true_iff, decide_eq_true_iff,
    ← Prod.mk.eta (p := joined), List.mem_product, properPairs, List.mem_filter,
    ← Prod.mk.eta (p := joined.1), List.mem_product, decide_eq_true_iff]
  tauto

omit [NoZeroDivisors K] in
theorem nodup_confidentJoins (h : IsRuleSets env itemsets row) {iConfidence : K} :
    (confidentJoins itemsets row iConfidence).Nodup := by
  have hpairs : (properPairs itemsets).Nodup := (h.nodup.product h.nodup).filter _
  exact ((hpairs.product h.nodup).filter _).filter _

/-- The statement is one on the item sets. -/
theorem generateRules_eq (h : IsRuleSets env itemsets row) (henv : env.Suits m)
    (iConfidence : K) :
    ∃ difference : Finset (Fin m) × Finset (Fin m) → SvecType,
      (∀ pair ∈ properPairs itemsets, IsItemset (difference pair) (pair.1 \ pair.2)) ∧
      ∃ bound, ∀ fuel, bound ≤ fuel →
        generateRules fuel env (itemsets.map row) iConfidence =
          .ok ((confidentJoins itemsets row iConfidence).map (ruleOf row difference)) := by
  have ⟨difference, hdifference, bound, hsplit⟩ := exists_differences h henv.subtracts
  have ⟨bound', hproper⟩ := exists_common_bound fun pair hpair => isProperPart_eq h hpair
  refine ⟨difference, hdifference, max bound bound', fun fuel hfuel => ?_⟩
  have hpairs := selectWhere_map (hproper fuel (le_of_max_le_right hfuel))
  have hsplits := mapM_map (hsplit fuel (le_of_max_le_left hfuel))
  have hjoined : selectWhere (onHashKey env)
      ((properPairs itemsets).map (splitOf row difference) ×ˢ itemsets.map row) =
      .ok (((properPairs itemsets ×ˢ itemsets).filter fun joined =>
        joined.2 = joined.1.1 \ joined.1.2).map (Prod.map (splitOf row difference) row)) := by
    rw [product_map]
    apply selectWhere_map
    intro joined hmem
    have ⟨hpair, hY⟩ := List.mem_product.mp hmem
    have ⟨hsets, hpart⟩ := List.mem_filter.mp hpair
    exact onHashKey_eq h henv (hdifference _ hpair) (List.mem_product.mp hsets).1
      (of_decide_eq_true hpart) hY
  have hconfident : selectWhere (isConfident env iConfidence)
      (((properPairs itemsets ×ˢ itemsets).filter fun joined =>
        joined.2 = joined.1.1 \ joined.1.2).map (Prod.map (splitOf row difference) row)) =
      .ok ((confidentJoins itemsets row iConfidence).map
        (Prod.map (splitOf row difference) row)) := by
    apply selectWhere_map
    intro joined hmem
    have ⟨hpair, _⟩ := List.mem_product.mp (List.mem_filter.mp hmem).1
    have ⟨hsets, hpart⟩ := List.mem_filter.mp hpair
    have ⟨hZ, hX⟩ := List.mem_product.mp hsets
    exact isConfident_eq h henv iConfidence hZ hX (of_decide_eq_true hpart)
  have hrules : ((confidentJoins itemsets row iConfidence).map
      (Prod.map (splitOf row difference) row)).mapM rule =
      .ok ((confidentJoins itemsets row iConfidence).map (ruleOf row difference)) := by
    apply mapM_map
    intro joined hmem
    have ⟨hsets, hY, _⟩ := mem_confidentJoins.mp hmem
    exact rule_eq h hsets.1.2 hY
  unfold generateRules
  rw [product_map, hpairs, ok_bind]
  show ((properPairs itemsets).map (Prod.map row row)).mapM (split fuel env) >>= _ = _
  rw [hsplits, ok_bind, hjoined, ok_bind, hconfident, ok_bind, hrules]

/-- The rule is about a set and a part of it. -/
def Rule.IsAbout (r : Rule K) (Z X : Finset (Fin m)) : Prop :=
  IsItemset r.setList Z ∧ IsItemset r.subsetX X

/-- What a rule for a set and a part of it says. -/
structure Rule.Describes (r : Rule K) (row : Finset (Fin m) → RuleSet K)
    (Z X : Finset (Fin m)) : Prop where
  setList : IsItemset r.setList Z
  subsetX : IsItemset r.subsetX X
  subsetY : IsItemset r.subsetY (Z \ X)
  hashKey : r.hashKey = (row Z).hashKey
  supportXy : r.supportXy = (row Z).support
  confidenceXy : r.confidenceXy = (row Z).support / (row X).support
  liftXy : r.liftXy = (row Z).support / ((row X).support * (row (Z \ X)).support)

end Result

end Statements

/-! ## Two products -/

/-- The svecs of the sets of two products. -/
def pairSvec (S : Finset (Fin 2)) : SvecType :=
  if S = ∅ then zeroPair
  else if S = {0} then tightSvec 2 2 [one, 0] [255, 255] (by decide)
  else if S = {1} then tightSvec 2 2 [0, one] [255, 255] (by decide)
  else tightSvec 2 2 [one] [254] (by decide)

theorem isItemset_pairSvec (S : Finset (Fin 2)) : IsItemset (pairSvec S) S := by
  have hruns : ∀ S, (sdataFromSvec (pairSvec S)).runLengths = some (runLens (indicator S)) := by
    decide
  have hcount : ∀ S, (pairSvec S).vals.length = (pairSvec S).uniqueValueCount := by decide
  have hpositive : ∀ S : Finset (Fin 2), ∀ n ∈ runLens (indicator S), 0 < n := by decide
  have htotal : ∀ S, (pairSvec S).totalValueCount.toInt = (runLens (indicator S)).sum := by decide
  have hdense : ∀ S, (sdataFromSvec (pairSvec S)).dense = indicator S := by decide
  have hchain : ∀ S, (pairSvec S).vals.IsChain (· ≠ ·) := by decide
  have hindex : ∀ S, (sdataFromSvec (pairSvec S)).index.data =
      some (rleBytes (runLens (indicator S))) := by decide
  have hone : ∀ S, 1 ≤ (pairSvec S).totalValueCount.toInt := by decide
  have hdimension : ∀ S, (pairSvec S).dimension =
      if (pairSvec S).totalValueCount = 1 then -1 else (pairSvec S).totalValueCount := by decide
  have hhas : HasRuns (sdataFromSvec (pairSvec S)) (runLens (indicator S)) :=
    .of_runLengths (hruns S) (hcount S)
  exact
    { packed :=
        { hasRuns := hhas
          wellFormed := ⟨⟨_, hhas, hpositive S, htotal S⟩, hone S⟩
          dense_eq := hdense S
          isChain := hchain S
          index_eq := hindex S }
      dimension_eq := hdimension S }

/-- The surroundings of two products. -/
def pairSurroundings : Surroundings where
  arith _ x y := if y = 0 then x else if x = y then 0 else NVP
  float8 :=
    { add := fun x y => if x = 0 then y else if y = 0 then x else two
      mul := fun x y => if x = one then y else 0
      sqrt := id
      ofInt64 := fun n => if n = 0 then 0 else if n = 1 then one else two }
  toUshort v := if v = one then 1 else 0

theorem suits_pairSurroundings : pairSurroundings.Suits 2 := by
  have hadd : ∀ a b : Fin 3, a.val + b.val ≤ 2 →
      pairSurroundings.float8.add (pairSurroundings.float8.ofInt64 a.val)
        (pairSurroundings.float8.ofInt64 b.val) =
        pairSurroundings.float8.ofInt64 (a.val + b.val : Nat) := by decide
  have hmul : ∀ n : Fin 3, pairSurroundings.float8.mul 0 (pairSurroundings.float8.ofInt64 n.val) =
      0 := by decide
  have hnvp : ∀ n : Fin 3, pairSurroundings.float8.ofInt64 n.val ≠ NVP := by decide
  have htwo : ∀ n : Fin 3, float8Lt (pairSurroundings.float8.ofInt64 n.val) two =
      decide (n.val < 2) := by decide
  have hkeys : ∀ S T, svecHash pairSurroundings.toUshort (pairSvec S) =
      svecHash pairSurroundings.toUshort (pairSvec T) ↔ S = T := by decide
  exact
    { subtracts := ⟨rfl, rfl, rfl⟩
      counts :=
        { zero := rfl
          add := fun a b h => hadd ⟨a, by omega⟩ ⟨b, by omega⟩ h
          one_mul := fun _ _ => rfl
          zero_mul := fun n h => hmul ⟨n, by omega⟩
          ne_nvp := fun n h => hnvp ⟨n, by omega⟩
          lt_two := fun n h => htwo ⟨n, by omega⟩ }
      separates := by
        intro svec1 svec2 S T hS hT
        rw [hS.hash_congr (isItemset_pairSvec S), hT.hash_congr (isItemset_pairSvec T)]
        exact hkeys S T }

/-- The second product is always bought, the first by every other customer. -/
def pairRow (S : Finset (Fin 2)) : RuleSet ℚ where
  setList := pairSvec S
  hashKey := (svecHash pairSurroundings.toUshort (pairSvec S)).toOption.getD 0
  support := if S = {1} then 1 else 1 / 2
  iteration := S.card

theorem isRuleSets_pairRow : IsRuleSets pairSurroundings [{0}, {1}, {0, 1}] pairRow where
  nodup := by decide
  nonempty := by decide
  closed := by decide
  setList S _ := isItemset_pairSvec S
  hashKey := by decide
  iteration _ _ := rfl
  support_ne S _ := by
    unfold pairRow
    dsimp only
    split <;> norm_num

end Madlib.AssocRules
