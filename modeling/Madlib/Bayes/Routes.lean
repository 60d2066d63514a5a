import Mathlib
import Madlib.Bayes.ClassScores

/-!
# One score, three queries

The query that is grouped by key returns for each key what the query over a single array returns
for its attributes.  Over the counts of the training data, a class has the score of the formula
next to the NULL that is added for every class.
-/

namespace Madlib.Bayes

open Madlib.Lib.ThreeValued
open Madlib.Lib.Relation

section Queries

variable {α κ : Type} [Field α] [LinearOrder α] [DecidableEq κ] {log : α → α}
variable {featureProbsSource : Multiset FeatureProb} {classPriorsSource : Multiset ClassPrior}
variable {numAttrs : ℤ} {smoothingFactor : α}

/-- The attributes with their values. -/
def classifyRows (numAttrs : ℤ) (attributes : List (Option ℤ)) : Multiset (ℕ × Option ℤ) :=
  (generateSeries numAttrs).map fun attr => (attr, attributeAt attributes attr)

variable (featureProbsSource classPriorsSource numAttrs smoothingFactor) in
/-- The feature probabilities from which the score of a class is computed. -/
def joinedProbs (attributes : List (Option ℤ)) (priors : ClassPrior) : Multiset FeatureProb :=
  ((((featureProbsSource ×ˢ classPriorsSource) ×ˢ classifyRows numAttrs attributes).filter fun row =>
    joinCondition smoothingFactor row.1.1 row.1.2 row.2.1 row.2.2).filter
      fun row => row.1.2 = priors).map fun row => row.1.1

/-- The rows of one key are the attributes of its record. -/
theorem filter_classify {classifySource : Multiset (ClassifyRow κ)}
    (hkeys : (classifySource.map (·.key)).Nodup) {record : ClassifyRow κ}
    (hrecord : record ∈ classifySource) :
    ((classifySource ×ˢ generateSeries numAttrs).map fun row =>
      (row.1.key, row.2, attributeAt row.1.attributes row.2)).filter (fun row =>
        row.1 = record.key) =
      (classifyRows numAttrs record.attributes).map (Prod.mk record.key) := by
  have hsource : classifySource.Nodup := Multiset.Nodup.of_map _ hkeys
  rw [Multiset.filter_map, filter_product_of_fst (a := record) hsource hrecord]
  · have hall : (generateSeries numAttrs).filter (fun _ => record.key = record.key) =
        generateSeries numAttrs := Multiset.filter_eq_self.mpr fun _ _ => rfl
    rw [Multiset.map_map, classifyRows, Multiset.map_map]
    exact congrArg (Multiset.map _) hall
  · intro pair hpair hkey
    exact Multiset.inj_on_of_nodup_map hkeys _ (Multiset.mem_product.mp hpair).1 _ hrecord hkey

variable (featureProbsSource classPriorsSource numAttrs smoothingFactor) in
/-- The group of a key and a class has the feature probabilities of the record. -/
theorem joined_group {classifySource : Multiset (ClassifyRow κ)}
    (hkeys : (classifySource.map (·.key)).Nodup) {record : ClassifyRow κ}
    (hrecord : record ∈ classifySource) (priors : ClassPrior) :
    ((((featureProbsSource ×ˢ classPriorsSource) ×ˢ
      (classifySource ×ˢ generateSeries numAttrs).map fun row =>
        (row.1.key, row.2, attributeAt row.1.attributes row.2)).filter fun row =>
          joinCondition smoothingFactor row.1.1 row.1.2 row.2.2.1 row.2.2.2).filter
            fun row => (row.2.1, row.1.2) = (record.key, priors)).map (fun row => row.1.1) =
      joinedProbs featureProbsSource classPriorsSource numAttrs smoothingFactor record.attributes
        priors := by
  set classes := featureProbsSource ×ˢ classPriorsSource
  set classify := (classifySource ×ˢ generateSeries numAttrs).map fun row =>
    (row.1.key, row.2, attributeAt row.1.attributes row.2)
  have hclassify : (classes ×ˢ classify).filter (fun row => row.2.1 = record.key) =
      (classes ×ˢ classifyRows numAttrs record.attributes).map
        (Prod.map id (Prod.mk record.key)) := by
    rw [← product_map_right, ← filter_classify hkeys hrecord]
    exact (product_filter_right fun row : κ × ℕ × Option ℤ => row.1 = record.key).symm
  have hsplit : ((classes ×ˢ classify).filter fun row =>
        joinCondition smoothingFactor row.1.1 row.1.2 row.2.2.1 row.2.2.2).filter
          (fun row => (row.2.1, row.1.2) = (record.key, priors)) =
      (((classes ×ˢ classify).filter fun row => row.2.1 = record.key).filter fun row =>
        joinCondition smoothingFactor row.1.1 row.1.2 row.2.2.1 row.2.2.2).filter
          fun row => row.1.2 = priors := by
    simp only [Multiset.filter_filter]
    refine Multiset.filter_congr fun row _ => ?_
    rw [Prod.mk.injEq]
    tauto
  rw [hsplit, hclassify, Multiset.filter_map, Multiset.filter_map, Multiset.map_map]
  rfl

section Rows

variable {attributes : List (Option ℤ)} {cls : Option ℤ} {value : Option α}

variable (log featureProbsSource classPriorsSource numAttrs smoothingFactor attributes) in
/-- A score is computed for each class with a joined feature probability, and NULL is added for
every class. -/
def IsProbValue (cls : Option ℤ) (value : Option α) : Prop :=
  (∃ priors, (∃ probs, probs ∈ joinedProbs featureProbsSource classPriorsSource numAttrs
      smoothingFactor attributes priors) ∧ priors.cls = cls ∧
    logProb log numAttrs smoothingFactor priors (joinedProbs featureProbsSource classPriorsSource
      numAttrs smoothingFactor attributes priors) = value) ∨
    (∃ priors ∈ classPriorsSource, priors.cls = cls) ∧ value = none

theorem mem_getProbValuesSql : (cls, value) ∈ getProbValuesSql log featureProbsSource
    classPriorsSource numAttrs smoothingFactor attributes ↔
      IsProbValue log featureProbsSource classPriorsSource numAttrs smoothingFactor attributes cls
        value := by
  unfold getProbValuesSql IsProbValue
  dsimp only
  rw [mem_union, mem_groupBy_map]
  refine or_congr ?_ ?_
  · constructor
    · rintro ⟨row, hrow, heq⟩
      obtain ⟨hcls, hvalue⟩ := Prod.mk.injEq .. ▸ heq
      exact ⟨row.1.2, ⟨row.1.1, Multiset.mem_map.mpr ⟨row, Multiset.mem_filter.mpr ⟨hrow, rfl⟩,
        rfl⟩⟩, hcls, hvalue⟩
    · rintro ⟨priors, ⟨probs, hprobs⟩, rfl, rfl⟩
      obtain ⟨row, hrow, rfl⟩ := Multiset.mem_map.mp hprobs
      obtain ⟨hjoined, rfl⟩ := Multiset.mem_filter.mp hrow
      exact ⟨row, hjoined, rfl⟩
  · simp only [Multiset.mem_map, Prod.mk.injEq]
    constructor
    · rintro ⟨priors, hpriors, hcls, hvalue⟩
      exact ⟨⟨priors, hpriors, hcls⟩, hvalue.symm⟩
    · rintro ⟨⟨priors, hpriors, hcls⟩, hvalue⟩
      exact ⟨priors, hpriors, hcls, hvalue.symm⟩

theorem mem_getKeysAndProbValuesSql {classifySource : Multiset (ClassifyRow κ)}
    (hkeys : (classifySource.map (·.key)).Nodup) {record : ClassifyRow κ}
    (hrecord : record ∈ classifySource) :
    (record.key, cls, value) ∈ getKeysAndProbValuesSql log featureProbsSource classPriorsSource
      numAttrs smoothingFactor classifySource ↔
    IsProbValue log featureProbsSource classPriorsSource numAttrs smoothingFactor
      record.attributes cls value := by
  unfold getKeysAndProbValuesSql IsProbValue
  dsimp only
  rw [mem_union, mem_groupBy_map, mem_groupBy_map]
  refine or_congr ?_ ?_
  · constructor
    · rintro ⟨row, hrow, heq⟩
      simp only [Prod.mk.injEq] at heq
      obtain ⟨hkey, hcls, hvalue⟩ := heq
      have hgroup := joined_group featureProbsSource classPriorsSource numAttrs smoothingFactor
        hkeys hrecord row.1.2
      simp only [hkey, Prod.mk.injEq] at hvalue hgroup
      rw [hgroup] at hvalue
      refine ⟨row.1.2, ⟨row.1.1, ?_⟩, hcls, hvalue⟩
      rw [← hgroup]
      exact Multiset.mem_map.mpr ⟨row, Multiset.mem_filter.mpr ⟨hrow, hkey, rfl⟩, rfl⟩
    · rintro ⟨priors, ⟨probs, hprobs⟩, rfl, rfl⟩
      have hgroup := joined_group featureProbsSource classPriorsSource numAttrs smoothingFactor
        hkeys hrecord priors
      rw [← hgroup] at hprobs
      obtain ⟨row, hrow, rfl⟩ := Multiset.mem_map.mp hprobs
      obtain ⟨hjoined, hboth⟩ := Multiset.mem_filter.mp hrow
      obtain ⟨hkey, rfl⟩ := Prod.mk.inj hboth
      refine ⟨row, hjoined, ?_⟩
      rw [hkey, hgroup]
  · constructor
    · rintro ⟨⟨record', priors⟩, hpair, heq⟩
      simp only [Prod.mk.injEq] at heq
      exact ⟨⟨priors, (Multiset.mem_product.mp hpair).2, heq.2.1⟩, heq.2.2.symm⟩
    · rintro ⟨⟨priors, hpriors, rfl⟩, rfl⟩
      exact ⟨(record, priors), Multiset.mem_product.mpr ⟨hrecord, hpriors⟩, rfl⟩

end Rows

variable (log featureProbsSource classPriorsSource numAttrs smoothingFactor) in
/-- The query that is grouped by key classifies each record like the query over one array. -/
theorem filter_getKeysAndProbValuesSql {classifySource : Multiset (ClassifyRow κ)}
    (hkeys : (classifySource.map (·.key)).Nodup) {record : ClassifyRow κ}
    (hrecord : record ∈ classifySource) :
    ((getKeysAndProbValuesSql log featureProbsSource classPriorsSource numAttrs smoothingFactor
      classifySource).filter fun row => row.1 = record.key).map Prod.snd =
    getProbValuesSql log featureProbsSource classPriorsSource numAttrs smoothingFactor
      record.attributes := by
  have hleft : (((getKeysAndProbValuesSql log featureProbsSource classPriorsSource numAttrs
      smoothingFactor classifySource).filter fun row => row.1 = record.key).map Prod.snd).Nodup := by
    refine Multiset.Nodup.map_on (fun row hrow row' hrow' heq => ?_)
      ((nodup_union _ _).filter _)
    exact Prod.ext ((Multiset.mem_filter.mp hrow).2.trans (Multiset.mem_filter.mp hrow').2.symm) heq
  have hright : (getProbValuesSql log featureProbsSource classPriorsSource numAttrs smoothingFactor
      record.attributes).Nodup := nodup_union _ _
  refine (Multiset.Nodup.ext hleft hright).mpr ?_
  rintro ⟨cls, value⟩
  rw [mem_getProbValuesSql, ← mem_getKeysAndProbValuesSql hkeys hrecord, Multiset.mem_map]
  constructor
  · rintro ⟨⟨key, row⟩, hrow, rfl⟩
    obtain ⟨hmem, rfl⟩ := Multiset.mem_filter.mp hrow
    exact hmem
  · intro hmem
    exact ⟨_, Multiset.mem_filter.mpr ⟨hmem, rfl⟩, rfl⟩

end Queries

/-! ## The scores -/

section Scores

variable {α : Type} [Field α] [LinearOrder α]

variable {log : α → α} {trainingSource : Multiset TrainingRow} {numAttrs : ℤ}
  {smoothingFactor : α} {attributes : List (Option ℤ)}

variable (trainingSource attributes) in
/-- The feature probability of a class at an attribute of the record. -/
def probsOf (c : ℤ) (attr : ℕ) : FeatureProb :=
  ⟨some c, attr, attributeAt attributes attr,
    tripleCount trainingSource (some c) attr (attributeAt attributes attr),
    attrCount trainingSource attr⟩

theorem joinCondition_iff (hsmoothing : 0 < smoothingFactor) {probs : FeatureProb}
    {priors : ClassPrior} {attr : ℕ} {value : Option ℤ} :
    joinCondition smoothingFactor probs priors attr value = true ↔
      ((∃ c, probs.cls = some c ∧ priors.cls = some c) ∧ probs.attr = attr) ∧
        ∃ a, probs.value = some a ∧ value = some a := by
  unfold joinCondition
  simp only [Truth.isTrue_and, Truth.isTrue_or, Truth.isTrue_some, Bool.and_eq_true, isTrue_eq,
    beq_iff_eq, decide_eq_true hsmoothing, Bool.true_or, and_true]

theorem mem_joinedProbs (hsmoothing : 0 < smoothingFactor) {priors : ClassPrior}
    {probs : FeatureProb} :
    probs ∈ joinedProbs (featureProbs trainingSource numAttrs) (getClassPriorsSql trainingSource)
      numAttrs smoothingFactor attributes priors ↔
    ∃ c, IsClass trainingSource (some c) ∧ priors = priorOf trainingSource (some c) ∧
      ∃ attr ∈ generateSeries numAttrs, (attributeAt attributes attr).isSome ∧
        Occurs trainingSource attr (attributeAt attributes attr) ∧
          probs = probsOf trainingSource attributes c attr := by
  unfold joinedProbs classifyRows
  simp only [Multiset.mem_map, Multiset.mem_filter, Multiset.mem_product,
    joinCondition_iff hsmoothing]
  constructor
  · rintro ⟨⟨⟨probs, priors⟩, attr', value'⟩, ⟨⟨⟨⟨hprobs, hpriors⟩, attr, hattr, heq⟩,
      ⟨⟨c, hcls, hpriorcls⟩, hprobattr⟩, a, hvalue, hvalue'⟩, rfl⟩, rfl⟩
    obtain ⟨rfl, rfl⟩ := Prod.mk.inj heq
    dsimp only at *
    obtain ⟨hclass, -, hoccurs, hcnt, hattrCnt⟩ := (mem_featureProbs hcls hvalue).mp hprobs
    obtain ⟨-, hprior⟩ := mem_classPriors.mp hpriors
    refine ⟨c, hclass, hpriorcls ▸ hprior, probs.attr, ?_, ?_, ?_, ?_⟩
    · rw [hprobattr]
      exact hattr
    · rw [hprobattr, hvalue']
      rfl
    · rw [hprobattr, hvalue', ← hprobattr]
      exact hoccurs
    · unfold probsOf
      rw [hprobattr, hvalue', ← hprobattr, ← hcnt, ← hattrCnt, ← hcls, ← hvalue]
  · rintro ⟨c, hclass, rfl, attr, hattr, hsome, hoccurs, rfl⟩
    obtain ⟨a, ha⟩ := Option.isSome_iff_exists.mp hsome
    refine ⟨((probsOf trainingSource attributes c attr, priorOf trainingSource (some c)),
      (attr, attributeAt attributes attr)), ⟨⟨⟨⟨?_, ?_⟩, attr, hattr, rfl⟩,
        ⟨⟨c, rfl, rfl⟩, rfl⟩, a, ha, ha⟩, rfl⟩, rfl⟩
    · refine (mem_featureProbs (c := c) (a := a) rfl ha).mpr ⟨hclass, hattr, ?_, ?_, rfl⟩
      · rw [← ha]
        exact hoccurs
      · rw [← ha]
        rfl
    · exact mem_classPriors.mpr ⟨hclass, rfl⟩

theorem nodup_joinedProbs (hsmoothing : 0 < smoothingFactor) (priors : ClassPrior) :
    (joinedProbs (featureProbs trainingSource numAttrs) (getClassPriorsSql trainingSource)
      numAttrs smoothingFactor attributes priors).Nodup := by
  have hclassify : (classifyRows numAttrs attributes).Nodup :=
    (nodup_generateSeries numAttrs).map fun _ _ heq => congrArg Prod.fst heq
  refine Multiset.Nodup.map_on ?_ ((((nodup_featureProbs.product nodup_classPriors).product
    hclassify).filter _).filter _)
  unfold classifyRows
  simp only [Multiset.mem_map, Multiset.mem_filter, Multiset.mem_product,
    joinCondition_iff hsmoothing]
  rintro ⟨⟨probs, _⟩, _⟩ ⟨⟨⟨-, attr, -, rfl⟩, ⟨-, hattr⟩, -⟩, rfl⟩
    ⟨⟨probs', _⟩, _⟩ ⟨⟨⟨-, attr', -, rfl⟩, ⟨-, hattr'⟩, -⟩, hprior⟩ heq
  dsimp only at *
  subst heq hprior
  rw [← hattr, ← hattr']

variable (trainingSource numAttrs) in
/-- No training row has a NULL attribute. -/
def NoNullAttributes : Prop :=
  ∀ row ∈ trainingSource, ∀ attr ∈ generateSeries numAttrs,
    (attributeAt row.attributes attr).isSome

theorem NoNullAttributes.isSome (hnull : NoNullAttributes trainingSource numAttrs) {attr : ℕ}
    {value : Option ℤ} (hattr : attr ∈ generateSeries numAttrs)
    (hoccurs : Occurs trainingSource attr value) : value.isSome := by
  obtain ⟨row, hrow, rfl⟩ := Multiset.mem_map.mp hoccurs
  exact hnull row hrow attr hattr

theorem joinedProbs_eq (hsmoothing : 0 < smoothingFactor)
    (hnull : NoNullAttributes trainingSource numAttrs) {c : ℤ}
    (hclass : IsClass trainingSource (some c)) :
    joinedProbs (featureProbs trainingSource numAttrs) (getClassPriorsSql trainingSource) numAttrs
      smoothingFactor attributes (priorOf trainingSource (some c)) =
    ((generateSeries numAttrs).filter fun attr =>
      Occurs trainingSource attr (attributeAt attributes attr)).map
        (probsOf trainingSource attributes c) := by
  have hright : (((generateSeries numAttrs).filter fun attr =>
      Occurs trainingSource attr (attributeAt attributes attr)).map
        (probsOf trainingSource attributes c)).Nodup :=
    ((nodup_generateSeries numAttrs).filter _).map fun _ _ heq => congrArg FeatureProb.attr heq
  refine (Multiset.Nodup.ext (nodup_joinedProbs hsmoothing _) hright).mpr fun probs => ?_
  rw [mem_joinedProbs hsmoothing]
  simp only [Multiset.mem_map, Multiset.mem_filter]
  constructor
  · rintro ⟨c', -, hprior, attr, hattr, -, hoccurs, rfl⟩
    obtain rfl : c = c' := Option.some.inj (congrArg ClassPrior.cls hprior)
    exact ⟨attr, ⟨hattr, hoccurs⟩, rfl⟩
  · rintro ⟨attr, ⟨hattr, hoccurs⟩, rfl⟩
    exact ⟨c, hclass, rfl, attr, hattr, hnull.isSome hattr hoccurs, hoccurs, rfl⟩

/-- What is computed for a class is its score. -/
theorem logProb_eq_score (hsmoothing : 0 < smoothingFactor)
    (hnull : NoNullAttributes trainingSource numAttrs) (hnumAttrs : 1 ≤ numAttrs) {c : ℤ}
    (hclass : IsClass trainingSource (some c)) :
    logProb log numAttrs smoothingFactor (priorOf trainingSource (some c))
      (joinedProbs (featureProbs trainingSource numAttrs) (getClassPriorsSql trainingSource)
        numAttrs smoothingFactor attributes (priorOf trainingSource (some c))) =
    score log trainingSource numAttrs smoothingFactor attributes c := by
  rw [joinedProbs_eq hsmoothing hnull hclass, logProb, score, Multiset.card_map]
  by_cases hall : ∀ attr ∈ generateSeries numAttrs,
      Occurs trainingSource attr (attributeAt attributes attr)
  · have hself := Multiset.filter_eq_self.mpr hall
    have hcard : ¬((generateSeries numAttrs).card : ℤ) < numAttrs := by
      rw [card_generateSeries]
      omega
    rw [if_pos hall, hself, if_neg hcard, Multiset.map_map]
    rfl
  · have hlt : ((generateSeries numAttrs).filter fun attr =>
        Occurs trainingSource attr (attributeAt attributes attr)).card <
          (generateSeries numAttrs).card := by
      refine Multiset.card_lt_card (lt_of_le_of_ne (Multiset.filter_le _ _) ?_)
      intro heq
      exact hall (Multiset.filter_eq_self.mp heq)
    rw [card_generateSeries] at hlt
    rw [if_neg hall, if_pos (by omega)]

theorem exists_classPriors {cls : Option ℤ} :
    (∃ priors ∈ getClassPriorsSql trainingSource, priors.cls = cls) ↔ IsClass trainingSource cls := by
  constructor
  · rintro ⟨priors, hpriors, rfl⟩
    exact (mem_classPriors.mp hpriors).1
  · intro hcls
    exact ⟨priorOf trainingSource cls, mem_classPriors.mpr ⟨hcls, rfl⟩, rfl⟩

/-- The rows of the query are the scores and a NULL for each class. -/
theorem isProbValue_iff (hsmoothing : 0 < smoothingFactor)
    (hnull : NoNullAttributes trainingSource numAttrs) (hnumAttrs : 1 ≤ numAttrs)
    {cls : Option ℤ} {value : Option α} :
    IsProbValue log (featureProbs trainingSource numAttrs) (getClassPriorsSql trainingSource)
      numAttrs smoothingFactor attributes cls value ↔
    (cls, value) ∈ scoreRows log trainingSource numAttrs smoothingFactor attributes ∨
      (cls, value) ∈ defaultRows trainingSource α := by
  unfold IsProbValue
  rw [exists_classPriors, ← mem_defaultRows, mem_scoreRows]
  constructor
  · rintro (⟨priors, ⟨probs, hprobs⟩, rfl, rfl⟩ | hdefault)
    · obtain ⟨c, hclass, rfl, -⟩ := (mem_joinedProbs hsmoothing).mp hprobs
      exact .inl ⟨c, hclass, rfl, logProb_eq_score hsmoothing hnull hnumAttrs hclass⟩
    · exact .inr hdefault
  · rintro (⟨c, hclass, rfl, rfl⟩ | hdefault)
    · by_cases hall : ∀ attr ∈ generateSeries numAttrs,
          Occurs trainingSource attr (attributeAt attributes attr)
      · have hfirst : 1 ∈ generateSeries numAttrs :=
          mem_generateSeries.mpr ⟨le_rfl, by exact_mod_cast hnumAttrs⟩
        refine .inl ⟨priorOf trainingSource (some c), ⟨probsOf trainingSource attributes c 1, ?_⟩,
          rfl, logProb_eq_score hsmoothing hnull hnumAttrs hclass⟩
        exact (mem_joinedProbs hsmoothing).mpr ⟨c, hclass, rfl, 1, hfirst,
          hnull.isSome hfirst (hall 1 hfirst), hall 1 hfirst, rfl⟩
      · refine .inr (mem_defaultRows.mpr ⟨hclass, ?_⟩)
        rw [score, if_neg hall]
    · exact .inr hdefault

/-- Without attributes only the NULL values are left. -/
theorem isProbValue_iff_of_numAttrs_le (hsmoothing : 0 < smoothingFactor) (hnumAttrs : numAttrs ≤ 0)
    {cls : Option ℤ} {value : Option α} :
    IsProbValue log (featureProbs trainingSource numAttrs) (getClassPriorsSql trainingSource)
      numAttrs smoothingFactor attributes cls value ↔
    (cls, value) ∈ defaultRows trainingSource α := by
  unfold IsProbValue
  rw [exists_classPriors, ← mem_defaultRows]
  refine or_iff_right ?_
  rintro ⟨priors, ⟨probs, hprobs⟩, -⟩
  obtain ⟨c, -, -, attr, hattr, -⟩ := (mem_joinedProbs hsmoothing).mp hprobs
  have hbounds := mem_generateSeries.mp hattr
  omega

end Scores

end Madlib.Bayes
