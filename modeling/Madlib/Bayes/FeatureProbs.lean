import Mathlib
import Madlib.Bayes.NaiveBayes

/-!
# What the counting queries return

Each query counts rows of the training data.  The class priors have one row for each class, and the
feature probabilities have one row for each class and each value that an attribute has.
-/

namespace Madlib.Bayes

open Madlib.Lib.ThreeValued
open Madlib.Lib.Relation

section Counts

variable (trainingSource : Multiset TrainingRow)

/-- `#c` -/
def classCount (cls : Option ℤ) : ℕ :=
  (trainingSource.filter fun row => row.cls = cls).card

/-- `#(c,i,a)` -/
def tripleCount (cls : Option ℤ) (attr : ℕ) (value : Option ℤ) : ℕ :=
  (trainingSource.filter fun row =>
    row.cls = cls ∧ attributeAt row.attributes attr = value).card

/-- `#i`, the number of values of an attribute. -/
def attrCount (attr : ℕ) : ℕ :=
  countDistinct (trainingSource.map fun row => attributeAt row.attributes attr)

def IsClass (cls : Option ℤ) : Prop :=
  ∃ row ∈ trainingSource, row.cls = cls

/-- The value occurs as a value of the attribute. -/
def Occurs (attr : ℕ) (value : Option ℤ) : Prop :=
  value ∈ trainingSource.map fun row => attributeAt row.attributes attr

instance (attr : ℕ) (value : Option ℤ) : Decidable (Occurs trainingSource attr value) :=
  inferInstanceAs (Decidable (_ ∈ _))

def priorOf (cls : Option ℤ) : ClassPrior :=
  ⟨cls, classCount trainingSource cls, trainingSource.card⟩

end Counts

variable {trainingSource : Multiset TrainingRow} {numAttrs : ℤ}

theorem getClassPriorsSql_eq : getClassPriorsSql trainingSource =
    (trainingSource.map (·.cls)).dedup.map (priorOf trainingSource) := by
  unfold getClassPriorsSql
  dsimp only
  rw [sum_card_groupBy, groupBy_eq, Multiset.map_map]
  rfl

theorem mem_classPriors {priors : ClassPrior} : priors ∈ getClassPriorsSql trainingSource ↔
    IsClass trainingSource priors.cls ∧ priors = priorOf trainingSource priors.cls := by
  rw [getClassPriorsSql_eq]
  simp only [Multiset.mem_map, Multiset.mem_dedup]
  constructor
  · rintro ⟨cls, hcls, rfl⟩
    exact ⟨hcls, rfl⟩
  · rintro ⟨hcls, hpriors⟩
    exact ⟨priors.cls, hcls, hpriors.symm⟩

theorem nodup_classPriors : (getClassPriorsSql trainingSource).Nodup :=
  nodup_groupBy_map (g := ClassPrior.cls) fun _ => rfl

theorem mem_attrValues {v : AttrValue} : v ∈ getAttrValuesSql trainingSource numAttrs ↔
    v.attr ∈ generateSeries numAttrs ∧ Occurs trainingSource v.attr v.value := by
  unfold getAttrValuesSql attributeRows Occurs
  simp only [Multiset.mem_dedup, Multiset.mem_map, Multiset.mem_product]
  constructor
  · rintro ⟨⟨attr, row⟩, ⟨hattr, hrow⟩, rfl⟩
    exact ⟨hattr, row, hrow, rfl⟩
  · rintro ⟨hattr, row, hrow, hvalue⟩
    refine ⟨(v.attr, row), ⟨hattr, hrow⟩, ?_⟩
    rw [hvalue]

theorem nodup_attrValues : (getAttrValuesSql trainingSource numAttrs).Nodup :=
  Multiset.nodup_dedup _

theorem mem_attrCounts {a : AttrCount} : a ∈ getAttrCountsSql trainingSource numAttrs ↔
    a.attr ∈ generateSeries numAttrs ∧ trainingSource ≠ 0 ∧
      a.attrCnt = attrCount trainingSource a.attr := by
  have hgroup : ∀ attr ∈ generateSeries numAttrs,
      (attributeRows trainingSource numAttrs).filter (fun row => row.1 = attr) =
        trainingSource.map (Prod.mk attr) := by
    intro attr hattr
    unfold attributeRows
    rw [filter_product_of_fst (nodup_generateSeries numAttrs) hattr fun _ _ h => h]
    rw [Multiset.filter_eq_self.mpr fun _ _ => rfl]
  have hcount : ∀ attr ∈ generateSeries numAttrs, countDistinct
      (((attributeRows trainingSource numAttrs).filter fun row => row.1 = attr).map
        fun row => attributeAt row.2.attributes row.1) = attrCount trainingSource attr := by
    intro attr hattr
    rw [hgroup attr hattr, Multiset.map_map]
    rfl
  unfold getAttrCountsSql
  rw [mem_groupBy_map]
  constructor
  · rintro ⟨⟨attr, row⟩, hmem, rfl⟩
    obtain ⟨hattr, hrow⟩ := Multiset.mem_product.mp hmem
    exact ⟨hattr, ne_of_mem_of_not_mem' hrow (Multiset.notMem_zero row), hcount attr hattr⟩
  · rintro ⟨hattr, hne, hcnt⟩
    obtain ⟨row, hrow⟩ := Multiset.exists_mem_of_ne_zero hne
    refine ⟨(a.attr, row), Multiset.mem_product.mpr ⟨hattr, hrow⟩, ?_⟩
    exact congrArg (AttrCount.mk a.attr) ((hcount a.attr hattr).trans hcnt.symm)

theorem nodup_attrCounts : (getAttrCountsSql trainingSource numAttrs).Nodup :=
  nodup_groupBy_map (g := AttrCount.attr) fun _ => rfl

theorem mem_tripleCounts {t : TripleCount} : t ∈ tripleCounts trainingSource numAttrs ↔
    t.attr ∈ generateSeries numAttrs ∧
      (∃ row ∈ trainingSource, row.cls = t.cls ∧ attributeAt row.attributes t.attr = t.value) ∧
      t.cnt = tripleCount trainingSource t.cls t.attr t.value := by
  have hgroup : ∀ cls, ∀ attr ∈ generateSeries numAttrs, ∀ value,
      ((attributeRows trainingSource numAttrs).filter fun row =>
        (row.2.cls, row.1, attributeAt row.2.attributes row.1) = (cls, attr, value)).card =
          tripleCount trainingSource cls attr value := by
    intro cls attr hattr value
    unfold attributeRows tripleCount
    rw [filter_product_of_fst (nodup_generateSeries numAttrs) hattr, Multiset.card_map]
    · refine congrArg Multiset.card (Multiset.filter_congr fun row _ => ?_)
      simp only [Prod.mk.injEq, true_and]
    · intro row _ heq
      exact congrArg (fun key => key.2.1) heq
  unfold tripleCounts
  dsimp only
  rw [mem_groupBy_map]
  constructor
  · rintro ⟨⟨attr, row⟩, hmem, rfl⟩
    obtain ⟨hattr, hrow⟩ := Multiset.mem_product.mp hmem
    exact ⟨hattr, ⟨row, hrow, rfl, rfl⟩, hgroup row.cls attr hattr _⟩
  · rintro ⟨hattr, ⟨row, hrow, hcls, hvalue⟩, hcnt⟩
    refine ⟨(t.attr, row), Multiset.mem_product.mpr ⟨hattr, hrow⟩, ?_⟩
    dsimp only
    rw [hcls, hvalue, hgroup t.cls t.attr hattr t.value, ← hcnt]

theorem nodup_tripleCounts : (tripleCounts trainingSource numAttrs).Nodup :=
  nodup_groupBy_map (g := fun t => (t.cls, t.attr, t.value)) fun _ => rfl

/-! ## Feature probabilities -/

variable (trainingSource numAttrs) in
/-- The feature probabilities over the class priors, values and counts of the same data. -/
def featureProbs : Multiset FeatureProb :=
  getFeatureProbsSql trainingSource numAttrs (getClassPriorsSql trainingSource)
    (getAttrValuesSql trainingSource numAttrs) (getAttrCountsSql trainingSource numAttrs)

theorem usingTriple_iff {required : ClassPrior × AttrValue} {counts : TripleCount} :
    usingTriple required counts = true ↔ ((∃ c, required.1.cls = some c ∧ counts.cls = some c) ∧
      required.2.attr = counts.attr) ∧ ∃ a, required.2.value = some a ∧ counts.value = some a := by
  unfold usingTriple
  simp only [Truth.isTrue_and, Truth.isTrue_some, Bool.and_eq_true, isTrue_eq, beq_iff_eq]

theorem tripleCounts_unique {t t' : TripleCount} {required : ClassPrior × AttrValue}
    (ht : t ∈ tripleCounts trainingSource numAttrs)
    (ht' : t' ∈ tripleCounts trainingSource numAttrs) (husing : usingTriple required t = true)
    (husing' : usingTriple required t' = true) : t = t' := by
  obtain ⟨⟨⟨c, hc, htcls⟩, htattr⟩, a, ha, htvalue⟩ := usingTriple_iff.mp husing
  obtain ⟨⟨⟨c', hc', htcls'⟩, htattr'⟩, a', ha', htvalue'⟩ := usingTriple_iff.mp husing'
  obtain ⟨-, -, hcnt⟩ := mem_tripleCounts.mp ht
  obtain ⟨-, -, hcnt'⟩ := mem_tripleCounts.mp ht'
  have hcls : t.cls = t'.cls := by rw [htcls, htcls', ← hc, ← hc']
  have hattr : t.attr = t'.attr := htattr.symm.trans htattr'
  have hvalue : t.value = t'.value := by rw [htvalue, htvalue', ← ha, ← ha']
  obtain ⟨cls, attr, value, cnt⟩ := t
  obtain ⟨cls', attr', value', cnt'⟩ := t'
  dsimp only at *
  subst hcls hattr hvalue
  rw [hcnt, hcnt']

/-- The count of a triple, where a triple that does not occur is counted as 0. -/
theorem coalesce_cnt {required : ClassPrior × AttrValue} {counts : Option TripleCount} {c a : ℤ}
    (hcls : required.1.cls = some c) (hvalue : required.2.value = some a)
    (hattr : required.2.attr ∈ generateSeries numAttrs)
    (hcounts : counts ∈ outerMatches usingTriple (tripleCounts trainingSource numAttrs) required) :
    (counts.map (·.cnt)).getD 0 =
      tripleCount trainingSource (some c) required.2.attr (some a) := by
  rcases mem_outerMatches.mp hcounts with ⟨rfl, hnone⟩ | ⟨t, ht, husing, rfl⟩
  · refine Eq.symm (Multiset.card_eq_zero.mpr (Multiset.filter_eq_nil.mpr ?_))
    rintro row hrow ⟨hrowcls, hrowvalue⟩
    let t : TripleCount := ⟨some c, required.2.attr, some a,
      tripleCount trainingSource (some c) required.2.attr (some a)⟩
    have ht : t ∈ tripleCounts trainingSource numAttrs :=
      mem_tripleCounts.mpr ⟨hattr, ⟨row, hrow, hrowcls, hrowvalue⟩, rfl⟩
    have husing : usingTriple required t = true :=
      usingTriple_iff.mpr ⟨⟨⟨c, hcls, rfl⟩, rfl⟩, a, hvalue, rfl⟩
    rw [hnone t ht] at husing
    cases husing
  · obtain ⟨⟨⟨c', hc, htcls⟩, htattr⟩, a', ha, htvalue⟩ := usingTriple_iff.mp husing
    obtain ⟨-, -, hcnt⟩ := mem_tripleCounts.mp ht
    change t.cnt = _
    rw [hcnt, htcls, ← htattr, htvalue, ← hc, ← ha, hcls, hvalue]

theorem of_mem_featureProbs {probs : FeatureProb} (h : probs ∈ featureProbs trainingSource numAttrs) :
    IsClass trainingSource probs.cls ∧ probs.attr ∈ generateSeries numAttrs ∧
      Occurs trainingSource probs.attr probs.value := by
  unfold featureProbs getFeatureProbsSql at h
  simp only [Multiset.mem_map, mem_innerJoin, mem_leftJoin, Multiset.mem_product] at h
  obtain ⟨row, ⟨⟨⟨⟨hpriors, hv⟩, -⟩, -⟩, -⟩, rfl⟩ := h
  exact ⟨(mem_classPriors.mp hpriors).1, mem_attrValues.mp hv⟩

theorem mem_featureProbs {probs : FeatureProb} {c a : ℤ} (hcls : probs.cls = some c)
    (hvalue : probs.value = some a) : probs ∈ featureProbs trainingSource numAttrs ↔
      IsClass trainingSource (some c) ∧ probs.attr ∈ generateSeries numAttrs ∧
        Occurs trainingSource probs.attr (some a) ∧
          probs.cnt = tripleCount trainingSource (some c) probs.attr (some a) ∧
            probs.attrCnt = attrCount trainingSource probs.attr := by
  unfold featureProbs getFeatureProbsSql
  simp only [Multiset.mem_map, mem_innerJoin, mem_leftJoin, Multiset.mem_product, beq_iff_eq]
  constructor
  · rintro ⟨⟨⟨⟨priors, v⟩, counts⟩, ac⟩, ⟨⟨⟨⟨hpriors, hv⟩, hcounts⟩, hac⟩, hon⟩, rfl⟩
    dsimp only at *
    obtain ⟨hclass, -⟩ := mem_classPriors.mp hpriors
    obtain ⟨hattr, hoccurs⟩ := mem_attrValues.mp hv
    obtain ⟨-, -, hcnt⟩ := mem_attrCounts.mp hac
    refine ⟨hcls ▸ hclass, hattr, hvalue ▸ hoccurs, ?_, ?_⟩
    · exact coalesce_cnt hcls hvalue hattr hcounts
    · rw [hcnt, hon]
  · rintro ⟨hclass, hattr, hoccurs, hcnt, hattrCnt⟩
    obtain ⟨row, hrow, -⟩ := Multiset.mem_map.mp hoccurs
    obtain ⟨counts, hcounts⟩ := exists_mem_outerMatches usingTriple
      (tripleCounts trainingSource numAttrs)
      (priorOf trainingSource (some c), AttrValue.mk probs.attr (some a))
    refine ⟨(((priorOf trainingSource (some c), AttrValue.mk probs.attr (some a)), counts),
      AttrCount.mk probs.attr (attrCount trainingSource probs.attr)), ⟨⟨⟨⟨?_, ?_⟩, hcounts⟩, ?_⟩,
        rfl⟩, ?_⟩
    · exact mem_classPriors.mpr ⟨hclass, rfl⟩
    · exact mem_attrValues.mpr ⟨hattr, hoccurs⟩
    · refine mem_attrCounts.mpr ⟨hattr, ?_, rfl⟩
      exact ne_of_mem_of_not_mem' hrow (Multiset.notMem_zero row)
    · dsimp only
      rw [coalesce_cnt (c := c) (a := a) rfl rfl hattr hcounts, ← hcnt, ← hattrCnt, ← hvalue]
      change FeatureProb.mk (some c) _ _ _ _ = _
      rw [← hcls]

theorem nodup_featureProbs : (featureProbs trainingSource numAttrs).Nodup := by
  unfold featureProbs getFeatureProbsSql
  refine Multiset.Nodup.map_on ?_ (nodup_innerJoin (nodup_leftJoin
    (nodup_classPriors.product nodup_attrValues) nodup_tripleCounts) nodup_attrCounts)
  simp only [mem_innerJoin, mem_leftJoin, Multiset.mem_product, beq_iff_eq]
  rintro ⟨⟨⟨priors, ⟨attr, value⟩⟩, counts⟩, ac⟩ ⟨⟨⟨⟨hpriors, -⟩, hcounts⟩, hac⟩, hon⟩
    ⟨⟨⟨priors', ⟨attr', value'⟩⟩, counts'⟩, ac'⟩ ⟨⟨⟨⟨hpriors', -⟩, hcounts'⟩, hac'⟩, hon'⟩ heq
  dsimp only at *
  simp only [FeatureProb.mk.injEq] at heq
  obtain ⟨hcls, rfl, rfl, -, -⟩ := heq
  have hprior : priors = priors' := by
    rw [(mem_classPriors.mp hpriors).2, (mem_classPriors.mp hpriors').2, hcls]
  subst hprior
  have hcount : ac = ac' := by
    obtain ⟨acAttr, acCnt⟩ := ac
    obtain ⟨acAttr', acCnt'⟩ := ac'
    obtain ⟨-, -, hcnt⟩ := mem_attrCounts.mp hac
    obtain ⟨-, -, hcnt'⟩ := mem_attrCounts.mp hac'
    dsimp only at *
    subst hon hon'
    rw [hcnt, hcnt']
  have hmatch : counts = counts' := by
    refine outerMatches_unique (fun t ht t' ht' husing husing' => ?_) hcounts hcounts'
    exact tripleCounts_unique ht ht' husing husing'
  rw [hcount, hmatch]

end Madlib.Bayes
