import Mathlib
import Madlib.Backend
import Madlib.Bayes.Routes

/-!
# The three ways to classify

A classification over prepared tables, one over subqueries, and the generated function all classify
a record by the scores of the formula, provided that there is an attribute.
-/

namespace Madlib.Bayes

open Madlib.Backend
open Madlib.Lib.Segments
open Madlib.Lib.Relation

section Returned

variable {α : Type} [LinearOrder α] {rows : Multiset (Option ℤ × Option α)}
  {array : Option (List (Option ℤ))}

theorem ArgmaxReturns.arrayOf (h : ArgmaxReturns rows array) :
    ArrayOf (maximalKeys (keyedRows rows)) array := by
  obtain ⟨plan, state, rfl, hrun, rfl⟩ := h
  exact (argmax_keeps.run (fun _ _ => trivial) hrun).arrayOf

theorem exists_argmaxReturns (rows : Multiset (Option ℤ × Option α)) :
    ∃ array, ArgmaxReturns rows array := by
  obtain ⟨list, rfl⟩ := Quot.exists_rep rows
  obtain ⟨state, hrun⟩ : ∃ state, argmax.run (.segment list) = .ok state :=
    argmax_proceeds.run argmax_keeps fun _ _ => trivial
  exact ⟨argmaxFinal state, .segment list, state, rfl, hrun, rfl⟩

end Returned

/-! ## Preparing -/

section Prepared

variable {trainingSource : Multiset TrainingRow} {numAttrs : ℤ}

variable (trainingSource numAttrs) in
/-- The relations that are prepared from the training data. -/
def preparedOf : Prepared :=
  ⟨getClassPriorsSql trainingSource, featureProbs trainingSource numAttrs⟩

theorem addPrimaryKey_eq_ok {ρ : Type} {whatToCreate : WhatToCreate} {key : ρ → List (Option ℤ)}
    {rows rows' : Multiset ρ} (h : addPrimaryKey whatToCreate key rows = .ok rows') :
    rows' = rows := by
  cases whatToCreate with
  | view =>
      cases h
      rfl
  | table =>
      unfold addPrimaryKey at h
      dsimp only at h
      split_ifs at h
      cases h
      rfl

theorem addPrimaryKey_ok {ρ : Type} {key : ρ → List (Option ℤ)} {rows : Multiset ρ}
    (hnull : ∀ row ∈ rows, none ∉ key row) (hunique : (rows.map key).Nodup)
    (whatToCreate : WhatToCreate) : addPrimaryKey whatToCreate key rows = .ok rows := by
  cases whatToCreate with
  | view => rfl
  | table =>
      unfold addPrimaryKey
      dsimp only
      rw [if_neg (not_not.mpr hnull), if_pos hunique]

/-- What is prepared is what the subqueries return. -/
theorem createPreparedData_eq_ok {whatToCreate : WhatToCreate} {prepared : Prepared}
    (h : createPreparedData whatToCreate trainingSource numAttrs = .ok prepared) :
    prepared = preparedOf trainingSource numAttrs := by
  unfold createPreparedData at h
  obtain ⟨attrCounts, hcounts, h⟩ := bind_eq_ok.mp h
  obtain ⟨attrValues, hvalues, h⟩ := bind_eq_ok.mp h
  obtain ⟨classPriors, hpriors, h⟩ := bind_eq_ok.mp h
  obtain ⟨probs, hprobs, h⟩ := bind_eq_ok.mp h
  cases h
  rw [addPrimaryKey_eq_ok hprobs, addPrimaryKey_eq_ok hpriors, addPrimaryKey_eq_ok hvalues,
    addPrimaryKey_eq_ok hcounts]
  rfl

theorem createPreparedData_view : createPreparedData .view trainingSource numAttrs =
    .ok (preparedOf trainingSource numAttrs) := rfl

section Keys

variable (hnull : NoNullAttributes trainingSource numAttrs) (whatToCreate : WhatToCreate)
include hnull

theorem addPrimaryKey_attrValues :
    addPrimaryKey whatToCreate (fun row : AttrValue => [some (row.attr : ℤ), row.value])
      (getAttrValuesSql trainingSource numAttrs) = .ok (getAttrValuesSql trainingSource numAttrs) := by
  refine addPrimaryKey_ok ?_ ?_ whatToCreate
  · intro row hrow hmem
    obtain ⟨hattr, hoccurs⟩ := mem_attrValues.mp hrow
    obtain ⟨a, ha⟩ := Option.isSome_iff_exists.mp (hnull.isSome hattr hoccurs)
    simp [ha] at hmem
  · refine nodup_attrValues.map ?_
    rintro ⟨attr, value⟩ ⟨attr', value'⟩ heq
    simpa using heq

theorem addPrimaryKey_featureProbs (hclass : ¬IsClass trainingSource none) :
    addPrimaryKey whatToCreate
      (fun row : FeatureProb => [row.cls, some (row.attr : ℤ), row.value])
      (featureProbs trainingSource numAttrs) = .ok (featureProbs trainingSource numAttrs) := by
  have hcolumns : ∀ row ∈ featureProbs trainingSource numAttrs,
      ∃ c a, row.cls = some c ∧ row.value = some a := by
    intro row hrow
    obtain ⟨hcls, hattr, hoccurs⟩ := of_mem_featureProbs hrow
    obtain ⟨a, ha⟩ := Option.isSome_iff_exists.mp (hnull.isSome hattr hoccurs)
    obtain ⟨c, hc⟩ := Option.ne_none_iff_exists'.mp fun h => hclass (h ▸ hcls)
    exact ⟨c, a, hc, ha⟩
  refine addPrimaryKey_ok ?_ ?_ whatToCreate
  · intro row hrow hmem
    obtain ⟨c, a, hc, ha⟩ := hcolumns row hrow
    simp [hc, ha] at hmem
  · refine Multiset.Nodup.map_on (fun row hrow row' hrow' heq => ?_) nodup_featureProbs
    obtain ⟨c, a, hc, ha⟩ := hcolumns row hrow
    obtain ⟨c', a', hc', ha'⟩ := hcolumns row' hrow'
    obtain ⟨-, -, -, hcnt, hattrCnt⟩ := (mem_featureProbs hc ha).mp hrow
    obtain ⟨-, -, -, hcnt', hattrCnt'⟩ := (mem_featureProbs hc' ha').mp hrow'
    obtain ⟨cls, attr, value, cnt, attrCnt⟩ := row
    obtain ⟨cls', attr', value', cnt', attrCnt'⟩ := row'
    dsimp only at *
    simp only [List.cons.injEq, Option.some.injEq, Nat.cast_inj, and_true] at heq
    obtain ⟨rfl, rfl, rfl⟩ := heq
    obtain rfl : c = c' := Option.some.inj (hc.symm.trans hc')
    obtain rfl : a = a' := Option.some.inj (ha.symm.trans ha')
    rw [hcnt, hcnt', hattrCnt, hattrCnt']

end Keys

theorem addPrimaryKey_attrCounts (whatToCreate : WhatToCreate) :
    addPrimaryKey whatToCreate (fun row : AttrCount => [some (row.attr : ℤ)])
      (getAttrCountsSql trainingSource numAttrs) = .ok (getAttrCountsSql trainingSource numAttrs) := by
  refine addPrimaryKey_ok (by simp) ?_ whatToCreate
  refine Multiset.Nodup.map_on (fun row hrow row' hrow' heq => ?_) nodup_attrCounts
  obtain ⟨-, -, hcnt⟩ := mem_attrCounts.mp hrow
  obtain ⟨-, -, hcnt'⟩ := mem_attrCounts.mp hrow'
  obtain ⟨attr, attrCnt⟩ := row
  obtain ⟨attr', attrCnt'⟩ := row'
  dsimp only at *
  simp only [List.cons.injEq, Option.some.injEq, Nat.cast_inj, and_true] at heq
  subst heq
  rw [hcnt, hcnt']

theorem addPrimaryKey_classPriors (hclass : ¬IsClass trainingSource none)
    (whatToCreate : WhatToCreate) :
    addPrimaryKey whatToCreate (fun row : ClassPrior => [row.cls])
      (getClassPriorsSql trainingSource) = .ok (getClassPriorsSql trainingSource) := by
  refine addPrimaryKey_ok ?_ ?_ whatToCreate
  · intro row hrow hmem
    obtain ⟨hcls, -⟩ := mem_classPriors.mp hrow
    rw [List.mem_singleton] at hmem
    rw [← hmem] at hcls
    exact hclass hcls
  · refine Multiset.Nodup.map_on (fun row hrow row' hrow' heq => ?_) nodup_classPriors
    have hcls : row.cls = row'.cls := (List.cons.inj heq).1
    rw [(mem_classPriors.mp hrow).2, (mem_classPriors.mp hrow').2, hcls]

/-- The primary keys of the tables hold when neither a class nor an attribute is NULL. -/
theorem createPreparedData_ok (hclass : ¬IsClass trainingSource none)
    (hnull : NoNullAttributes trainingSource numAttrs) (whatToCreate : WhatToCreate) :
    createPreparedData whatToCreate trainingSource numAttrs =
      .ok (preparedOf trainingSource numAttrs) := by
  have hprobs := addPrimaryKey_featureProbs hnull whatToCreate hclass
  unfold featureProbs at hprobs
  unfold createPreparedData
  rw [addPrimaryKey_attrCounts, ok_bind, addPrimaryKey_attrValues hnull, ok_bind,
    addPrimaryKey_classPriors hclass, ok_bind, hprobs]
  rfl

end Prepared

/-! ## Classifying -/

section Routes

variable {α κ : Type} [Field α] [LinearOrder α] [DecidableEq κ]

/-- The call over prepared relations. -/
def tableKwargs (prepared : Prepared) (numAttrs : ℤ) (smoothingFactor : α) : Kwargs α where
  numAttrs := numAttrs
  trainingSource := none
  classPriorsSource := some prepared.classPriorsSource
  featureProbsSource := some prepared.featureProbsSource
  smoothingFactor := some smoothingFactor

/-- The call over the training data. -/
def rawKwargs (trainingSource : Multiset TrainingRow) (numAttrs : ℤ) (smoothingFactor : α) :
    Kwargs α where
  numAttrs := numAttrs
  trainingSource := some trainingSource
  classPriorsSource := none
  featureProbsSource := none
  smoothingFactor := some smoothingFactor

variable (log : α → α) (trainingSource : Multiset TrainingRow) (numAttrs : ℤ) (smoothingFactor : α)

/-- Each class has the row of its score, next to a row with NULL. -/
def HasScores (attributes : List (Option ℤ)) (rows : Multiset (Option ℤ × Option α)) : Prop :=
  ∀ c, IsClass trainingSource (some c) → ∀ value, (some c, value) ∈ rows ↔
    value = score log trainingSource numAttrs smoothingFactor attributes c ∨ value = none

/-- The array has the classes that argmax returns for the scores. -/
def IsClassification (attributes : List (Option ℤ)) (array : Option (List (Option ℤ))) : Prop :=
  ArrayOf (maximalKeys (keyedRows
    (scoreRows log trainingSource numAttrs smoothingFactor attributes))) array

/-- A record is classified by its scores in the relation that is created. -/
structure RelationClassifies (kwargs : Kwargs α) (classifySource : Multiset (ClassifyRow κ))
    (record : ClassifyRow κ) : Prop where
  scores : ∃ rows, keysAndProbValues log kwargs classifySource = .ok rows ∧
    HasScores log trainingSource numAttrs smoothingFactor record.attributes
      ((rows.filter fun row => row.1 = record.key).map Prod.snd)
  created : ∃ dest, CreatesClassification log kwargs classifySource dest
  classified : ∀ dest, CreatesClassification log kwargs classifySource dest →
    (dest.map Prod.fst).count record.key = 1 ∧ ∀ array, (record.key, array) ∈ dest →
      IsClassification log trainingSource numAttrs smoothingFactor record.attributes array

/-- An array of attributes is classified by its scores in the function that is created. -/
structure FunctionClassifies (kwargs : Kwargs α) (attributes : List (Option ℤ)) : Prop where
  scores : ∃ rows, probValues log kwargs attributes smoothingFactor = .ok rows ∧
    HasScores log trainingSource numAttrs smoothingFactor attributes rows
  returned : ∃ array, ClassificationFunctionReturns log kwargs attributes smoothingFactor array
  classified : ∀ array, ClassificationFunctionReturns log kwargs attributes smoothingFactor array →
    IsClassification log trainingSource numAttrs smoothingFactor attributes array

/-- All ways to classify a record go by the same scores. -/
structure RoutesAgree (prepared : Prepared) (classifySource : Multiset (ClassifyRow κ))
    (record : ClassifyRow κ) : Prop where
  tables : RelationClassifies log trainingSource numAttrs smoothingFactor
    (tableKwargs prepared numAttrs smoothingFactor) classifySource record
  inlined : RelationClassifies log trainingSource numAttrs smoothingFactor
    (rawKwargs trainingSource numAttrs smoothingFactor) classifySource record
  functionOverTables : FunctionClassifies log trainingSource numAttrs smoothingFactor
    (tableKwargs prepared numAttrs smoothingFactor) record.attributes
  functionInlined : FunctionClassifies log trainingSource numAttrs smoothingFactor
    (rawKwargs trainingSource numAttrs smoothingFactor) record.attributes

/-- The rows (class, log_prob) over the counts of the training data. -/
def trainedRows (attributes : List (Option ℤ)) : Multiset (Option ℤ × Option α) :=
  getProbValuesSql log (featureProbs trainingSource numAttrs) (getClassPriorsSql trainingSource)
    numAttrs smoothingFactor attributes

/-- The rows of a query fit the scores. -/
structure FitsScores (attributes : List (Option ℤ)) : Prop where
  scores : HasScores log trainingSource numAttrs smoothingFactor attributes
    (trainedRows log trainingSource numAttrs smoothingFactor attributes)
  maximal : maximalKeys (keyedRows
      (trainedRows log trainingSource numAttrs smoothingFactor attributes)) =
    maximalKeys (keyedRows (scoreRows log trainingSource numAttrs smoothingFactor attributes))

variable {log trainingSource numAttrs smoothingFactor}

variable (log) in
theorem trainedRows_eq (hsmoothing : 0 < smoothingFactor)
    (hnull : NoNullAttributes trainingSource numAttrs) (hnumAttrs : 1 ≤ numAttrs)
    (attributes : List (Option ℤ)) :
    trainedRows log trainingSource numAttrs smoothingFactor attributes =
      union (scoreRows log trainingSource numAttrs smoothingFactor attributes)
        (defaultRows trainingSource α) := by
  have hleft : (trainedRows log trainingSource numAttrs smoothingFactor attributes).Nodup :=
    nodup_union _ _
  refine (Multiset.Nodup.ext hleft (nodup_union _ _)).mpr ?_
  rintro ⟨cls, value⟩
  rw [mem_union, ← isProbValue_iff hsmoothing hnull hnumAttrs]
  exact mem_getProbValuesSql

theorem isClass_of_mem_trainedRows (hsmoothing : 0 < smoothingFactor)
    {attributes : List (Option ℤ)} {cls : Option ℤ} {value : Option α}
    (h : (cls, value) ∈ trainedRows log trainingSource numAttrs smoothingFactor attributes) :
    IsClass trainingSource cls := by
  rcases mem_getProbValuesSql.mp h with ⟨priors, ⟨probs, hprobs⟩, rfl, -⟩ | ⟨hdefault, -⟩
  · obtain ⟨c, hclass, rfl, -⟩ := (mem_joinedProbs hsmoothing).mp hprobs
    exact hclass
  · exact exists_classPriors.mp hdefault

variable (log) in
theorem fitsScores (hsmoothing : 0 < smoothingFactor)
    (hnull : NoNullAttributes trainingSource numAttrs)
    (hnumAttrs : (∃ c, IsClass trainingSource (some c)) → 1 ≤ numAttrs)
    (attributes : List (Option ℤ)) :
    FitsScores log trainingSource numAttrs smoothingFactor attributes := by
  by_cases hclass : ∃ c, IsClass trainingSource (some c)
  · have hrows := trainedRows_eq log hsmoothing hnull (hnumAttrs hclass) attributes
    constructor
    · intro c hc value
      rw [hrows, mem_union, mem_scoreRows, mem_defaultRows]
      constructor
      · rintro (⟨c', -, hcls, hvalue⟩ | ⟨-, hvalue⟩)
        · obtain rfl : c = c' := Option.some.inj hcls
          exact .inl hvalue
        · exact .inr hvalue
      · rintro (hvalue | hvalue)
        · exact .inl ⟨c, hc, rfl, hvalue⟩
        · exact .inr ⟨hc, hvalue⟩
    · rw [hrows]
      exact maximalKeys_union
  · -- there are only rows of the class NULL, which argmax leaves out
    have hkeyed : ∀ rows : Multiset (Option ℤ × Option α),
        (∀ row ∈ rows, IsClass trainingSource row.1) → keyedRows rows = 0 := by
      intro rows hrows
      refine Multiset.eq_zero_of_forall_notMem fun row hrow => ?_
      obtain ⟨⟨cls, value⟩, hmem, hmap⟩ := (Multiset.mem_filterMap _ _).mp hrow
      obtain ⟨c, rfl, -⟩ := Option.map_eq_some_iff.mp hmap
      exact hclass ⟨c, hrows _ hmem⟩
    constructor
    · intro c hc
      exact absurd ⟨c, hc⟩ hclass
    · rw [hkeyed _ fun row hrow => isClass_of_mem_trainedRows hsmoothing hrow, hkeyed]
      rintro ⟨cls, value⟩ hrow
      obtain ⟨c, hc, rfl, -⟩ := mem_scoreRows.mp hrow
      exact hc

/-- Without attributes no class has its score. -/
theorem not_hasScores (hsmoothing : 0 < smoothingFactor) (hnumAttrs : numAttrs ≤ 0)
    (attributes : List (Option ℤ)) {c : ℤ} (hclass : IsClass trainingSource (some c)) :
    ¬HasScores log trainingSource numAttrs smoothingFactor attributes
      (trainedRows log trainingSource numAttrs smoothingFactor attributes) := by
  intro h
  have hmem := (h c hclass _).mpr (.inl rfl)
  have hdefault := (isProbValue_iff_of_numAttrs_le hsmoothing hnumAttrs).mp
    (mem_getProbValuesSql.mp hmem)
  have hnone := (mem_defaultRows.mp hdefault).2
  have hall : ∀ attr ∈ generateSeries numAttrs,
      Occurs trainingSource attr (attributeAt attributes attr) := by
    intro attr hattr
    have hbounds := mem_generateSeries.mp hattr
    omega
  rw [score, if_pos hall] at hnone
  cases hnone

section Calls

variable {kwargs : Kwargs α} {classifySource : Multiset (ClassifyRow κ)} {record : ClassifyRow κ}

variable (log classifySource) in
theorem keysAndProbValues_eq (hcall : kwargs.numAttrs = numAttrs)
    (hinit : initPreparedData kwargs = .ok (preparedOf trainingSource numAttrs, smoothingFactor)) :
    keysAndProbValues log kwargs classifySource =
      .ok (getKeysAndProbValuesSql log (featureProbs trainingSource numAttrs)
        (getClassPriorsSql trainingSource) numAttrs smoothingFactor classifySource) := by
  unfold keysAndProbValues
  rw [hinit, ok_bind, hcall]
  rfl

variable (log) in
theorem probValues_eq (hcall : kwargs.numAttrs = numAttrs)
    (hinit : initPreparedData { kwargs with smoothingFactor := some smoothingFactor } =
      .ok (preparedOf trainingSource numAttrs, smoothingFactor)) (attributes : List (Option ℤ)) :
    probValues log kwargs attributes smoothingFactor =
      .ok (trainedRows log trainingSource numAttrs smoothingFactor attributes) := by
  unfold probValues
  rw [hinit, ok_bind, hcall]
  rfl

/-- A created relation has a row for each key. -/
theorem exists_createsClassification {rows : Multiset (κ × Option ℤ × Option α)}
    (hrows : keysAndProbValues log kwargs classifySource = .ok rows) :
    ∃ dest, CreatesClassification log kwargs classifySource dest := by
  choose array harray using exists_argmaxReturns (α := α)
  refine ⟨(groupBy Prod.fst rows).map fun group => (group.1, array (group.2.map Prod.snd)), rows,
    hrows, ?_, ?_⟩
  · rw [Multiset.map_map]
    rfl
  · intro row hrow
    obtain ⟨group, hgroup, rfl⟩ := Multiset.mem_map.mp hrow
    exact ⟨group, hgroup, rfl, harray _⟩

theorem relationClassifies (hkeys : (classifySource.map (·.key)).Nodup)
    (hrecord : record ∈ classifySource) (hne : trainingSource ≠ 0)
    (hfits : FitsScores log trainingSource numAttrs smoothingFactor record.attributes)
    (hcall : kwargs.numAttrs = numAttrs)
    (hinit : initPreparedData kwargs = .ok (preparedOf trainingSource numAttrs, smoothingFactor)) :
    RelationClassifies log trainingSource numAttrs smoothingFactor kwargs classifySource record := by
  have hrows := keysAndProbValues_eq log classifySource hcall hinit
  have hrecordRows := filter_getKeysAndProbValuesSql log
    (featureProbs trainingSource numAttrs) (getClassPriorsSql trainingSource) numAttrs
    smoothingFactor hkeys hrecord
  constructor
  · refine ⟨_, hrows, ?_⟩
    rw [hrecordRows]
    exact hfits.scores
  · exact exists_createsClassification hrows
  · rintro dest ⟨rows, hcreated, hfst, hreturns⟩
    obtain rfl := Except.ok.inj (hrows.symm.trans hcreated)
    constructor
    · obtain ⟨row, hrow⟩ := Multiset.exists_mem_of_ne_zero hne
      have hmem : (record.key, row.cls, none) ∈ getKeysAndProbValuesSql log
          (featureProbs trainingSource numAttrs) (getClassPriorsSql trainingSource) numAttrs
          smoothingFactor classifySource :=
        (mem_getKeysAndProbValuesSql hkeys hrecord).mpr
          (.inr ⟨exists_classPriors.mpr ⟨row, hrow, rfl⟩, rfl⟩)
      rw [hfst]
      refine Multiset.count_eq_one_of_mem nodup_groupBy_map_fst ?_
      exact mem_groupBy_map.mpr ⟨_, hmem, rfl⟩
    · intro array hmem
      obtain ⟨group, hgroup, hkey, harray⟩ := hreturns _ hmem
      obtain ⟨-, hgroupRows⟩ := mem_groupBy.mp hgroup
      dsimp only at hkey
      rw [hgroupRows, hkey, hrecordRows] at harray
      have hset := harray.arrayOf
      rw [← trainedRows, hfits.maximal] at hset
      exact hset

theorem functionClassifies {attributes : List (Option ℤ)}
    (hfits : FitsScores log trainingSource numAttrs smoothingFactor attributes)
    (hcall : kwargs.numAttrs = numAttrs)
    (hinit : initPreparedData { kwargs with smoothingFactor := some smoothingFactor } =
      .ok (preparedOf trainingSource numAttrs, smoothingFactor)) :
    FunctionClassifies log trainingSource numAttrs smoothingFactor kwargs attributes := by
  have hrows := probValues_eq log hcall hinit attributes
  constructor
  · exact ⟨_, hrows, hfits.scores⟩
  · obtain ⟨array, harray⟩ := exists_argmaxReturns
      (trainedRows log trainingSource numAttrs smoothingFactor attributes)
    exact ⟨array, _, hrows, harray⟩
  · rintro array ⟨rows, hcreated, harray⟩
    obtain rfl := Except.ok.inj (hrows.symm.trans hcreated)
    have hset := harray.arrayOf
    rw [hfits.maximal] at hset
    exact hset

end Calls

/-- All ways to classify agree with the scores exactly when there is an attribute to go by (or no
class at all). -/
theorem naive_bayes_routes_agree_iff {whatToCreate : WhatToCreate} {prepared : Prepared}
    {classifySource : Multiset (ClassifyRow κ)} {record : ClassifyRow κ} (hne : trainingSource ≠ 0)
    (hnull : NoNullAttributes trainingSource numAttrs) (hsmoothing : 0 < smoothingFactor)
    (hprepared : createPreparedData whatToCreate trainingSource numAttrs = .ok prepared)
    (hkeys : (classifySource.map (·.key)).Nodup) (hrecord : record ∈ classifySource) :
    RoutesAgree log trainingSource numAttrs smoothingFactor prepared classifySource record ↔
      ((∃ c, IsClass trainingSource (some c)) → 1 ≤ numAttrs) := by
  obtain rfl := createPreparedData_eq_ok hprepared
  constructor
  · rintro ⟨-, -, -, hfunction⟩ ⟨c, hclass⟩
    obtain ⟨rows, hrows, hscores⟩ := hfunction.scores
    obtain rfl := Except.ok.inj ((probValues_eq _ rfl rfl record.attributes).symm.trans hrows)
    by_contra hnumAttrs
    exact not_hasScores hsmoothing (by omega) record.attributes hclass hscores
  · intro hnumAttrs
    have hfits := fitsScores log hsmoothing hnull hnumAttrs record.attributes
    exact ⟨relationClassifies hkeys hrecord hne hfits rfl rfl,
      relationClassifies hkeys hrecord hne hfits rfl rfl,
      functionClassifies hfits rfl rfl, functionClassifies hfits rfl rfl⟩

end Routes

/-- Two rows of one class and one of another, with one attribute. -/
def smallTraining : Multiset TrainingRow :=
  {⟨some 1, [some 5]⟩, ⟨some 1, [some 5]⟩, ⟨some 2, [some 7]⟩}

theorem naive_bayes_routes_agree_small :
    RoutesAgree (Real.logb 10) smallTraining 1 1 (preparedOf smallTraining 1)
      {⟨0, [some 5]⟩} (⟨0, [some 5]⟩ : ClassifyRow ℕ) ↔
    ((∃ c, IsClass smallTraining (some c)) → (1 : ℤ) ≤ 1) :=
  naive_bayes_routes_agree_iff (by decide) (by unfold NoNullAttributes; decide) one_pos
    createPreparedData_view (by decide) (Multiset.mem_singleton_self _)

/-- Without attributes the class of two rows in three is not told from the other one. -/
theorem naive_bayes_without_attributes :
    ¬RoutesAgree (Real.logb 10) smallTraining 0 1 (preparedOf smallTraining 0)
      {⟨0, []⟩} (⟨0, []⟩ : ClassifyRow ℕ) := by
  intro h
  obtain ⟨rows, hrows, hscores⟩ := h.functionInlined.scores
  obtain rfl := Except.ok.inj ((probValues_eq _ rfl rfl []).symm.trans hrows)
  have hclass : IsClass smallTraining (some 1) := ⟨⟨some 1, [some 5]⟩, by decide, rfl⟩
  exact not_hasScores one_pos le_rfl [] hclass hscores

end Madlib.Bayes
