import Mathlib
import Madlib.Lib.Relation
import Madlib.Bayes.Argmax

/-!
# Naive Bayes classification

The queries that are assembled for the class priors, the feature probabilities and the scores of
the classes, and the three ways in which they are put together: over tables prepared beforehand,
over subqueries, and in a generated function.
-/

namespace Madlib.Bayes

open Madlib.Lib.ThreeValued
open Madlib.Lib.Segments
open Madlib.Lib.Relation

structure TrainingRow where
  cls : Option ℤ
  attributes : List (Option ℤ)
deriving DecidableEq

/-- Columns (class, class_cnt, all_cnt). -/
structure ClassPrior where
  cls : Option ℤ
  classCnt : ℕ
  allCnt : ℕ
deriving DecidableEq

/-- Columns (attr, value). -/
structure AttrValue where
  attr : ℕ
  value : Option ℤ
deriving DecidableEq

/-- Columns (attr, attr_cnt). -/
structure AttrCount where
  attr : ℕ
  attrCnt : ℕ
deriving DecidableEq

/-- Columns (class, attr, value, cnt). -/
structure TripleCount where
  cls : Option ℤ
  attr : ℕ
  value : Option ℤ
  cnt : ℕ
deriving DecidableEq

/-- Columns (class, attr, value, cnt, attr_cnt). -/
structure FeatureProb where
  cls : Option ℤ
  attr : ℕ
  value : Option ℤ
  cnt : ℕ
  attrCnt : ℕ
deriving DecidableEq

structure ClassifyRow (κ : Type) where
  key : κ
  attributes : List (Option ℤ)

/-- An array has indices from 1 on, and is NULL elsewhere. -/
def attributeAt (attributes : List (Option ℤ)) (attr : ℕ) : Option ℤ :=
  (attributes[attr - 1]?).join

/-! ## Counts of the training data -/

section Training

variable (trainingSource : Multiset TrainingRow) (numAttrs : ℤ)

def getClassPriorsSql : Multiset ClassPrior :=
  let classes := groupBy (fun row => row.cls) trainingSource
  let allCnt := (classes.map fun group => group.2.card).sum
  classes.map fun group => ⟨group.1, group.2.card, allCnt⟩

/-- Every training row with every attribute. -/
def attributeRows : Multiset (ℕ × TrainingRow) :=
  generateSeries numAttrs ×ˢ trainingSource

def getAttrValuesSql : Multiset AttrValue :=
  ((attributeRows trainingSource numAttrs).map fun row =>
    ⟨row.1, attributeAt row.2.attributes row.1⟩).dedup

/-- `count(DISTINCT value)` -/
def countDistinct (values : Multiset (Option ℤ)) : ℕ :=
  (values.filterMap id).dedup.card

def getAttrCountsSql : Multiset AttrCount :=
  (groupBy Prod.fst (attributeRows trainingSource numAttrs)).map fun group =>
    ⟨group.1, countDistinct (group.2.map fun row => attributeAt row.2.attributes row.1)⟩

def tripleCounts : Multiset TripleCount :=
  let key := fun row : ℕ × TrainingRow =>
    (row.2.cls, row.1, attributeAt row.2.attributes row.1)
  (groupBy key (attributeRows trainingSource numAttrs)).map fun group =>
    ⟨group.1.1, group.1.2.1, group.1.2.2, group.2.card⟩

/-- `USING (class, attr, value)` -/
def usingTriple (required : ClassPrior × AttrValue) (counts : TripleCount) : Bool :=
  (((eq required.1.cls counts.cls).and (some (required.2.attr == counts.attr))).and
    (eq required.2.value counts.value)).isTrue

def getFeatureProbsSql (classPriorsSource : Multiset ClassPrior)
    (attrValuesSource : Multiset AttrValue) (attrCountsSource : Multiset AttrCount) :
    Multiset FeatureProb :=
  let requiredTriples := classPriorsSource ×ˢ attrValuesSource
  let counted := leftJoin usingTriple requiredTriples (tripleCounts trainingSource numAttrs)
  let joined := innerJoin (fun row counts => row.1.2.attr == counts.attr) counted attrCountsSource
  joined.map fun row =>
    ⟨row.1.1.1.cls, row.1.1.2.attr, row.1.1.2.value, (row.1.2.map (·.cnt)).getD 0, row.2.attrCnt⟩

end Training

/-! ## Scores of the classes -/

section Scores

variable {α κ : Type} [Field α] [LinearOrder α] [DecidableEq κ] (log : α → α)
variable (featureProbsSource : Multiset FeatureProb) (classPriorsSource : Multiset ClassPrior)
variable (numAttrs : ℤ) (smoothingFactor : α)

/-- The logarithm that a feature adds to the score of a class. -/
def logFeature (classCnt : ℕ) (probs : FeatureProb) : α :=
  log (((probs.cnt : α) + smoothingFactor) /
    ((classCnt : α) + smoothingFactor * (probs.attrCnt : α)))

/-- The column `log_prob` of a group. -/
def logProb (priors : ClassPrior) (probs : Multiset FeatureProb) : Option α :=
  if (probs.card : ℤ) < numAttrs then none
  else
    some (log ((priors.classCnt : α) / (priors.allCnt : α)) +
      (probs.map (logFeature log smoothingFactor priors.classCnt)).sum)

/-- The condition on which rows are joined. -/
def joinCondition (probs : FeatureProb) (priors : ClassPrior) (attr : ℕ) (value : Option ℤ) : Bool :=
  ((((eq probs.cls priors.cls).and (some (probs.attr == attr))).and (eq probs.value value)).and
    (Truth.or (some (decide (0 < smoothingFactor))) (some (decide (0 < probs.cnt))))).isTrue

def getKeysAndProbValuesSql (classifySource : Multiset (ClassifyRow κ)) :
    Multiset (κ × Option ℤ × Option α) :=
  let classify := (classifySource ×ˢ generateSeries numAttrs).map fun row =>
    (row.1.key, row.2, attributeAt row.1.attributes row.2)
  let joined := ((featureProbsSource ×ˢ classPriorsSource) ×ˢ classify).filter fun row =>
    joinCondition smoothingFactor row.1.1 row.1.2 row.2.2.1 row.2.2.2
  let scored := (groupBy (fun row => (row.2.1, row.1.2)) joined).map fun group =>
    (group.1.1, group.1.2.cls,
      logProb log numAttrs smoothingFactor group.1.2 (group.2.map fun row => row.1.1))
  let defaults := (groupBy (fun row => (row.1.key, row.2.cls))
    (classifySource ×ˢ classPriorsSource)).map fun group => (group.1.1, group.1.2, none)
  union scored defaults

def getProbValuesSql (attributes : List (Option ℤ)) : Multiset (Option ℤ × Option α) :=
  let classify := (generateSeries numAttrs).map fun attr => (attr, attributeAt attributes attr)
  let joined := ((featureProbsSource ×ˢ classPriorsSource) ×ˢ classify).filter fun row =>
    joinCondition smoothingFactor row.1.1 row.1.2 row.2.1 row.2.2
  let scored := (groupBy (fun row => row.1.2) joined).map fun group =>
    (group.1.cls,
      logProb log numAttrs smoothingFactor group.1 (group.2.map fun row => row.1.1))
  let defaults := classPriorsSource.map fun classes => (classes.cls, none)
  union scored defaults

end Scores

/-! ## Preparing and classifying -/

inductive NbError where
  | keyError (name : String)
  | nullInPrimaryKey
  | duplicatePrimaryKey
deriving DecidableEq

inductive WhatToCreate where
  | table
  | view
deriving DecidableEq

/-- The relations that a classification is computed from. -/
structure Prepared where
  classPriorsSource : Multiset ClassPrior
  featureProbsSource : Multiset FeatureProb

section Preparation

variable {ρ : Type}

/-- `ADD PRIMARY KEY`; a view has none. -/
def addPrimaryKey (whatToCreate : WhatToCreate) (key : ρ → List (Option ℤ)) (rows : Multiset ρ) :
    Except NbError (Multiset ρ) :=
  match whatToCreate with
  | .view => .ok rows
  | .table =>
      if ¬∀ row ∈ rows, none ∉ key row then .error .nullInPrimaryKey
      else if (rows.map key).Nodup then .ok rows
      else .error .duplicatePrimaryKey

def createPreparedData (whatToCreate : WhatToCreate) (trainingSource : Multiset TrainingRow)
    (numAttrs : ℤ) : Except NbError Prepared := do
  let attrCountsSource ← addPrimaryKey whatToCreate (fun row => [some (row.attr : ℤ)])
    (getAttrCountsSql trainingSource numAttrs)
  let attrValuesSource ← addPrimaryKey whatToCreate (fun row => [some (row.attr : ℤ), row.value])
    (getAttrValuesSql trainingSource numAttrs)
  let classPriorsSource ← addPrimaryKey whatToCreate (fun row => [row.cls])
    (getClassPriorsSql trainingSource)
  let featureProbsSource ← addPrimaryKey whatToCreate
    (fun row => [row.cls, some (row.attr : ℤ), row.value])
    (getFeatureProbsSql trainingSource numAttrs classPriorsSource attrValuesSource attrCountsSource)
  return ⟨classPriorsSource, featureProbsSource⟩

end Preparation

/-- The arguments of a call by name. -/
structure Kwargs (α : Type) where
  numAttrs : ℤ
  trainingSource : Option (Multiset TrainingRow)
  classPriorsSource : Option (Multiset ClassPrior)
  featureProbsSource : Option (Multiset FeatureProb)
  smoothingFactor : Option α

/-- An argument that a query text names must be there. -/
def requireArg {β : Type} (name : String) : Option β → Except NbError β
  | some b => .ok b
  | none => .error (.keyError name)

section Classification

variable {α κ : Type} [Field α] [LinearOrder α] [DecidableEq κ] (log : α → α)

/-- A relation that is given is used, and otherwise the subquery. -/
def givenOr {β : Type} (given : Option β) (subquery : Except NbError β) : Except NbError β :=
  match given with
  | some b => .ok b
  | none => subquery

def initPreparedData (kwargs : Kwargs α) : Except NbError (Prepared × α) := do
  let classPriorsSource ← givenOr kwargs.classPriorsSource do
    let trainingSource ← requireArg "trainingSource" kwargs.trainingSource
    return getClassPriorsSql trainingSource
  let featureProbsSource ← givenOr kwargs.featureProbsSource do
    let trainingSource ← requireArg "trainingSource" kwargs.trainingSource
    return getFeatureProbsSql trainingSource kwargs.numAttrs classPriorsSource
      (getAttrValuesSql trainingSource kwargs.numAttrs)
      (getAttrCountsSql trainingSource kwargs.numAttrs)
  return (⟨classPriorsSource, featureProbsSource⟩, kwargs.smoothingFactor.getD 1)

/-- The array that argmax returns for rows in some order, split and merged in some way. -/
def ArgmaxReturns (rows : Multiset (Option ℤ × Option α)) (array : Option (List (Option ℤ))) :
    Prop :=
  ∃ plan state, plan.rows = rows ∧ argmax.run plan = .ok state ∧ argmaxFinal state = array

/-- The rows (key, class, log_prob) that are classified. -/
def keysAndProbValues (kwargs : Kwargs α) (classifySource : Multiset (ClassifyRow κ)) :
    Except NbError (Multiset (κ × Option ℤ × Option α)) := do
  let (prepared, smoothingFactor) ← initPreparedData kwargs
  return getKeysAndProbValuesSql log prepared.featureProbsSource prepared.classPriorsSource
    kwargs.numAttrs smoothingFactor classifySource

/-- The relation (key, nb_classification) that is created: a row for each key, with what argmax
returns for the classes and scores of this key. -/
def CreatesClassification (kwargs : Kwargs α) (classifySource : Multiset (ClassifyRow κ))
    (dest : Multiset (κ × Option (List (Option ℤ)))) : Prop :=
  ∃ keysAndNbValues, keysAndProbValues log kwargs classifySource = .ok keysAndNbValues ∧
    dest.map Prod.fst = (groupBy Prod.fst keysAndNbValues).map Prod.fst ∧
      ∀ row ∈ dest, ∃ group ∈ groupBy Prod.fst keysAndNbValues,
        group.1 = row.1 ∧ ArgmaxReturns (group.2.map Prod.snd) row.2

/-- The rows (class, log_prob) that the generated function classifies. -/
def probValues (kwargs : Kwargs α) (inAttributes : List (Option ℤ)) (inSmoothingFactor : α) :
    Except NbError (Multiset (Option ℤ × Option α)) := do
  let (prepared, smoothingFactor) ←
    initPreparedData { kwargs with smoothingFactor := some inSmoothingFactor }
  return getProbValuesSql log prepared.featureProbsSource prepared.classPriorsSource
    kwargs.numAttrs smoothingFactor inAttributes

/-- What the function made by `create_classification_function` returns. -/
def ClassificationFunctionReturns (kwargs : Kwargs α) (inAttributes : List (Option ℤ))
    (inSmoothingFactor : α) (array : Option (List (Option ℤ))) : Prop :=
  ∃ nbValues, probValues log kwargs inAttributes inSmoothingFactor = .ok nbValues ∧
    ArgmaxReturns nbValues array

end Classification

end Madlib.Bayes
