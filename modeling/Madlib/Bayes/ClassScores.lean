import Mathlib
import Madlib.Bayes.FeatureProbs

/-!
# The scores of the classes

A class has the score of the formula when every value of the record occurs in the training data,
and NULL otherwise.  Every class has a further row with NULL, which is never of a larger score.
-/

namespace Madlib.Bayes

open Madlib.Lib.ThreeValued
open Madlib.Lib.Relation

variable {trainingSource : Multiset TrainingRow} {numAttrs : ℤ} {attributes : List (Option ℤ)}

variable (trainingSource) in
/-- The classes, without NULL. -/
def classes : Multiset ℤ :=
  (trainingSource.map (·.cls)).dedup.filterMap id

variable (trainingSource) in
/-- The NULL that is added for each class. -/
def defaultRows (α : Type) : Multiset (Option ℤ × Option α) :=
  (trainingSource.map (·.cls)).dedup.map fun cls => (cls, none)

theorem mem_classes {c : ℤ} : c ∈ classes trainingSource ↔ IsClass trainingSource (some c) := by
  unfold classes IsClass
  simp only [Multiset.mem_filterMap, Multiset.mem_dedup, Multiset.mem_map, id_eq,
    exists_eq_right]

theorem nodup_classes : (classes trainingSource).Nodup := by
  refine Multiset.Nodup.filterMap _ ?_ (Multiset.nodup_dedup _)
  intro cls cls' c hc hc'
  exact hc.trans hc'.symm

theorem mem_defaultRows {α : Type} {cls : Option ℤ} {value : Option α} :
    (cls, value) ∈ defaultRows trainingSource α ↔ IsClass trainingSource cls ∧ value = none := by
  unfold defaultRows IsClass
  simp only [Multiset.mem_map, Multiset.mem_dedup, Prod.mk.injEq]
  constructor
  · rintro ⟨_, hcls, rfl, hvalue⟩
    exact ⟨hcls, hvalue.symm⟩
  · rintro ⟨hcls, hvalue⟩
    exact ⟨cls, hcls, rfl, hvalue.symm⟩

theorem nodup_defaultRows {α : Type} : (defaultRows trainingSource α).Nodup :=
  (Multiset.nodup_dedup _).map fun _ _ heq => congrArg Prod.fst heq

theorem keyedRows_defaultRows {α : Type} :
    keyedRows (defaultRows trainingSource α) = (classes trainingSource).map fun c => (c, ⊥) := by
  unfold keyedRows defaultRows classes
  rw [Multiset.filterMap_map, Multiset.map_filterMap]
  rfl

section Scores

variable {α : Type} [Field α]

/-- The score of a class. -/
def score (log : α → α) (trainingSource : Multiset TrainingRow) (numAttrs : ℤ)
    (smoothingFactor : α) (attributes : List (Option ℤ)) (c : ℤ) : Option α :=
  if ∀ attr ∈ generateSeries numAttrs, Occurs trainingSource attr (attributeAt attributes attr) then
    some (log ((classCount trainingSource (some c) : α) / (trainingSource.card : α)) +
      ((generateSeries numAttrs).map fun attr =>
        log (((tripleCount trainingSource (some c) attr (attributeAt attributes attr) : α) +
            smoothingFactor) /
          ((classCount trainingSource (some c) : α) +
            smoothingFactor * (attrCount trainingSource attr : α)))).sum)
  else none

/-- Each class with its score. -/
def scoreRows (log : α → α) (trainingSource : Multiset TrainingRow) (numAttrs : ℤ)
    (smoothingFactor : α) (attributes : List (Option ℤ)) : Multiset (Option ℤ × Option α) :=
  (classes trainingSource).map fun c =>
    (some c, score log trainingSource numAttrs smoothingFactor attributes c)

variable {log : α → α} {smoothingFactor : α}

theorem mem_scoreRows {cls : Option ℤ} {value : Option α} :
    (cls, value) ∈ scoreRows log trainingSource numAttrs smoothingFactor attributes ↔
      ∃ c, IsClass trainingSource (some c) ∧ cls = some c ∧
        value = score log trainingSource numAttrs smoothingFactor attributes c := by
  unfold scoreRows
  simp only [Multiset.mem_map, mem_classes, Prod.mk.injEq, eq_comm]

theorem nodup_scoreRows :
    (scoreRows log trainingSource numAttrs smoothingFactor attributes).Nodup :=
  nodup_classes.map fun _ _ heq => Option.some.inj (congrArg Prod.fst heq)

theorem keyedRows_scoreRows :
    keyedRows (scoreRows log trainingSource numAttrs smoothingFactor attributes) =
      (classes trainingSource).map fun c =>
        (c, rank (score log trainingSource numAttrs smoothingFactor attributes c)) := by
  unfold keyedRows scoreRows
  rw [Multiset.filterMap_map, ← Multiset.filterMap_eq_map]
  rfl

end Scores

section Maximum

variable {α : Type} [LinearOrder α]

/-- Rows of the lowest rank do not count next to a row of a higher one. -/
theorem maximalKeys_add_bot {rows bots : Multiset (ℤ × WithBot α)}
    (hbots : ∀ row ∈ bots, row.2 = ⊥) (hrows : bots ≠ 0 → ∃ row ∈ rows, ⊥ < row.2) :
    maximalKeys (rows + bots) = maximalKeys rows := by
  have hkept : rows.filter (fun row => ∀ other ∈ rows + bots, other.2 ≤ row.2) =
      rows.filter fun row => ∀ other ∈ rows, other.2 ≤ row.2 := by
    refine Multiset.filter_congr fun row _ => ?_
    constructor
    · intro h other hother
      exact h other (Multiset.mem_add.mpr (.inl hother))
    · intro h other hother
      rcases Multiset.mem_add.mp hother with hother | hother
      · exact h other hother
      · rw [hbots other hother]
        exact bot_le
  have hdropped : bots.filter (fun row => ∀ other ∈ rows + bots, other.2 ≤ row.2) = 0 := by
    refine Multiset.filter_eq_nil.mpr fun row hrow h => ?_
    obtain ⟨top, htop, hlt⟩ := hrows (ne_of_mem_of_not_mem' hrow (Multiset.notMem_zero row))
    have hle := h top (Multiset.mem_add.mpr (.inl htop))
    rw [hbots row hrow] at hle
    exact hle.not_gt hlt
  rw [maximalKeys, Multiset.filter_add, hdropped, add_zero, hkept]
  rfl

variable [Field α] {log : α → α} {smoothingFactor : α}

/-- The NULL values do not change the classes of the largest score. -/
theorem maximalKeys_union :
    maximalKeys (keyedRows (union
      (scoreRows log trainingSource numAttrs smoothingFactor attributes)
      (defaultRows trainingSource α))) =
    maximalKeys (keyedRows (scoreRows log trainingSource numAttrs smoothingFactor attributes)) := by
  by_cases hall : ∀ attr ∈ generateSeries numAttrs,
      Occurs trainingSource attr (attributeAt attributes attr)
  · have hdisjoint : Disjoint (scoreRows log trainingSource numAttrs smoothingFactor attributes)
        (defaultRows trainingSource α) := by
      refine Multiset.disjoint_left.mpr ?_
      rintro ⟨cls, value⟩ hscore hdefault
      obtain ⟨c, -, -, hvalue⟩ := mem_scoreRows.mp hscore
      rw [score, if_pos hall] at hvalue
      rw [(mem_defaultRows.mp hdefault).2] at hvalue
      cases hvalue
    have hunion := Multiset.dedup_eq_self.mpr
      ((Multiset.Nodup.add_iff nodup_scoreRows nodup_defaultRows).mpr hdisjoint)
    rw [union, hunion, keyedRows_add]
    refine maximalKeys_add_bot ?_ ?_
    · intro row hrow
      rw [keyedRows_defaultRows] at hrow
      obtain ⟨c, -, rfl⟩ := Multiset.mem_map.mp hrow
      rfl
    · intro hne
      obtain ⟨row, hrow⟩ := Multiset.exists_mem_of_ne_zero hne
      rw [keyedRows_defaultRows] at hrow
      obtain ⟨c, hc, rfl⟩ := Multiset.mem_map.mp hrow
      refine ⟨(c, rank (score log trainingSource numAttrs smoothingFactor attributes c)), ?_, ?_⟩
      · rw [keyedRows_scoreRows]
        exact Multiset.mem_map.mpr ⟨c, hc, rfl⟩
      · dsimp only
        rw [score, if_pos hall]
        exact WithBot.bot_lt_coe _
  · have hsubset : scoreRows log trainingSource numAttrs smoothingFactor attributes ⊆
        defaultRows trainingSource α := by
      rintro ⟨cls, value⟩ hscore
      obtain ⟨c, hclass, rfl, rfl⟩ := mem_scoreRows.mp hscore
      rw [score, if_neg hall]
      exact mem_defaultRows.mpr ⟨hclass, rfl⟩
    rw [union, hsubset.dedup_add_right, Multiset.dedup_eq_self.mpr nodup_defaultRows,
      keyedRows_defaultRows, keyedRows_scoreRows]
    simp only [score, if_neg hall]
    rfl

end Maximum

end Madlib.Bayes
