import Madlib.Stats.AnovaState

/-!
# Merging the states of the analysis of variance

A merge takes, for the group at a position of the sorted list, the slot with that number and not
the slot the position refers to.  So the groups of the right state change places when they did not
arrive in ascending order.
-/

namespace Madlib.Stats

open Madlib.Backend Madlib.Dbal Madlib.Lib.Arrivals Madlib.Lib.Moments Madlib.Lib.Segments

section Specification

variable {α : Type}

/-- The values of the rows of a group. -/
def valuesOf (rows : Multiset (Int × α)) (g : Nat) : Multiset α :=
  (rows.filter fun row => label row.1 = g).map Prod.snd

def distinctLabels (rows : Multiset (Int × α)) : Finset Nat :=
  (rows.map fun row => label row.1).toFinset

/-- The group whose slot a merge takes for `g`: the one that arrived at the position `g` has in
the sorted list. -/
def slotOwner (order : List Nat) (g : Nat) : Option Nat := order[(sorted order).idxOf g]?

/-- The groups of a plan in the order of their slots. -/
def arrivals : Plan (Int × α) → List Nat
  | .segment rows => (rows.map fun row => label row.1).foldl arrive []
  | .merged left right => (sorted (arrivals right)).foldl arrive (arrivals left)

/-- The values a plan gives to a group. -/
def attributed : Plan (Int × α) → Nat → Multiset α
  | .segment rows => valuesOf rows
  | .merged left right => fun g =>
      attributed left g + (slotOwner (arrivals right) g).elim 0 (attributed right)

/-- The groups of each right operand arrived in ascending order. -/
def RightAscending : Plan (Int × α) → Prop
  | .segment _ => True
  | .merged left right =>
      RightAscending left ∧ RightAscending right ∧ (arrivals right).Pairwise (· ≤ ·)

theorem label_lt (group : Int) : label group < 65536 := by
  unfold label
  omega

theorem valuesOf_cons (row : Int × α) (rows : Multiset (Int × α)) :
    valuesOf (row ::ₘ rows) = Function.update (valuesOf rows) (label row.1)
      (valuesOf rows (label row.1) + {row.2}) := by
  funext g
  unfold valuesOf
  by_cases hg : label row.1 = g
  · rw [← hg, Function.update_self,
      Multiset.filter_cons_of_pos (p := fun r : Int × α => label r.1 = label row.1) _ rfl,
      Multiset.map_cons, add_comm, Multiset.singleton_add]
  · rw [Function.update_of_ne (Ne.symm hg),
      Multiset.filter_cons_of_neg (p := fun r : Int × α => label r.1 = g) _ hg]

theorem valuesOf_add (rows rows' : Multiset (Int × α)) (g : Nat) :
    valuesOf (rows + rows') g = valuesOf rows g + valuesOf rows' g := by
  unfold valuesOf
  rw [Multiset.filter_add, Multiset.map_add]

theorem valuesOf_eq_zero {rows : Multiset (Int × α)} {g : Nat} :
    valuesOf rows g = 0 ↔ g ∉ distinctLabels rows := by
  unfold valuesOf distinctLabels
  rw [Multiset.map_eq_zero, Multiset.filter_eq_nil, Multiset.mem_toFinset, Multiset.mem_map]
  simp only [not_exists, not_and]

theorem slotOwner_of_ascending {order : List Nat} (hsorted : order.Pairwise (· ≤ ·)) (g : Nat) :
    slotOwner order g = if g ∈ order then some g else none := by
  have heq : sorted order = order := hsorted.insertionSort_eq
  unfold slotOwner
  rw [heq]
  split
  case isTrue hg => exact List.getElem?_idxOf hg
  case isFalse hg => exact List.getElem?_eq_none (List.idxOf_eq_length hg).ge

theorem mem_arrivals {plan : Plan (Int × α)} {g : Nat} :
    g ∈ arrivals plan ↔ g ∈ distinctLabels plan.rows := by
  induction plan with
  | segment rows => simp [arrivals, distinctLabels, Plan.rows]
  | merged left right ihl ihr =>
      rw [arrivals, mem_foldl_arrive, mem_sorted, ihl, ihr]
      simp only [distinctLabels, Plan.rows, Multiset.map_add, Multiset.toFinset_add, Finset.mem_union]

theorem arrivals_nodup (plan : Plan (Int × α)) : (arrivals plan).Nodup := by
  induction plan with
  | segment rows => exact foldl_arrive_nodup List.nodup_nil _
  | merged left right ihl ihr => exact foldl_arrive_nodup ihl _

theorem length_arrivals (plan : Plan (Int × α)) :
    (arrivals plan).length = (distinctLabels plan.rows).card := by
  rw [← List.toFinset_card_of_nodup (arrivals_nodup plan)]
  congr 1
  ext g
  rw [List.mem_toFinset, mem_arrivals]

theorem length_arrivals_le {part plan : Plan (Int × α)} (h : ∀ row ∈ part.rows, row ∈ plan.rows) :
    (arrivals part).length ≤ (arrivals plan).length := by
  rw [length_arrivals, length_arrivals]
  apply Finset.card_le_card
  intro g hg
  obtain ⟨row, hrow, hlabel⟩ := Multiset.mem_map.mp (Multiset.mem_toFinset.mp hg)
  exact Multiset.mem_toFinset.mpr (Multiset.mem_map.mpr ⟨row, h row hrow, hlabel⟩)

/-- Where all right operands are ascending, a plan gives each group its own values. -/
theorem attributed_of_ascending {plan : Plan (Int × α)} (h : RightAscending plan) :
    attributed plan = valuesOf plan.rows := by
  induction plan with
  | segment rows => rfl
  | merged left right ihl ihr =>
      obtain ⟨hl, hr, hsorted⟩ := h
      funext g
      rw [attributed, ihl hl, ihr hr]
      dsimp only
      rw [slotOwner_of_ascending hsorted, Plan.rows, valuesOf_add]
      congr 1
      split
      case isTrue => rfl
      case isFalse hg => exact (valuesOf_eq_zero.mpr fun hmem => hg (mem_arrivals.mpr hmem)).symm

end Specification

/-! ## What a state has seen -/

/-- Groups that arrived, and values that were given to them only. -/
structure Arrived {α : Type} (order : List Nat) (values : Nat → Multiset α) : Prop where
  nodup : order.Nodup
  label_lt : ∀ g ∈ order, g < 65536
  empty : ∀ g, g ∉ order → values g = 0

section Arrived

variable {α : Type} {order : List Nat} {values : Nat → Multiset α}

theorem arrived_nil : Arrived (α := α) [] fun _ => 0 := by
  constructor
  · exact List.nodup_nil
  · simp
  · simp

theorem Arrived.arrive (h : Arrived order values) {g : Nat} (hg : g < 65536)
    (added : Multiset α) :
    Arrived (arrive order g) (Function.update values g (values g + added)) := by
  constructor
  · exact arrive_nodup h.nodup g
  · intro g' hg'
    rcases mem_arrive.mp hg' with hold | rfl
    · exact h.label_lt g' hold
    · exact hg
  · intro g' hg'
    rw [mem_arrive, not_or] at hg'
    rw [Function.update_of_ne hg'.2, h.empty g' hg'.1]

end Arrived

/-! ## Runs -/

section Runs

variable {α : Type} [Field α] [LinearOrder α] [FloorRing α] [IsStrictOrderedRing α]
  {order : List Nat} {values : Nat → Multiset α}

theorem transition_stateOf (h : Arrived order values) (row : Int × α)
    (hn : (arrive order (label row.1)).length ≤ 32768) :
    oneWayAnova.transition (stateOf order values).toArray row =
      .ok (stateOf (arrive order (label row.1)) (Function.update values (label row.1)
        (values (label row.1) + {row.2}))).toArray := by
  have hle : order.length ≤ 32768 := (length_le_arrive order _).trans hn
  change oneWayAnovaTransition _ row.1 row.2 = _
  unfold oneWayAnovaTransition
  rw [construct_stateOf hle, ok_bind, ← moments_singleton row.2]
  exact idxOfGroup_updateAt hn h.nodup (h.empty _) {row.2} fun s => .ok s.toArray

theorem foldlM_stateOf (h : Arrived order values) (rows : List (Int × α))
    (hn : ((rows.map fun row => label row.1).foldl arrive order).length ≤ 32768) :
    rows.foldlM oneWayAnova.transition (stateOf order values).toArray =
      .ok (stateOf ((rows.map fun row => label row.1).foldl arrive order)
        fun g => values g + valuesOf rows g).toArray := by
  induction rows generalizing order values with
  | nil => simp [valuesOf]
  | cons row rows ih =>
      rw [List.map_cons, List.foldl_cons] at hn ⊢
      rw [List.foldlM_cons, transition_stateOf h row ((length_le_foldl_arrive _ _).trans hn), ok_bind,
        ih (h.arrive (label_lt row.1) {row.2}) hn]
      congr 3
      funext g
      rw [← Multiset.cons_coe, valuesOf_cons]
      by_cases hg : g = label row.1
      · rw [hg, Function.update_self, Function.update_self, add_right_comm, add_assoc]
      · rw [Function.update_of_ne hg, Function.update_of_ne hg]

/-- One pass only returns when there is room for all groups. -/
theorem length_of_foldlM (h : Arrived order values) (hle : order.length ≤ 32768)
    (rows : List (Int × α)) {storage : List α}
    (hrun : rows.foldlM oneWayAnova.transition (stateOf order values).toArray = .ok storage) :
    ((rows.map fun row => label row.1).foldl arrive order).length ≤ 32768 := by
  induction rows generalizing order values with
  | nil => exact hle
  | cons row rows ih =>
      rw [List.map_cons, List.foldl_cons]
      rw [List.foldlM_cons] at hrun
      by_cases hn : (arrive order (label row.1)).length ≤ 32768
      · rw [transition_stateOf h row hn, ok_bind] at hrun
        exact ih (h.arrive (label_lt row.1) {row.2}) hn hrun
      · have hnew : label row.1 ∉ order := by
          intro hmem
          rw [arrive, if_pos hmem] at hn
          exact hn hle
        have hlen : order.length = 32768 := by
          rw [arrive, if_neg hnew, List.length_append, List.length_singleton] at hn
          omega
        have hstep : oneWayAnova.transition (stateOf order values).toArray row =
            .error (thrown "Out-of-bounds array access detected.") := by
          change oneWayAnovaTransition _ row.1 row.2 = _
          unfold oneWayAnovaTransition
          rw [construct_stateOf hle, ok_bind, idxOfGroup_error hlen hnew, error_bind]
        rw [hstep] at hrun
        cases hrun

theorem pass_eq (rows : List (Int × α))
    (hn : (arrivals (.segment rows)).length ≤ 32768) :
    oneWayAnova.pass rows =
      .ok (stateOf (arrivals (.segment rows)) (valuesOf rows)).toArray := by
  have hrun := foldlM_stateOf arrived_nil rows hn
  rw [stateOf_nil] at hrun
  simp only [zero_add] at hrun
  exact hrun

theorem length_of_pass {rows : List (Int × α)} {storage : List α}
    (hrun : oneWayAnova.pass rows = .ok storage) :
    (arrivals (.segment rows)).length ≤ 32768 := by
  have hstart : rows.foldlM oneWayAnova.transition (stateOf [] fun _ => 0).toArray =
      .ok storage := by
    rw [stateOf_nil]
    exact hrun
  exact length_of_foldlM arrived_nil (Nat.zero_le _) rows hstart

/-! ## Merges -/

variable {order' : List Nat} {values' : Nat → Multiset α}

theorem getElem?_sorted_idxOf {order : List Nat} (hnodup : order.Nodup) {p g : Nat}
    (hp : (sorted order)[p]? = some g) : (sorted order).idxOf g = p := by
  obtain ⟨hlt, hget⟩ := List.getElem?_eq_some_iff.mp hp
  rw [← hget]
  exact (sorted_nodup hnodup).idxOf_getElem p hlt

/-- One position of the right state: its group gets what the slot with that number holds. -/
theorem mergeGroup_stateOf (h : Arrived order values) (h' : Arrived order' values')
    (hn' : order'.length ≤ 32768) {p g : Nat} (hp : (sorted order')[p]? = some g)
    (hn : (arrive order g).length ≤ 32768) :
    mergeGroup (stateOf order' values') (stateOf order values) p =
      .ok (stateOf (arrive order g)
        (Function.update values g (values g + (slotOwner order' g).elim 0 values'))) := by
  have hmem : g ∈ order' := mem_sorted.mp (List.mem_of_getElem? hp)
  have hlt : p < order'.length := by
    rw [← length_sorted order']
    exact (List.getElem?_eq_some_iff.mp hp).1
  have hposition := getElem?_sorted_idxOf h'.nodup hp
  have hbound : lowerBound (sorted order') g = p := by
    have hfound := (getElem?_lowerBound (sorted_pairwise order') g).mpr (mem_sorted.mpr hmem)
    rw [← getElem?_sorted_idxOf h'.nodup hfound, hposition]
  have howner : order'[p]? = some order'[p] := List.getElem?_eq_getElem hlt
  have hderef : deref (stateOf order' values' : OWATransitionState α).groupValues p =
      .ok (g : α) := by
    apply deref_ok
    unfold stateOf
    rw [getElem?_padded (by simpa using hlt), List.getElem?_map, hp]
    rfl
  have himmutable : (stateOf order' values' : OWATransitionState α).idxOfGroupImmutable g =
      .ok p := by
    unfold OWATransitionState.idxOfGroupImmutable
    rw [positionOf_stateOf hn', ok_bind, if_pos (decide_eq_true hmem), hbound]
    rfl
  unfold mergeGroup
  rw [hderef, ok_bind, uint16_natCast (h'.label_lt g hmem), himmutable, ok_bind]
  rw [idxOfGroup_stateOf hn (h.empty g), ok_bind, sampleAt_stateOf hn' howner, ok_bind,
    slotOwner, hposition, howner]
  exact updateAt_stateOf hn (arrive_nodup h.nodup g) (mem_arrive.mpr (.inr rfl)) _

/-- What a left state is given for the groups that the merge has come to. -/
def given (order' : List Nat) (values' : Nat → Multiset α) (seen : List Nat) (g : Nat) :
    Multiset α :=
  if g ∈ seen then (slotOwner order' g).elim 0 values' else 0

/-- What the first positions of the right state have given to the left one. -/
theorem foldlM_mergeGroup (h : Arrived order values) (h' : Arrived order' values')
    (hn' : order'.length ≤ 32768) {p : Nat} (hp : p ≤ order'.length)
    (hn : (((sorted order').take p).foldl arrive order).length ≤ 32768) :
    (List.range p).foldlM (mergeGroup (stateOf order' values')) (stateOf order values) =
        .ok (stateOf (((sorted order').take p).foldl arrive order)
          fun g => values g + given order' values' ((sorted order').take p) g) ∧
      Arrived (((sorted order').take p).foldl arrive order)
        fun g => values g + given order' values' ((sorted order').take p) g := by
  induction p with
  | zero =>
      constructor
      · simp [given]
      · simpa [given] using h
  | succ p ih =>
      have hlt : p < (sorted order').length := by
        rw [length_sorted]
        exact hp
      have htake : (sorted order').take (p + 1) = (sorted order').take p ++ [(sorted order')[p]] :=
        (List.take_append_getElem hlt).symm
      have hget : (sorted order')[p]? = some (sorted order')[p] := List.getElem?_eq_getElem hlt
      rw [htake, List.foldl_append, List.foldl_cons, List.foldl_nil] at hn ⊢
      have hnew : (sorted order')[p] ∉ (sorted order').take p := by
        have hnodup : ((sorted order').take (p + 1)).Nodup :=
          (sorted_nodup h'.nodup).sublist (List.take_sublist _ _)
        rw [htake, List.nodup_append] at hnodup
        intro hmem
        exact hnodup.2.2 _ hmem _ (List.mem_singleton.mpr rfl) rfl
      obtain ⟨hrun, harrived⟩ := ih (Nat.le_of_succ_le hp) ((length_le_arrive _ _).trans hn)
      generalize (sorted order')[p] = g at *
      have hvalues : (fun g' => values g' + given order' values' ((sorted order').take p ++ [g]) g') =
          Function.update (fun g' => values g' + given order' values' ((sorted order').take p) g') g
            (values g + given order' values' ((sorted order').take p) g +
              (slotOwner order' g).elim 0 values') := by
        funext g'
        by_cases hg : g' = g
        · rw [hg, Function.update_self]
          simp [given, hnew]
        · rw [Function.update_of_ne hg]
          simp [given, hg]
      rw [List.range_succ, List.foldlM_append, hrun, ok_bind, List.foldlM_cons, hvalues]
      constructor
      · rw [mergeGroup_stateOf harrived h' hn' hget hn]
        rfl
      · exact harrived.arrive (h'.label_lt g (mem_sorted.mp (List.mem_of_getElem? hget))) _

theorem slotOwner_eq_none {order : List Nat} {g : Nat} (hg : g ∉ order) :
    slotOwner order g = none := by
  apply List.getElem?_eq_none
  rw [List.idxOf_eq_length fun hmem => hg (mem_sorted.mp hmem), length_sorted]

theorem merge_stateOf (h : Arrived order values) (h' : Arrived order' values')
    (hn' : order'.length ≤ 32768) (hn : ((sorted order').foldl arrive order).length ≤ 32768) :
    oneWayAnovaMergeStates (stateOf order values).toArray (stateOf order' values').toArray =
        .ok (stateOf ((sorted order').foldl arrive order)
          fun g => values g + (slotOwner order' g).elim 0 values').toArray ∧
      Arrived ((sorted order').foldl arrive order)
        fun g => values g + (slotOwner order' g).elim 0 values' := by
  have hle : order.length ≤ 32768 := (length_le_foldl_arrive order _).trans hn
  have hall : (sorted order').take order'.length = sorted order' :=
    List.take_of_length_le (length_sorted order').le
  have hgiven : given order' values' (sorted order') =
      fun g => (slotOwner order' g).elim 0 values' := by
    funext g
    unfold given
    by_cases hg : g ∈ sorted order'
    · rw [if_pos hg]
    · rw [if_neg hg, slotOwner_eq_none fun hmem => hg (mem_sorted.mpr hmem)]
      rfl
  have hfold := foldlM_mergeGroup h h' hn' le_rfl (by rwa [hall])
  rw [hall, hgiven] at hfold
  constructor
  · unfold oneWayAnovaMergeStates
    rw [construct_stateOf hle, ok_bind, construct_stateOf hn', ok_bind, uint16_numGroups hn',
      hfold.1, ok_bind]
    rfl
  · exact hfold.2

/-- What a plan returns: its groups, with the values it gives to each. -/
theorem run_eq {plan : Plan (Int × α)} (hn : (arrivals plan).length ≤ 32768) :
    oneWayAnova.run plan = .ok (stateOf (arrivals plan) (attributed plan)).toArray ∧
      Arrived (arrivals plan) (attributed plan) := by
  induction plan with
  | segment rows =>
      constructor
      · exact pass_eq rows hn
      · constructor
        · exact arrivals_nodup (.segment rows)
        · intro g hg
          obtain ⟨row, -, hrow⟩ := Multiset.mem_map.mp (Multiset.mem_toFinset.mp (mem_arrivals.mp hg))
          rw [← hrow]
          exact label_lt row.1
        · intro g hg
          exact valuesOf_eq_zero.mpr fun hmem => hg (mem_arrivals.mpr hmem)
  | merged left right ihl ihr =>
      have hsub : (arrivals right).length ≤ (arrivals (.merged left right)).length :=
        length_arrivals_le fun row hrow => Plan.mem_merged.mpr (.inr hrow)
      obtain ⟨hleft, harrivedLeft⟩ := ihl ((length_le_foldl_arrive _ _).trans hn)
      obtain ⟨hright, harrivedRight⟩ := ihr (hsub.trans hn)
      obtain ⟨hmerge, harrived⟩ := merge_stateOf harrivedLeft harrivedRight (hsub.trans hn) hn
      constructor
      · rw [Aggregate.run_merged hleft hright]
        exact hmerge
      · exact harrived

/-! ## Independence of the partition -/

theorem groupSample_stateOf (hn : order.length ≤ 32768) (g : Nat) :
    groupSample (stateOf order values).toArray g =
      .ok (if g ∈ order then some (moments (values g)) else none) := by
  unfold groupSample
  rw [construct_stateOf hn, ok_bind, positionOf_stateOf hn, ok_bind]
  by_cases hg : g ∈ order
  · rw [if_pos (decide_eq_true hg), if_pos hg]
    dsimp only
    rw [deref_posToIndices (getElem?_numbers hg), ok_bind, Nat.floor_natCast,
      sampleAt_stateOf hn (List.getElem?_idxOf hg)]
    rfl
  · rw [if_neg (by simpa using hg), if_neg hg]
    rfl


/-- The state has a slot for the group. -/
def HasGroup (storage : List α) (g : Nat) : Prop :=
  ∃ sample, groupSample storage g = .ok (some sample)

theorem hasGroup_stateOf (hn : order.length ≤ 32768) (g : Nat) :
    HasGroup (stateOf order values).toArray g ↔ g ∈ order := by
  unfold HasGroup
  rw [groupSample_stateOf hn]
  by_cases hg : g ∈ order
  · simp [hg]
  · simp [hg]

/-- A plan and one pass over its rows agree on the number of values, the sum and the corrected sum
of squares of each group, and the groups are those of the segments. -/
def PartitionIndependent (plan : Plan (Int × α)) (rows : List (Int × α)) : Prop :=
  ∃ merged whole, oneWayAnova.run plan = .ok merged ∧ oneWayAnova.pass rows = .ok whole ∧
    (∀ g, groupSample merged g = groupSample whole g) ∧
    ∀ g, HasGroup merged g ↔
      ∃ segment ∈ plan.segments, ∃ state, oneWayAnova.pass segment = .ok state ∧ HasGroup state g

theorem hasGroup_segments {plan : Plan (Int × α)} (hn : (arrivals plan).length ≤ 32768) (g : Nat) :
    (∃ segment ∈ plan.segments, ∃ state, oneWayAnova.pass segment = .ok state ∧
      HasGroup state g) ↔ g ∈ arrivals plan := by
  have hsegment : ∀ segment ∈ plan.segments, oneWayAnova.pass segment =
      .ok (stateOf (arrivals (.segment segment)) (valuesOf segment)).toArray ∧
        (arrivals (.segment segment)).length ≤ 32768 := by
    intro segment hmem
    have hsub : ∀ row ∈ (Plan.segment segment).rows, row ∈ plan.rows := fun row hrow =>
      Plan.mem_rows.mpr ⟨segment, hmem, hrow⟩
    have hle : (arrivals (.segment segment)).length ≤ 32768 := (length_arrivals_le hsub).trans hn
    exact ⟨pass_eq segment hle, hle⟩
  have hlabel : ∀ plan : Plan (Int × α), g ∈ arrivals plan ↔ ∃ row ∈ plan.rows, label row.1 = g := by
    intro plan
    rw [mem_arrivals, distinctLabels, Multiset.mem_toFinset, Multiset.mem_map]
  rw [hlabel]
  constructor
  · rintro ⟨segment, hmem, state, hpass, hgroup⟩
    obtain ⟨hrun, hle⟩ := hsegment segment hmem
    rw [hrun] at hpass
    cases hpass
    obtain ⟨row, hrow, hg⟩ := (hlabel _).mp ((hasGroup_stateOf hle g).mp hgroup)
    exact ⟨row, Plan.mem_rows.mpr ⟨segment, hmem, hrow⟩, hg⟩
  · rintro ⟨row, hrow, hg⟩
    obtain ⟨segment, hmem, hin⟩ := Plan.mem_rows.mp hrow
    obtain ⟨hrun, hle⟩ := hsegment segment hmem
    refine ⟨segment, hmem, _, hrun, (hasGroup_stateOf hle g).mpr ?_⟩
    exact (hlabel (.segment segment)).mpr ⟨row, hin, hg⟩

end Runs

end Madlib.Stats
