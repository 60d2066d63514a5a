import Madlib.Stats.AnovaMerge

/-!
# The directory of the groups

Whatever labels are looked up, and whatever their callers do with the slots they are given, the
state keeps the labels in ascending order, the numbers of the slots beside them, and in each slot
what the callers of its label made of it.  The labels are those of the rows cut down to 16 bits,
so that labels of different rows may be one label of the state.
-/

namespace Madlib.Stats

open Madlib.Backend Madlib.Dbal Madlib.Lib.Arrivals Madlib.Lib.Moments

section Calls

variable {α : Type} [Field α] [LinearOrder α] [FloorRing α]

/-- A call of the mutable `idxOfGroup` on the state in an array, whose caller changes what is in
the slot it is given. -/
def lookup (storage : List α) (inValue : Nat) (use : Sample α → Sample α) :
    Except Fault (List α × Nat) := do
  let state ← OWATransitionState.construct storage
  let found ← state.idxOfGroup inValue
  let slot ← found.1.sampleAt found.2
  pure ((found.1.putSample found.2 (use slot)).toArray, found.2)

/-- Calls one after the other, with the index each of them returns. -/
def lookups : List α → List (Nat × (Sample α → Sample α)) → Except Fault (List α × List Nat)
  | storage, [] => .ok (storage, [])
  | storage, call :: calls => do
      let first ← lookup storage call.1 call.2
      let rest ← lookups first.1 calls
      pure (rest.1, first.2 :: rest.2)

/-- What the calls for a label make of the contents of a slot. -/
def used (calls : List (Nat × (Sample α → Sample α))) (g : Nat) (slot : Sample α) : Sample α :=
  (calls.filter fun call => call.1 = g).foldl (fun slot call => call.2 slot) slot

/-- The labels in the order of their slots. -/
def callOrder (calls : List (Nat × (Sample α → Sample α))) : List Nat :=
  (calls.map Prod.fst).foldl arrive []

/-- Every label that was looked up has its place in the sorted labels and a slot of its own. -/
structure KeepsGroups (calls : List (Nat × (Sample α → Sample α))) (idxs : List Nat)
    (state : OWATransitionState α) : Prop where
  numGroups : state.numGroups = (calls.map Prod.fst).toFinset.card
  groupValues : ∃ labels : List Nat, labels.Pairwise (· < ·) ∧
    (∀ g, g ∈ labels ↔ g ∈ calls.map Prod.fst) ∧
    state.groupValues.take labels.length = labels.map fun g : Nat => (g : α)
  posToIndices : ∃ slots : List Nat,
    slots.Perm (List.range (calls.map Prod.fst).toFinset.card) ∧
    state.posToIndices.take slots.length = slots.map fun i : Nat => (i : α)
  index : ∀ (i j : Nat) (c d : Nat × (Sample α → Sample α)), calls[i]? = some c →
    calls[j]? = some d → (idxs[i]? = idxs[j]? ↔ c.1 = d.1)
  slot : ∀ (i : Nat) (c : Nat × (Sample α → Sample α)), calls[i]? = some c →
    ∃ idx, idxs[i]? = some idx ∧
    idx < (calls.map Prod.fst).toFinset.card ∧
    state.sampleAt idx = .ok (used calls c.1 ⟨0, 0, 0⟩)

end Calls

section Order

variable {α : Type} {order : List Nat} {calls : List (Nat × (Sample α → Sample α))}

theorem idxOf_foldl_arrive {g : Nat} (hg : g ∈ order) (xs : List Nat) :
    (xs.foldl arrive order).idxOf g = order.idxOf g := by
  induction xs generalizing order with
  | nil => rfl
  | cons x xs ih =>
      rw [List.foldl_cons, ih (mem_arrive.mpr (.inl hg)), arrive]
      split
      case isTrue => rfl
      case isFalse => exact List.idxOf_append_of_mem hg

theorem numbers_perm {order : List Nat} (hnodup : order.Nodup) :
    (numbers order).Perm (List.range order.length) := by
  have hrange : order.map order.idxOf = List.range order.length := by
    apply List.ext_getElem
    · simp
    · intro i hi hi'
      rw [List.getElem_map, List.getElem_range, hnodup.idxOf_getElem]
  rw [← hrange]
  exact (sorted_perm order).map order.idxOf

theorem mem_callOrder {g : Nat} : g ∈ callOrder calls ↔ g ∈ calls.map Prod.fst := by
  simp [callOrder]

theorem callOrder_nodup (calls : List (Nat × (Sample α → Sample α))) : (callOrder calls).Nodup :=
  foldl_arrive_nodup List.nodup_nil _

theorem length_callOrder (calls : List (Nat × (Sample α → Sample α))) :
    (callOrder calls).length = (calls.map Prod.fst).toFinset.card := by
  rw [← List.toFinset_card_of_nodup (callOrder_nodup calls)]
  congr 1
  ext g
  rw [List.mem_toFinset, List.mem_toFinset, mem_callOrder]

theorem used_cons (call : Nat × (Sample α → Sample α)) (slots : Nat → Sample α) (g : Nat) :
    used (call :: calls) g (slots g) =
      used calls g (Function.update slots call.1 (call.2 (slots call.1)) g) := by
  unfold used
  by_cases hg : call.1 = g
  · rw [List.filter_cons_of_pos (by simpa using hg), List.foldl_cons, ← hg, Function.update_self]
  · rw [List.filter_cons_of_neg (by simpa using hg), Function.update_of_ne (Ne.symm hg)]

theorem take_padded [Zero α] {xs : List α} {n : Nat} (hxs : xs.length = n) : (padded n xs).take n = xs := by
  rw [padded, ← hxs, List.take_left]

theorem keepsGroups_stateWith [Field α] (hfew : (calls.map Prod.fst).toFinset.card ≤ 32768) :
    KeepsGroups calls (calls.map fun call => (callOrder calls).idxOf call.1)
      (stateWith (callOrder calls) fun g => used calls g ⟨0, 0, 0⟩) := by
  have hnodup := callOrder_nodup calls
  have hlength := length_callOrder calls
  have hmem : ∀ (i : Nat) (c : Nat × (Sample α → Sample α)), calls[i]? = some c →
      c.1 ∈ callOrder calls := by
    intro i c hc
    rw [mem_callOrder]
    exact List.mem_map_of_mem (List.mem_of_getElem? hc)
  constructor
  case numGroups =>
      rw [← hlength]
      rfl
  case groupValues =>
      refine ⟨sorted (callOrder calls), ?_, ?_, ?_⟩
      · exact ((sorted_pairwise _).and (sorted_nodup hnodup)).imp fun h => lt_of_le_of_ne h.1 h.2
      · intro g
        rw [mem_sorted, mem_callOrder]
      · rw [length_sorted]
        exact take_padded (by simp)
  case posToIndices =>
      refine ⟨numbers (callOrder calls), hlength ▸ numbers_perm hnodup, ?_⟩
      rw [length_numbers]
      exact take_padded (by simp)
  case index =>
      intro i j c d hc hd
      rw [List.getElem?_map, List.getElem?_map, hc, hd, Option.map_some, Option.map_some,
        Option.some_inj]
      exact List.idxOf_inj (hmem i c hc)
  case slot =>
      intro i c hc
      have hin := hmem i c hc
      refine ⟨(callOrder calls).idxOf c.1, ?_, ?_, ?_⟩
      · rw [List.getElem?_map, hc]
        rfl
      · rw [← hlength]
        exact List.idxOf_lt_length_of_mem hin
      · exact sampleAt_stateWith (hlength.trans_le hfew) (List.getElem?_idxOf hin)

theorem valuesOf_label {rows : List (Int × α)} {row : Int × α} (hrow : row ∈ rows)
    (h : ∀ row ∈ rows, ∀ row' ∈ rows, label row.1 = label row'.1 → row.1 = row'.1) :
    valuesOf (rows : Multiset (Int × α)) (label row.1) =
      ((rows.filter fun row' => row'.1 = row.1).map Prod.snd : List α) := by
  have hfilter : (rows.filter fun row' => label row'.1 = label row.1) =
      rows.filter fun row' => row'.1 = row.1 := by
    apply List.filter_congr
    intro row' hrow'
    rw [decide_eq_decide]
    exact ⟨h row' hrow' row hrow, congrArg label⟩
  unfold valuesOf
  rw [Multiset.filter_coe, Multiset.map_coe, hfilter]

end Order

section Runs

variable {α : Type} [Field α] [LinearOrder α] [FloorRing α] [IsStrictOrderedRing α]
  {order : List Nat} {slots : Nat → Sample α} {calls : List (Nat × (Sample α → Sample α))}

theorem lookup_stateWith (hnodup : order.Nodup) {g : Nat}
    (hempty : g ∉ order → slots g = ⟨0, 0, 0⟩) (hn : (arrive order g).length ≤ 32768)
    (use : Sample α → Sample α) :
    lookup (stateWith order slots).toArray g use =
      .ok ((stateWith (arrive order g) (Function.update slots g (use (slots g)))).toArray,
        (arrive order g).idxOf g) := by
  have hmem : g ∈ arrive order g := mem_arrive.mpr (.inr rfl)
  unfold lookup
  rw [construct_stateWith ((length_le_arrive order g).trans hn), ok_bind,
    idxOfGroup_stateWith hn hempty, ok_bind, sampleAt_stateWith hn (List.getElem?_idxOf hmem),
    ok_bind, putSample_stateWith (arrive_nodup hnodup g) hmem]
  rfl

/-- A run of calls goes on with the order of the labels and with the contents of each slot. -/
theorem lookups_stateWith (hnodup : order.Nodup) (hempty : ∀ g, g ∉ order → slots g = ⟨0, 0, 0⟩)
    (hn : ((calls.map Prod.fst).foldl arrive order).length ≤ 32768) :
    lookups (stateWith order slots).toArray calls =
      .ok ((stateWith ((calls.map Prod.fst).foldl arrive order)
          fun g => used calls g (slots g)).toArray,
        calls.map fun call => ((calls.map Prod.fst).foldl arrive order).idxOf call.1) := by
  induction calls generalizing order slots with
  | nil => rfl
  | cons call calls ih =>
      rw [List.map_cons, List.foldl_cons] at hn ⊢
      have hfirst := lookup_stateWith hnodup (hempty call.1)
        ((length_le_foldl_arrive _ _).trans hn) call.2
      have hempty' : ∀ g, g ∉ arrive order call.1 →
          Function.update slots call.1 (call.2 (slots call.1)) g = ⟨0, 0, 0⟩ := by
        intro g hg
        rw [mem_arrive, not_or] at hg
        rw [Function.update_of_ne hg.2, hempty g hg.1]
      have hrest := ih (arrive_nodup hnodup call.1) hempty' hn
      have hmem : call.1 ∈ arrive order call.1 := mem_arrive.mpr (.inr rfl)
      rw [lookups, hfirst, ok_bind, hrest, ok_bind, List.map_cons,
        idxOf_foldl_arrive hmem]
      simp only [used_cons]
      rfl

/-- The calls from the empty state on. -/
theorem lookups_eq (hfew : (calls.map Prod.fst).toFinset.card ≤ 32768) :
    lookups [0, 0] calls =
      .ok ((stateWith (callOrder calls) fun g => used calls g ⟨0, 0, 0⟩).toArray,
        calls.map fun call => (callOrder calls).idxOf call.1) := by
  have hempty : ∀ g : Nat, g ∉ ([] : List Nat) →
      (fun _ => (⟨0, 0, 0⟩ : Sample α)) g = ⟨0, 0, 0⟩ := fun _ _ => rfl
  have hrun := lookups_stateWith List.nodup_nil hempty (by rwa [← callOrder, length_callOrder])
  rwa [stateWith_nil] at hrun

/-- After every call the labels are in ascending order, the numbers beside them are those of the
slots, each label has the index it was given first, and its slot holds what its own callers made
of it. -/
theorem idxOfGroup_keepsGroups (calls : List (Nat × (Sample α → Sample α)))
    (hfew : (calls.map Prod.fst).toFinset.card ≤ 32768) :
    ∃ idxs : List Nat, idxs.length = calls.length ∧ ∀ n, ∃ storage state,
      lookups [0, 0] (calls.take n) = .ok (storage, idxs.take n) ∧
        OWATransitionState.construct storage = .ok state ∧
        KeepsGroups (calls.take n) (idxs.take n) state := by
  refine ⟨calls.map fun call => (callOrder calls).idxOf call.1, List.length_map _, fun n => ?_⟩
  have hsub : ((calls.take n).map Prod.fst).toFinset ⊆ (calls.map Prod.fst).toFinset := by
    intro g hg
    rw [List.mem_toFinset] at hg ⊢
    exact ((List.take_sublist n calls).map Prod.fst).subset hg
  have hfew' := (Finset.card_le_card hsub).trans hfew
  -- the indices of a part of the calls are those of all calls
  have hidxs : (calls.map fun call => (callOrder calls).idxOf call.1).take n =
      (calls.take n).map fun call => (callOrder (calls.take n)).idxOf call.1 := by
    rw [← List.map_take]
    apply List.map_congr_left
    intro call hcall
    have hmem : call.1 ∈ callOrder (calls.take n) :=
      mem_callOrder.mpr (List.mem_map_of_mem hcall)
    have hall : callOrder calls =
        ((calls.drop n).map Prod.fst).foldl arrive (callOrder (calls.take n)) := by
      rw [callOrder, callOrder, ← List.foldl_append, ← List.map_append, List.take_append_drop]
    rw [hall, idxOf_foldl_arrive hmem]
  rw [hidxs]
  refine ⟨_, _, lookups_eq hfew', ?_, keepsGroups_stateWith hfew'⟩
  exact construct_stateWith ((length_callOrder _).trans_le hfew')

end Runs

def countOne (slot : Sample ℚ) : Sample ℚ := { slot with weight := slot.weight + 1 }

theorem idxOfGroup_keepsGroups_three : ∃ idxs : List Nat, idxs.length = 3 ∧ ∀ n, ∃ storage state,
    lookups [0, 0] ([(7, countOne), (3, countOne), (7, countOne)].take n) =
        .ok (storage, idxs.take n) ∧
      OWATransitionState.construct storage = .ok state ∧
      KeepsGroups ([(7, countOne), (3, countOne), (7, countOne)].take n) (idxs.take n) state :=
  idxOfGroup_keepsGroups [(7, countOne), (3, countOne), (7, countOne)] (by decide)

/-! ## Rows -/

section Rows

variable {α : Type} [Field α] [LinearOrder α]

/-- The call a row makes, and what it does with the slot of its group. -/
def rowCall (row : Int × α) : Nat × (Sample α → Sample α) :=
  (label row.1, fun slot => updateCorrectedSumOfSquares slot ⟨1, row.2, 0⟩)

theorem labels_eq (rows : List (Int × α)) :
    (rows.map rowCall).map Prod.fst = rows.map fun row => label row.1 := by
  rw [List.map_map]
  rfl

theorem card_labels (rows : List (Int × α)) :
    ((rows.map rowCall).map Prod.fst).toFinset.card = (arrivals (.segment rows)).length := by
  rw [length_arrivals, labels_eq]
  rfl

/-- Labels that are not confused are as many as their rests. -/
theorem card_labels_of_injOn {rows : List (Int × α)}
    (h : ∀ row ∈ rows, ∀ row' ∈ rows, label row.1 = label row'.1 → row.1 = row'.1) :
    ((rows.map rowCall).map Prod.fst).toFinset.card = (rows.map Prod.fst).toFinset.card := by
  have himage : ((rows.map rowCall).map Prod.fst).toFinset =
      (rows.map Prod.fst).toFinset.image label := by
    ext g
    simp [rowCall]
  rw [himage]
  apply Finset.card_image_of_injOn
  intro a ha b hb hab
  obtain ⟨row, hrow, rfl⟩ := List.mem_map.mp (List.mem_toFinset.mp ha)
  obtain ⟨row', hrow', rfl⟩ := List.mem_map.mp (List.mem_toFinset.mp hb)
  exact h row hrow row' hrow' hab

variable [FloorRing α]

/-- The rows as calls of the transition function, with the index of the slot each of them
contributes to. -/
def passSlots (rows : List (Int × α)) : Except Fault (List α × List Nat) :=
  lookups [0, 0] (rows.map rowCall)

/-- The rows are processed; two of them contribute to one slot if and only if they have one
label; there are as many groups as labels, and the slot of a group holds the moments of its
values. -/
structure TellsApart (rows : List (Int × α)) (storage : List α) (slots : List Nat)
    (state : OWATransitionState α) : Prop where
  pass_eq : oneWayAnova.pass rows = .ok storage
  slots_eq : passSlots rows = .ok (storage, slots)
  state_eq : OWATransitionState.construct storage = .ok state
  apart : ∀ (i j : Nat) (row row' : Int × α), rows[i]? = some row → rows[j]? = some row' →
    (slots[i]? = slots[j]? ↔ row.1 = row'.1)
  numGroups : state.numGroups = (rows.map Prod.fst).toFinset.card
  slot : ∀ (i : Nat) (row : Int × α), rows[i]? = some row → ∃ idx, slots[i]? = some idx ∧
    state.sampleAt idx = .ok (moments
      ((rows.filter fun row' => row'.1 = row.1).map Prod.snd : List α))

theorem transition_eq_lookup (storage : List α) (row : Int × α) :
    oneWayAnova.transition storage row =
      Prod.fst <$> lookup storage (rowCall row).1 (rowCall row).2 := by
  show oneWayAnovaTransition storage row.1 row.2 = _
  unfold oneWayAnovaTransition lookup rowCall OWATransitionState.updateAt
  simp only [map_bind, bind_assoc, pure_bind, map_pure]
  rfl

/-- The transition function does what its calls do. -/
theorem foldlM_transition (rows : List (Int × α)) (storage : List α) :
    rows.foldlM oneWayAnova.transition storage =
      Prod.fst <$> lookups storage (rows.map rowCall) := by
  induction rows generalizing storage with
  | nil => rfl
  | cons row rows ih =>
      rw [List.foldlM_cons, transition_eq_lookup, List.map_cons, lookups]
      cases lookup storage (rowCall row).1 (rowCall row).2 with
      | error e => rfl
      | ok first =>
          show rows.foldlM oneWayAnova.transition first.1 = _
          rw [ih, ok_bind]
          cases lookups first.1 (rows.map rowCall) <;> rfl

variable [IsStrictOrderedRing α]

/-- The values of a label are accumulated in its slot. -/
theorem used_rowCall (rows : List (Int × α)) (g : Nat) (values : Multiset α) :
    used (rows.map rowCall) g (moments values) = moments (values + valuesOf (rows : Multiset _) g) := by
  induction rows generalizing values with
  | nil => simp [used, valuesOf]
  | cons row rows ih =>
      rw [List.map_cons, used_cons (rowCall row) (fun _ => moments values) g, ← Multiset.cons_coe,
        valuesOf_cons]
      by_cases hg : label row.1 = g
      · have hmoments : (rowCall row).2 (moments values) = moments (values + {row.2}) := by
          rw [← updateCorrectedSumOfSquares_moments, moments_singleton]
          rfl
        rw [show (rowCall row).1 = g from hg, Function.update_self, hmoments, ih, ← hg,
          Function.update_self, add_assoc, add_comm {row.2}]
      · rw [show (rowCall row).1 = label row.1 from rfl, Function.update_of_ne (Ne.symm hg),
          Function.update_of_ne (Ne.symm hg), ih]

/-- The rows are processed and their groups told apart by the labels exactly if different labels
are different modulo 65536, and there are at most 32768 of them. -/
theorem one_way_anova_tellsApart_iff (rows : List (Int × α)) :
    (∃ storage slots state, TellsApart rows storage slots state) ↔
      (∀ row ∈ rows, ∀ row' ∈ rows, label row.1 = label row'.1 → row.1 = row'.1) ∧
        (rows.map Prod.fst).toFinset.card ≤ 32768 := by
  constructor
  · rintro ⟨storage, slots, state, h⟩
    have hfew : ((rows.map rowCall).map Prod.fst).toFinset.card ≤ 32768 := by
      rw [card_labels]
      exact length_of_pass h.pass_eq
    have hslots : slots = (rows.map rowCall).map
        fun call => (callOrder (rows.map rowCall)).idxOf call.1 := by
      have hrun := h.slots_eq
      rw [passSlots, lookups_eq hfew] at hrun
      exact (Prod.mk.inj (Except.ok.inj hrun)).2.symm
    have hapart : ∀ row ∈ rows, ∀ row' ∈ rows, label row.1 = label row'.1 → row.1 = row'.1 := by
      intro row hrow row' hrow' hlabel
      obtain ⟨i, hi⟩ := List.mem_iff_getElem?.mp hrow
      obtain ⟨j, hj⟩ := List.mem_iff_getElem?.mp hrow'
      apply (h.apart i j row row' hi hj).mp
      rw [hslots, List.getElem?_map, List.getElem?_map, List.getElem?_map, List.getElem?_map, hi, hj]
      simp [rowCall, hlabel]
    exact ⟨hapart, card_labels_of_injOn hapart ▸ hfew⟩
  · rintro ⟨hapart, hfew⟩
    have hcard := card_labels_of_injOn hapart
    rw [← hcard] at hfew
    have hkeeps := keepsGroups_stateWith hfew
    have hcall : ∀ (i : Nat) (row : Int × α), rows[i]? = some row →
        (rows.map rowCall)[i]? = some (rowCall row) := by
      intro i row hrow
      rw [List.getElem?_map, hrow]
      rfl
    refine ⟨_, _, _, ?_, lookups_eq hfew, construct_stateWith ?_, ?_, ?_, ?_⟩
    · show rows.foldlM oneWayAnova.transition [0, 0] = _
      rw [foldlM_transition, lookups_eq hfew]
      rfl
    · exact (length_callOrder _).trans_le hfew
    · intro i j row row' hi hj
      rw [hkeeps.index i j _ _ (hcall i row hi) (hcall j row' hj)]
      exact ⟨hapart row (List.mem_of_getElem? hi) row' (List.mem_of_getElem? hj), congrArg label⟩
    · rw [← hcard]
      exact hkeeps.numGroups
    · intro i row hi
      obtain ⟨idx, hidx, -, hsample⟩ := hkeeps.slot i _ (hcall i row hi)
      have hused := used_rowCall rows (label row.1) 0
      rw [moments_zero, zero_add, valuesOf_label (List.mem_of_getElem? hi) hapart] at hused
      exact ⟨idx, hidx, hsample.trans (congrArg Except.ok hused)⟩

end Rows

theorem one_way_anova_tellsApart_iff_two :
    (∃ storage slots state, TellsApart [(3, (5 : ℚ)), (-1, 7), (3, 9)] storage slots state) ↔
      (∀ row ∈ [(3, (5 : ℚ)), (-1, 7), (3, 9)], ∀ row' ∈ [(3, (5 : ℚ)), (-1, 7), (3, 9)],
        label row.1 = label row'.1 → row.1 = row'.1) ∧
        ([(3, (5 : ℚ)), (-1, 7), (3, 9)].map Prod.fst).toFinset.card ≤ 32768 :=
  one_way_anova_tellsApart_iff [(3, 5), (-1, 7), (3, 9)]

/-- The labels 1 and 65537 are one group. -/
theorem one_way_anova_confuses :
    ¬∀ rows : List (Int × ℚ), (∀ row ∈ rows, -2147483648 ≤ row.1 ∧ row.1 < 2147483648) →
      ∃ storage slots state, TellsApart rows storage slots state := by
  intro hclaim
  obtain ⟨storage, slots, state, h⟩ := hclaim [(1, 5), (65537, 7)] (by decide)
  have hrun : passSlots [(1, (5 : ℚ)), (65537, 7)] = .ok ([1, 1, 0, 2, 12, 2], [0, 0]) := by
    decide +kernel
  have hslots : slots = [0, 0] := (Prod.mk.inj (Except.ok.inj (h.slots_eq.symm.trans hrun))).2
  have happart := (h.apart 0 1 (1, 5) (65537, 7) rfl rfl).mp (by rw [hslots]; rfl)
  exact absurd happart (by decide)

end Madlib.Stats
