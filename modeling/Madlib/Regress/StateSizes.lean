import Madlib.Regress.LogisticSums
import Madlib.Regress.LogisticAverage
import Madlib.Regress.Linear

/-!
# Sizes of the states

A state that a transition function returns has as many elements as the layout of the rows' width
needs.  Which width is stored in it is another matter: a previous state is copied without a look at
its width.
-/

namespace Madlib.Regress

open Madlib.Backend Madlib.Dbal Madlib.Lib.Segments

section Sizes

variable {α : Type} [Field α] [LinearOrder α] [FloorRing α]

/-- The size allocated for the width `w` is that of the layout, the state has this size, the width
stored in it is `w`, and the fields bound for the stored width lie within the state. -/
structure WellSized (layout : Layout) (length : Nat → Nat) (w : Nat) (state : List α) : Prop where
  arraySize_eq : layout.arraySize w = length w
  length_eq : state.length = length w
  width : ∃ stored, state[layout.widthIndex]? = some stored ∧ uint16 stored = w ∧
    ∀ field ∈ layout.fields (uint16 stored),
      field.1 < state.length ∧ field.1 + field.2 ≤ state.length

variable {layout : Layout} {length : Nat → Nat} {w : Nat} {state : List α}

theorem wellSized_iff {stored : α} (hfits : layout.Fits w (length w))
    (hlength : state.length = length w) (hstored : state[layout.widthIndex]? = some stored) :
    WellSized layout length w state ↔ uint16 stored = w := by
  constructor
  · rintro ⟨_, _, v, hv, hwidth, _⟩
    rw [hstored] at hv
    cases hv
    exact hwidth
  · intro hwidth
    refine ⟨hfits.size_eq, hlength, stored, hstored, hwidth, ?_⟩
    intro field hfield
    rw [hwidth] at hfield
    rw [hlength]
    exact ⟨hfits.field_lt field hfield, hfits.field_le field hfield⟩

/-- No function of a method changes the size of a state or the width in it. -/
structure KeepsWidth (method : IterationMethod α) : Prop where
  reset : ∀ {w storage storage'}, method.Fits w → storage.length = method.length w →
    method.reset storage w = .ok storage' → storage'.length = storage.length ∧
      storage'[method.layout.widthIndex]? = storage[method.layout.widthIndex]?
  addRow : ∀ {previous w storage row storage'}, method.Fits w →
    storage.length = method.length w → method.addRow previous storage w row = .ok storage' →
    storage'.length = storage.length ∧
      storage'[method.layout.widthIndex]? = storage[method.layout.widthIndex]?

theorem SumsStep.keepsWidth {method : IterationMethod α} {intra : Nat → Nat → Bool}
    {terms : Nat → List α → Bool × List α → Nat → α} (h : SumsStep method intra terms)
    (hg : Guards method) : KeepsWidth method := by
  constructor
  · intro w storage storage' hfits hlength hreset
    rw [h.reset_ok hfits hlength] at hreset
    cases hreset
    rw [length_cleared, getElem?_cleared, h.intra_width hfits]
    simp only [Bool.false_eq_true, if_false, Option.map_id', and_self]
  · intro previous w storage row storage' hfits hlength hrow
    rw [h.addRow_ok hfits hlength (hg.addRow_width hrow)] at hrow
    cases hrow
    exact ⟨length_plusEq, getElem?_plusEq_zero (h.terms_zero hfits (h.intra_width hfits))⟩

theorem logregrIGD_keepsWidth {sigma logOnePlusExp : α → α} :
    KeepsWidth (logregrIGD sigma logOnePlusExp) := by
  constructor
  · intro w storage storage' hfits hlength hreset
    obtain ⟨hlength', hwidth', _⟩ := logRegrIGDReset_eq_ok hfits hlength hreset
    exact ⟨hlength', hwidth'⟩
  · intro previous w storage row storage' hfits _ hrow
    obtain ⟨hlength', hwidth', _⟩ := logregrIGDAddRow_eq_ok hfits hrow
    exact ⟨hlength', hwidth'⟩

/-! ## One pass -/

/-- The width an iteration finds: that of the previous state, else that of the rows. -/
def foundWidth (layout : Layout) (previous : Option (List α)) (w : Nat) : Option α :=
  match previous with
  | none => some (w : α)
  | some state => state[layout.widthIndex]?

/-- A state has the size for width `w`, whichever width is stored in it. -/
def Sized (method : IterationMethod α) (previous : Option (List α)) (w : Nat)
    (state : List α) : Prop :=
  method.Fits w ∧ state.length = method.length w ∧
    state[method.layout.widthIndex]? = foundWidth method.layout previous w

variable {method : IterationMethod α} {previous : Option (List α)}

theorem KeepsWidth.initialized (h : KeepsWidth method) {storage : List α} (hfits : method.Fits w)
    (hfirst : method.layout.initializeFrom method.reset previous w = .ok (storage, w)) :
    Sized method previous w storage := by
  obtain ⟨_, fresh, hfresh, hnone, hsome⟩ := Layout.initializeFrom_eq_ok hfirst
  rw [Layout.Fits.initializeState hfits rfl] at hfresh
  cases hfresh
  have hinitial := Layout.Fits.holds_initial (α := α) hfits
  cases previous with
  | none =>
      cases hnone rfl
      exact ⟨hfits, hinitial.length_eq, hinitial.width_eq⟩
  | some state =>
      obtain ⟨p, _, hlength, hreset⟩ := hsome state rfl
      rw [hinitial.length_eq] at hlength hreset
      rw [Nat.mod_eq_of_lt hfits.width_lt] at hreset
      have htake : (state.take (method.length w)).length = method.length w := by
        rw [List.length_take, Nat.min_eq_left hlength]
      obtain ⟨hlength', hwidth'⟩ := h.reset hfits htake hreset
      rw [List.getElem?_take_of_lt hfits.widthIndex_lt] at hwidth'
      exact ⟨hfits, hlength'.trans htake, hwidth'⟩

theorem KeepsWidth.first (h : KeepsWidth method) (hg : Guards method) {row : Bool × List α}
    (hrow : row.2.length = w)
    (hstep : (method.aggregate previous).transition method.initial row = .ok state) :
    Sized method previous w state := by
  obtain ⟨hfits, storage, hfirst, hadd⟩ := hg.first hstep
  rw [hrow] at hfits hfirst hadd
  obtain ⟨_, hlength, hwidth⟩ := h.initialized hfits hfirst
  obtain ⟨hlength', hwidth'⟩ := h.addRow hfits hlength hadd
  exact ⟨hfits, hlength'.trans hlength, hwidth'.trans hwidth⟩

theorem KeepsWidth.next (h : KeepsWidth method) (hg : Guards method) {row : Bool × List α}
    (hrow : row.2.length = w) {state' : List α} (hs : Sized method previous w state)
    (hstep : (method.aggregate previous).transition state row = .ok state') :
    Sized method previous w state' := by
  obtain ⟨hfits, hlength, hwidth⟩ := hs
  unfold IterationMethod.aggregate Layout.start at hstep
  obtain ⟨started, hstarted, hadd⟩ := bind_eq_ok.mp hstep
  obtain ⟨p, _, hstarted⟩ := bind_eq_ok.mp hstarted
  obtain ⟨numRows, _, hstarted⟩ := bind_eq_ok.mp hstarted
  have haccepted : started.2 = w := (hg.addRow_width hadd).symm.trans hrow
  rw [haccepted] at hadd
  split at hstarted
  case isTrue =>
    -- a state without rows is initialized again
    rw [hrow] at hstarted
    have hpair : started = (started.1, w) := by rw [← haccepted]
    rw [hpair] at hstarted
    obtain ⟨_, hlength', hwidth'⟩ := h.initialized hfits hstarted
    obtain ⟨hlength'', hwidth''⟩ := h.addRow hfits hlength' hadd
    exact ⟨hfits, hlength''.trans hlength', hwidth''.trans hwidth'⟩
  case isFalse =>
    cases hstarted
    obtain ⟨hlength', hwidth'⟩ := h.addRow hfits hlength hadd
    exact ⟨hfits, hlength'.trans hlength, hwidth'.trans hwidth⟩

theorem KeepsWidth.foldlM (h : KeepsWidth method) (hg : Guards method)
    {rows : List (Bool × List α)} (hrows : ∀ row ∈ rows, row.2.length = w) {state' : List α}
    (hs : Sized method previous w state)
    (hrun : rows.foldlM (method.aggregate previous).transition state = .ok state') :
    Sized method previous w state' := by
  induction rows generalizing state with
  | nil =>
      cases hrun
      exact hs
  | cons row rows ih =>
      rw [List.foldlM_cons] at hrun
      obtain ⟨next, hstep, hrest⟩ := bind_eq_ok.mp hrun
      exact ih (fun row' hrow' => hrows row' (List.mem_cons_of_mem row hrow'))
        (h.next hg (hrows row List.mem_cons_self) hs hstep) hrest

theorem KeepsWidth.pass (h : KeepsWidth method) (hg : Guards method) {rows : List (Bool × List α)}
    (hne : rows ≠ []) (hrows : ∀ row ∈ rows, row.2.length = w)
    (hpass : (method.aggregate previous).pass rows = .ok state) :
    Sized method previous w state ∧
      ∀ s, previous = some s → ∃ p, method.layout.construct s = .ok p := by
  cases rows with
  | nil => exact absurd rfl hne
  | cons row rows =>
      unfold Aggregate.pass at hpass
      rw [List.foldlM_cons] at hpass
      obtain ⟨next, hstep, hrest⟩ := bind_eq_ok.mp hpass
      constructor
      · exact h.foldlM hg (fun row' hrow' => hrows row' (List.mem_cons_of_mem row hrow'))
          (h.first hg (hrows row List.mem_cons_self) hstep) hrest
      · intro s hs
        obtain ⟨_, storage, hfirst, _⟩ := hg.first hstep
        obtain ⟨_, _, _, _, hsome⟩ := Layout.initializeFrom_eq_ok hfirst
        obtain ⟨p, hp, _⟩ := hsome s hs
        exact ⟨p, hp⟩

variable [IsStrictOrderedRing α]

/-- The state of a segment fits its layout exactly when the previous state has the rows' width. -/
theorem KeepsWidth.wellSized_iff (h : KeepsWidth method) (hg : Guards method)
    {rows : List (Bool × List α)} (hne : rows ≠ []) (hrows : ∀ row ∈ rows, row.2.length = w)
    (hpass : (method.aggregate previous).pass rows = .ok state) :
    WellSized method.layout method.length w state ↔
      ∀ s, previous = some s → method.layout.construct s = .ok w := by
  obtain ⟨⟨hfits, hlength, hwidth⟩, hconstruct⟩ := h.pass hg hne hrows hpass
  cases previous with
  | none =>
      rw [Regress.wellSized_iff hfits hlength hwidth]
      exact ⟨fun _ s hs => absurd hs.symm (Option.some_ne_none s),
        fun _ => uint16_natCast hfits.width_lt⟩
  | some s =>
      obtain ⟨p, hp⟩ := hconstruct s rfl
      have hlt : method.layout.widthIndex < state.length := by
        rw [hlength]
        exact hfits.widthIndex_lt
      have hstored : state[method.layout.widthIndex]? = some state[method.layout.widthIndex] :=
        List.getElem?_eq_getElem hlt
      have hfound : s[method.layout.widthIndex]? = some state[method.layout.widthIndex] :=
        hwidth.symm.trans hstored
      have hpw := (Layout.construct_eq_ok hfound hp).1
      rw [Regress.wellSized_iff hfits hlength hstored, ← hpw]
      constructor
      · rintro hw _ ⟨⟩
        rw [hp, hw]
      · intro hw
        exact Except.ok.inj (hp.symm.trans (hw s rfl))

theorem linregr_wellSized {rows : List (α × List α)} (hne : rows ≠ [])
    (hrows : ∀ row ∈ rows, row.2.length = w) (hpass : linregr.pass rows = .ok state) :
    WellSized linRegrLayout linRegrLength w state := by
  have hplan : ∀ row ∈ (Plan.segment rows).rows, row.2.length = w :=
    fun row hrow => hrows row (Multiset.mem_coe.mp hrow)
  have hplanNe : (Plan.segment rows).rows ≠ 0 :=
    fun hzero => hne ((Multiset.coe_eq_zero _).mp hzero)
  have hfits : linRegrLayout.Fits w (linRegrLength w) := by
    by_cases hw : 0 < w ∧ 8 * linRegrLength w + 40 ≤ maxAllocSize
    · exact linRegrLayout_fits hw.1 hw.2
    · obtain ⟨e, he⟩ := linregr_error hplan hplanNe hw
      exact absurd (he.symm.trans hpass) (by simp)
  have hsummed := (linregr_summed hplan hplanNe hfits).symm.trans hpass
  cases hsummed
  have hholds := (linRegr_sumsOver hfits).holds_summed hplan
  rw [Regress.wellSized_iff hfits hholds.length_eq hholds.width_eq]
  exact uint16_natCast hfits.width_lt

/-- The states of the linear regression always fit their layout, those of an iteration of a
logistic regression exactly when the previous state, if there is one, has the rows' width. -/
theorem stateSizes_iff (sigma logOnePlusExp : α → α) (w : Nat) :
    (∀ (rows : List (α × List α)) (state : List α), rows ≠ [] →
      (∀ row ∈ rows, row.2.length = w) → linregr.pass rows = .ok state →
      WellSized linRegrLayout linRegrLength w state) ∧
    ∀ method, method = logregrCG sigma logOnePlusExp ∨ method = logregrIRLS sigma logOnePlusExp ∨
        method = logregrIGD sigma logOnePlusExp →
      ∀ (previous : Option (List α)) (rows : List (Bool × List α)) (state : List α), rows ≠ [] →
        (∀ row ∈ rows, row.2.length = w) → (method.aggregate previous).pass rows = .ok state →
        (WellSized method.layout method.length w state ↔
          ∀ s, previous = some s → method.layout.construct s = .ok w) := by
  constructor
  · intro rows state hne hrows hpass
    exact linregr_wellSized hne hrows hpass
  · intro method hmethod previous rows state hne hrows hpass
    rcases hmethod with rfl | rfl | rfl
    · exact (logregrCG_sumsStep.keepsWidth logregrCG_guards).wellSized_iff logregrCG_guards hne
        hrows hpass
    · exact (logregrIRLS_sumsStep.keepsWidth logregrIRLS_guards).wellSized_iff logregrIRLS_guards
        hne hrows hpass
    · exact logregrIGD_keepsWidth.wellSized_iff logregrIGD_guards hne hrows hpass

end Sizes

theorem stateSizes_first_iteration :
    WellSized logRegrIRLSLayout logRegrIRLSLength 1 [(1 : ℚ), 0, 1, 0, 0, 0] := by
  have hpass : ((logregrIRLS (fun _ : ℚ => 0) fun _ => 0).aggregate none).pass [(true, [1])] =
      .ok [1, 0, 1, 0, 0, 0] := by
    decide +kernel
  exact ((stateSizes_iff (fun _ : ℚ => 0) (fun _ => 0) 1).2 _ (.inr (.inl rfl)) none _ _ (by simp)
    (by simp) hpass).mpr fun s hs => absurd hs.symm (Option.some_ne_none s)

/-- A previous state of width two makes a state of the size for width one that says it has width
two. -/
theorem stateSizes_width_two :
    ¬∀ (previous : Option (List ℚ)) (rows : List (Bool × List ℚ)) (state : List ℚ), rows ≠ [] →
      (∀ row ∈ rows, row.2.length = 1) →
      ((logregrIRLS (fun _ => 0) fun _ => 0).aggregate previous).pass rows = .ok state →
      WellSized logRegrIRLSLayout logRegrIRLSLength 1 state := by
  intro hclaim
  have hpass : ((logregrIRLS (fun _ : ℚ => 0) fun _ => 0).aggregate
      (some [2, 0, 0, 1, 0, 0, 0, 0, 0, 0, 0])).pass [(true, [1])] = .ok [2, 0, 1, 0, 0, 0] := by
    decide +kernel
  obtain ⟨_, _, stored, hstored, hwidth, _⟩ := hclaim _ _ _ (by simp) (by simp) hpass
  cases hstored
  exact absurd hwidth (by decide +kernel)

end Madlib.Regress
