import Madlib.Dbal
import Madlib.Lib.Segments

/-!
# States that are sums over rows

Every row adds something to some of the elements of a state, the others stay as they were before
the first row.  Such states are merged by adding the elements rows add to.
-/

namespace Madlib.Regress

open Madlib.Backend Madlib.Dbal Madlib.Lib.Segments

variable {α ρ : Type}

/-- What is left after rows that each add their terms to the elements of `base`. -/
def summed [AddCommMonoid α] (base : List α) (terms : ρ → Nat → α) (rows : Multiset ρ) : List α :=
  plusEq base fun k => (rows.map fun r => terms r k).sum

/-- The elements rows add to, taken from another state. -/
def intraTerms [Zero α] (intra : Nat → Bool) (other : List α) (k : Nat) : α :=
  if intra k then other.getD k 0 else 0

/-- Rows that satisfy `Q` count themselves and add to intra-iteration elements only, which are
zero in `base`. -/
structure SumsOver [Field α] (layout : Layout) (w len : Nat) (base : List α)
    (terms : ρ → Nat → α) (intra : Nat → Bool) (Q : ρ → Prop) : Prop where
  fits : layout.Fits w len
  holds : layout.Holds w len base
  base_zero : ∀ k, k < len → intra k = true → base[k]? = some 0
  terms_zero : ∀ r k, Q r → intra k = false → terms r k = 0
  intra_width : intra layout.widthIndex = false
  intra_numRows : intra (layout.numRows w) = true
  numRows_one : ∀ r, Q r → terms r (layout.numRows w) = 1

section Summed

variable [Field α] {layout : Layout} {w len : Nat} {base : List α} {terms : ρ → Nat → α}
  {intra : Nat → Bool} {Q : ρ → Prop} {rows : Multiset ρ}

theorem summed_cons (r : ρ) :
    summed base terms (r ::ₘ rows) = plusEq (summed base terms rows) (terms r) := by
  unfold summed
  rw [plusEq_plusEq]
  congr 1
  funext k
  rw [Multiset.map_cons, Multiset.sum_cons]
  exact add_comm _ _

theorem summed_singleton (r : ρ) : summed base terms {r} = plusEq base (terms r) := by
  unfold summed
  congr 1
  funext k
  rw [Multiset.map_singleton, Multiset.sum_singleton]

theorem length_summed : (summed base terms rows).length = base.length := length_plusEq

theorem sum_terms_zero (h : SumsOver layout w len base terms intra Q) (hrows : ∀ r ∈ rows, Q r)
    {k : Nat} (hk : intra k = false) : (rows.map fun r => terms r k).sum = 0 := by
  apply Multiset.sum_eq_zero
  intro a ha
  obtain ⟨r, hr, hra⟩ := Multiset.mem_map.mp ha
  rw [← hra]
  exact h.terms_zero r k (hrows r hr) hk

/-- An element rows add to is the sum of what they add. -/
theorem SumsOver.getElem?_summed (h : SumsOver layout w len base terms intra Q) {k : Nat}
    {f : ρ → α} (hk : k < len) (hintra : intra k = true) (hterms : ∀ r ∈ rows, terms r k = f r) :
    (summed base terms rows)[k]? = some (rows.map f).sum := by
  unfold summed
  rw [getElem?_plusEq, h.base_zero k hk hintra, Multiset.map_congr rfl hterms]
  exact congrArg some (zero_add _)

/-- The other elements stay as they were. -/
theorem SumsOver.getElem?_summed_of_not (h : SumsOver layout w len base terms intra Q)
    (hrows : ∀ r ∈ rows, Q r) {k : Nat} (hintra : intra k = false) :
    (summed base terms rows)[k]? = base[k]? := by
  exact getElem?_plusEq_zero (sum_terms_zero h hrows hintra)

theorem SumsOver.holds_summed (h : SumsOver layout w len base terms intra Q)
    (hrows : ∀ r ∈ rows, Q r) : layout.Holds w len (summed base terms rows) := by
  constructor
  · rw [length_summed]
    exact h.holds.length_eq
  · rw [h.getElem?_summed_of_not hrows h.intra_width]
    exact h.holds.width_eq

theorem SumsOver.numRows_summed (h : SumsOver layout w len base terms intra Q)
    (hrows : ∀ r ∈ rows, Q r) :
    (summed base terms rows)[layout.numRows w]? = some (rows.card : α) := by
  rw [h.getElem?_summed h.fits.numRows_lt h.intra_numRows fun r hr => h.numRows_one r (hrows r hr),
    Multiset.map_const', Multiset.sum_replicate, nsmul_one]

/-- Adding what another state has in its intra-iteration elements adds its rows. -/
theorem SumsOver.plusEq_summed (h : SumsOver layout w len base terms intra Q)
    {rows' : Multiset ρ} (hrows : ∀ r ∈ rows, Q r) (hrows' : ∀ r ∈ rows', Q r) :
    plusEq (summed base terms rows) (intraTerms intra (summed base terms rows')) =
      summed base terms (rows + rows') := by
  apply List.ext_getElem?
  intro k
  by_cases hk : k < len
  · have hbase : ∃ a, base[k]? = some a := by
      rw [← h.holds.length_eq] at hk
      exact ⟨base[k], List.getElem?_eq_getElem hk⟩
    obtain ⟨a, ha⟩ := hbase
    have hother : (summed base terms rows')[k]? =
        some (a + (rows'.map fun r => terms r k).sum) := by
      unfold summed
      rw [getElem?_plusEq, ha]
      rfl
    rw [getElem?_plusEq]
    unfold summed
    rw [getElem?_plusEq, getElem?_plusEq, ha, Multiset.map_add, Multiset.sum_add]
    simp only [Option.map_some, Option.some.injEq]
    unfold intraTerms
    cases hintra : intra k with
    | false =>
        rw [if_neg Bool.false_ne_true, sum_terms_zero h hrows hintra,
          sum_terms_zero h hrows' hintra, add_zero, add_zero, add_zero, add_zero]
    | true =>
        have hzero : a = 0 := by
          rw [h.base_zero k hk hintra] at ha
          exact (Option.some.inj ha).symm
        unfold summed at hother
        rw [if_pos rfl, List.getD_eq_getElem?_getD, hother, hzero]
        simp only [Option.getD_some, zero_add]
  · have hlen : base.length ≤ k := by
      rw [h.holds.length_eq]
      exact Nat.le_of_not_lt hk
    rw [List.getElem?_eq_none (by rwa [length_plusEq, length_summed]),
      List.getElem?_eq_none (by rwa [length_summed])]

end Summed

theorem getD_map_mul {α : Type} [MulZeroClass α] (x : List α) (y : α) (i : Nat) :
    (x.map fun a => a * y).getD i 0 = x.getD i 0 * y := by
  rw [List.getD_eq_getElem?_getD, List.getElem?_map, List.getD_eq_getElem?_getD]
  cases x[i]? with
  | none => exact (zero_mul y).symm
  | some a => rfl

/-! ## Merging -/

section Merge

variable [Field α] [LinearOrder α] [FloorRing α] {layout : Layout} {w len : Nat} {base : List α}
  {terms : ρ → Nat → α} {intra : Nat → Bool} {Q : ρ → Prop} {rows rows' : Multiset ρ}
  {plusEqState : Nat → Nat → List α → List α → Except Fault (List α)}

/-- A state no row was added to: it has no rows in the field for their number. -/
structure Layout.Empty (layout : Layout) (initial : List α) : Prop where
  construct : layout.construct initial = .ok 0
  numRows : initial[layout.numRows 0]? = some 0

theorem Layout.Empty.start {initial : List α} (hinitial : Layout.Empty layout initial)
    (first : Except Fault (List α × Nat)) : layout.start initial first = first := by
  unfold Layout.start
  rw [hinitial.construct, ok_bind, elementAt_eq_ok hinitial.numRows, ok_bind, if_pos rfl]

theorem mergeStates_empty_left {initial other : List α} {widthRight : Nat} {numRowsRight : α}
    (hinitial : Layout.Empty layout initial) (hconstruct : layout.construct other = .ok widthRight)
    (hnumRows : other[layout.numRows widthRight]? = some numRowsRight) :
    layout.mergeStates plusEqState initial other = .ok other := by
  unfold Layout.mergeStates
  rw [hinitial.construct, ok_bind, hconstruct, ok_bind, elementAt_eq_ok hinitial.numRows, ok_bind,
    elementAt_eq_ok hnumRows, ok_bind, if_pos rfl]
  rfl

/-- The operator adds the intra-iteration elements of the other state. -/
def AddsIntra (layout : Layout) (w len : Nat) (intra : Nat → Bool)
    (plusEqState : Nat → Nat → List α → List α → Except Fault (List α)) : Prop :=
  ∀ {l r : List α} {n : Nat}, layout.Holds w len l → layout.Holds w len r →
    r[layout.numRows w]? = some (n : α) → plusEqState w w l r = .ok (plusEq l (intraTerms intra r))

/-- The first row makes `base` of the initial state, every row adds its terms, and states are
merged by adding their intra-iteration elements. -/
structure SumsRows (agg : Aggregate Fault ρ (List α)) (layout : Layout) (w len : Nat)
    (base : List α) (terms : ρ → Nat → α) (intra : Nat → Bool) (Q : ρ → Prop) : Prop where
  sumsOver : SumsOver layout w len base terms intra Q
  empty : Layout.Empty layout agg.init
  first : ∀ r, Q r → agg.transition agg.init r = .ok (summed base terms {r})
  next : ∀ rows r, rows ≠ 0 → (∀ r ∈ rows, Q r) → Q r →
    agg.transition (summed base terms rows) r = .ok (summed base terms (r ::ₘ rows))
  merge : ∃ plusEqState : Nat → Nat → List α → List α → Except Fault (List α),
    agg.merge = layout.mergeStates plusEqState ∧ AddsIntra layout w len intra plusEqState

/-- A state says which rows it has seen. -/
def Sums (initial base : List α) (terms : ρ → Nat → α) (Q : ρ → Prop) (rows : Multiset ρ)
    (state : List α) : Prop :=
  (∀ r ∈ rows, Q r) ∧
    ((rows = 0 ∧ state = initial) ∨ (rows ≠ 0 ∧ state = summed base terms rows))

variable {agg : Aggregate Fault ρ (List α)}

theorem SumsRows.transition (h : SumsRows agg layout w len base terms intra Q) {state : List α}
    (hs : Sums agg.init base terms Q rows state) {r : ρ} (hr : Q r) :
    agg.transition state r = .ok (summed base terms (r ::ₘ rows)) := by
  obtain ⟨hrows, ⟨hzero, hstate⟩ | ⟨hne, hstate⟩⟩ := hs
  · rw [hstate, hzero, Multiset.cons_zero]
    exact h.first r hr
  · rw [hstate]
    exact h.next rows r hne hrows hr

variable [IsStrictOrderedRing α]

/-- An initial state of zeros that has the elements of a state of width zero. -/
theorem Layout.Empty.replicate {n : Nat} (hwidth : layout.widthIndex < n)
    (hnumRows : layout.numRows 0 < n) (hfields : ∀ field ∈ layout.fields 0, field.1 < n) :
    Layout.Empty layout (List.replicate n (0 : α)) := by
  have hrebind : layout.rebind (List.replicate n (0 : α)) 0 = .ok () := by
    apply Layout.rebind_ok
    rwa [List.length_replicate]
  have hzero : uint16 (0 : α) = 0 := by
    unfold uint16
    rw [Nat.floor_zero]
  constructor
  · unfold Layout.construct
    rw [elementAt_eq_ok (List.getElem?_replicate_of_lt hwidth), ok_bind, hzero, hrebind, ok_bind]
    rfl
  · exact List.getElem?_replicate_of_lt hnumRows

theorem SumsOver.start (h : SumsOver layout w len base terms intra Q) (hrows : ∀ r ∈ rows, Q r)
    (hne : rows ≠ 0) (first : Except Fault (List α × Nat)) :
    layout.start (summed base terms rows) first = .ok (summed base terms rows, w) := by
  have hcard : (rows.card : α) ≠ 0 := by
    rw [Nat.cast_ne_zero]
    exact (Multiset.card_pos.mpr hne).ne'
  unfold Layout.start
  rw [h.fits.construct (h.holds_summed hrows), ok_bind, elementAt_eq_ok (h.numRows_summed hrows),
    ok_bind, if_neg hcard]
  rfl

theorem SumsOver.mergeStates_empty_right (h : SumsOver layout w len base terms intra Q)
    (hrows : ∀ r ∈ rows, Q r) (hne : rows ≠ 0) {initial : List α}
    (hinitial : Layout.Empty layout initial) :
    layout.mergeStates plusEqState (summed base terms rows) initial =
      .ok (summed base terms rows) := by
  have hcard : (rows.card : α) ≠ 0 := by
    rw [Nat.cast_ne_zero]
    exact (Multiset.card_pos.mpr hne).ne'
  unfold Layout.mergeStates
  rw [h.fits.construct (h.holds_summed hrows), ok_bind, hinitial.construct, ok_bind,
    elementAt_eq_ok (h.numRows_summed hrows), ok_bind, elementAt_eq_ok hinitial.numRows, ok_bind,
    if_neg hcard, Nat.floor_zero, if_pos rfl]
  rfl

/-- Of two states with rows, one is added to the other. -/
theorem SumsOver.mergeStates {w' len' : Nat} {base' : List α} {terms' : ρ → Nat → α}
    {intra' : Nat → Bool} {Q' : ρ → Prop} (h : SumsOver layout w len base terms intra Q)
    (h' : SumsOver layout w' len' base' terms' intra' Q')
    (hrows : ∀ r ∈ rows, Q r) (hrows' : ∀ r ∈ rows', Q' r) (hne : rows ≠ 0) (hne' : rows' ≠ 0) :
    layout.mergeStates plusEqState (summed base terms rows) (summed base' terms' rows') =
      plusEqState w w' (summed base terms rows) (summed base' terms' rows') := by
  have hcard : (rows.card : α) ≠ 0 := by
    rw [Nat.cast_ne_zero]
    exact (Multiset.card_pos.mpr hne).ne'
  have hcard' : rows'.card ≠ 0 := (Multiset.card_pos.mpr hne').ne'
  unfold Layout.mergeStates
  rw [h.fits.construct (h.holds_summed hrows), ok_bind,
    h'.fits.construct (h'.holds_summed hrows'), ok_bind,
    elementAt_eq_ok (h.numRows_summed hrows), ok_bind, elementAt_eq_ok (h'.numRows_summed hrows'),
    ok_bind, if_neg hcard, Nat.floor_natCast, if_neg hcard']

/-- Two states with rows are merged into the state with the rows of both. -/
theorem SumsOver.mergeStates_summed (h : SumsOver layout w len base terms intra Q)
    (hrows : ∀ r ∈ rows, Q r) (hrows' : ∀ r ∈ rows', Q r) (hne : rows ≠ 0) (hne' : rows' ≠ 0)
    (hplus : AddsIntra layout w len intra plusEqState) :
    layout.mergeStates plusEqState (summed base terms rows) (summed base terms rows') =
      .ok (summed base terms (rows + rows')) := by
  rw [h.mergeStates h hrows hrows' hne hne', hplus (h.holds_summed hrows) (h.holds_summed hrows')
    (h.numRows_summed hrows'), h.plusEq_summed hrows hrows']

theorem SumsRows.merges (h : SumsRows agg layout w len base terms intra Q)
    {state state' : List α} (hs : Sums agg.init base terms Q rows state)
    (hs' : Sums agg.init base terms Q rows' state') :
    ∃ t, agg.merge state state' = .ok t ∧ Sums agg.init base terms Q (rows + rows') t := by
  obtain ⟨plusEqState, hmerge, hplus⟩ := h.merge
  obtain ⟨hrows, hstate⟩ := hs
  obtain ⟨hrows', hstate'⟩ := hs'
  have hboth : ∀ r ∈ rows + rows', Q r := by
    intro r hr
    exact (Multiset.mem_add.mp hr).elim (hrows r) (hrows' r)
  rw [hmerge]
  rcases hstate with ⟨hzero, hstate⟩ | ⟨hne, hstate⟩
  · rcases hstate' with ⟨hzero', hstate'⟩ | ⟨hne', hstate'⟩
    · rw [hstate, hstate']
      refine ⟨agg.init, mergeStates_empty_left h.empty h.empty.construct h.empty.numRows, hboth,
        .inl ⟨?_, rfl⟩⟩
      rw [hzero, hzero', add_zero]
    · rw [hstate, hstate']
      refine ⟨_, mergeStates_empty_left h.empty
        (h.sumsOver.fits.construct (h.sumsOver.holds_summed hrows'))
        (h.sumsOver.numRows_summed hrows'), hboth, .inr ?_⟩
      rw [hzero, zero_add]
      exact ⟨hne', rfl⟩
  · rcases hstate' with ⟨hzero', hstate'⟩ | ⟨hne', hstate'⟩
    · rw [hstate, hstate']
      refine ⟨_, h.sumsOver.mergeStates_empty_right hrows hne h.empty, hboth, .inr ?_⟩
      rw [hzero', add_zero]
      exact ⟨hne, rfl⟩
    · rw [hstate, hstate']
      refine ⟨_, h.sumsOver.mergeStates_summed hrows hrows' hne hne' hplus, hboth,
        .inr ⟨?_, rfl⟩⟩
      rw [← Multiset.card_pos, Multiset.card_add]
      exact Nat.add_pos_left (Multiset.card_pos.mpr hne) _

/-- However the rows are cut into segments and the states are merged, the state of all rows is
returned. -/
theorem SumsRows.run (h : SumsRows agg layout w len base terms intra Q) {plan : Plan ρ}
    (hrows : ∀ r ∈ plan.rows, Q r) :
    ∃ state, agg.run plan = .ok state ∧ Sums agg.init base terms Q plan.rows state := by
  have hkeeps : Keeps agg Q (Sums agg.init base terms Q) := by
    constructor
    · exact ⟨fun r hr => absurd hr (Multiset.notMem_zero r), .inl ⟨rfl, rfl⟩⟩
    · intro rows state r state' hr hs hstep
      rw [h.transition hs hr] at hstep
      cases hstep
      refine ⟨?_, .inr ⟨Multiset.cons_ne_zero, rfl⟩⟩
      intro r' hr'
      rcases Multiset.mem_cons.mp hr' with heq | hmem
      · rwa [heq]
      · exact hs.1 r' hmem
    · intro rows state rows' state' t hs hs' hmerge
      obtain ⟨t', ht', hsums⟩ := h.merges hs hs'
      rw [ht'] at hmerge
      cases hmerge
      exact hsums
  have hproceeds : Proceeds agg Q (Sums agg.init base terms Q) := by
    constructor
    · exact fun rows state r hr hs => ⟨_, h.transition hs hr⟩
    · intro rows state rows' state' hs hs'
      obtain ⟨t, ht, _⟩ := h.merges hs hs'
      exact ⟨t, ht⟩
  obtain ⟨state, hstate⟩ := hproceeds.run hkeeps hrows
  exact ⟨state, hstate, hkeeps.run hrows hstate⟩

end Merge

end Madlib.Regress
