import Madlib.Regress.SummedState

/-!
# Steps of an iterative method

One iteration passes over all rows, each a pair of `y` and `x`.  Every segment starts from the
state of the previous iteration, and rows add to its intra-iteration elements only.
-/

namespace Madlib.Regress

open Madlib.Backend Madlib.Dbal Madlib.Lib.Segments

/-- The functions of a method.  `addRow` is what the transition step does with a row once the
state has a width; it is also given the previous state. -/
structure IterationMethod (α : Type) where
  layout : Layout
  /-- the number of elements of a state of some width -/
  length : Nat → Nat
  initial : List α
  reset : List α → Nat → Except Fault (List α)
  addRow : Option (List α) → List α → Nat → Bool × List α → Except Fault (List α)
  plusEqState : Nat → Nat → List α → List α → Except Fault (List α)

section Definitions

variable {α : Type} [Field α]

/-- The elements of an iteration before its first row. -/
def cleared (intra : Nat → Bool) (storage : List α) : List α :=
  storage.mapIdx fun k a => if intra k then 0 else a

theorem getElem?_cleared (intra : Nat → Bool) (storage : List α) (k : Nat) :
    (cleared intra storage)[k]? = storage[k]?.map fun a => if intra k then 0 else a :=
  List.getElem?_mapIdx

theorem length_cleared (intra : Nat → Bool) (storage : List α) :
    (cleared intra storage).length = storage.length := List.length_mapIdx

namespace IterationMethod

/-- The state an iteration with rows of width `w` starts from. -/
def base (method : IterationMethod α) (intra : Nat → Nat → Bool) (previous : Option (List α))
    (w : Nat) : List α :=
  match previous with
  | none => (List.replicate (method.length w) 0).set method.layout.widthIndex (w : α)
  | some previousState => cleared (intra w) (previousState.take (method.length w))

/-- The previous state, or a state of width `w` that is otherwise zero. -/
def start (method : IterationMethod α) (previous : Option (List α)) (w : Nat) : List α :=
  previous.getD ((List.replicate (method.length w) 0).set method.layout.widthIndex (w : α))

/-- A state of width `w`. -/
def Holds (method : IterationMethod α) (w : Nat) (state : List α) : Prop :=
  method.layout.Holds w (method.length w) state

/-- A width a state can have. -/
def Fits (method : IterationMethod α) (w : Nat) : Prop :=
  method.layout.Fits w (method.length w)

/-- The previous state, if there is one, is a state of some width. -/
def IsPrevious (method : IterationMethod α) (previous : Option (List α)) : Prop :=
  ∀ state, previous = some state → ∃ p, method.Fits p ∧ method.Holds p state

variable [LinearOrder α] [FloorRing α]

/-- The aggregate of one iteration, up to its final function. -/
def aggregate (method : IterationMethod α) (previous : Option (List α)) :
    Aggregate Fault (Bool × List α) (List α) where
  init := method.initial
  transition state row := do
    let started ← method.layout.start state
      (method.layout.initializeFrom method.reset previous row.2.length)
    method.addRow previous started.1 started.2 row
  merge := method.layout.mergeStates method.plusEqState

end IterationMethod

/-- What the functions of a method do on states of widths that fit. -/
structure SumsStep (method : IterationMethod α) (intra : Nat → Nat → Bool)
    (terms : Nat → List α → Bool × List α → Nat → α) : Prop where
  length_mono : StrictMono method.length
  last_field : ∀ {w}, method.Fits w →
    ∃ field ∈ method.layout.fields w, field.1 + 1 = method.length w
  reset_ok : ∀ {w storage}, method.Fits w → storage.length = method.length w →
    method.reset storage w = .ok (cleared (intra w) storage)
  addRow_ok : ∀ {previous w storage row}, method.Fits w → storage.length = method.length w →
    row.2.length = w →
    method.addRow previous storage w row = .ok (plusEq storage (terms w storage row))
  terms_congr : ∀ {w storage storage' row}, method.Fits w →
    (∀ k, intra w k = false → storage[k]? = storage'[k]?) →
    terms w storage row = terms w storage' row
  terms_zero : ∀ {w storage row k}, method.Fits w → intra w k = false →
    terms w storage row k = 0
  terms_numRows : ∀ {w storage row}, method.Fits w → row.2.length = w →
    terms w storage row (method.layout.numRows w) = 1
  intra_width : ∀ {w}, method.Fits w → intra w method.layout.widthIndex = false
  intra_numRows : ∀ {w}, method.Fits w → intra w (method.layout.numRows w) = true

end Definitions

section Step

variable {α : Type} [Field α] {method : IterationMethod α} {intra : Nat → Nat → Bool}
  {terms : Nat → List α → Bool × List α → Nat → α} {previous : Option (List α)} {w : Nat}

theorem SumsStep.holds_base (h : SumsStep method intra terms) (hfits : method.Fits w)
    (hprevious : ∀ state, previous = some state → method.Holds w state) :
    method.Holds w (method.base intra previous w) := by
  cases previous with
  | none => exact Layout.Fits.holds_initial hfits
  | some state =>
      obtain ⟨hlength, hwidth⟩ := hprevious state rfl
      have htake : state.take (method.length w) = state := List.take_of_length_le hlength.le
      constructor
      · unfold IterationMethod.base
        simp only [htake, length_cleared, hlength]
      · unfold IterationMethod.base
        simp only [htake, getElem?_cleared, hwidth, h.intra_width hfits]
        rfl

theorem SumsStep.base_zero (h : SumsStep method intra terms) (hfits : method.Fits w)
    (hprevious : ∀ state, previous = some state → method.Holds w state) {k : Nat}
    (hk : k < method.length w) (hintra : intra w k = true) :
    (method.base intra previous w)[k]? = some 0 := by
  cases previous with
  | none =>
      have hne : method.layout.widthIndex ≠ k := by
        rintro rfl
        rw [h.intra_width hfits] at hintra
        cases hintra
      unfold IterationMethod.base
      simp only [List.getElem?_set_ne hne, List.getElem?_replicate, if_pos hk]
  | some state =>
      have hlength := (hprevious state rfl).length_eq
      unfold IterationMethod.base
      simp only [getElem?_cleared, List.getElem?_take_of_lt hk,
        List.getElem?_eq_getElem (hlength ▸ hk), hintra]
      rfl

theorem SumsStep.sumsOver (h : SumsStep method intra terms) (hfits : method.Fits w)
    (hprevious : ∀ state, previous = some state → method.Holds w state) :
    SumsOver method.layout w (method.length w) (method.base intra previous w)
      (terms w (method.base intra previous w)) (intra w) fun row => row.2.length = w where
  fits := hfits
  holds := h.holds_base hfits hprevious
  base_zero := fun _ hk hintra => h.base_zero hfits hprevious hk hintra
  terms_zero := fun _ _ _ hintra => h.terms_zero hfits hintra
  intra_width := h.intra_width hfits
  intra_numRows := h.intra_numRows hfits
  numRows_one := fun _ hrow => h.terms_numRows hfits hrow

/-- Before its first row an iteration has the previous state's inter-iteration elements. -/
theorem IterationMethod.base_eq_start {k : Nat}
    (hprevious : ∀ state, previous = some state → method.Holds w state)
    (hintra : intra w k = false) :
    (method.base intra previous w)[k]? = (method.start previous w)[k]? := by
  cases previous with
  | none => rfl
  | some state =>
      have htake : state.take (method.length w) = state :=
        List.take_of_length_le (hprevious state rfl).length_eq.le
      unfold IterationMethod.base IterationMethod.start
      simp only [htake, getElem?_cleared, hintra, Option.getD_some, Bool.false_eq_true, if_false,
        Option.map_id']

variable [LinearOrder α] [IsStrictOrderedRing α] [FloorRing α]

theorem SumsStep.initializeFrom (h : SumsStep method intra terms) (hfits : method.Fits w)
    (hprevious : ∀ state, previous = some state → method.Holds w state) {size : Nat}
    (hsize : size = w) :
    method.layout.initializeFrom method.reset previous size =
      .ok (method.base intra previous w, w) := by
  unfold Layout.initializeFrom
  rw [Layout.Fits.initializeState hfits hsize, ok_bind]
  cases previous with
  | none => rfl
  | some state =>
      have hstate := hprevious state rfl
      have htake : (state.take (method.length w)).length = method.length w := by
        rw [List.length_take, hstate.length_eq, Nat.min_self]
      simp only [Layout.Fits.construct hfits hstate, ok_bind, assignFrom, List.length_set,
        List.length_replicate, hstate.length_eq, Nat.lt_irrefl, if_false, h.reset_ok hfits htake]
      rfl

/-- From a previous state of the rows' width, the aggregate sums what the rows add. -/
theorem SumsStep.sumsRows (h : SumsStep method intra terms) (hfits : method.Fits w)
    (hempty : Layout.Empty method.layout method.initial)
    (hadds : AddsIntra method.layout w (method.length w) (intra w) method.plusEqState)
    (hprevious : ∀ state, previous = some state → method.Holds w state) :
    SumsRows (method.aggregate previous) method.layout w (method.length w)
      (method.base intra previous w) (terms w (method.base intra previous w)) (intra w)
      fun row => row.2.length = w := by
  have hsums := h.sumsOver hfits hprevious
  constructor
  · exact hsums
  · exact hempty
  · intro row hrow
    unfold IterationMethod.aggregate
    simp only [hempty.start, h.initializeFrom hfits hprevious hrow, ok_bind]
    rw [h.addRow_ok hfits hsums.holds.length_eq hrow, summed_singleton]
  · intro rows row hne hrows hrow
    have hterms : terms w (summed (method.base intra previous w)
        (terms w (method.base intra previous w)) rows) row =
        terms w (method.base intra previous w) row := by
      apply h.terms_congr hfits
      intro k hk
      exact hsums.getElem?_summed_of_not hrows hk
    unfold IterationMethod.aggregate
    simp only [hsums.start hrows hne, ok_bind]
    rw [h.addRow_ok hfits (hsums.holds_summed hrows).length_eq hrow, hterms, summed_cons]
  · exact ⟨method.plusEqState, rfl, hadds⟩

end Step

/-! ## Previous states of another width -/

/-- Only rows of the state's width are accepted, and only widths that fit. -/
structure Guards {α : Type} [Field α] [LinearOrder α] [FloorRing α]
    (method : IterationMethod α) : Prop where
  empty : Layout.Empty method.layout method.initial
  fits : ∀ {w}, 8 * method.length w + 40 ≤ maxAllocSize → method.Fits w
  allocates : ∀ {w} {fresh : List α × Nat}, w < 65536 →
    method.layout.initializeState w = .ok fresh → 8 * method.length w + 40 ≤ maxAllocSize
  addRow_width : ∀ {previous storage w row storage'},
    method.addRow previous storage w row = .ok storage' → row.2.length = w

section Guarded

variable {α : Type} [Field α] [LinearOrder α] [FloorRing α] {method : IterationMethod α}
  {previous : Option (List α)}

/-- The first row of a segment is only accepted when its width fits. -/
theorem Guards.first (h : Guards method) {row : Bool × List α} {state : List α}
    (hstep : (method.aggregate previous).transition method.initial row = .ok state) :
    method.Fits row.2.length ∧ ∃ storage,
      method.layout.initializeFrom method.reset previous row.2.length =
        .ok (storage, row.2.length) ∧
      method.addRow previous storage row.2.length row = .ok state := by
  unfold IterationMethod.aggregate at hstep
  simp only [h.empty.start] at hstep
  obtain ⟨started, hstarted, hrow⟩ := bind_eq_ok.mp hstep
  obtain ⟨hwidth, fresh, hfresh, _⟩ := Layout.initializeFrom_eq_ok hstarted
  have hlength := h.addRow_width hrow
  have hlt : row.2.length < 65536 := by omega
  refine ⟨h.fits (h.allocates hlt hfresh), started.1, ?_, ?_⟩
  · rw [hstarted, hlength]
  · rwa [← hlength] at hrow

/-- A pass over rows is only accepted when their width fits. -/
theorem Guards.fits_of_pass (h : Guards method) {rows : List (Bool × List α)} {w : Nat}
    (hrows : ∀ row ∈ rows, row.2.length = w) (hne : rows ≠ []) {state : List α}
    (hpass : (method.aggregate previous).pass rows = .ok state) : method.Fits w := by
  cases rows with
  | nil => exact absurd rfl hne
  | cons row rows =>
      rw [Aggregate.pass, List.foldlM_cons] at hpass
      have ⟨next, hstep, _⟩ := bind_eq_ok.mp hpass
      have hfirst := (h.first hstep).1
      rwa [hrows row List.mem_cons_self] at hfirst

theorem Guards.merge_initial (h : Guards method) :
    (method.aggregate previous).merge method.initial method.initial = .ok method.initial :=
  mergeStates_empty_left h.empty h.empty.construct h.empty.numRows

/-- A state that cannot be constructed is neither given a row nor merged. -/
theorem IterationMethod.stuck {state : List α} {e : Fault}
    (hconstruct : method.layout.construct state = .error e) :
    (∀ row, ∃ e, (method.aggregate previous).transition state row = .error e) ∧
      (∀ other, ∃ e, (method.aggregate previous).merge state other = .error e) ∧
      ∀ other, ∃ e, (method.aggregate previous).merge other state = .error e := by
  constructor
  · intro row
    refine ⟨e, ?_⟩
    unfold IterationMethod.aggregate Layout.start
    simp only [hconstruct, error_bind]
  constructor
  · intro other
    refine ⟨e, ?_⟩
    unfold IterationMethod.aggregate Layout.mergeStates
    simp only [hconstruct, error_bind]
  · intro other
    unfold IterationMethod.aggregate Layout.mergeStates
    cases hother : method.layout.construct other with
    | error e' => exact ⟨e', by simp only [hother, error_bind]⟩
    | ok width => exact ⟨e, by simp only [hother, hconstruct, ok_bind, error_bind]⟩

variable [IsStrictOrderedRing α] {intra : Nat → Nat → Bool}
  {terms : Nat → List α → Bool × List α → Nat → α}

/-- A previous state of another width makes a state that cannot be constructed again. -/
theorem SumsStep.construct_error (h : SumsStep method intra terms) (hg : Guards method)
    {row : Bool × List α} {state previousState : List α} {p : Nat} (hp : method.Fits p)
    (hprevious : method.Holds p previousState) (hne : p ≠ row.2.length)
    (hstep : (method.aggregate (some previousState)).transition method.initial row = .ok state) :
    ∃ e, method.layout.construct state = .error e := by
  obtain ⟨hw, storage, hfirst, hrow⟩ := hg.first hstep
  obtain ⟨_, fresh, hfresh, _, hcopied⟩ := Layout.initializeFrom_eq_ok hfirst
  obtain ⟨_, _, hlength, hreset⟩ := hcopied previousState rfl
  rw [Layout.Fits.initializeState hw rfl] at hfresh
  cases hfresh
  rw [List.length_set, List.length_replicate] at hlength hreset
  rw [Nat.mod_eq_of_lt hw.width_lt] at hreset
  rw [hprevious.length_eq] at hlength
  have hlt : row.2.length < p := by
    rcases Nat.lt_or_gt_of_ne hne with hlt | hgt
    · exact absurd (h.length_mono hlt) (Nat.not_lt.mpr hlength)
    · exact hgt
  have htake : (previousState.take (method.length row.2.length)).length =
      method.length row.2.length := by
    rw [List.length_take, hprevious.length_eq, Nat.min_eq_left hlength]
  have hstorage : storage = cleared (intra row.2.length)
      (previousState.take (method.length row.2.length)) := by
    rw [h.reset_ok hw htake] at hreset
    exact (Except.ok.inj hreset).symm
  have hstorageLength : storage.length = method.length row.2.length := by
    rw [hstorage, length_cleared, htake]
  have hstate : state = plusEq storage (terms row.2.length storage row) := by
    rw [h.addRow_ok hw hstorageLength rfl] at hrow
    exact (Except.ok.inj hrow).symm
  have hwidth : state[method.layout.widthIndex]? = some (p : α) := by
    rw [hstate, getElem?_plusEq, h.terms_zero hw (h.intra_width hw), hstorage, getElem?_cleared,
      List.getElem?_take_of_lt hw.widthIndex_lt, hprevious.width_eq, h.intra_width hw]
    exact congrArg some (add_zero _)
  cases hconstruct : method.layout.construct state with
  | error e => exact ⟨e, rfl⟩
  | ok q =>
      obtain ⟨hq, hfields⟩ := Layout.construct_eq_ok hwidth hconstruct
      rw [uint16_natCast hp.width_lt] at hq
      obtain ⟨field, hfield, hlast⟩ := h.last_field hp
      have hbound := hfields field (hq ▸ hfield)
      rw [hstate, length_plusEq, hstorageLength] at hbound
      have hmono := h.length_mono hlt
      omega

variable {w : Nat} {plan : Plan (Bool × List α)}

theorem SumsStep.run_ok (h : SumsStep method intra terms) (hg : Guards method)
    (hadds : AddsIntra method.layout w (method.length w) (intra w) method.plusEqState)
    (hfits : method.Fits w)
    (hprevious : ∀ state, previous = some state → method.Holds w state)
    (hrows : ∀ row ∈ plan.rows, row.2.length = w) (hne : plan.rows ≠ 0) :
    (method.aggregate previous).run plan = .ok (summed (method.base intra previous w)
      (terms w (method.base intra previous w)) plan.rows) := by
  obtain ⟨state, hrun, _, ⟨hzero, _⟩ | ⟨_, hstate⟩⟩ :=
    (h.sumsRows hfits hg.empty hadds hprevious).run hrows
  · exact absurd hzero hne
  · rw [hrun, hstate]

/-- Unless the previous state has the rows' width and that fits, the state of the first row cannot
be constructed again. -/
theorem SumsStep.construct_error_of_mismatch (h : SumsStep method intra terms) (hg : Guards method)
    (hprevious : method.IsPrevious previous)
    (hmismatch : ¬(method.Fits w ∧ ∀ state, previous = some state → method.Holds w state))
    {row : Bool × List α} {state : List α} (hrow : row.2.length = w)
    (hstep : (method.aggregate previous).transition method.initial row = .ok state) :
    ∃ e, method.layout.construct state = .error e := by
  have hw := (hg.first hstep).1
  cases previous with
  | none =>
      exact absurd ⟨hrow ▸ hw, fun _ hnone => absurd hnone.symm (Option.some_ne_none _)⟩ hmismatch
  | some previousState =>
      have ⟨p, hp, hholds⟩ := hprevious previousState rfl
      by_cases hpw : p = w
      · refine absurd ⟨hrow ▸ hw, ?_⟩ hmismatch
        intro _ hsome
        rw [← Option.some.inj hsome, ← hpw]
        exact hholds
      · exact h.construct_error hg hp hholds (hrow ▸ hpw) hstep

/-- Then a plan that returns has at most one row. -/
theorem SumsStep.run_single (h : SumsStep method intra terms) (hg : Guards method)
    (hprevious : method.IsPrevious previous)
    (hmismatch : ¬(method.Fits w ∧ ∀ state, previous = some state → method.Holds w state))
    (hrows : ∀ row ∈ plan.rows, row.2.length = w) {state : List α}
    (hrun : (method.aggregate previous).run plan = .ok state) :
    (plan.rows = 0 ∧ state = method.initial) ∨ ∃ row, plan.rows = {row} ∧
      (method.aggregate previous).transition method.initial row = .ok state := by
  rcases Aggregate.run_single hg.merge_initial (fun row state hrow hstep =>
      IterationMethod.stuck
        (h.construct_error_of_mismatch hg hprevious hmismatch hrow hstep).choose_spec)
      hrows hrun with
    hzero | ⟨row, _, hrow, hstep⟩
  · exact .inl hzero
  · exact .inr ⟨row, hrow, hstep⟩

/-- Plans over rows of width `w` give what one pass over the rows gives: `sums` says what that
is when the previous state has the rows' width. -/
def IterationMethod.PlansAgree (method : IterationMethod α) (previous : Option (List α)) (w : Nat)
    (rows : List (Bool × List α)) (plan : Plan (Bool × List α)) (sums : List α → Prop) : Prop :=
  (∀ state state', (method.aggregate previous).run plan = .ok state →
    (method.aggregate previous).pass rows = .ok state' → state = state') ∧
  (8 * method.length w + 40 ≤ maxAllocSize →
    (∀ state, previous = some state → method.Holds w state) →
    ∃ state, (method.aggregate previous).run plan = .ok state ∧
      (method.aggregate previous).pass rows = .ok state ∧
      (rows = [] ∧ state = method.initial ∨ rows ≠ [] ∧ sums state))

/-- Two plans over the same rows that return, return the same state. -/
theorem SumsStep.run_unique (h : SumsStep method intra terms) (hg : Guards method)
    (hadds : ∀ {w}, method.Fits w →
      AddsIntra method.layout w (method.length w) (intra w) method.plusEqState)
    (hprevious : method.IsPrevious previous) {other : Plan (Bool × List α)}
    (hplans : plan.rows = other.rows) (hrows : ∀ row ∈ plan.rows, row.2.length = w)
    {state state' : List α} (hrun : (method.aggregate previous).run plan = .ok state)
    (hother : (method.aggregate previous).run other = .ok state') : state = state' := by
  have hrows' : ∀ row ∈ other.rows, row.2.length = w := hplans ▸ hrows
  by_cases hmatch : method.Fits w ∧ ∀ state, previous = some state → method.Holds w state
  · by_cases hzero : plan.rows = 0
    · rw [Aggregate.run_of_rows_eq_zero hg.merge_initial hzero] at hrun
      rw [Aggregate.run_of_rows_eq_zero hg.merge_initial (hplans ▸ hzero)] at hother
      exact Except.ok.inj (hrun.symm.trans hother)
    · rw [h.run_ok hg (hadds hmatch.1) hmatch.1 hmatch.2 hrows hzero] at hrun
      rw [h.run_ok hg (hadds hmatch.1) hmatch.1 hmatch.2 hrows' (hplans ▸ hzero)] at hother
      rw [← hplans] at hother
      exact Except.ok.inj (hrun.symm.trans hother)
  · rcases h.run_single hg hprevious hmatch hrows hrun with ⟨hzero, hstate⟩ | ⟨row, hrow, hstep⟩
    · rcases h.run_single hg hprevious hmatch hrows' hother with
        ⟨_, hstate'⟩ | ⟨row', hrow', _⟩
      · rw [hstate, hstate']
      · rw [← hplans, hzero] at hrow'
        exact absurd hrow'.symm (Multiset.singleton_ne_zero row')
    · rcases h.run_single hg hprevious hmatch hrows' hother with
        ⟨hzero', _⟩ | ⟨row', hrow', hstep'⟩
      · rw [hplans, hzero'] at hrow
        exact absurd hrow.symm (Multiset.singleton_ne_zero row)
      · rw [← hplans, hrow] at hrow'
        rw [← Multiset.singleton_inj.mp hrow'] at hstep'
        exact Except.ok.inj (hstep.symm.trans hstep')

theorem SumsStep.plansAgree (h : SumsStep method intra terms) (hg : Guards method)
    (hadds : ∀ {w}, method.Fits w →
      AddsIntra method.layout w (method.length w) (intra w) method.plusEqState)
    (hprevious : method.IsPrevious previous) {rows : List (Bool × List α)}
    (hplan : plan.rows = rows) (hrows : ∀ row ∈ rows, row.2.length = w) {sums : List α → Prop}
    (hsums : method.Fits w → (∀ state, previous = some state → method.Holds w state) →
      sums (summed (method.base intra previous w) (terms w (method.base intra previous w)) rows)) :
    method.PlansAgree previous w rows plan sums := by
  have hplanRows : ∀ row ∈ plan.rows, row.2.length = w := by
    rw [hplan]
    exact fun row hrow => hrows row (Multiset.mem_coe.mp hrow)
  have hpass : (Plan.segment rows).rows = plan.rows := hplan.symm
  constructor
  · intro state state' hrun hother
    exact h.run_unique hg hadds hprevious hpass.symm hplanRows hrun hother
  · intro halloc hmatch
    have hfits := hg.fits halloc
    by_cases hne : rows = []
    · have hzero : plan.rows = 0 := by
        rw [hplan, hne]
        rfl
      exact ⟨_, Aggregate.run_of_rows_eq_zero hg.merge_initial hzero,
        Aggregate.run_of_rows_eq_zero hg.merge_initial (hpass.trans hzero), .inl ⟨hne, rfl⟩⟩
    · have hplanNe : plan.rows ≠ 0 := by
        rw [hplan]
        exact fun hzero => hne ((Multiset.coe_eq_zero _).mp hzero)
      refine ⟨_, h.run_ok hg (hadds hfits) hfits hmatch hplanRows hplanNe, ?_, .inr ⟨hne, ?_⟩⟩
      · have hrun := h.run_ok hg (hadds hfits) hfits hmatch (hpass ▸ hplanRows) (hpass ▸ hplanNe)
        rwa [hpass] at hrun
      · rw [hplan]
        exact hsums hfits hmatch

end Guarded

end Madlib.Regress
