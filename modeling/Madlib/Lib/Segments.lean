import Mathlib

/-!
# Aggregates over segments

An aggregate passes over the rows of a segment, from its initial state on, and merges the states
of two segments.  A plan says which rows each segment has and in which order the states are
merged.  What holds of the initial state and is kept by both functions holds of what a plan
returns.
-/

namespace Madlib.Lib.Segments

variable {ε ρ σ : Type}

structure Aggregate (ε ρ σ : Type) where
  init : σ
  transition : σ → ρ → Except ε σ
  merge : σ → σ → Except ε σ

inductive Plan (ρ : Type) where
  | segment (rows : List ρ)
  | merged (left right : Plan ρ)

/-- The rows of all segments. -/
def Plan.rows : Plan ρ → Multiset ρ
  | segment rows => rows
  | merged left right => left.rows + right.rows

/-- The rows of each segment. -/
def Plan.segments : Plan ρ → List (List ρ)
  | segment rows => [rows]
  | merged left right => left.segments ++ right.segments

/-- One pass over the rows. -/
def Aggregate.pass (agg : Aggregate ε ρ σ) (rows : List ρ) : Except ε σ :=
  rows.foldlM agg.transition agg.init

def Aggregate.run (agg : Aggregate ε ρ σ) : Plan ρ → Except ε σ
  | .segment rows => agg.pass rows
  | .merged left right => do
      let stateLeft ← agg.run left
      let stateRight ← agg.run right
      agg.merge stateLeft stateRight

theorem Plan.mem_merged {left right : Plan ρ} {r : ρ} :
    r ∈ (Plan.merged left right).rows ↔ r ∈ left.rows ∨ r ∈ right.rows :=
  Multiset.mem_add

theorem Plan.mem_rows {plan : Plan ρ} {r : ρ} :
    r ∈ plan.rows ↔ ∃ segment ∈ plan.segments, r ∈ segment := by
  induction plan with
  | segment rows => simp [Plan.rows, Plan.segments]
  | merged left right ihl ihr =>
      rw [Plan.mem_merged, ihl, ihr]
      simp only [Plan.segments, List.mem_append, or_and_right, exists_or]

/-- States that are merged in some order. -/
inductive MergeTree (σ : Type) where
  | leaf (state : σ)
  | node (left right : MergeTree σ)

def MergeTree.leaves : MergeTree σ → List σ
  | leaf state => [state]
  | node left right => left.leaves ++ right.leaves

def MergeTree.eval (merge : σ → σ → Except ε σ) : MergeTree σ → Except ε σ
  | leaf state => .ok state
  | node left right => do
      let stateLeft ← left.eval merge
      let stateRight ← right.eval merge
      merge stateLeft stateRight

/-- What merging keeps holds of what a tree returns. -/
theorem MergeTree.eval_ok {merge : σ → σ → Except ε σ} {Q : σ → Prop} {R : List σ → σ → Prop}
    (hleaf : ∀ s, Q s → R [s] s)
    (hmerge : ∀ l s r t, R l s → R r t → ∃ u, merge s t = .ok u ∧ R (l ++ r) u)
    {tree : MergeTree σ} (hleaves : ∀ s ∈ tree.leaves, Q s) :
    ∃ u, tree.eval merge = .ok u ∧ R tree.leaves u := by
  induction tree with
  | leaf s => exact ⟨s, rfl, hleaf s (hleaves s (List.mem_singleton.mpr rfl))⟩
  | node left right ihl ihr =>
      obtain ⟨s, hs, hl⟩ := ihl fun s hs => hleaves s (List.mem_append_left _ hs)
      obtain ⟨t, ht, hr⟩ := ihr fun t ht => hleaves t (List.mem_append_right _ ht)
      obtain ⟨u, hu, hR⟩ := hmerge _ _ _ _ hl hr
      refine ⟨u, ?_, hR⟩
      unfold MergeTree.eval
      rw [hs, ht]
      exact hu

/-- What a state says of the rows it has seen is kept. -/
structure Keeps (agg : Aggregate ε ρ σ) (Q : ρ → Prop) (R : Multiset ρ → σ → Prop) : Prop where
  init : R 0 agg.init
  transition : ∀ rows s r s', Q r → R rows s → agg.transition s r = .ok s' → R (r ::ₘ rows) s'
  merge : ∀ rows s rows' s' t, R rows s → R rows' s' → agg.merge s s' = .ok t →
    R (rows + rows') t

/-- No step fails on what a state says of the rows it has seen. -/
structure Proceeds (agg : Aggregate ε ρ σ) (Q : ρ → Prop) (R : Multiset ρ → σ → Prop) : Prop where
  transition : ∀ rows s r, Q r → R rows s → ∃ s', agg.transition s r = .ok s'
  merge : ∀ rows s rows' s', R rows s → R rows' s' → ∃ t, agg.merge s s' = .ok t

section Rules

variable {agg : Aggregate ε ρ σ} {Q : ρ → Prop} {R : Multiset ρ → σ → Prop}

/-- When both sides of a plan return, their states are merged. -/
theorem Aggregate.run_merged {left right : Plan ρ} {stateLeft stateRight : σ}
    (hleft : agg.run left = .ok stateLeft) (hright : agg.run right = .ok stateRight) :
    agg.run (.merged left right) = agg.merge stateLeft stateRight := by
  unfold Aggregate.run
  rw [hleft, hright]
  rfl

/-- When a merged plan returns, both sides do. -/
theorem Aggregate.of_run_merged {left right : Plan ρ} {s : σ}
    (hrun : agg.run (.merged left right) = .ok s) :
    ∃ stateLeft stateRight, agg.run left = .ok stateLeft ∧ agg.run right = .ok stateRight ∧
      agg.merge stateLeft stateRight = .ok s := by
  cases hleft : agg.run left with
  | error e =>
      unfold Aggregate.run at hrun
      rw [hleft] at hrun
      cases hrun
  | ok stateLeft =>
      cases hright : agg.run right with
      | error e =>
          unfold Aggregate.run at hrun
          rw [hleft, hright] at hrun
          cases hrun
      | ok stateRight =>
          rw [Aggregate.run_merged hleft hright] at hrun
          exact ⟨stateLeft, stateRight, rfl, rfl, hrun⟩

theorem Keeps.foldlM (h : Keeps agg Q R) {rows : List ρ} (hrows : ∀ r ∈ rows, Q r)
    {seen : Multiset ρ} {s s' : σ} (hs : R seen s)
    (hrun : rows.foldlM agg.transition s = .ok s') : R (seen + rows) s' := by
  induction rows generalizing seen s with
  | nil =>
      cases hrun
      simpa using hs
  | cons r rows ih =>
      rw [List.foldlM_cons] at hrun
      cases hstep : agg.transition s r with
      | error e =>
          rw [hstep] at hrun
          cases hrun
      | ok next =>
          rw [hstep] at hrun
          have hnext := h.transition seen s r next (hrows r List.mem_cons_self) hs hstep
          have hrest := ih (fun r' hr' => hrows r' (List.mem_cons_of_mem r hr')) hnext hrun
          rw [← Multiset.cons_coe, Multiset.add_cons, ← Multiset.cons_add]
          exact hrest

/-- What a plan returns says of its rows what each of its states says of the rows it has seen. -/
theorem Keeps.run (h : Keeps agg Q R) {plan : Plan ρ} (hrows : ∀ r ∈ plan.rows, Q r) {s : σ}
    (hrun : agg.run plan = .ok s) : R plan.rows s := by
  induction plan generalizing s with
  | segment rows =>
      have hpass := h.foldlM (fun r hr => hrows r (Multiset.mem_coe.mpr hr)) h.init hrun
      rwa [zero_add] at hpass
  | merged left right ihl ihr =>
      obtain ⟨stateLeft, stateRight, hleft, hright, hmerge⟩ := Aggregate.of_run_merged hrun
      have hl := ihl (fun r hr => hrows r (Plan.mem_merged.mpr (.inl hr))) hleft
      have hr := ihr (fun r hr => hrows r (Plan.mem_merged.mpr (.inr hr))) hright
      exact h.merge _ _ _ _ _ hl hr hmerge

theorem Proceeds.foldlM (hp : Proceeds agg Q R) (h : Keeps agg Q R) {rows : List ρ}
    (hrows : ∀ r ∈ rows, Q r) {seen : Multiset ρ} {s : σ} (hs : R seen s) :
    ∃ s', rows.foldlM agg.transition s = .ok s' := by
  induction rows generalizing seen s with
  | nil => exact ⟨s, rfl⟩
  | cons r rows ih =>
      have hr := hrows r List.mem_cons_self
      obtain ⟨next, hstep⟩ := hp.transition seen s r hr hs
      rw [List.foldlM_cons, hstep]
      exact ih (fun r' hr' => hrows r' (List.mem_cons_of_mem r hr'))
        (h.transition seen s r next hr hs hstep)

/-- Every plan returns. -/
theorem Proceeds.run (hp : Proceeds agg Q R) (h : Keeps agg Q R) {plan : Plan ρ}
    (hrows : ∀ r ∈ plan.rows, Q r) : ∃ s, agg.run plan = .ok s := by
  induction plan with
  | segment rows => exact hp.foldlM h (fun r hr => hrows r (Multiset.mem_coe.mpr hr)) h.init
  | merged left right ihl ihr =>
      have hl : ∀ r ∈ left.rows, Q r := fun r hr => hrows r (Plan.mem_merged.mpr (.inl hr))
      have hr : ∀ r ∈ right.rows, Q r := fun r hr => hrows r (Plan.mem_merged.mpr (.inr hr))
      obtain ⟨stateLeft, hleft⟩ := ihl hl
      obtain ⟨stateRight, hright⟩ := ihr hr
      obtain ⟨t, ht⟩ := hp.merge _ _ _ _ (h.run hl hleft) (h.run hr hright)
      exact ⟨t, by rw [Aggregate.run_merged hleft hright, ht]⟩

/-- A state says something of the rows it has seen, and so does an error, which more rows do not
take back. -/
structure Explains (agg : Aggregate ε ρ σ) (Q : ρ → Prop) (R : Multiset ρ → σ → Prop)
    (E : Multiset ρ → ε → Prop) : Prop where
  init : R 0 agg.init
  transition : ∀ rows s r, Q r → R rows s →
    (∃ s', agg.transition s r = .ok s' ∧ R (r ::ₘ rows) s') ∨
      ∃ e, agg.transition s r = .error e ∧ E (r ::ₘ rows) e
  merge : ∀ rows s rows' s', R rows s → R rows' s' →
    (∃ t, agg.merge s s' = .ok t ∧ R (rows + rows') t) ∨
      ∃ e, agg.merge s s' = .error e ∧ E (rows + rows') e
  mono : ∀ rows rows' e, rows ≤ rows' → E rows e → E rows' e

section Explains

variable {E : Multiset ρ → ε → Prop}

theorem Explains.foldlM (h : Explains agg Q R E) {rows : List ρ} (hrows : ∀ r ∈ rows, Q r)
    {seen : Multiset ρ} {s : σ} (hs : R seen s) :
    (∃ s', rows.foldlM agg.transition s = .ok s' ∧ R (seen + rows) s') ∨
      ∃ e, rows.foldlM agg.transition s = .error e ∧ E (seen + rows) e := by
  induction rows generalizing seen s with
  | nil =>
      left
      refine ⟨s, rfl, ?_⟩
      rw [Multiset.coe_nil, add_zero]
      exact hs
  | cons r rows ih =>
      have hsum : seen + (r :: rows : List ρ) = (r ::ₘ seen) + (rows : Multiset ρ) := by
        rw [← Multiset.cons_coe, Multiset.add_cons, ← Multiset.cons_add]
      rw [List.foldlM_cons, hsum]
      rcases h.transition seen s r (hrows r List.mem_cons_self) hs with
        ⟨next, hstep, hnext⟩ | ⟨e, hstep, herror⟩
      · rw [hstep]
        exact ih (fun r' hr' => hrows r' (List.mem_cons_of_mem r hr')) hnext
      · right
        rw [hstep]
        exact ⟨e, rfl, h.mono _ _ e (Multiset.le_add_right _ _) herror⟩

/-- So does the outcome of a plan. -/
theorem Explains.run (h : Explains agg Q R E) {plan : Plan ρ} (hrows : ∀ r ∈ plan.rows, Q r) :
    (∃ s, agg.run plan = .ok s ∧ R plan.rows s) ∨
      ∃ e, agg.run plan = .error e ∧ E plan.rows e := by
  induction plan with
  | segment rows =>
      have hpass := h.foldlM (fun r hr => hrows r (Multiset.mem_coe.mpr hr)) h.init
      rwa [zero_add] at hpass
  | merged left right ihl ihr =>
      rcases ihl fun r hr => hrows r (Plan.mem_merged.mpr (.inl hr)) with
        ⟨stateLeft, hleft, hl⟩ | ⟨e, hleft, hl⟩
      · rcases ihr fun r hr => hrows r (Plan.mem_merged.mpr (.inr hr)) with
          ⟨stateRight, hright, hr⟩ | ⟨e, hright, hr⟩
        · rw [Aggregate.run_merged hleft hright]
          exact h.merge _ _ _ _ hl hr
        · right
          unfold Aggregate.run
          rw [hleft, hright]
          exact ⟨e, rfl, h.mono _ _ e (Multiset.le_add_left _ _) hr⟩
      · right
        unfold Aggregate.run
        rw [hleft]
        exact ⟨e, rfl, h.mono _ _ e (Multiset.le_add_right _ _) hl⟩

end Explains

/-- When the state is a function of the rows that have been seen, a plan returns that of its
rows. -/
theorem Aggregate.run_of_state {f : Multiset ρ → σ} (hinit : agg.init = f 0)
    (htransition : ∀ rows r, Q r → agg.transition (f rows) r = .ok (f (r ::ₘ rows)))
    (hmerge : ∀ rows rows', agg.merge (f rows) (f rows') = .ok (f (rows + rows')))
    {plan : Plan ρ} (hrows : ∀ r ∈ plan.rows, Q r) : agg.run plan = .ok (f plan.rows) := by
  have hkeeps : Keeps agg Q fun rows s => s = f rows := by
    constructor
    · exact hinit
    · rintro rows s r s' hr rfl hstep
      rw [htransition rows r hr] at hstep
      exact (Except.ok.inj hstep).symm
    · rintro rows s rows' s' t rfl rfl hstep
      rw [hmerge] at hstep
      exact (Except.ok.inj hstep).symm
  have hproceeds : Proceeds agg Q fun rows s => s = f rows := by
    constructor
    · rintro rows s r hr rfl
      exact ⟨_, htransition rows r hr⟩
    · rintro rows s rows' s' rfl rfl
      exact ⟨_, hmerge rows rows'⟩
  obtain ⟨s, hrun⟩ := hproceeds.run hkeeps hrows
  rw [hrun, hkeeps.run hrows hrun]

/-- The state is a function of the rows that have been seen, whatever the rows are. -/
structure Tracks (agg : Aggregate ε ρ σ) (f : Multiset ρ → σ) : Prop where
  init : agg.init = f 0
  transition : ∀ rows r, agg.transition (f rows) r = .ok (f (r ::ₘ rows))
  merge : ∀ rows rows', agg.merge (f rows) (f rows') = .ok (f (rows + rows'))

theorem Tracks.run {f : Multiset ρ → σ} (h : Tracks agg f) (plan : Plan ρ) :
    agg.run plan = .ok (f plan.rows) := by
  apply Aggregate.run_of_state (Q := fun _ => True) h.init _ h.merge
  · exact fun _ _ => trivial
  · exact fun rows r _ => h.transition rows r

/-- Without rows the initial state is returned. -/
theorem Aggregate.run_of_rows_eq_zero (hmerge : agg.merge agg.init agg.init = .ok agg.init)
    {plan : Plan ρ} (hrows : plan.rows = 0) : agg.run plan = .ok agg.init := by
  induction plan with
  | segment rows =>
      obtain rfl : rows = [] := (Multiset.coe_eq_zero _).mp hrows
      rfl
  | merged left right ihl ihr =>
      obtain ⟨hl, hr⟩ : left.rows = 0 ∧ right.rows = 0 := by
        simpa [Plan.rows] using hrows
      rw [Aggregate.run_merged (ihl hl) (ihr hr), hmerge]

/-- No plan with rows returns when no row can be the first one. -/
theorem Aggregate.run_error (hmerge : agg.merge agg.init agg.init = .ok agg.init)
    (hfirst : ∀ r, Q r → ∃ e, agg.transition agg.init r = .error e) {plan : Plan ρ}
    (hrows : ∀ r ∈ plan.rows, Q r) (hne : plan.rows ≠ 0) : ∃ e, agg.run plan = .error e := by
  have hkeeps : Keeps agg Q fun rows s => rows = 0 ∧ s = agg.init := by
    constructor
    · exact ⟨rfl, rfl⟩
    · intro rows s r s' hr hs hstep
      obtain ⟨e, he⟩ := hfirst r hr
      rw [hs.2, he] at hstep
      cases hstep
    · intro rows s rows' s' t hs hs' hstep
      rw [hs.2, hs'.2, hmerge] at hstep
      cases hstep
      exact ⟨by rw [hs.1, hs'.1, add_zero], rfl⟩
  cases hrun : agg.run plan with
  | error e => exact ⟨e, rfl⟩
  | ok s => exact absurd (hkeeps.run hrows hrun).1 hne

/-- When a state with one row can neither be given another row nor be merged, a plan that returns
has at most one row, whose state it returns. -/
theorem Aggregate.run_single (hmerge : agg.merge agg.init agg.init = .ok agg.init)
    (hstuck : ∀ r s, Q r → agg.transition agg.init r = .ok s →
      (∀ r', ∃ e, agg.transition s r' = .error e) ∧ (∀ t, ∃ e, agg.merge s t = .error e) ∧
        ∀ t, ∃ e, agg.merge t s = .error e)
    {plan : Plan ρ} (hrows : ∀ r ∈ plan.rows, Q r) {s : σ} (hrun : agg.run plan = .ok s) :
    (plan.rows = 0 ∧ s = agg.init) ∨
      ∃ r, Q r ∧ plan.rows = {r} ∧ agg.transition agg.init r = .ok s := by
  have hkeeps : Keeps agg Q fun rows s => (rows = 0 ∧ s = agg.init) ∨
      ∃ r, Q r ∧ rows = {r} ∧ agg.transition agg.init r = .ok s := by
    constructor
    · exact .inl ⟨rfl, rfl⟩
    · intro rows s r s' hr hs hstep
      rcases hs with ⟨hzero, hs⟩ | ⟨r₁, hr₁, _, hs⟩
      · rw [hs] at hstep
        exact .inr ⟨r, hr, by rw [hzero]; rfl, hstep⟩
      · obtain ⟨e, he⟩ := (hstuck r₁ s hr₁ hs).1 r
        rw [he] at hstep
        cases hstep
    · intro rows s rows' s' t hs hs' hstep
      rcases hs with ⟨hzero, hs⟩ | ⟨r₁, hr₁, _, hs⟩
      · rcases hs' with ⟨hzero', hs'⟩ | ⟨r₂, hr₂, _, hs'⟩
        · rw [hs, hs', hmerge] at hstep
          cases hstep
          exact .inl ⟨by rw [hzero, hzero', add_zero], rfl⟩
        · obtain ⟨e, he⟩ := (hstuck r₂ s' hr₂ hs').2.2 s
          rw [he] at hstep
          cases hstep
      · obtain ⟨e, he⟩ := (hstuck r₁ s hr₁ hs).2.1 s'
        rw [he] at hstep
        cases hstep
  exact hkeeps.run hrows hrun

end Rules

end Madlib.Lib.Segments
