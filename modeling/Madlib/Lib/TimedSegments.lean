import Madlib.Lib.Segments

/-!
# Aggregates whose functions loop

The functions of such an aggregate are given a number of rounds and may still be running when
they are used up.  A call settles on an outcome if it has it for every number of rounds from some
number on; the outcomes of the steps settle those of a pass and of a plan.
-/

namespace Madlib.Lib.Segments

variable {ε ρ σ : Type}

structure TimedAggregate (ε ρ σ : Type) where
  init : σ
  transition : ℕ → σ → ρ → Option (Except ε σ)
  merge : ℕ → σ → σ → Option (Except ε σ)

/-- One pass over the rows, each step with so many rounds. -/
def TimedAggregate.passFrom (agg : TimedAggregate ε ρ σ) (fuel : ℕ) :
    σ → List ρ → Option (Except ε σ)
  | s, [] => some (.ok s)
  | s, r :: rows =>
      match agg.transition fuel s r with
      | some (.ok next) => agg.passFrom fuel next rows
      | outcome => outcome

def TimedAggregate.run (agg : TimedAggregate ε ρ σ) (fuel : ℕ) : Plan ρ → Option (Except ε σ)
  | .segment rows => agg.passFrom fuel agg.init rows
  | .merged left right =>
      match agg.run fuel left with
      | some (.ok stateLeft) =>
          match agg.run fuel right with
          | some (.ok stateRight) => agg.merge fuel stateLeft stateRight
          | outcome => outcome
      | outcome => outcome

/-- The call has this outcome, given enough rounds. -/
def Settles (call : ℕ → Option (Except ε σ)) (outcome : Except ε σ) : Prop :=
  ∃ bound, ∀ fuel, bound ≤ fuel → call fuel = some outcome

section Rules

variable {agg : TimedAggregate ε ρ σ}

theorem Settles.unique {call : ℕ → Option (Except ε σ)} {x y : Except ε σ} (hx : Settles call x)
    (hy : Settles call y) : x = y := by
  have ⟨bound, hcall⟩ := hx
  have ⟨bound', hcall'⟩ := hy
  have hboth := (hcall (bound + bound') (by omega)).symm.trans (hcall' (bound + bound') (by omega))
  exact Option.some.inj hboth

theorem settles_nil (s : σ) : Settles (fun fuel => agg.passFrom fuel s []) (.ok s) :=
  ⟨0, fun _ _ => rfl⟩

theorem passFrom_concat (fuel : ℕ) (s : σ) (rows : List ρ) (r : ρ) :
    agg.passFrom fuel s (rows ++ [r]) =
      match agg.passFrom fuel s rows with
      | some (.ok next) => agg.transition fuel next r
      | outcome => outcome := by
  induction rows generalizing s with
  | nil =>
      rw [List.nil_append, TimedAggregate.passFrom, TimedAggregate.passFrom]
      dsimp only
      split
      · next hstep => rw [TimedAggregate.passFrom, hstep]
      · rfl
  | cons first rows ih =>
      rw [List.cons_append, TimedAggregate.passFrom, TimedAggregate.passFrom]
      split
      · exact ih _
      · next hother =>
          split
          · next hstep => exact absurd hstep (hother _)
          · rfl

theorem Settles.concat {s next : σ} {r : ρ} {rows : List ρ} {outcome : Except ε σ}
    (hrows : Settles (fun fuel => agg.passFrom fuel s rows) (.ok next))
    (hstep : Settles (fun fuel => agg.transition fuel next r) outcome) :
    Settles (fun fuel => agg.passFrom fuel s (rows ++ [r])) outcome := by
  have ⟨bound, hrows⟩ := hrows
  have ⟨bound', hstep⟩ := hstep
  refine ⟨bound + bound', fun fuel hfuel => ?_⟩
  have hpass : agg.passFrom fuel s rows = some (.ok next) := hrows fuel (by omega)
  dsimp only
  rw [passFrom_concat, hpass]
  exact hstep fuel (by omega)

theorem Settles.concat_error {s : σ} {r : ρ} {rows : List ρ} {e : ε}
    (hrows : Settles (fun fuel => agg.passFrom fuel s rows) (.error e)) :
    Settles (fun fuel => agg.passFrom fuel s (rows ++ [r])) (.error e) := by
  have ⟨bound, hrows⟩ := hrows
  refine ⟨bound, fun fuel hfuel => ?_⟩
  have hpass : agg.passFrom fuel s rows = some (.error e) := hrows fuel hfuel
  dsimp only
  rw [passFrom_concat, hpass]

theorem Settles.merged {left right : Plan ρ} {stateLeft stateRight : σ} {outcome : Except ε σ}
    (hleft : Settles (fun fuel => agg.run fuel left) (.ok stateLeft))
    (hright : Settles (fun fuel => agg.run fuel right) (.ok stateRight))
    (hmerge : Settles (fun fuel => agg.merge fuel stateLeft stateRight) outcome) :
    Settles (fun fuel => agg.run fuel (.merged left right)) outcome := by
  have ⟨bound, hleft⟩ := hleft
  have ⟨bound', hright⟩ := hright
  have ⟨bound'', hmerge⟩ := hmerge
  refine ⟨bound + bound' + bound'', fun fuel hfuel => ?_⟩
  have hl : agg.run fuel left = some (.ok stateLeft) := hleft fuel (by omega)
  have hr : agg.run fuel right = some (.ok stateRight) := hright fuel (by omega)
  dsimp only
  rw [TimedAggregate.run, hl]
  dsimp only
  rw [hr]
  exact hmerge fuel (by omega)

theorem Settles.merged_left_error {left right : Plan ρ} {e : ε}
    (hleft : Settles (fun fuel => agg.run fuel left) (.error e)) :
    Settles (fun fuel => agg.run fuel (.merged left right)) (.error e) := by
  have ⟨bound, hleft⟩ := hleft
  refine ⟨bound, fun fuel hfuel => ?_⟩
  have hl : agg.run fuel left = some (.error e) := hleft fuel hfuel
  dsimp only
  rw [TimedAggregate.run, hl]

theorem Settles.merged_right_error {left right : Plan ρ} {stateLeft : σ} {e : ε}
    (hleft : Settles (fun fuel => agg.run fuel left) (.ok stateLeft))
    (hright : Settles (fun fuel => agg.run fuel right) (.error e)) :
    Settles (fun fuel => agg.run fuel (.merged left right)) (.error e) := by
  have ⟨bound, hleft⟩ := hleft
  have ⟨bound', hright⟩ := hright
  refine ⟨bound + bound', fun fuel hfuel => ?_⟩
  have hl : agg.run fuel left = some (.ok stateLeft) := hleft fuel (by omega)
  have hr : agg.run fuel right = some (.error e) := hright fuel (by omega)
  dsimp only
  rw [TimedAggregate.run, hl]
  dsimp only
  rw [hr]

end Rules

/-! ## When a plan returns -/

/-- The call returns such a state if `p` holds, and raises an error if not. -/
def Yields (raised : ε → Prop) (call : ℕ → Option (Except ε σ)) (p : Prop) (Q : σ → Prop) : Prop :=
  (p → ∃ s, Settles call (.ok s) ∧ Q s) ∧ (¬ p → ∃ e, Settles call (.error e) ∧ raised e)

/-- The rows behind every state of the plan are such rows. -/
def Plan.Throughout (P : Multiset ρ → Prop) : Plan ρ → Prop
  | segment rows => ∀ seen : List ρ, seen <+: rows → P seen
  | merged left right => left.Throughout P ∧ right.Throughout P ∧ P (left.rows + right.rows)

theorem Plan.segment_le {plan : Plan ρ} {segment : List ρ} (h : segment ∈ plan.segments) :
    (segment : Multiset ρ) ≤ plan.rows := by
  induction plan with
  | segment rows =>
      rw [List.mem_singleton.mp h]
      exact le_rfl
  | merged left right ihl ihr =>
      cases List.mem_append.mp h with
      | inl hleft => exact (ihl hleft).trans (Multiset.le_add_right _ _)
      | inr hright => exact (ihr hright).trans (Multiset.le_add_left _ _)

theorem Plan.throughout_of_forall {P : Multiset ρ → Prop} (h : ∀ rows, P rows) (plan : Plan ρ) :
    plan.Throughout P := by
  induction plan with
  | segment rows => exact fun seen _ => h seen
  | merged left right ihl ihr => exact ⟨ihl, ihr, h _⟩

section Yields

variable {agg : TimedAggregate ε ρ σ} {raised : ε → Prop}

theorem Yields.imp {call : ℕ → Option (Except ε σ)} {p p' : Prop} {Q Q' : σ → Prop}
    (h : Yields raised call p Q) (hp : p ↔ p') (hQ : ∀ s, Q s → Q' s) :
    Yields raised call p' Q' := by
  constructor
  · intro hp'
    have ⟨s, hs, hholds⟩ := h.1 (hp.mpr hp')
    exact ⟨s, hs, hQ s hholds⟩
  · intro hp'
    exact h.2 (mt hp.mp hp')

/-- What a step needs, every beginning of the pass needs. -/
theorem Yields.pass {P : List ρ → Prop} {R : List ρ → σ → Prop} {s : σ} {rows : List ρ}
    (hnil : P []) (hinit : R [] s)
    (hstep : ∀ seen state r, seen ++ [r] <+: rows → P seen → R seen state →
      Yields raised (fun fuel => agg.transition fuel state r) (P (seen ++ [r])) (R (seen ++ [r]))) :
    Yields raised (fun fuel => agg.passFrom fuel s rows) (∀ seen, seen <+: rows → P seen)
      (R rows) := by
  induction rows using List.reverseRecOn with
  | nil =>
      have hall : ∀ seen, seen <+: [] → P seen := fun seen hseen =>
        List.prefix_nil.mp hseen ▸ hnil
      exact ⟨fun _ => ⟨s, settles_nil s, hinit⟩, fun hnot => absurd hall hnot⟩
  | append_singleton rows r ih =>
      have hrows := ih fun seen state r hseen =>
        hstep seen state r (hseen.trans (List.prefix_append rows _))
      have hprefix : (∀ seen, seen <+: rows ++ [r] → P seen) ↔
          (∀ seen, seen <+: rows → P seen) ∧ P (rows ++ [r]) := by
        simp only [List.prefix_concat_iff, forall_eq_or_imp, and_comm]
      rw [Yields, hprefix]
      by_cases hbefore : ∀ seen, seen <+: rows → P seen
      · have ⟨state, hstate, hR⟩ := hrows.1 hbefore
        have hlast := hstep rows state r List.prefix_rfl (hbefore rows List.prefix_rfl) hR
        constructor
        · intro hall
          have ⟨next, hnext, hR'⟩ := hlast.1 hall.2
          exact ⟨next, hstate.concat hnext, hR'⟩
        · intro hall
          have ⟨e, he, hraised⟩ := hlast.2 fun hP => hall ⟨hbefore, hP⟩
          exact ⟨e, hstate.concat he, hraised⟩
      · have ⟨e, he, hraised⟩ := hrows.2 hbefore
        exact ⟨fun hall => absurd hall.1 hbefore, fun _ => ⟨e, he.concat_error, hraised⟩⟩

theorem Yields.run {P : Multiset ρ → Prop} {R : Multiset ρ → σ → Prop} {plan : Plan ρ}
    (hsegment : ∀ rows ∈ plan.segments,
      Yields raised (fun fuel => agg.passFrom fuel agg.init rows)
        (∀ seen : List ρ, seen <+: rows → P seen) (R rows))
    (hmerge : ∀ left right s t, left + right ≤ plan.rows → R left s → R right t →
      Yields raised (fun fuel => agg.merge fuel s t) (P (left + right)) (R (left + right))) :
    Yields raised (fun fuel => agg.run fuel plan) (plan.Throughout P) (R plan.rows) := by
  induction plan with
  | segment rows => exact hsegment rows (List.mem_singleton.mpr rfl)
  | merged left right ihl ihr =>
      have hl := ihl (fun rows hrows => hsegment rows (List.mem_append_left _ hrows))
        fun l r s t hle => hmerge l r s t (hle.trans (Multiset.le_add_right _ _))
      have hr := ihr (fun rows hrows => hsegment rows (List.mem_append_right _ hrows))
        fun l r s t hle => hmerge l r s t (hle.trans (Multiset.le_add_left _ _))
      by_cases hleft : left.Throughout P
      · have ⟨s, hs, hRs⟩ := hl.1 hleft
        by_cases hright : right.Throughout P
        · have ⟨t, ht, hRt⟩ := hr.1 hright
          have hboth := hmerge left.rows right.rows s t le_rfl hRs hRt
          constructor
          · intro hall
            have ⟨u, hu, hR⟩ := hboth.1 hall.2.2
            exact ⟨u, hs.merged ht hu, hR⟩
          · intro hall
            have ⟨e, he, hraised⟩ := hboth.2 fun hP => hall ⟨hleft, hright, hP⟩
            exact ⟨e, hs.merged ht he, hraised⟩
        · have ⟨e, he, hraised⟩ := hr.2 hright
          exact ⟨fun hall => absurd hall.2.1 hright,
            fun _ => ⟨e, hs.merged_right_error he, hraised⟩⟩
      · have ⟨e, he, hraised⟩ := hl.2 hleft
        exact ⟨fun hall => absurd hall.1 hleft, fun _ => ⟨e, he.merged_left_error, hraised⟩⟩

end Yields

end Madlib.Lib.Segments
