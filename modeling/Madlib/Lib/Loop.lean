import Mathlib

/-!
# Loops

The body of a `while` loop maps the loop state to the next state or to the value
the loop is left with, and may stop the program on the way.  `run` executes the
body a bounded number of times; `Returns` says that some number of rounds is
enough.  The invariant rule below turns a fact about one round into a fact about
the whole loop, its termination included.  A `for` loop over an array's indices is a
monadic fold over them; its invariant is indexed by the rounds done.
-/

namespace Madlib.Lib.Loop

/-- What one round of a loop decides. -/
inductive Step (σ ρ : Type) where
  | next (s : σ)
  | done (r : ρ)

variable {σ ρ ε : Type}

/-- At most `fuel` rounds of `body` from `s`; `none` when the loop is still running. -/
def run (body : σ → Except ε (Step σ ρ)) : Nat → σ → Option (Except ε ρ)
  | 0, _ => none
  | fuel + 1, s =>
      match body s with
      | .error e => some (.error e)
      | .ok (.done r) => some (.ok r)
      | .ok (.next s') => run body fuel s'

/-- The loop started in `s` is left with `out`, however many further rounds are allowed. -/
def Returns (body : σ → Except ε (Step σ ρ)) (s : σ) (out : Except ε ρ) : Prop :=
  ∃ bound, ∀ fuel, bound ≤ fuel → run body fuel s = some out

theorem Returns.unique {body : σ → Except ε (Step σ ρ)} {s : σ} {out out' : Except ε ρ}
    (h : Returns body s out) (h' : Returns body s out') : out = out' := by
  have ⟨bound, hrun⟩ := h
  have ⟨bound', hrun'⟩ := h'
  have heq := hrun (max bound bound') (le_max_left _ _)
  rw [hrun' (max bound bound') (le_max_right _ _)] at heq
  exact (Option.some.inj heq).symm

/-- A loop whose invariant `I` is kept by every round, with a measure that falls
in every round, is left within that many rounds, and in a state satisfying `Q`. -/
theorem run_of_invariant {body : σ → Except ε (Step σ ρ)} (I : σ → Prop)
    (measure : σ → Nat) (Q : ρ → Prop)
    (hround : ∀ s, I s →
      (∃ s', body s = .ok (.next s') ∧ I s' ∧ measure s' < measure s) ∨
      (∃ r, body s = .ok (.done r) ∧ Q r))
    {s : σ} (hs : I s) :
    ∃ r, Q r ∧ ∀ fuel, measure s < fuel → run body fuel s = some (.ok r) := by
  induction hm : measure s using Nat.strong_induction_on generalizing s with
  | _ m ih =>
      rcases hround s hs with ⟨s', hbody, hs', hlt⟩ | ⟨r, hbody, hr⟩
      · have ⟨r, hr, hrun⟩ := ih (measure s') (by omega) hs' rfl
        refine ⟨r, hr, fun fuel hfuel => ?_⟩
        cases fuel with
        | zero => omega
        | succ fuel =>
            simp only [run, hbody]
            exact hrun fuel (by omega)
      · refine ⟨r, hr, fun fuel hfuel => ?_⟩
        cases fuel with
        | zero => omega
        | succ fuel => simp only [run, hbody]

theorem returns_of_invariant {body : σ → Except ε (Step σ ρ)} (I : σ → Prop)
    (measure : σ → Nat) (Q : ρ → Prop)
    (hround : ∀ s, I s →
      (∃ s', body s = .ok (.next s') ∧ I s' ∧ measure s' < measure s) ∨
      (∃ r, body s = .ok (.done r) ∧ Q r))
    {s : σ} (hs : I s) : ∃ r, Q r ∧ Returns body s (.ok r) := by
  have ⟨r, hr, hrun⟩ := run_of_invariant I measure Q hround hs
  exact ⟨r, hr, measure s + 1, fun fuel hfuel => hrun fuel (by omega)⟩

/-- A loop that may also be stopped by an error: it ends with an outcome its invariant allows. -/
theorem ends_of_invariant {body : σ → Except ε (Step σ ρ)} (I : σ → Prop)
    (measure : σ → Nat) (Q : Except ε ρ → Prop)
    (hround : ∀ s, I s →
      (∃ s', body s = .ok (.next s') ∧ I s' ∧ measure s' < measure s) ∨
      (∃ r, body s = .ok (.done r) ∧ Q (.ok r)) ∨ (∃ e, body s = .error e ∧ Q (.error e)))
    {s : σ} (hs : I s) : ∃ out, Q out ∧ Returns body s out := by
  induction hm : measure s using Nat.strong_induction_on generalizing s with
  | _ m ih =>
      rcases hround s hs with ⟨s', hbody, hs', hlt⟩ | ⟨r, hbody, hr⟩ | ⟨e, hbody, he⟩
      · have ⟨out, hout, bound, hrun⟩ := ih (measure s') (by omega) hs' rfl
        refine ⟨out, hout, bound + 1, fun fuel hfuel => ?_⟩
        cases fuel with
        | zero => omega
        | succ fuel =>
            simp only [run, hbody]
            exact hrun fuel (by omega)
      · refine ⟨.ok r, hr, 1, fun fuel hfuel => ?_⟩
        cases fuel with
        | zero => omega
        | succ fuel => simp only [run, hbody]
      · refine ⟨.error e, he, 1, fun fuel hfuel => ?_⟩
        cases fuel with
        | zero => omega
        | succ fuel => simp only [run, hbody]

/-- A loop that is left is left from a state of every invariant its rounds keep. -/
theorem exists_done {body : σ → Except ε (Step σ ρ)} (I : σ → Prop)
    (hround : ∀ s s', I s → body s = .ok (.next s') → I s') {fuel : Nat} {s : σ} {r : ρ}
    (h : run body fuel s = some (.ok r)) (hs : I s) : ∃ s', I s' ∧ body s' = .ok (.done r) := by
  induction fuel generalizing s with
  | zero => cases h
  | succ fuel ih =>
      rw [run] at h
      cases hstep : body s with
      | error e =>
          rw [hstep] at h
          cases h
      | ok step =>
          rw [hstep] at h
          cases step with
          | done out =>
              cases h
              exact ⟨s, hs, hstep⟩
          | next s' => exact ih h (hround s s' hs hstep)

/-! ## Counted loops -/

variable {n : Nat}

/-- What every completed round preserves holds after a completed loop. -/
theorem foldlM_finRange (I : Nat → σ → Prop) {body : σ → Fin n → Except ε σ} {s s' : σ}
    (h : (List.finRange n).foldlM body s = .ok s') (hs : I 0 s)
    (hround : ∀ (i : Fin n) s s', I i s → body s i = .ok s' → I (i + 1) s') : I n s' := by
  induction n generalizing s' with
  | zero =>
      simp only [List.finRange_zero, List.foldlM_nil] at h
      cases h
      exact hs
  | succ n ih =>
      rw [List.finRange_succ_last, List.foldlM_append, List.foldlM_map] at h
      cases hinit : (List.finRange n).foldlM (fun s i => body s i.castSucc) s with
      | error e =>
          rw [hinit] at h
          cases h
      | ok mid =>
          rw [hinit] at h
          have hmid := ih hinit (fun i s s' hi hbody => hround i.castSucc s s' hi hbody)
          have hlast : (body mid (Fin.last n) >>= pure) = .ok s' := h
          rw [bind_pure] at hlast
          exact hround (Fin.last n) mid s' hmid hlast

/-- A loop whose rounds all complete while the invariant holds completes. -/
theorem foldlM_finRange_ok (I : Nat → σ → Prop) {body : σ → Fin n → Except ε σ} {s : σ}
    (hs : I 0 s) (hround : ∀ (i : Fin n) s, I i s → ∃ s', body s i = .ok s' ∧ I (i + 1) s') :
    ∃ s', (List.finRange n).foldlM body s = .ok s' ∧ I n s' := by
  induction n with
  | zero => exact ⟨s, rfl, hs⟩
  | succ n ih =>
      have hprefix : ∃ mid, (List.finRange n).foldlM (fun s i => body s i.castSucc) s = .ok mid ∧
          I n mid := ih (fun i s hi => hround i.castSucc s hi)
      have ⟨mid, hinit, hmid⟩ := hprefix
      have ⟨s', hlast, hs'⟩ := hround (Fin.last n) mid hmid
      refine ⟨s', ?_, hs'⟩
      rw [List.finRange_succ_last, List.foldlM_append, List.foldlM_map, hinit]
      change (body mid (Fin.last n) >>= pure) = .ok s'
      rw [bind_pure, hlast]

/-- A loop that replaces every component of an array, each by a round of its own. -/
def updateEach {α : Type} (round : Fin n → α → Except ε α) (s : Fin n → α) :
    Except ε (Fin n → α) :=
  (List.finRange n).foldlM (fun s i => do
    let a ← round i (s i)
    pure (Function.update s i a)) s

theorem updateEach_ok {α : Type} {round : Fin n → α → Except ε α} {s out : Fin n → α}
    (h : ∀ i, round i (s i) = .ok (out i)) : updateEach round s = .ok out := by
  have hrun : ∃ s', updateEach round s = .ok s' ∧
      ∀ i : Fin n, s' i = if i.val < n then out i else s i := by
    apply foldlM_finRange_ok
      (fun m (s' : Fin n → α) => ∀ i : Fin n, s' i = if i.val < m then out i else s i)
    · intro i
      simp
    · intro i s' hs'
      have hi : s' i = s i := by
        rw [hs' i]
        simp
      refine ⟨Function.update s' i (out i), ?_, fun j => ?_⟩
      · rw [hi, h i]
        rfl
      · by_cases hj : j = i
        · subst hj
          simp
        · have hlt : j.val < i.val + 1 ↔ j.val < i.val := by
            have hne : j.val ≠ i.val := fun heq => hj (Fin.ext heq)
            omega
          rw [Function.update_of_ne hj, hs' j]
          simp only [hlt]
  have ⟨s', hrun, hs'⟩ := hrun
  rw [hrun]
  congr 1
  funext i
  rw [hs' i, if_pos i.isLt]

theorem updateEach_error {α : Type} {round : Fin (n + 1) → α → Except ε α} {s : Fin (n + 1) → α}
    {e : ε} (h : round 0 (s 0) = .error e) : updateEach round s = .error e := by
  unfold updateEach
  rw [List.finRange_succ, List.foldlM_cons, h]
  rfl

end Madlib.Lib.Loop
