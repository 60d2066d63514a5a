import Mathlib

/-!
# Statements over tables whose expressions can fail

A table is a list of rows.  An expression is evaluated for one row after the other, and a failure
is that of the statement.  Where the rows stand for keys, a statement on the rows is one on the
keys.
-/

namespace Madlib.Lib.Statement

variable {ε κ ρ σ τ : Type}

/-- The rows for which a condition holds. -/
def selectWhere (p : ρ → Except ε Bool) : List ρ → Except ε (List ρ)
  | [] => .ok []
  | row :: rows => do
      let kept ← p row
      let rest ← selectWhere p rows
      pure (if kept then row :: rest else rest)

/-- Rows that stand for keys are selected as their keys are. -/
theorem selectWhere_map {p : ρ → Except ε Bool} {f : κ → ρ} {q : κ → Bool} {keys : List κ}
    (h : ∀ key ∈ keys, p (f key) = .ok (q key)) :
    selectWhere p (keys.map f) = .ok ((keys.filter q).map f) := by
  induction keys with
  | nil => rfl
  | cons key keys ih =>
      have ⟨hkey, hkeys⟩ := List.forall_mem_cons.mp h
      rw [List.map_cons, selectWhere, hkey, ih hkeys, List.filter_cons]
      cases q key <;> rfl

theorem mapM_map {g : ρ → Except ε σ} {f : κ → ρ} {out : κ → σ} {keys : List κ}
    (h : ∀ key ∈ keys, g (f key) = .ok (out key)) :
    (keys.map f).mapM g = .ok (keys.map out) := by
  induction keys with
  | nil => rfl
  | cons key keys ih =>
      have ⟨hkey, hkeys⟩ := List.forall_mem_cons.mp h
      rw [List.map_cons, List.mapM_cons, hkey, ih hkeys]
      rfl

theorem mapM_of_forall {g : ρ → Except ε σ} {out : ρ → σ} {rows : List ρ}
    (h : ∀ row ∈ rows, g row = .ok (out row)) : rows.mapM g = .ok (rows.map out) := by
  have hmap := mapM_map (f := id) h
  rwa [List.map_id] at hmap

theorem product_map (f : κ → ρ) (g : τ → σ) (keys : List κ) (keys' : List τ) :
    keys.map f ×ˢ keys'.map g = (keys ×ˢ keys').map (Prod.map f g) := by
  induction keys with
  | nil => rfl
  | cons key keys ih =>
      rw [List.map_cons, List.product_cons, List.product_cons, ih, List.map_append, List.map_map,
        List.map_map]
      rfl

/-- Finitely many calls that all return from some bound on have a common one. -/
theorem exists_common_bound {p : κ → Nat → Prop} {keys : List κ}
    (h : ∀ key ∈ keys, ∃ bound, ∀ fuel, bound ≤ fuel → p key fuel) :
    ∃ bound, ∀ fuel, bound ≤ fuel → ∀ key ∈ keys, p key fuel := by
  induction keys with
  | nil => exact ⟨0, fun _ _ => List.forall_mem_nil _⟩
  | cons key keys ih =>
      have ⟨hkey, hkeys⟩ := List.forall_mem_cons.mp h
      have ⟨bound, hbound⟩ := hkey
      have ⟨bound', hbound'⟩ := ih hkeys
      refine ⟨max bound bound', fun fuel hfuel => ?_⟩
      rw [List.forall_mem_cons]
      exact ⟨hbound fuel (le_of_max_le_left hfuel), hbound' fuel (le_of_max_le_right hfuel)⟩

/-- How often one key is met in a table whose keys are distinct. -/
theorem countP_of_nodup {keys : List κ} (hnodup : keys.Nodup) {p : κ → Prop} [DecidablePred p]
    {target : κ} (h : ∀ key ∈ keys, p key ↔ key = target) [Decidable (target ∈ keys)] :
    keys.countP (fun key => decide (p key)) = if target ∈ keys then 1 else 0 := by
  classical
  have hcongr : keys.countP (fun key => decide (p key)) = keys.count target := by
    apply List.countP_congr
    intro key hkey
    rw [decide_eq_true_iff, beq_iff_eq]
    exact h key hkey
  rw [hcongr]
  by_cases hmem : target ∈ keys
  · rw [if_pos hmem, List.count_eq_one_of_mem hnodup hmem]
  · rw [if_neg hmem, List.count_eq_zero_of_not_mem hmem]

end Madlib.Lib.Statement
