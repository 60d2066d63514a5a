import Mathlib

/-!
# Rows and groups of tables

The rows of a table stand for keys, in the same order, if a relation holds between each key and its
row.  Rows with the same key form a group, and a row of a left join has a match or none.
-/

namespace Madlib.Lib.Tables

open List

variable {ε α β γ κ ρ σ : Type}

/-! ## Rows that stand for keys -/

/-- Rows that are computed one by one. -/
theorem mapM_forall₂ {S : ρ → σ → Prop} {g : ρ → Except ε σ} {rows : List ρ}
    (hg : ∀ row ∈ rows, ∃ out, g row = .ok out ∧ S row out) :
    ∃ outs, rows.mapM g = .ok outs ∧ Forall₂ S rows outs := by
  induction rows with
  | nil => exact ⟨[], rfl, .nil⟩
  | cons row rows ih =>
      have ⟨hrow, hrows⟩ := forall_mem_cons.mp hg
      have ⟨out, hout, hS⟩ := hrow
      have ⟨outs, houts, hstand⟩ := ih hrows
      refine ⟨out :: outs, ?_, .cons hS hstand⟩
      rw [mapM_cons, hout]
      show (rows.mapM g >>= fun outs => pure (out :: outs)) = _
      rw [houts]
      rfl

/-- Every row has a key. -/
theorem exists_key {R : κ → ρ → Prop} {keys : List κ} {rows : List ρ} (h : Forall₂ R keys rows)
    {row : ρ} (hrow : row ∈ rows) : ∃ key ∈ keys, R key row := by
  induction h with
  | nil => cases hrow
  | @cons key row' keys rows hfirst hrows ih =>
      rcases mem_cons.mp hrow with rfl | hrest
      · exact ⟨key, mem_cons_self, hfirst⟩
      · have ⟨key', hmem, hR⟩ := ih hrest
        exact ⟨key', mem_cons_of_mem _ hmem, hR⟩

/-! ## Groups -/

/-- The rows of each group under its key. -/
def groupBy [DecidableEq γ] (key : ρ → γ) (rows : List ρ) : List (γ × List ρ) :=
  (rows.map key).dedup.map fun g => (g, rows.filter fun row => key row = g)

section Groups

variable [DecidableEq γ]

theorem mem_groupBy {key : ρ → γ} {rows : List ρ} {group : γ × List ρ} :
    group ∈ groupBy key rows ↔
      group.1 ∈ rows.map key ∧ group.2 = rows.filter fun row => key row = group.1 := by
  rw [groupBy, mem_map]
  constructor
  · rintro ⟨g, hg, rfl⟩
    exact ⟨mem_dedup.mp hg, rfl⟩
  · intro h
    exact ⟨group.1, mem_dedup.mpr h.1, Prod.ext rfl h.2.symm⟩

theorem mem_groupBy_mk {key : ρ → γ} {g : γ} {rows group : List ρ} :
    (g, group) ∈ groupBy key rows ↔
      g ∈ rows.map key ∧ group = rows.filter fun row => key row = g :=
  mem_groupBy

theorem nodup_fst_groupBy (key : ρ → γ) (rows : List ρ) :
    ((groupBy key rows).map Prod.fst).Nodup := by
  rw [groupBy, map_map]
  show ((rows.map key).dedup.map id).Nodup
  rw [map_id]
  exact nodup_dedup _

end Groups

/-- Rows that have the same keys give the same values, when equal keys do. -/
theorem map_perm_of_keys {key : ρ → γ} {key' : σ → γ} {f : ρ → α} {g : σ → α} {rows : List ρ}
    {rows' : List σ} (hkeys : (rows.map key).Perm (rows'.map key'))
    (h : ∀ row ∈ rows, ∀ row' ∈ rows', key row = key' row' → f row = g row') :
    (rows.map f).Perm (rows'.map g) := by
  classical
  let value := fun k => (rows.find? fun row => key row = k).map f
  have hvalue : ∀ row ∈ rows, ∃ found ∈ rows, key found = key row ∧
      value (key row) = some (f found) := by
    intro row hrow
    cases hfind : rows.find? fun found => key found = key row with
    | none => exact absurd (decide_eq_true rfl) (find?_eq_none.mp hfind row hrow)
    | some found =>
        refine ⟨found, mem_of_find?_eq_some hfind, ?_, by simp only [value, hfind, Option.map_some]⟩
        have hkey := find?_some hfind
        exact of_decide_eq_true hkey
  have hleft : (rows.map key).map value = (rows.map f).map some := by
    rw [map_map, map_map]
    apply map_congr_left
    intro row hrow
    obtain ⟨found, hfound, hkey, hsome⟩ := hvalue row hrow
    obtain ⟨row', hrow', hkey'⟩ := mem_map.mp (hkeys.mem_iff.mp (mem_map_of_mem hrow))
    show value (key row) = some (f row)
    rw [hsome, h row hrow row' hrow' hkey'.symm, h found hfound row' hrow' (hkey.trans hkey'.symm)]
  have hright : (rows'.map key').map value = (rows'.map g).map some := by
    rw [map_map, map_map]
    apply map_congr_left
    intro row' hrow'
    obtain ⟨row, hrow, hkey⟩ := mem_map.mp (hkeys.mem_iff.mpr (mem_map_of_mem hrow'))
    obtain ⟨found, hfound, hfoundKey, hsome⟩ := hvalue row hrow
    show value (key' row') = some (g row')
    rw [← hkey, hsome, h found hfound row' hrow' (hfoundKey.trans hkey)]
  have hsome := hkeys.map value
  rw [hleft, hright] at hsome
  exact (map_perm_map_iff (Option.some_injective α)).mp hsome

/-! ## Left joins -/

/-- A row with the rows that match it, or with none. -/
def withMatches (row : ρ) (found : List σ) : List (ρ × Option σ) :=
  if found.isEmpty then [(row, none)] else found.map fun row' => (row, some row')

end Madlib.Lib.Tables
