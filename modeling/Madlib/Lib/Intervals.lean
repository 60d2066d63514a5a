import Mathlib

/-!
# Consecutive intervals

Intervals of integers, each of which starts one past the end of the one before.
-/

namespace Madlib.Lib.Intervals

variable {α : Type}

/-- The parts run from `start` up to one before `next`, and none is empty. -/
def Consecutive (lo hi : α → ℤ) : ℤ → List α → ℤ → Prop
  | start, [], next => start = next
  | start, part :: parts, next =>
      lo part = start ∧ start ≤ hi part ∧ Consecutive lo hi (hi part + 1) parts next

variable {lo hi : α → ℤ} {start next : ℤ} {parts : List α}

theorem Consecutive.append (h : Consecutive lo hi start parts next) {part : α}
    (hlo : lo part = next) (hle : next ≤ hi part) :
    Consecutive lo hi start (parts ++ [part]) (hi part + 1) := by
  induction parts generalizing start with
  | nil =>
      have hstart : start = next := h
      exact ⟨hlo.trans hstart.symm, hstart ▸ hle, rfl⟩
  | cons first rest ih =>
      have ⟨hfirst, horder, hrest⟩ := h
      exact ⟨hfirst, horder, ih hrest⟩

theorem Consecutive.bounds (h : Consecutive lo hi start parts next) :
    start ≤ next ∧ ∀ part ∈ parts, start ≤ lo part ∧ lo part ≤ hi part ∧ hi part < next := by
  induction parts generalizing start with
  | nil =>
      have hstart : start = next := h
      exact ⟨le_of_eq hstart, fun part hpart => absurd hpart List.not_mem_nil⟩
  | cons first rest ih =>
      have ⟨hfirst, horder, hrest⟩ := h
      have ⟨hle, hparts⟩ := ih hrest
      refine ⟨by omega, fun part hpart => ?_⟩
      rcases List.mem_cons.mp hpart with heq | hmem
      · rw [heq]
        omega
      · have hpart' := hparts part hmem
        omega

theorem Consecutive.lo_head (h : Consecutive lo hi start parts next) (hne : parts ≠ []) :
    parts.head?.map lo = some start := by
  cases parts with
  | nil => exact absurd rfl hne
  | cons first rest => exact congrArg some h.1

theorem Consecutive.hi_getLast (h : Consecutive lo hi start parts next) (hne : parts ≠ []) :
    parts.getLast?.map hi = some (next - 1) := by
  induction parts generalizing start with
  | nil => exact absurd rfl hne
  | cons first rest ih =>
      have ⟨_, _, hrest⟩ := h
      cases rest with
      | nil =>
          have hnext : hi first + 1 = next := hrest
          rw [List.getLast?_singleton, Option.map_some, ← hnext, Int.add_sub_cancel]
      | cons second rest =>
          rw [List.getLast?_cons_cons]
          exact ih hrest (List.cons_ne_nil second rest)

theorem Consecutive.isChain (h : Consecutive lo hi start parts next) :
    parts.IsChain fun part part' => lo part' = hi part + 1 := by
  induction parts generalizing start with
  | nil => exact List.isChain_nil
  | cons first rest ih =>
      have ⟨_, _, hrest⟩ := h
      cases rest with
      | nil => exact List.isChain_singleton first
      | cons second rest => exact List.isChain_cons_cons.mpr ⟨hrest.1, ih hrest⟩

/-- What adds up over adjacent intervals adds up over consecutive ones. -/
theorem Consecutive.sum_eq (total : ℤ → ℤ → ℤ) (hempty : ∀ a, total a (a - 1) = 0)
    (hadd : ∀ a b c, a ≤ b → b ≤ c → total a b + total (b + 1) c = total a c)
    (h : Consecutive lo hi start parts next) :
    (parts.map fun part => total (lo part) (hi part)).sum = total start (next - 1) := by
  induction parts generalizing start with
  | nil =>
      have hstart : start = next := h
      rw [List.map_nil, List.sum_nil, hstart, hempty]
  | cons first rest ih =>
      have ⟨hfirst, horder, hrest⟩ := h
      have ⟨hle, _⟩ := hrest.bounds
      rw [List.map_cons, List.sum_cons, ih hrest, hfirst]
      exact hadd start (hi first) (next - 1) horder (by omega)

end Madlib.Lib.Intervals
