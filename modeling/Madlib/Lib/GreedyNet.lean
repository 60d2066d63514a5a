import Mathlib

/-!
# Greedy nets

Points are taken one after the other, and a point is kept unless it is close to one that has been
kept before.  Then no kept point is close to an earlier one, and every point that was taken is
close to a kept point or kept itself.
-/

namespace Madlib.Lib.GreedyNet

variable {P : Type} {close : P → P → Bool}

def takePoint (close : P → P → Bool) (kept : List P) (point : P) : List P :=
  if kept.any (close point) then kept else kept ++ [point]

def takePoints (close : P → P → Bool) (kept points : List P) : List P :=
  points.foldl (takePoint close) kept

/-- No point is close to an earlier one. -/
def Separated (close : P → P → Bool) (kept : List P) : Prop :=
  kept.Pairwise fun earlier later => close later earlier = false

/-- The point is kept, or close to a kept one. -/
def Covered (close : P → P → Bool) (kept : List P) (point : P) : Prop :=
  ∃ center ∈ kept, center = point ∨ close point center = true

theorem Covered.mono {kept kept' : List P} {point : P} (h : Covered close kept point)
    (hsubset : kept ⊆ kept') : Covered close kept' point := by
  obtain ⟨center, hcenter, hclose⟩ := h
  exact ⟨center, hsubset hcenter, hclose⟩

theorem subset_takePoint (kept : List P) (point : P) : kept ⊆ takePoint close kept point := by
  unfold takePoint
  split
  · exact List.Subset.refl kept
  · exact List.subset_append_left kept [point]

theorem covered_takePoint (kept : List P) (point : P) :
    Covered close (takePoint close kept point) point := by
  unfold takePoint
  split
  case isTrue hany =>
    obtain ⟨center, hcenter, hclose⟩ := List.any_eq_true.mp hany
    exact ⟨center, hcenter, .inr hclose⟩
  case isFalse =>
    exact ⟨point, List.mem_append_right kept (List.mem_singleton_self point), .inl rfl⟩

theorem Separated.takePoint {kept : List P} (h : Separated close kept) (point : P) :
    Separated close (takePoint close kept point) := by
  unfold GreedyNet.takePoint
  split
  case isTrue => exact h
  case isFalse hany =>
    refine List.pairwise_append.mpr ⟨h, List.pairwise_singleton _ _, ?_⟩
    intro earlier hearlier later hlater
    rw [List.mem_singleton.mp hlater]
    refine Bool.eq_false_iff.mpr fun hclose => hany ?_
    exact List.any_eq_true.mpr ⟨earlier, hearlier, hclose⟩

theorem subset_takePoints (kept points : List P) : kept ⊆ takePoints close kept points := by
  induction points generalizing kept with
  | nil => exact List.Subset.refl kept
  | cons point points ih => exact List.Subset.trans (subset_takePoint kept point) (ih _)

theorem Separated.takePoints {kept : List P} (h : Separated close kept) (points : List P) :
    Separated close (takePoints close kept points) := by
  induction points generalizing kept with
  | nil => exact h
  | cons point points ih => exact ih (h.takePoint point)

/-- Every point that was taken is covered. -/
theorem covered_takePoints (kept points : List P) :
    ∀ point ∈ points, Covered close (takePoints close kept points) point := by
  induction points generalizing kept with
  | nil =>
      intro point hpoint
      exact absurd hpoint List.not_mem_nil
  | cons first points ih =>
      intro point hpoint
      rcases List.mem_cons.mp hpoint with rfl | hpoint
      · exact (covered_takePoint kept point).mono (subset_takePoints _ points)
      · exact ih _ point hpoint

end Madlib.Lib.GreedyNet
