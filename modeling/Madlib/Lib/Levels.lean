import Mathlib

/-!
# Levels of a dependency relation

A relation has a cycle when something depends, through others, on itself.  Numbers
that fall along the relation exclude a cycle; a nonempty finite set in which
everything depends on something of the set forces one.
-/

namespace Madlib.Lib.Levels

variable {α : Type}

def HasCycle (R : α → α → Prop) : Prop := ∃ a, Relation.TransGen R a a

theorem transGen_level {R : α → α → Prop} (level : α → Nat)
    (hlevel : ∀ a b, R a b → level b < level a) {a b : α} (h : Relation.TransGen R a b) :
    level b < level a := by
  induction h with
  | single hab => exact hlevel _ _ hab
  | tail _ hbc ih => exact (hlevel _ _ hbc).trans ih

theorem not_hasCycle_of_level {R : α → α → Prop} (level : α → Nat)
    (hlevel : ∀ a b, R a b → level b < level a) : ¬ HasCycle R := by
  intro ⟨a, ha⟩
  exact lt_irrefl _ (transGen_level level hlevel ha)

/-- Where every member depends on a member, following the dependencies comes back. -/
theorem hasCycle_of_serial {R : α → α → Prop} (s : Finset α) (hs : s.Nonempty)
    (hserial : ∀ a ∈ s, ∃ b ∈ s, R a b) : HasCycle R := by
  by_contra hcycle
  let reaches : s → s → Prop := fun a b => Relation.TransGen R b.val a.val
  have htrans : IsTrans s reaches := ⟨fun a b c hab hbc => hbc.trans hab⟩
  have hirrefl : Std.Irrefl reaches := ⟨fun a ha => hcycle ⟨a.val, ha⟩⟩
  have hwf : WellFounded reaches := Finite.wellFounded_of_trans_of_irrefl reaches
  have ⟨a, ha⟩ := hs
  have ⟨m, _, hmin⟩ := hwf.has_min Set.univ ⟨⟨a, ha⟩, Set.mem_univ _⟩
  have ⟨b, hb, hmb⟩ := hserial m.val m.property
  exact hmin ⟨b, hb⟩ (Set.mem_univ _) (.single hmb)

end Madlib.Lib.Levels
