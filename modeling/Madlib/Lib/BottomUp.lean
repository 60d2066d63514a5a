import Mathlib.Logic.Relation
import Mathlib.Tactic.ByContra

/-!
# Cutting trees from below

A node is cut when that is worth it and all its children are leaves, or have been cut.  Rounds cut
any of the nodes that are ready; when no ready node is worth it, the cut nodes that are left are
the same, whatever the rounds have been.
-/

namespace Madlib.Lib.BottomUp

open Relation

variable {ν : Type} {child : ν → ν → Prop} {worth cut : ν → Prop} {n p : ν}

/-- The node has no children. -/
def Childless (child : ν → ν → Prop) (n : ν) : Prop := ∀ c, ¬child n c

theorem exists_child (h : ¬Childless child p) : ∃ c, child p c := by
  by_contra hnone
  exact h fun c hc => hnone ⟨c, hc⟩

/-- The nodes that are cut in the end, unless a node above them is. -/
inductive Cut (child : ν → ν → Prop) (worth : ν → Prop) : ν → Prop
  | mk {p : ν} : worth p → ¬Childless child p →
      (∀ c, child p c → ¬Childless child c → Cut child worth c) → Cut child worth p

/-- No node above is cut. -/
def Left (child : ν → ν → Prop) (cut : ν → Prop) (n : ν) : Prop := ∀ a, TransGen child a n → ¬cut a

/-- The node is left with children, which are leaves now. -/
structure Ready (child : ν → ν → Prop) (cut : ν → Prop) (p : ν) : Prop where
  left : Left child cut p
  uncut : ¬cut p
  inner : ¬Childless child p
  children : ∀ c, child p c → ¬Childless child c → cut c

/-- The nodes that rounds have cut. -/
inductive Rounds (child : ν → ν → Prop) (worth : ν → Prop) : (ν → Prop) → Prop
  | start : Rounds child worth fun _ => False
  | round {cut selected : ν → Prop} : Rounds child worth cut →
      (∀ p, selected p → Ready child cut p ∧ worth p) →
      Rounds child worth fun p => cut p ∨ selected p

theorem Left.parent (h : Left child cut n) (hchild : child p n) : Left child cut p :=
  fun a ha => h a (ha.tail hchild)

theorem left_start : Left child (fun _ => False) n := fun _ _ => id

/-- Only what is to be cut is cut. -/
theorem Rounds.isCut (h : Rounds child worth cut) (hcut : cut p) : Cut child worth p := by
  induction h generalizing p with
  | start => exact hcut.elim
  | @round cut selected hrounds hselected ih =>
      rcases hcut with hcut | hcut
      · exact ih hcut
      · obtain ⟨hready, hworth⟩ := hselected p hcut
        exact .mk hworth hready.inner fun c hc hinner => ih (hready.children c hc hinner)

/-- A round leaves the nodes whose parents it does not cut. -/
theorem left_round {selected : ν → Prop} (hselected : ∀ p, selected p → Ready child cut p) :
    Left child (fun p => cut p ∨ selected p) n ↔
      Left child cut n ∧ ∀ p, child p n → ¬selected p := by
  constructor
  · intro h
    exact ⟨fun a ha hcut => h a ha (.inl hcut), fun p hp hsel => h p (.single hp) (.inr hsel)⟩
  · rintro ⟨hleft, hparent⟩ a ha (hcut | hsel)
    · exact hleft a ha hcut
    · -- a node below a child of `a` is not left, since that child is a leaf
      obtain ⟨c, hac, hcn⟩ := TransGen.head'_iff.mp ha
      rcases reflTransGen_iff_eq_or_transGen.mp hcn with rfl | hbelow
      · exact hparent a hac hsel
      · obtain ⟨d, hcd, -⟩ := TransGen.head'_iff.mp hbelow
        have hcut := (hselected a hsel).children c hac fun hleaf => hleaf d hcd
        exact hleft c hbelow hcut

/-- A node that is left and has not been cut keeps its children. -/
theorem Left.of_parent (hparent : Relator.LeftUnique child)
    (h : Left child cut p) (huncut : ¬cut p) {c : ν} (hc : child p c) : Left child cut c := by
  intro a ha
  obtain ⟨q, haq, hqc⟩ := TransGen.tail'_iff.mp ha
  obtain rfl := hparent hqc hc
  rcases reflTransGen_iff_eq_or_transGen.mp haq with rfl | habove
  · exact huncut
  · exact h a habove

section Final

-- no ready node is worth to be cut, and a node has one parent
variable (hfinal : ∀ p, Ready child cut p → ¬worth p)
variable (hparent : Relator.LeftUnique child)

include hfinal hparent

/-- What is to be cut, and is left, is cut. -/
theorem cut_of_isCut (hcut : Cut child worth p) (hleft : Left child cut p) : cut p := by
  induction hcut with
  | mk hworth hinner _ ih =>
      by_contra huncut
      exact hfinal _ ⟨hleft, huncut, hinner,
        fun c hc hchildren => ih c hc hchildren (hleft.of_parent hparent huncut hc)⟩ hworth

theorem Rounds.cut_iff (h : Rounds child worth cut) (hleft : Left child cut p) :
    cut p ↔ Cut child worth p :=
  ⟨h.isCut, fun hcut => cut_of_isCut hfinal hparent hcut hleft⟩

/-- What is left in the end does not depend on the rounds. -/
theorem Rounds.left_iff (h : Rounds child worth cut) :
    Left child cut n ↔ Left child (Cut child worth) n := by
  constructor
  · intro hleft a ha hcut
    have habove : Left child cut a := fun b hb => hleft b (hb.trans ha)
    exact hleft a ha (cut_of_isCut hfinal hparent hcut habove)
  · exact fun hleft a ha hcut => hleft a ha (h.isCut hcut)

end Final

end Madlib.Lib.BottomUp
