import Mathlib

/-!
# Sets of numbers in words

A set of natural numbers is kept as the bits of consecutive words, the bit of `v` in the word
`v / w` at position `v % w`.
-/

namespace Madlib.Lib.Bitmap

variable {w n u v : ℕ} {bitmap : List (BitVec w)}

/-- The bit of a number, which is not set behind the last word. -/
def bitOf (bitmap : List (BitVec w)) (v : ℕ) : Bool :=
  match bitmap[v / w]? with
  | some word => word.getLsbD (v % w)
  | none => false

def setBit (bitmap : List (BitVec w)) (v : ℕ) : List (BitVec w) :=
  bitmap.modify (v / w) (· ||| BitVec.twoPow w (v % w))

/-- The numbers below `n` whose bits are set. -/
def members (bitmap : List (BitVec w)) (n : ℕ) : Finset ℕ :=
  (Finset.range n).filter fun v => bitOf bitmap v = true

@[simp] theorem length_setBit : (setBit bitmap v).length = bitmap.length := List.length_modify ..

theorem eq_of_div_eq_of_mod_eq (hdiv : u / w = v / w) (hmod : u % w = v % w) : u = v := by
  rw [← Nat.div_add_mod u w, ← Nat.div_add_mod v w, hdiv, hmod]

theorem bitOf_setBit (hw : 0 < w) (hv : v / w < bitmap.length) :
    bitOf (setBit bitmap v) u = (decide (u = v) || bitOf bitmap u) := by
  unfold bitOf setBit
  rw [List.getElem?_modify]
  by_cases hdiv : u / w = v / w
  · have hget := List.getElem?_eq_getElem hv
    have hbit : (v % w = u % w) ↔ u = v :=
      ⟨fun hmod => eq_of_div_eq_of_mod_eq hdiv hmod.symm, fun h => by rw [h]⟩
    rw [hdiv, hget]
    simp only [if_true, Option.map_eq_map, Option.map_some, BitVec.getLsbD_or,
      BitVec.getLsbD_twoPow, Nat.mod_lt v hw, decide_true, Bool.true_and, hbit, Bool.or_comm]
  · have hne : u ≠ v := fun h => hdiv (by rw [h])
    simp [hne, Ne.symm hdiv]

@[simp] theorem bitOf_replicate_zero (count : ℕ) :
    bitOf (List.replicate count (0#w)) v = false := by
  unfold bitOf
  by_cases hv : v / w < count
  · simp [hv]
  · simp [hv]

@[simp] theorem mem_members : v ∈ members bitmap n ↔ v < n ∧ bitOf bitmap v = true := by
  simp [members]

theorem members_subset : members bitmap n ⊆ Finset.range n := Finset.filter_subset _ _

theorem members_replicate_zero (count : ℕ) : members (List.replicate count (0#w)) n = ∅ := by
  simp [members]

theorem members_setBit (hw : 0 < w) (hv : v < n) (hlength : v / w < bitmap.length) :
    members (setBit bitmap v) n = insert v (members bitmap n) := by
  ext u
  rw [mem_members, bitOf_setBit hw hlength, Finset.mem_insert, mem_members]
  by_cases hu : u = v
  · simp [hu, hv]
  · simp [hu]

/-- Not all numbers below `n` are members when there are fewer than `n` of them. -/
theorem exists_not_mem (hcard : (members bitmap n).card < n) : ∃ v < n, bitOf bitmap v = false := by
  by_contra hall
  push Not at hall
  have hsubset : Finset.range n ⊆ members bitmap n := by
    intro v hv
    have hlt := Finset.mem_range.mp hv
    exact mem_members.mpr ⟨hlt, by simpa using hall v hlt⟩
  have hle := Finset.card_le_card hsubset
  rw [Finset.card_range] at hle
  omega

end Madlib.Lib.Bitmap
