import Mathlib

/-!
# Elements of a given rank

The elements of a list are ordered by a key, which may be the same for several of them.  An element
has a rank if some sorting of the list puts it there.  Two elements of one rank have one key, and
an element between two parts of the list has the ranks of its own copies.
-/

namespace Madlib.Lib.OrderStatistic

variable {α κ : Type} [LinearOrder κ] {key : α → κ}

/-- The list is sorted by its keys. -/
def SortedBy (key : α → κ) (xs : List α) : Prop := xs.Pairwise fun x y => key x ≤ key y

/-- Some sorting of the list has the element at position `k`. -/
def HasRank (key : α → κ) (xs : List α) (k : Nat) (x : α) : Prop :=
  ∃ sorted : List α, sorted.Perm xs ∧ SortedBy key sorted ∧ sorted[k]? = some x

theorem SortedBy.map {xs : List α} (h : SortedBy key xs) : (xs.map key).Pairwise (· ≤ ·) :=
  List.pairwise_map.mpr h

/-- A list can be sorted. -/
theorem exists_sorted (key : α → κ) (xs : List α) :
    ∃ sorted : List α, sorted.Perm xs ∧ SortedBy key sorted := by
  have htotal : ∀ x y : α, (decide (key x ≤ key y) || decide (key y ≤ key x)) = true := by
    intro x y
    simpa using le_total (key x) (key y)
  have htrans : ∀ x y z : α, decide (key x ≤ key y) = true → decide (key y ≤ key z) = true →
      decide (key x ≤ key z) = true := by
    intro x y z hxy hyz
    simp only [decide_eq_true_eq] at hxy hyz ⊢
    exact hxy.trans hyz
  refine ⟨xs.mergeSort fun x y => decide (key x ≤ key y), List.mergeSort_perm _ _, ?_⟩
  exact (List.pairwise_mergeSort htrans htotal xs).imp fun h => of_decide_eq_true h

/-- Elements of one rank have one key. -/
theorem HasRank.key_eq {xs ys : List α} {k : Nat} {x y : α} (hperm : xs.Perm ys)
    (hx : HasRank key xs k x) (hy : HasRank key ys k y) : key x = key y := by
  have ⟨sorted, hsorted, hpairwise, hget⟩ := hx
  have ⟨sorted', hsorted', hpairwise', hget'⟩ := hy
  have hkeys : sorted.map key = sorted'.map key :=
    List.Perm.eq_of_pairwise' hpairwise.map hpairwise'.map
      (((hsorted.trans hperm).trans hsorted'.symm).map key)
  have hat := congrArg (fun keys => keys[k]?) hkeys
  simp only [List.getElem?_map, hget, hget', Option.map_some, Option.some.injEq] at hat
  exact hat

/-- An element between smaller and greater ones has the ranks of its copies. -/
theorem hasRank_between {before after : List α} {x : α} {n k : Nat}
    (hbefore : ∀ y ∈ before, key y ≤ key x) (hafter : ∀ y ∈ after, key x ≤ key y)
    (hlo : before.length ≤ k) (hhi : k < before.length + n) :
    HasRank key (before ++ List.replicate n x ++ after) k x := by
  have ⟨front, hfront, hfrontSorted⟩ := exists_sorted key before
  have ⟨back, hback, hbackSorted⟩ := exists_sorted key after
  have hlength : front.length = before.length := hfront.length_eq
  have hcopies : SortedBy key (List.replicate n x) :=
    List.pairwise_replicate.mpr (.inr le_rfl)
  refine ⟨front ++ List.replicate n x ++ back, ?_, ?_, ?_⟩
  · exact (hfront.append_right _).append hback
  · refine List.pairwise_append.mpr ⟨List.pairwise_append.mpr ⟨hfrontSorted, hcopies, ?_⟩,
      hbackSorted, ?_⟩
    · intro y hy z hz
      rw [List.eq_of_mem_replicate hz]
      exact hbefore y (hfront.mem_iff.mp hy)
    · intro y hy z hz
      have hz' := hafter z (hback.mem_iff.mp hz)
      rcases List.mem_append.mp hy with hy | hy
      · exact (hbefore y (hfront.mem_iff.mp hy)).trans hz'
      · rwa [List.eq_of_mem_replicate hy]
  · rw [List.append_assoc, List.getElem?_append_right (by omega), hlength,
      List.getElem?_append_left (by rw [List.length_replicate]; omega),
      List.getElem?_replicate_of_lt (by omega)]

theorem HasRank.perm {xs ys : List α} {k : Nat} {x : α} (h : HasRank key xs k x)
    (hperm : xs.Perm ys) : HasRank key ys k x := by
  have ⟨sorted, hsorted, hpairwise, hget⟩ := h
  exact ⟨sorted, hsorted.trans hperm, hpairwise, hget⟩

end Madlib.Lib.OrderStatistic
