import Mathlib

/-!
# The best of two ranked lists

Two lists that fall in a key are merged, and the first `k` of the merged list are kept.  An
element of both lists comes twice in the merged one.  Where its second copy comes is known from
the two lists, and the kept elements are the best of both lists exactly when no second copy is
among them.
-/

namespace Madlib.Lib.TopMerge

variable {α κ : Type} [LinearOrder κ] (key : α → κ)

/-- The key never rises along the list. -/
def Ranked (l : List α) : Prop := l.Pairwise fun x y => key y ≤ key x

/-- An element of the first list goes ahead of those of the second list with its key. -/
def mergeRanked (l r : List α) : List α := l.merge r fun x y => decide (key y ≤ key x)

/-- The places in front of the second copy of `v`: those of the first list that are not worse,
and those in front of it in the second list. -/
def ahead [DecidableEq α] (l r : List α) (v : α) : Nat :=
  l.countP (fun w => decide (key v ≤ key w)) + r.idxOf v

/-- `kept` are the `k` best of the elements of two lists, each of them once. -/
structure KeepsBest [DecidableEq α] (k : Nat) (l r kept : List α) : Prop where
  nodup : kept.Nodup
  subset : ∀ v ∈ kept, v ∈ l ++ r
  length_eq : kept.length = min k (l ++ r).dedup.length
  best : ∀ v ∈ l ++ r, v ∉ kept → ∀ w ∈ kept, key v ≤ key w

variable {key} {l r : List α}

theorem mergeRanked_cons_le {x y : α} (h : key y ≤ key x) :
    mergeRanked key (x :: l) (y :: r) = x :: mergeRanked key l (y :: r) :=
  List.cons_merge_cons_pos _ l r (decide_eq_true h)

theorem mergeRanked_cons_lt {x y : α} (h : key x < key y) :
    mergeRanked key (x :: l) (y :: r) = y :: mergeRanked key (x :: l) r :=
  List.cons_merge_cons_neg _ l r (by simpa using h)

theorem mergeRanked_nil_left (r : List α) : mergeRanked key [] r = r := List.nil_merge r

theorem mergeRanked_nil_right (l : List α) : mergeRanked key l [] = l := List.merge_right l

theorem mergeRanked_perm (l r : List α) : (mergeRanked key l r).Perm (l ++ r) :=
  List.merge_perm_append _

theorem mem_mergeRanked {v : α} : v ∈ mergeRanked key l r ↔ v ∈ l ∨ v ∈ r := List.mem_merge

theorem Ranked.mergeRanked (hl : Ranked key l) (hr : Ranked key r) :
    Ranked key (mergeRanked key l r) := by
  have htrans : ∀ a b c : α, decide (key b ≤ key a) = true → decide (key c ≤ key b) = true →
      decide (key c ≤ key a) = true := by
    intro a b c hab hbc
    rw [decide_eq_true_iff] at hab hbc ⊢
    exact hbc.trans hab
  have htotal : ∀ a b : α, (decide (key b ≤ key a) || decide (key a ≤ key b)) = true := by
    intro a b
    rw [Bool.or_eq_true, decide_eq_true_iff, decide_eq_true_iff]
    exact le_total _ _
  have hsorted := List.pairwise_merge htrans htotal l r
    (hl.imp fun h => decide_eq_true h) (hr.imp fun h => decide_eq_true h)
  exact hsorted.imp fun h => of_decide_eq_true h

theorem Ranked.le_head {x v : α} (h : Ranked key (x :: l)) (hv : v ∈ x :: l) :
    key v ≤ key x := by
  rcases List.mem_cons.mp hv with rfl | hv
  · exact le_refl _
  · exact (List.pairwise_cons.mp h).1 v hv

theorem Ranked.tail {x : α} (h : Ranked key (x :: l)) : Ranked key l := (List.pairwise_cons.mp h).2

/-- Elements that carry their key are merged as the elements are. -/
theorem map_mergeRanked {β : Type} (f : β → α) (l r : List β) :
    (mergeRanked (key ∘ f) l r).map f = mergeRanked key (l.map f) (r.map f) :=
  List.map_merge fun _ _ _ _ => rfl

variable [DecidableEq α]

theorem ahead_cons_left {x v : α} (h : key v ≤ key x) :
    ahead key (x :: l) r v = ahead key l r v + 1 := by
  have hcount : (x :: l).countP (fun w => decide (key v ≤ key w)) =
      l.countP (fun w => decide (key v ≤ key w)) + 1 :=
    List.countP_cons_of_pos (decide_eq_true h)
  unfold ahead
  rw [hcount]
  omega

theorem ahead_cons_right {y v : α} (h : y ≠ v) :
    ahead key l (y :: r) v = ahead key l r v + 1 := by
  unfold ahead
  rw [List.idxOf_cons_ne r h]
  rfl

theorem ahead_head {y : α} (h : ∀ w ∈ l, key w < key y) : ahead key l (y :: r) y = 0 := by
  have hcount : l.countP (fun w => decide (key y ≤ key w)) = 0 := by
    rw [List.countP_eq_zero]
    intro w hw
    simpa using h w hw
  unfold ahead
  rw [hcount, List.idxOf_cons_self]

/-- Where an element of the second list alone comes in the merged list. -/
theorem idxOf_mergeRanked {v : α} (hl : Ranked key l) (hr : Ranked key r) (hvl : v ∉ l)
    (hvr : v ∈ r) : (mergeRanked key l r).idxOf v = ahead key l r v := by
  induction l generalizing r with
  | nil => simp [mergeRanked_nil_left, ahead]
  | cons x l ihl =>
      have hx : x ≠ v := fun h => hvl (h ▸ List.mem_cons_self)
      have hvl' : v ∉ l := fun h => hvl (List.mem_cons_of_mem x h)
      induction r with
      | nil => cases hvr
      | cons y r ihr =>
          by_cases hle : key y ≤ key x
          · rw [mergeRanked_cons_le hle, List.idxOf_cons_ne _ hx, ihl hl.tail hr hvl' hvr,
              ahead_cons_left ((hr.le_head hvr).trans hle)]
          · have hlt : key x < key y := lt_of_not_ge hle
            rw [mergeRanked_cons_lt hlt]
            by_cases hy : y = v
            · subst hy
              rw [List.idxOf_cons_self, ahead_head fun w hw => (hl.le_head hw).trans_lt hlt]
            · have hvr' : v ∈ r := List.mem_of_ne_of_mem (Ne.symm hy) hvr
              rw [List.idxOf_cons_ne _ hy, ahead_cons_right hy, ihr hr.tail hvr']

/-- An element of the first list does not come again among the next `k`. -/
theorem not_mem_take_mergeRanked {v : α} (k : Nat) (hl : Ranked key l) (hr : Ranked key r)
    (hvl : v ∉ l) :
    v ∉ (mergeRanked key l r).take k ↔ (v ∈ r → k ≤ ahead key l r v) := by
  by_cases hvr : v ∈ r
  · rw [List.mem_take_iff_idxOf_lt (mem_mergeRanked.mpr (.inr hvr)),
      idxOf_mergeRanked hl hr hvl hvr, Nat.not_lt]
    exact ⟨fun h _ => h, fun h => h hvr⟩
  · constructor
    · exact fun _ h => absurd h hvr
    · intro _ hmem
      rcases mem_mergeRanked.mp (List.mem_of_mem_take hmem) with h | h
      · exact hvl h
      · exact hvr h

/-- The first `k` of the merged list are distinct when no second copy is among them. -/
theorem nodup_take_mergeRanked (k : Nat) (hl : Ranked key l) (hr : Ranked key r)
    (hln : l.Nodup) (hrn : r.Nodup) :
    ((mergeRanked key l r).take k).Nodup ↔ ∀ v ∈ l, v ∈ r → k ≤ ahead key l r v := by
  induction k generalizing l r with
  | zero => simp
  | succ k ih =>
      match l, r with
      | [], r =>
          rw [mergeRanked_nil_left]
          constructor
          · intro _ v hv
            cases hv
          · exact fun _ => hrn.sublist (List.take_sublist (k + 1) r)
      | x :: l, [] =>
          rw [mergeRanked_nil_right]
          constructor
          · intro _ v _ hv
            cases hv
          · exact fun _ => hln.sublist (List.take_sublist (k + 1) (x :: l))
      | x :: l, y :: r =>
          have ⟨hxl, hln'⟩ := List.nodup_cons.mp hln
          have ⟨hyr, hrn'⟩ := List.nodup_cons.mp hrn
          by_cases hle : key y ≤ key x
          · rw [mergeRanked_cons_le hle, List.take_succ_cons, List.nodup_cons,
              not_mem_take_mergeRanked k hl.tail hr hxl, ih hl.tail hr hln' hrn,
              List.forall_mem_cons, ahead_cons_left (le_refl (key x))]
            apply and_congr
            · exact imp_congr_right fun _ => Nat.add_le_add_iff_right.symm
            · apply forall₂_congr
              intro v hv
              rw [ahead_cons_left (hl.le_head (List.mem_cons_of_mem x hv))]
              exact imp_congr_right fun _ => Nat.add_le_add_iff_right.symm
          · have hlt : key x < key y := lt_of_not_ge hle
            have hyl : y ∉ x :: l := fun h => absurd (hl.le_head h) (not_le_of_gt hlt)
            have hy : y ∉ (mergeRanked key (x :: l) r).take k :=
              (not_mem_take_mergeRanked k hl hr.tail hyl).mpr fun h => absurd h hyr
            rw [mergeRanked_cons_lt hlt, List.take_succ_cons, List.nodup_cons,
              ih hl hr.tail hln hrn']
            constructor
            · rintro ⟨_, htail⟩ v hv hvr
              have hne : y ≠ v := fun h => hyl (h ▸ hv)
              rw [ahead_cons_right hne]
              exact Nat.succ_le_succ (htail v hv (List.mem_of_ne_of_mem (Ne.symm hne) hvr))
            · intro h
              refine ⟨hy, fun v hv hvr => ?_⟩
              have hne : y ≠ v := fun heq => hyl (heq ▸ hv)
              have hv' := h v hv (List.mem_cons_of_mem y hvr)
              rw [ahead_cons_right hne] at hv'
              exact Nat.le_of_succ_le_succ hv'

/-- As many distinct elements as there are places, or all of them. -/
theorem length_of_nodup_take {k : Nat} {m all : List α} (hperm : m.Perm all)
    (h : (m.take k).Nodup) : (m.take k).length = min k all.dedup.length := by
  have hsub : m.take k ⊆ all.dedup := fun v hv =>
    List.mem_dedup.mpr (hperm.mem_iff.mp (List.mem_of_mem_take hv))
  have hle : (m.take k).length ≤ all.dedup.length := (h.subperm hsub).length_le
  have hdedup : all.dedup.length ≤ m.length := by
    rw [hperm.length_eq]
    exact (List.dedup_sublist all).length_le
  rw [List.length_take] at hle ⊢
  omega

theorem keepsBest_take_iff (k : Nat) (hl : Ranked key l) (hr : Ranked key r) (hln : l.Nodup)
    (hrn : r.Nodup) :
    KeepsBest key k l r ((mergeRanked key l r).take k) ↔
      ∀ v ∈ l, v ∈ r → k ≤ ahead key l r v := by
  rw [← nodup_take_mergeRanked k hl hr hln hrn]
  constructor
  · exact fun h => h.nodup
  · intro hnodup
    have hperm : (mergeRanked key l r).Perm (l ++ r) := mergeRanked_perm l r
    have hsorted : Ranked key ((mergeRanked key l r).take k ++ (mergeRanked key l r).drop k) := by
      rw [List.take_append_drop]
      exact hl.mergeRanked hr
    have hcross := (List.pairwise_append.mp hsorted).2.2
    exact
      { nodup := hnodup
        subset := fun v hv => hperm.mem_iff.mp (List.mem_of_mem_take hv)
        length_eq := length_of_nodup_take hperm hnodup
        best := by
          intro v hv hout w hw
          have hmem := hperm.mem_iff.mpr hv
          rw [← List.take_append_drop k (mergeRanked key l r)] at hmem
          exact hcross w hw v ((List.mem_append.mp hmem).resolve_left hout) }

/-- The order of the lists does not matter to what is best. -/
theorem KeepsBest.of_perm {k : Nat} {l' r' kept : List α} (h : KeepsBest key k l r kept)
    (hl : l.Perm l') (hr : r.Perm r') : KeepsBest key k l' r' kept := by
  have hperm := hl.append hr
  exact
    { nodup := h.nodup
      subset := fun v hv => hperm.mem_iff.mp (h.subset v hv)
      length_eq := by rw [h.length_eq, hperm.dedup.length_eq]
      best := fun v hv => h.best v (hperm.mem_iff.mpr hv) }

theorem ahead_perm {l' : List α} (h : l.Perm l') (v : α) :
    ahead key l r v = ahead key l' r v := by
  unfold ahead
  rw [h.countP_eq]

/-- The two lists may be given in any order, but which of equally good elements of the second
list come first is decided by how it is sorted. -/
theorem keepsBest_take_perm_iff (k : Nat) {l' r' : List α} (hl : Ranked key l)
    (hr : Ranked key r) (hl' : l.Perm l') (hr' : r.Perm r') (hln : l'.Nodup) (hrn : r'.Nodup) :
    KeepsBest key k l' r' ((mergeRanked key l r).take k) ↔
      ∀ v ∈ l', v ∈ r' → k ≤ ahead key l' r v := by
  have hiff := keepsBest_take_iff k hl hr (hl'.nodup_iff.mpr hln) (hr'.nodup_iff.mpr hrn)
  constructor
  · intro h v hv hvr
    rw [← ahead_perm hl']
    exact hiff.mp (h.of_perm hl'.symm hr'.symm) v (hl'.mem_iff.mpr hv) (hr'.mem_iff.mpr hvr)
  · intro h
    apply (hiff.mpr _).of_perm hl' hr'
    intro v hv hvr
    rw [ahead_perm hl']
    exact h v (hl'.mem_iff.mp hv) (hr'.mem_iff.mp hvr)

end Madlib.Lib.TopMerge
