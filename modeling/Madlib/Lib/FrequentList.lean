import Mathlib

/-!
# The most frequent elements of a stream

A list of elements and counts has room for `cap` entries.  An element that is listed
gets its new count.  One that is not goes behind the others while there is room, and
afterwards into the place of the first entry with a smaller count, if there is one.
With the true counts the listed elements are always the most frequent ones: an element
that is not listed has a count no larger than any other, so the one it displaces had
just been equalled.
-/

namespace Madlib.Lib.FrequentList

variable {α : Type}

/-- The entry goes into the first place that is free or has a smaller count. -/
def place (v : α) (cnt : Nat) : Nat → List (α × Nat) → List (α × Nat)
  | 0, [] => []
  | _ + 1, [] => [(v, cnt)]
  | room, p :: items => if p.2 < cnt then (v, cnt) :: items else p :: place v cnt room items

theorem place_of_le {v : α} {cnt room : Nat} {items : List (α × Nat)}
    (h : ∀ p ∈ items, cnt ≤ p.2) :
    place v cnt room items = items ++ if room = 0 then [] else [(v, cnt)] := by
  induction items with
  | nil => cases room <;> rfl
  | cons p items ih =>
      rw [place, if_neg (not_lt.mpr (h p List.mem_cons_self)),
        ih fun q hq => h q (List.mem_cons_of_mem p hq)]
      rfl

theorem place_append {v : α} {cnt room : Nat} {items rest : List (α × Nat)} {p : α × Nat}
    (h : ∀ q ∈ items, cnt ≤ q.2) (hp : p.2 < cnt) :
    place v cnt room (items ++ p :: rest) = items ++ (v, cnt) :: rest := by
  induction items with
  | nil => rw [List.nil_append, place, if_pos hp, List.nil_append]
  | cons q items ih =>
      rw [List.cons_append, place, if_neg (not_lt.mpr (h q List.mem_cons_self)),
        ih fun q' hq' => h q' (List.mem_cons_of_mem q hq')]
      rfl

/-- Either no entry has a smaller count, or one is the first of those that have. -/
theorem le_or_exists_first_lt (cnt : Nat) (items : List (α × Nat)) :
    (∀ p ∈ items, cnt ≤ p.2) ∨ ∃ before p after, items = before ++ p :: after ∧
      (∀ q ∈ before, cnt ≤ q.2) ∧ p.2 < cnt := by
  induction items with
  | nil => exact .inl fun p hp => absurd hp List.not_mem_nil
  | cons p items ih =>
      by_cases hp : p.2 < cnt
      · exact .inr ⟨[], p, items, rfl, fun q hq => absurd hq List.not_mem_nil, hp⟩
      · rcases ih with hall | ⟨before, q, after, heq, hbefore, hq⟩
        · left
          intro q hq
          rcases List.mem_cons.mp hq with rfl | hq
          · exact not_lt.mp hp
          · exact hall q hq
        · right
          refine ⟨p :: before, q, after, by rw [heq, List.cons_append], fun r hr => ?_, hq⟩
          rcases List.mem_cons.mp hr with rfl | hr
          · exact not_lt.mp hp
          · exact hbefore r hr

section Update

variable [DecidableEq α]

def recount (v : α) (cnt : Nat) (items : List (α × Nat)) : List (α × Nat) :=
  items.map fun p => if p.1 = v then (v, cnt) else p

/-- The list after one more occurrence of `v`, which makes `cnt`. -/
def observe (cap : Nat) (items : List (α × Nat)) (v : α) (cnt : Nat) : List (α × Nat) :=
  if v ∈ items.map Prod.fst then recount v cnt items
  else place v cnt (cap - items.length) items

theorem map_fst_recount (v : α) (cnt : Nat) (items : List (α × Nat)) :
    (recount v cnt items).map Prod.fst = items.map Prod.fst := by
  unfold recount
  rw [List.map_map]
  apply List.map_congr_left
  intro p _
  by_cases hp : p.1 = v
  · simp [hp]
  · simp [hp]

end Update

/-- The entries are the most frequent elements of `s`, with their counts. -/
structure Tracks [BEq α] (cap : Nat) (s : List α) (items : List (α × Nat)) : Prop where
  nodup : (items.map Prod.fst).Nodup
  counts : ∀ p ∈ items, p.1 ∈ s ∧ p.2 = s.count p.1
  length_le : items.length ≤ cap
  complete : items.length < cap → ∀ v ∈ s, v ∈ items.map Prod.fst
  top : ∀ v ∈ s, v ∉ items.map Prod.fst → ∀ p ∈ items, s.count v ≤ p.2

variable [BEq α] {cap : Nat} {s : List α} {items : List (α × Nat)}

theorem tracks_nil (cap : Nat) : Tracks cap ([] : List α) [] where
  nodup := List.nodup_nil
  counts := fun _ hp => absurd hp List.not_mem_nil
  length_le := Nat.zero_le cap
  complete := fun _ _ hv => absurd hv List.not_mem_nil
  top := fun _ hv => absurd hv List.not_mem_nil

theorem Tracks.count_le [LawfulBEq α] (h : Tracks cap s items) {v : α} (hv : v ∉ items.map Prod.fst)
    {p : α × Nat} (hp : p ∈ items) : s.count v ≤ p.2 := by
  by_cases hs : v ∈ s
  · exact h.top v hs hv p hp
  · rw [List.count_eq_zero.mpr hs]
    exact Nat.zero_le _

variable [DecidableEq α]

/-- A list that is not full holds as many entries as there are elements. -/
theorem Tracks.length_eq (h : Tracks cap s items) : items.length = min cap s.dedup.length := by
  have hsub : items.map Prod.fst ⊆ s.dedup := by
    intro u hu
    have ⟨p, hp, hpu⟩ := List.mem_map.mp hu
    rw [List.mem_dedup]
    exact hpu ▸ (h.counts p hp).1
  have hle := (List.subperm_of_subset h.nodup hsub).length_le
  have hcap := h.length_le
  rw [List.length_map] at hle
  rcases lt_or_eq_of_le h.length_le with hroom | hfull
  · have hsup : s.dedup ⊆ items.map Prod.fst := by
      intro u hu
      exact h.complete hroom u (List.mem_dedup.mp hu)
    have hge := (List.subperm_of_subset s.nodup_dedup hsup).length_le
    rw [List.length_map] at hge
    omega
  · omega

variable [LawfulBEq α]

theorem count_snoc (s : List α) (v u : α) :
    (s ++ [v]).count u = s.count u + if u = v then 1 else 0 := by
  rw [List.count_append]
  by_cases hu : u = v
  · simp [hu]
  · simp [hu, Ne.symm hu]

/-- A listed element occurs once more. -/
theorem Tracks.recount (h : Tracks cap s items) {v : α} (hv : v ∈ items.map Prod.fst) :
    Tracks cap (s ++ [v]) (recount v (s.count v + 1) items) where
  nodup := by
    rw [map_fst_recount]
    exact h.nodup
  counts := by
    intro p hp
    have ⟨q, hq, hqp⟩ := List.mem_map.mp hp
    have ⟨hmem, hcount⟩ := h.counts q hq
    by_cases hqv : q.1 = v
    · rw [if_pos hqv] at hqp
      subst hqp
      exact ⟨by simp, by rw [count_snoc, if_pos rfl]⟩
    · rw [if_neg hqv] at hqp
      subst hqp
      exact ⟨List.mem_append_left _ hmem, by rw [count_snoc, if_neg hqv, hcount, Nat.add_zero]⟩
  length_le := by
    unfold FrequentList.recount
    rw [List.length_map]
    exact h.length_le
  complete := by
    intro hlt u hu
    unfold FrequentList.recount at hlt
    rw [List.length_map] at hlt
    rw [map_fst_recount]
    rcases List.mem_append.mp hu with hu | hu
    · exact h.complete hlt u hu
    · rwa [List.mem_singleton.mp hu]
  top := by
    intro u hu hnot p hp
    rw [map_fst_recount] at hnot
    have hne : u ≠ v := fun heq => hnot (heq ▸ hv)
    rw [count_snoc, if_neg hne, Nat.add_zero]
    have ⟨q, hq, hqp⟩ := List.mem_map.mp hp
    have hle := h.count_le hnot hq
    by_cases hqv : q.1 = v
    · rw [if_pos hqv] at hqp
      subst hqp
      have hcount := (h.counts q hq).2
      rw [hqv] at hcount
      dsimp only
      omega
    · rw [if_neg hqv] at hqp
      exact hqp ▸ hle

/-- A new element finds room. -/
theorem Tracks.append (h : Tracks cap s items) {v : α} (hv : v ∉ items.map Prod.fst)
    (hroom : items.length < cap) :
    Tracks cap (s ++ [v]) (place v (s.count v + 1) (cap - items.length) items) := by
  have hnew : v ∉ s := fun hs => hv (h.complete hroom v hs)
  have hle : ∀ p ∈ items, s.count v + 1 ≤ p.2 := by
    intro p hp
    have ⟨hmem, hcount⟩ := h.counts p hp
    rw [List.count_eq_zero.mpr hnew, hcount]
    exact List.count_pos_iff.mpr hmem
  rw [place_of_le hle, if_neg (by omega)]
  have hfst : (items ++ [(v, s.count v + 1)]).map Prod.fst = items.map Prod.fst ++ [v] := by
    rw [List.map_append]
    rfl
  have hlisted : ∀ u ∈ s ++ [v], u ∈ items.map Prod.fst ++ [v] := by
    intro u hu
    rcases List.mem_append.mp hu with hu | hu
    · exact List.mem_append_left _ (h.complete hroom u hu)
    · exact List.mem_append_right _ hu
  exact
    { nodup := by
        rw [hfst, List.nodup_append]
        exact ⟨h.nodup, List.nodup_singleton v, fun a ha b hb heq =>
          hv ((List.mem_singleton.mp hb) ▸ heq ▸ ha)⟩
      counts := by
        intro p hp
        rcases List.mem_append.mp hp with hp | hp
        · have ⟨hmem, hcount⟩ := h.counts p hp
          have hne : p.1 ≠ v := fun heq => hnew (heq ▸ hmem)
          exact ⟨List.mem_append_left _ hmem, by rw [count_snoc, if_neg hne, hcount, Nat.add_zero]⟩
        · rw [List.mem_singleton.mp hp]
          exact ⟨by simp, by rw [count_snoc, if_pos rfl]⟩
      length_le := by
        rw [List.length_append]
        exact hroom
      complete := by
        intro _ u hu
        rw [hfst]
        exact hlisted u hu
      top := by
        intro u hu hnot
        rw [hfst] at hnot
        exact absurd (hlisted u hu) hnot }

/-- A full list keeps its entries, or gives up one that the element has just overtaken. -/
theorem Tracks.replace (h : Tracks cap s items) {v : α} (hv : v ∉ items.map Prod.fst)
    (hfull : items.length = cap) :
    Tracks cap (s ++ [v]) (place v (s.count v + 1) (cap - items.length) items) := by
  have hother : ∀ p ∈ items, p.1 ∈ s ++ [v] ∧ p.2 = (s ++ [v]).count p.1 := by
    intro p hp
    have ⟨hmem, hcount⟩ := h.counts p hp
    have hne : p.1 ≠ v := fun heq => hv (heq ▸ List.mem_map_of_mem hp)
    exact ⟨List.mem_append_left _ hmem, by rw [count_snoc, if_neg hne, hcount, Nat.add_zero]⟩
  rcases le_or_exists_first_lt (s.count v + 1) items with hall | ⟨before, p, after, heq, hbefore, hp⟩
  · rw [place_of_le hall, if_pos (by omega), List.append_nil]
    exact
      { nodup := h.nodup
        counts := hother
        length_le := h.length_le
        complete := fun hlt => by omega
        top := by
          intro u hu hnot q hq
          rw [count_snoc]
          by_cases huv : u = v
          · rw [if_pos huv, huv]
            exact hall q hq
          · rw [if_neg huv]
            exact h.count_le hnot hq }
  · subst heq
    rw [place_append hbefore hp]
    rw [List.map_append, List.map_cons] at hv
    have hnodup := h.nodup
    rw [List.map_append, List.map_cons, List.nodup_middle, List.nodup_cons] at hnodup
    have hpcount := (h.counts p (by simp)).2
    -- the element that is displaced had as many occurrences as the new one had before
    have hle : ∀ q ∈ before ++ p :: after, p.2 ≤ q.2 := by
      intro q hq
      have hcount := h.count_le (by rwa [List.map_append, List.map_cons]) hq
      omega
    have hmem : ∀ q ∈ before ++ (v, s.count v + 1) :: after,
        q = (v, s.count v + 1) ∨ q ∈ before ++ p :: after := by
      intro q hq
      rcases List.mem_append.mp hq with hq | hq
      · exact .inr (List.mem_append_left _ hq)
      · rcases List.mem_cons.mp hq with hq | hq
        · exact .inl hq
        · exact .inr (List.mem_append_right _ (List.mem_cons_of_mem _ hq))
    exact
      { nodup := by
          rw [List.map_append, List.map_cons, List.nodup_middle, List.nodup_cons]
          refine ⟨fun hin => hv ?_, hnodup.2⟩
          rcases List.mem_append.mp hin with hin | hin
          · exact List.mem_append_left _ hin
          · exact List.mem_append_right _ (List.mem_cons_of_mem _ hin)
        counts := by
          intro q hq
          rcases hmem q hq with rfl | hq
          · exact ⟨by simp, by rw [count_snoc, if_pos rfl]⟩
          · exact hother q hq
        length_le := by
          have hlength := h.length_le
          rw [List.length_append, List.length_cons] at hlength ⊢
          exact hlength
        complete := by
          intro hlt
          rw [List.length_append, List.length_cons] at hlt hfull
          omega
        top := by
          intro u hu hnot q hq
          rw [List.map_append, List.map_cons, List.mem_append, List.mem_cons] at hnot
          push Not at hnot
          rw [count_snoc, if_neg hnot.2.1, Nat.add_zero]
          by_cases hup : u = p.1
          · rw [hup, ← hpcount]
            rcases hmem q hq with rfl | hq
            · exact hp.le
            · exact hle q hq
          · have hold : u ∉ (before ++ p :: after).map Prod.fst := by
              rw [List.map_append, List.map_cons, List.mem_append, List.mem_cons]
              rintro (hin | hin | hin)
              · exact hnot.1 hin
              · exact hup hin
              · exact hnot.2.2 hin
            rcases hmem q hq with rfl | hq
            · exact (h.count_le hold (by simp : p ∈ before ++ p :: after)).trans hp.le
            · exact h.count_le hold hq }

/-- One more element of the stream. -/
theorem Tracks.observe (h : Tracks cap s items) (v : α) :
    Tracks cap (s ++ [v]) (observe cap items v (s.count v + 1)) := by
  unfold FrequentList.observe
  by_cases hv : v ∈ items.map Prod.fst
  · rw [if_pos hv]
    exact h.recount hv
  · rw [if_neg hv]
    rcases lt_or_eq_of_le h.length_le with hroom | hfull
    · exact h.append hv hroom
    · exact h.replace hv hfull

/-- A list with room for every element of the stream holds every one. -/
theorem Tracks.all_listed (h : Tracks cap s items) (hfew : s.dedup.length ≤ cap) {v : α}
    (hv : v ∈ s) : v ∈ items.map Prod.fst := by
  by_contra hnot
  have hfull : items.length = cap :=
    le_antisymm h.length_le (not_lt.mp fun hlt => hnot (h.complete hlt v hv))
  have hsub : v :: items.map Prod.fst ⊆ s.dedup := by
    intro u hu
    rw [List.mem_dedup]
    rcases List.mem_cons.mp hu with rfl | hu
    · exact hv
    · have ⟨p, hp, hpu⟩ := List.mem_map.mp hu
      exact hpu ▸ (h.counts p hp).1
  have hlen := (List.subperm_of_subset (List.nodup_cons.mpr ⟨hnot, h.nodup⟩) hsub).length_le
  rw [List.length_cons, List.length_map] at hlen
  omega

end Madlib.Lib.FrequentList
