import Madlib.Lib.FrequentList

/-!
# Frequent elements by estimated counts

The list of frequent elements is kept as before, but what an element counts for is any function of
the stream so far.  A newcomer is compared with the listed elements before it gets to the free
places, so that it pushes out an element it is heavier than even where there is room for both.
-/

namespace Madlib.Lib.FrequentList

variable {α : Type} {cap : Nat} {weigh : List α → α → Nat} {s t : List α}
  {items : List (α × Nat)} {v : α} {cnt : Nat}

theorem mem_place {room : Nat} {p : α × Nat} (h : p ∈ place v cnt room items) :
    p = (v, cnt) ∨ p ∈ items := by
  induction items with
  | nil =>
      cases room with
      | zero => exact .inr h
      | succ room => exact .inl (List.mem_singleton.mp h)
  | cons q items ih =>
      rw [place] at h
      split_ifs at h
      · exact (List.mem_cons.mp h).imp id (List.mem_cons_of_mem q)
      · rcases List.mem_cons.mp h with heq | hrest
        · exact .inr (heq ▸ List.mem_cons_self)
        · exact (ih hrest).imp id (List.mem_cons_of_mem q)

theorem nodup_place {room : Nat} (h : (items.map Prod.fst).Nodup) (hv : v ∉ items.map Prod.fst) :
    ((place v cnt room items).map Prod.fst).Nodup := by
  induction items with
  | nil =>
      cases room with
      | zero => exact h
      | succ room => exact List.nodup_singleton v
  | cons q items ih =>
      obtain ⟨hq, hrest⟩ := List.nodup_cons.mp h
      obtain ⟨hne, hv'⟩ := not_or.mp (mt List.mem_cons.mpr hv)
      rw [place]
      split_ifs
      · exact List.nodup_cons.mpr ⟨hv', hrest⟩
      · apply List.nodup_cons.mpr ⟨fun hmem => ?_, ih hrest hv'⟩
        obtain ⟨p, hp, hpq⟩ := List.mem_map.mp hmem
        rcases mem_place hp with heq | hold
        · rw [heq] at hpq
          exact hne hpq
        · exact hq (hpq ▸ List.mem_map_of_mem hold)

/-! ## The last occurrence of an element -/

/-- What `u` counted for when it last occurred in `t`. -/
def LastWeight (weigh : List α → α → Nat) (t : List α) (u : α) (c : Nat) : Prop :=
  ∃ t₁ t₂, t = t₁ ++ u :: t₂ ∧ u ∉ t₂ ∧ c = weigh (t₁ ++ [u]) u

theorem LastWeight.unique {u : α} {c c' : Nat} (h : LastWeight weigh t u c)
    (h' : LastWeight weigh t u c') : c = c' := by
  have ⟨t₁, t₂, ht, hnot, hc⟩ := h
  have ⟨t₁', t₂', ht', hnot', hc'⟩ := h'
  have hfirst : t₁ = t₁' := by
    rcases List.append_eq_append_iff.mp (ht.symm.trans ht') with ⟨a, ha, hrest⟩ | ⟨a, ha, hrest⟩
    · cases a with
      | nil => rw [ha, List.append_nil]
      | cons x a =>
          have htail := (List.cons.inj hrest).2
          exact absurd (htail ▸ List.mem_append_right a List.mem_cons_self) hnot
    · cases a with
      | nil => rw [ha, List.append_nil]
      | cons x a =>
          have htail := (List.cons.inj hrest).2
          exact absurd (htail ▸ List.mem_append_right a List.mem_cons_self) hnot'
  rw [hc, hc', hfirst]

theorem LastWeight.snoc {u : α} {c : Nat} (h : LastWeight weigh t u c) (hne : u ≠ v) :
    LastWeight weigh (t ++ [v]) u c := by
  have ⟨t₁, t₂, ht, hnot, hc⟩ := h
  refine ⟨t₁, t₂ ++ [v], ?_, ?_, hc⟩
  · rw [ht, List.append_assoc, List.cons_append]
  · rw [List.mem_append, List.mem_singleton]
    exact not_or.mpr ⟨hnot, hne⟩

theorem lastWeight_snoc (weigh : List α → α → Nat) (t : List α) (v : α) :
    LastWeight weigh (t ++ [v]) v (weigh (t ++ [v]) v) :=
  ⟨t, [], rfl, List.not_mem_nil, rfl⟩

/-! ## The list of a stream -/

variable [DecidableEq α]

/-- The list after a stream, where `weigh t v` is the count of `v` at the end of `t`. -/
def listing (cap : Nat) (weigh : List α → α → Nat) (s : List α) : List (α × Nat) :=
  (s.foldl (fun state v =>
    (state.1 ++ [v], observe cap state.2 v (weigh (state.1 ++ [v]) v))) (([] : List α), [])).2

theorem listing_snoc (cap : Nat) (weigh : List α → α → Nat) (s : List α) (v : α) :
    listing cap weigh (s ++ [v]) =
      observe cap (listing cap weigh s) v (weigh (s ++ [v]) v) := by
  have hseen : ∀ s : List α, (s.foldl (fun (state : List α × List (α × Nat)) v =>
      (state.1 ++ [v], observe cap state.2 v (weigh (state.1 ++ [v]) v))) ([], [])).1 = s := by
    intro s
    induction s using List.reverseRecOn with
    | nil => rfl
    | append_singleton s v ih => rw [List.foldl_append, List.foldl_cons, ih, List.foldl_nil]
  unfold listing
  rw [List.foldl_append, List.foldl_cons, hseen, List.foldl_nil]

theorem nodup_observe (h : (items.map Prod.fst).Nodup) (v : α) (cnt : Nat) :
    ((observe cap items v cnt).map Prod.fst).Nodup := by
  unfold observe
  split_ifs with hv
  · rw [map_fst_recount]
    exact h
  · exact nodup_place h hv

theorem nodup_listing (cap : Nat) (weigh : List α → α → Nat) (s : List α) :
    ((listing cap weigh s).map Prod.fst).Nodup := by
  induction s using List.reverseRecOn with
  | nil => exact List.nodup_nil
  | append_singleton s v ih =>
      rw [listing_snoc]
      exact nodup_observe ih v _

/-- With true counts the list holds the most frequent elements. -/
theorem tracks_listing [BEq α] [LawfulBEq α]
    (h : ∀ t v, t ++ [v] <+: s → weigh (t ++ [v]) v = t.count v + 1) :
    Tracks cap s (listing cap weigh s) := by
  induction s using List.reverseRecOn with
  | nil => exact tracks_nil cap
  | append_singleton s v ih =>
      have hbefore := ih fun t v htv => h t v (htv.trans (List.prefix_append s _))
      rw [listing_snoc, h s v (List.prefix_refl _)]
      exact hbefore.observe v

/-! ## Lists with room for every element -/

/-- An element that occurs for the first time counts for no more than any before it did when it
last occurred. -/
def NewcomersLight (weigh : List α → α → Nat) (s : List α) : Prop :=
  ∀ t v, t ++ [v] <+: s → v ∉ t → ∀ u c, LastWeight weigh t u c → weigh (t ++ [v]) v ≤ c

/-- The list has every element of the stream once and no other one. -/
def ListsOnce (s listed : List α) : Prop := listed.Nodup ∧ ∀ v, v ∈ listed ↔ v ∈ s

/-- A listed element has the count of its last occurrence. -/
theorem listing_lastWeight (cap : Nat) (weigh : List α → α → Nat) (s : List α) :
    ∀ p ∈ listing cap weigh s, LastWeight weigh s p.1 p.2 := by
  induction s using List.reverseRecOn with
  | nil => exact fun p hp => absurd hp List.not_mem_nil
  | append_singleton s v ih =>
      intro p hp
      rw [listing_snoc] at hp
      unfold observe at hp
      split_ifs at hp with hv
      · have ⟨q, hq, hqp⟩ := List.mem_map.mp hp
        by_cases hqv : q.1 = v
        · rw [if_pos hqv] at hqp
          rw [← hqp]
          exact lastWeight_snoc weigh s v
        · rw [if_neg hqv] at hqp
          rw [← hqp]
          exact (ih q hq).snoc hqv
      · rcases mem_place hp with heq | hold
        · rw [heq]
          exact lastWeight_snoc weigh s v
        · exact (ih p hold).snoc fun heq => hv (heq ▸ List.mem_map_of_mem hold)

theorem ListsOnce.length_eq {listed : List α} (h : ListsOnce s listed) :
    listed.length = s.dedup.length := by
  have hperm : listed.Perm s.dedup := by
    rw [List.perm_ext_iff_of_nodup h.1 s.nodup_dedup]
    intro v
    rw [List.mem_dedup]
    exact h.2 v
  exact hperm.length_eq

/-- An element that is listed, or that is new and not heavier than the others, leaves every
element listed. -/
theorem ListsOnce.observe (h : ListsOnce t (items.map Prod.fst))
    (hfew : (t ++ [v]).dedup.length ≤ cap) (hlight : v ∉ t → ∀ p ∈ items, cnt ≤ p.2) :
    ListsOnce (t ++ [v]) ((observe cap items v cnt).map Prod.fst) := by
  refine ⟨nodup_observe h.1 v cnt, fun u => ?_⟩
  rw [List.mem_append, List.mem_singleton, ← h.2]
  unfold FrequentList.observe
  split_ifs with hv
  · rw [map_fst_recount]
    constructor
    · exact .inl
    · intro hu
      rcases hu with hold | heq
      · exact hold
      · rw [heq]
        exact hv
  · have hnew : v ∉ t := mt (h.2 v).mpr hv
    have hlength := h.length_eq
    rw [List.length_map] at hlength
    have hroom : cap - items.length ≠ 0 := by
      have hmore : (v :: t.dedup).length ≤ (t ++ [v]).dedup.length := by
        apply List.Subperm.length_le
        apply List.subperm_of_subset
        · exact List.nodup_cons.mpr ⟨mt List.mem_dedup.mp hnew, t.nodup_dedup⟩
        · intro w hw
          rw [List.mem_dedup, List.mem_append, List.mem_singleton]
          rcases List.mem_cons.mp hw with heq | hold
          · exact .inr heq
          · exact .inl (List.mem_dedup.mp hold)
      rw [List.length_cons] at hmore
      omega
    rw [place_of_le (hlight hnew), if_neg hroom, List.map_append, List.mem_append, List.map_cons,
      List.map_nil, List.mem_singleton]

/-- A new element that is heavier than a listed one takes the place of a listed one. -/
theorem ListsOnce.not_observe (h : ListsOnce t (items.map Prod.fst)) (hv : v ∉ t) {p : α × Nat}
    (hp : p ∈ items) (hlt : p.2 < cnt) :
    ¬ ListsOnce (t ++ [v]) ((FrequentList.observe cap items v cnt).map Prod.fst) := by
  intro hafter
  have hnot : v ∉ items.map Prod.fst := mt (h.2 v).mp hv
  rcases le_or_exists_first_lt cnt items with hall | ⟨before, q, after, heq, hbefore, hq⟩
  · exact absurd hlt (not_lt.mpr (hall p hp))
  · have hqmem : q.1 ∈ items.map Prod.fst := by
      rw [heq]
      exact List.mem_map_of_mem (List.mem_append_right _ List.mem_cons_self)
    have hlisted := (hafter.2 q.1).mpr (List.mem_append_left _ ((h.2 q.1).mp hqmem))
    have hnodup := h.1
    rw [heq, List.map_append, List.map_cons, List.nodup_middle, List.nodup_cons] at hnodup
    have hne : q.1 ≠ v := fun hqv => hnot (hqv ▸ hqmem)
    rw [FrequentList.observe, if_neg hnot, heq, place_append hbefore hq, List.map_append,
      List.map_cons, List.mem_append, List.mem_cons] at hlisted
    rcases hlisted with hin | hsame | hin
    · exact hnodup.1 (List.mem_append_left _ hin)
    · exact hne hsame
    · exact hnodup.1 (List.mem_append_right _ hin)

/-- While there is room for every element, the list has every element of the stream so far just
where no newcomer is heavier than an element before it. -/
theorem listing_listsOnce_iff (hfew : s.dedup.length ≤ cap) :
    (∀ t, t <+: s → ListsOnce t ((listing cap weigh t).map Prod.fst)) ↔
      NewcomersLight weigh s := by
  constructor
  · intro hall t v htv hv u c hc
    have hbefore := hall t ((List.prefix_append t [v]).trans htv)
    have hafter := hall (t ++ [v]) htv
    rw [listing_snoc] at hafter
    by_contra hlt
    have ⟨t₁, t₂, ht, _, _⟩ := hc
    have hu : u ∈ t := ht ▸ List.mem_append_right t₁ List.mem_cons_self
    have ⟨p, hp, hpu⟩ := List.mem_map.mp ((hbefore.2 u).mpr hu)
    have hlast := listing_lastWeight cap weigh t p hp
    rw [hpu] at hlast
    have hcount : p.2 < weigh (t ++ [v]) v := by
      rw [hlast.unique hc]
      exact not_le.mp hlt
    exact hbefore.not_observe hv hp hcount hafter
  · intro hlight t ht
    induction t using List.reverseRecOn with
    | nil => exact ⟨List.nodup_nil, fun v => Iff.rfl⟩
    | append_singleton t v ih =>
        have hbefore := ih ((List.prefix_append t [v]).trans ht)
        have hle : (t ++ [v]).dedup.length ≤ s.dedup.length := by
          apply List.Subperm.length_le
          apply List.subperm_of_subset (List.nodup_dedup _)
          intro w hw
          exact List.mem_dedup.mpr (ht.subset (List.mem_dedup.mp hw))
        rw [listing_snoc]
        apply hbefore.observe (hle.trans hfew)
        intro hv p hp
        exact hlight t v ht hv p.1 p.2 (listing_lastWeight cap weigh t p hp)

end Madlib.Lib.FrequentList
