import Mathlib

/-!
# Relations as multisets of rows

Grouping, joins, and the union that removes duplicates.  What a query returns is determined by its
rows and by how often each occurs, so most facts are about membership and about being free of
duplicates.
-/

namespace Madlib.Lib.Relation

variable {ρ σ κ : Type}

/-- The keys that occur, each with the rows that have it. -/
def groupBy [DecidableEq κ] (key : ρ → κ) (rows : Multiset ρ) : Multiset (κ × Multiset ρ) :=
  (rows.map key).dedup.map fun k => (k, rows.filter fun row => key row = k)

/-- The matches of a row on the left, or NULL when there is none. -/
def outerMatches (on : ρ → σ → Bool) (right : Multiset σ) (l : ρ) : Multiset (Option σ) :=
  if (right.filter fun r => on l r).card = 0 then {none}
  else (right.filter fun r => on l r).map some

def leftJoin (on : ρ → σ → Bool) (left : Multiset ρ) (right : Multiset σ) :
    Multiset (ρ × Option σ) :=
  left.bind fun l => (outerMatches on right l).map (Prod.mk l)

def innerJoin (on : ρ → σ → Bool) (left : Multiset ρ) (right : Multiset σ) : Multiset (ρ × σ) :=
  (left ×ˢ right).filter fun pair => on pair.1 pair.2

/-- All rows of both, each once. -/
def union [DecidableEq ρ] (rows rows' : Multiset ρ) : Multiset ρ :=
  (rows + rows').dedup

/-- The numbers from 1 up to the last one. -/
def generateSeries (last : ℤ) : Multiset ℕ :=
  (Multiset.range last.toNat).map (· + 1)

theorem mem_generateSeries {last : ℤ} {i : ℕ} :
    i ∈ generateSeries last ↔ 1 ≤ i ∧ (i : ℤ) ≤ last := by
  unfold generateSeries
  rw [Multiset.mem_map]
  constructor
  · rintro ⟨j, hj, rfl⟩
    rw [Multiset.mem_range] at hj
    omega
  · intro h
    refine ⟨i - 1, ?_, by omega⟩
    rw [Multiset.mem_range]
    omega

theorem nodup_generateSeries (last : ℤ) : (generateSeries last).Nodup :=
  (Multiset.nodup_range _).map (add_left_injective 1)

@[simp] theorem card_generateSeries (last : ℤ) : (generateSeries last).card = last.toNat := by
  simp [generateSeries]

theorem mem_union [DecidableEq ρ] {rows rows' : Multiset ρ} {row : ρ} :
    row ∈ union rows rows' ↔ row ∈ rows ∨ row ∈ rows' := by
  rw [union, Multiset.mem_dedup, Multiset.mem_add]

theorem nodup_union [DecidableEq ρ] (rows rows' : Multiset ρ) : (union rows rows').Nodup :=
  Multiset.nodup_dedup _

section Groups

variable [DecidableEq κ] {key : ρ → κ} {rows : Multiset ρ}

theorem mem_groupBy {group : κ × Multiset ρ} : group ∈ groupBy key rows ↔
    (∃ row ∈ rows, key row = group.1) ∧ group.2 = rows.filter fun row => key row = group.1 := by
  unfold groupBy
  simp only [Multiset.mem_map, Multiset.mem_dedup]
  constructor
  · rintro ⟨k, hk, rfl⟩
    exact ⟨hk, rfl⟩
  · rintro ⟨hk, hrows⟩
    exact ⟨group.1, hk, Prod.ext rfl hrows.symm⟩

/-- The rows of a table that has one row for each group. -/
theorem mem_groupBy_map {f : κ × Multiset ρ → σ} {y : σ} : y ∈ (groupBy key rows).map f ↔
    ∃ row ∈ rows, f (key row, rows.filter fun other => key other = key row) = y := by
  unfold groupBy
  simp only [Multiset.mem_map, Multiset.mem_dedup]
  constructor
  · rintro ⟨group, ⟨k, ⟨row, hrow, rfl⟩, rfl⟩, rfl⟩
    exact ⟨row, hrow, rfl⟩
  · rintro ⟨row, hrow, rfl⟩
    exact ⟨_, ⟨key row, ⟨row, hrow, rfl⟩, rfl⟩, rfl⟩

theorem nodup_groupBy_map_fst : ((groupBy key rows).map Prod.fst).Nodup := by
  unfold groupBy
  rw [Multiset.map_map]
  simp

/-- A table with one row for each group has no duplicates. -/
theorem nodup_groupBy_map {f : κ × Multiset ρ → σ} {g : σ → κ}
    (h : ∀ group, g (f group) = group.1) : ((groupBy key rows).map f).Nodup := by
  refine Multiset.Nodup.of_map g ?_
  rw [Multiset.map_map]
  have hfst : g ∘ f = Prod.fst := funext h
  rw [hfst]
  exact nodup_groupBy_map_fst

theorem groupBy_eq : groupBy key rows =
    (rows.map key).dedup.map fun k => (k, rows.filter fun row => key row = k) := rfl

/-- The groups have all the rows. -/
theorem sum_card_groupBy : ((groupBy key rows).map fun group => group.2.card).sum = rows.card := by
  have hcount := Multiset.toFinset_sum_count_eq (rows.map key)
  rw [Multiset.card_map] at hcount
  rw [← hcount, Finset.sum, Multiset.toFinset_val, groupBy_eq, Multiset.map_map]
  refine congrArg Multiset.sum (Multiset.map_congr rfl fun k _ => ?_)
  rw [Multiset.count_map]
  simp only [Function.comp_apply, eq_comm]

end Groups

section Products

variable {left : Multiset ρ} {right : Multiset σ}

theorem product_filter_right (q : σ → Prop) [DecidablePred q] :
    left ×ˢ right.filter q = (left ×ˢ right).filter fun pair => q pair.2 := by
  induction left using Multiset.induction_on with
  | empty => rfl
  | cons l left ih =>
      rw [Multiset.cons_product, Multiset.cons_product, Multiset.filter_add, ih,
        Multiset.filter_map]
      rfl

theorem product_map_right {τ : Type} (f : σ → τ) :
    left ×ˢ right.map f = (left ×ˢ right).map (Prod.map id f) := by
  induction left using Multiset.induction_on with
  | empty => rfl
  | cons l left ih =>
      rw [Multiset.cons_product, Multiset.cons_product, Multiset.map_add, ih, Multiset.map_map,
        Multiset.map_map]
      rfl

/-- Pairs whose first component is fixed. -/
theorem filter_product_of_fst {p : ρ × σ → Prop} [DecidablePred p] {a : ρ} (hleft : left.Nodup)
    (ha : a ∈ left) (hp : ∀ pair ∈ left ×ˢ right, p pair → pair.1 = a) :
    (left ×ˢ right).filter p = (right.filter fun r => p (a, r)).map (Prod.mk a) := by
  obtain ⟨rest, rfl⟩ := Multiset.exists_cons_of_mem ha
  have hrest : (rest ×ˢ right).filter p = 0 := by
    refine Multiset.filter_eq_nil.mpr fun pair hpair hholds => ?_
    have hmem : pair ∈ (a ::ₘ rest) ×ˢ right := by
      rw [Multiset.cons_product]
      exact Multiset.mem_add.mpr (.inr hpair)
    have hfst : a ∈ rest := hp pair hmem hholds ▸ (Multiset.mem_product.mp hpair).1
    exact (Multiset.nodup_cons.mp hleft).1 hfst
  rw [Multiset.cons_product, Multiset.filter_add, hrest, add_zero, Multiset.filter_map]
  rfl

end Products

section Joins

variable {on : ρ → σ → Bool} {left : Multiset ρ} {right : Multiset σ}

theorem mem_innerJoin {pair : ρ × σ} : pair ∈ innerJoin on left right ↔
    (pair.1 ∈ left ∧ pair.2 ∈ right) ∧ on pair.1 pair.2 = true := by
  unfold innerJoin
  rw [Multiset.mem_filter, Multiset.mem_product]

theorem nodup_innerJoin (hleft : left.Nodup) (hright : right.Nodup) :
    (innerJoin on left right).Nodup :=
  (hleft.product hright).filter _

theorem mem_outerMatches {l : ρ} {m : Option σ} : m ∈ outerMatches on right l ↔
    (m = none ∧ ∀ r ∈ right, on l r = false) ∨ ∃ r ∈ right, on l r = true ∧ m = some r := by
  unfold outerMatches
  by_cases hzero : (right.filter fun r => on l r).card = 0
  · have hnone : ∀ r ∈ right, on l r = false := by
      intro r hr
      have hnot := Multiset.filter_eq_nil.mp (Multiset.card_eq_zero.mp hzero) r hr
      exact Bool.eq_false_iff.mpr hnot
    rw [if_pos hzero, Multiset.mem_singleton]
    constructor
    · intro h
      exact .inl ⟨h, hnone⟩
    · rintro (⟨h, -⟩ | ⟨r, hr, hon, -⟩)
      · exact h
      · rw [hnone r hr] at hon
        cases hon
  · obtain ⟨r₀, hr₀⟩ := Multiset.card_pos_iff_exists_mem.mp (Nat.pos_of_ne_zero hzero)
    rw [if_neg hzero, Multiset.mem_map]
    constructor
    · rintro ⟨r, hr, rfl⟩
      obtain ⟨hr, hon⟩ := Multiset.mem_filter.mp hr
      exact .inr ⟨r, hr, hon, rfl⟩
    · rintro (⟨-, hnone⟩ | ⟨r, hr, hon, rfl⟩)
      · obtain ⟨hr₀, hon⟩ := Multiset.mem_filter.mp hr₀
        rw [hnone r₀ hr₀] at hon
        cases hon
      · exact ⟨r, Multiset.mem_filter.mpr ⟨hr, hon⟩, rfl⟩

variable (on right) in
theorem exists_mem_outerMatches (l : ρ) : ∃ m, m ∈ outerMatches on right l := by
  by_cases h : ∃ r ∈ right, on l r = true
  · obtain ⟨r, hr, hon⟩ := h
    exact ⟨some r, mem_outerMatches.mpr (.inr ⟨r, hr, hon, rfl⟩)⟩
  · refine ⟨none, mem_outerMatches.mpr (.inl ⟨rfl, fun r hr => ?_⟩)⟩
    exact Bool.eq_false_iff.mpr fun hon => h ⟨r, hr, hon⟩

/-- A row with at most one match is joined in one way. -/
theorem outerMatches_unique {l : ρ} (hunique : ∀ r ∈ right, ∀ r' ∈ right, on l r = true →
    on l r' = true → r = r') {m m' : Option σ} (hm : m ∈ outerMatches on right l)
    (hm' : m' ∈ outerMatches on right l) : m = m' := by
  rcases mem_outerMatches.mp hm with ⟨rfl, hnone⟩ | ⟨r, hr, hon, rfl⟩
  · rcases mem_outerMatches.mp hm' with ⟨rfl, -⟩ | ⟨r', hr', hon', rfl⟩
    · rfl
    · rw [hnone r' hr'] at hon'
      cases hon'
  · rcases mem_outerMatches.mp hm' with ⟨rfl, hnone⟩ | ⟨r', hr', hon', rfl⟩
    · rw [hnone r hr] at hon
      cases hon
    · rw [hunique r hr r' hr' hon hon']

theorem mem_leftJoin {row : ρ × Option σ} : row ∈ leftJoin on left right ↔
    row.1 ∈ left ∧ row.2 ∈ outerMatches on right row.1 := by
  unfold leftJoin
  simp only [Multiset.mem_bind, Multiset.mem_map]
  constructor
  · rintro ⟨l, hl, m, hm, rfl⟩
    exact ⟨hl, hm⟩
  · rintro ⟨hl, hm⟩
    exact ⟨row.1, hl, row.2, hm, rfl⟩

theorem nodup_outerMatches (hright : right.Nodup) (l : ρ) : (outerMatches on right l).Nodup := by
  unfold outerMatches
  split_ifs
  · exact Multiset.nodup_singleton none
  · exact (hright.filter _).map (Option.some_injective σ)

theorem nodup_leftJoin (hleft : left.Nodup) (hright : right.Nodup) :
    (leftJoin on left right).Nodup := by
  refine Multiset.nodup_bind.mpr ⟨?_, ?_⟩
  · intro l _
    exact (nodup_outerMatches hright l).map (Prod.mk_right_injective l)
  · refine hleft.pairwise fun l _ l' _ hne => ?_
    refine Multiset.disjoint_map_map.mpr fun m _ m' _ heq => ?_
    exact hne (congrArg Prod.fst heq)

end Joins

end Madlib.Lib.Relation
