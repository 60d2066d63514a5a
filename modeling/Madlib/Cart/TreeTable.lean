import Madlib.Lib.Rounding

/-!
# The table of a decision tree

A node of a tree is a row.  The children of a node have consecutive identifiers, in the order of
the values of the feature the node is split by; a row holds the first of them that exists.  A
record is led from a node to a child by a jump to an identifier.
-/

namespace Madlib.Cart

open Madlib.Lib.Rounding

/-- A row of the tree table; the columns of `FLOAT` are finite. -/
structure TreeRow where
  id : ℤ
  treeLocation : List ℤ
  feature : ℤ
  probability : ℚ
  ebpCoeff : Option ℚ
  maxclass : ℤ
  scv : ℚ
  live : ℤ
  caseSize : Option ℤ
  parentId : ℤ
  lmcNid : Option ℤ
  lmcFval : Option ℤ
  isContinuous : Option Bool
  splitValue : Option ℚ
  tid : ℤ
  dpIds : Option (List ℤ)

/-- `array_upper(tree_location,1)` -/
def TreeRow.level (row : TreeRow) : ℕ := row.treeLocation.length

/-- A row of an encoded table; `fv` is the array of the features, as `float8`. -/
structure EncodedRow where
  id : ℤ
  fv : ℤ → Option ℚ
  cls : Option ℤ

/-- The position of the child among the possible ones, counted from one. -/
def TreeRow.branch (row : TreeRow) (fv : ℤ → Option ℚ) : Option ℚ :=
  if row.isContinuous = some true then do
    let splitValue ← row.splitValue
    let value ← fv row.feature
    pure ((if splitValue < value then 1 else 0) + 1)
  else fv row.feature

/-- `newjump`; no child has the identifier 0. -/
def TreeRow.newJump (row : TreeRow) (fv : ℤ → Option ℚ) : Option ℤ :=
  match row.lmcNid with
  | none => some 0
  | some lmcNid => do
      let branch ← row.branch fv
      let lmcFval ← row.lmcFval
      pure (nearestInt (lmcNid + branch - lmcFval))

/-- How many children a node can have; `distinctFeatures` is the number of the values of a
discrete feature. -/
def TreeRow.arity (distinctFeatures : ℤ → ℤ) (row : TreeRow) : ℤ :=
  if row.isContinuous = some true then 2 else distinctFeatures row.feature

/-- The identifier of a child, and its position, are as far from those of the first child. -/
structure IsChild (distinctFeatures : ℤ → ℤ) (p c : TreeRow) (i : ℤ) : Prop where
  tid_eq : c.tid = p.tid
  parentId_eq : c.parentId = p.id
  location_eq : c.treeLocation = p.treeLocation ++ [i]
  mem : 1 ≤ i ∧ i ≤ p.arity distinctFeatures

/-- The rows of a table are the nodes of trees. -/
structure IsForest (distinctFeatures : ℤ → ℤ) (tree : List TreeRow) : Prop where
  nodup : (tree.map TreeRow.id).Nodup
  id_pos : ∀ row ∈ tree, 0 < row.id
  root_level : ∀ row ∈ tree, row.parentId = 0 → row.level = 1
  root_unique : ∀ row ∈ tree, ∀ other ∈ tree, row.parentId = 0 → other.parentId = 0 →
    row.tid = other.tid → row = other
  parent : ∀ row ∈ tree, row.parentId ≠ 0 → ∃ p ∈ tree, ∃ i, IsChild distinctFeatures p row i
  leaf : ∀ p ∈ tree, p.lmcNid = none → ∀ row ∈ tree, row.parentId ≠ p.id
  inner : ∀ p ∈ tree, ∀ lmcNid, p.lmcNid = some lmcNid → ∃ lmcFval, p.lmcFval = some lmcFval ∧
    (∃ row ∈ tree, row.parentId = p.id) ∧
    ∀ row ∈ tree, ∀ i, 1 ≤ i → i ≤ p.arity distinctFeatures →
      row.id = lmcNid + i - lmcFval → IsChild distinctFeatures p row i
  split : ∀ p ∈ tree, p.lmcNid ≠ none → p.isContinuous = some true → p.splitValue ≠ none

/-- The discrete features a record is led by have values that were numbered. -/
def Encoded (distinctFeatures : ℤ → ℤ) (tree : List TreeRow) (fv : ℤ → Option ℚ) : Prop :=
  ∀ p ∈ tree, p.lmcNid ≠ none → p.isContinuous ≠ some true → ∀ value, fv p.feature = some value →
    ∃ i : ℤ, value = i ∧ 1 ≤ i ∧ i ≤ distinctFeatures p.feature

/-! ## The way of a record -/

section Way

variable {distinctFeatures : ℤ → ℤ} {tree : List TreeRow} {fv : ℤ → Option ℚ} {tid : ℤ}
variable {p q c : TreeRow}

/-- The nodes of a tree that a record is led through. -/
inductive Reaches (tree : List TreeRow) (fv : ℤ → Option ℚ) (tid : ℤ) : TreeRow → Prop
  | root {r : TreeRow} : r ∈ tree → r.parentId = 0 → r.tid = tid → Reaches tree fv tid r
  | child {p c : TreeRow} : Reaches tree fv tid p → p.newJump fv = some c.id → c ∈ tree →
      c.tid = tid → Reaches tree fv tid c

/-- A record is led to an identifier that no node of the tree has. -/
def StopsAt (tree : List TreeRow) (fv : ℤ → Option ℚ) (tid : ℤ) (leaf : TreeRow) : Prop :=
  Reaches tree fv tid leaf ∧
    ∃ jump, leaf.newJump fv = some jump ∧ ∀ row ∈ tree, row.tid = tid → row.id ≠ jump

theorem Reaches.mem (h : Reaches tree fv tid p) : p ∈ tree := by
  cases h with
  | root hmem => exact hmem
  | child _ _ hmem => exact hmem

theorem Reaches.tid_eq (h : Reaches tree fv tid p) : p.tid = tid := by
  cases h with
  | root _ _ htid => exact htid
  | child _ _ _ htid => exact htid

theorem IsForest.eq_of_id (h : IsForest distinctFeatures tree) (hp : p ∈ tree) (hq : q ∈ tree)
    (hid : p.id = q.id) : p = q :=
  List.inj_on_of_nodup_map h.nodup hp hq hid

theorem IsChild.level_eq {i : ℤ} (h : IsChild distinctFeatures p c i) : c.level = p.level + 1 := by
  unfold TreeRow.level
  rw [h.location_eq, List.length_append, List.length_singleton]

/-- Where a record is led from an inner node. -/
theorem newJump_of_branch (h : IsForest distinctFeatures tree)
    (hfv : Encoded distinctFeatures tree fv) (hp : p ∈ tree) {lmcNid lmcFval : ℤ} (hlmc : p.lmcNid = some lmcNid)
    (hfval : p.lmcFval = some lmcFval) {value : ℚ} (hvalue : fv p.feature = some value) :
    ∃ i, 1 ≤ i ∧ i ≤ p.arity distinctFeatures ∧ p.newJump fv = some (lmcNid + i - lmcFval) := by
  have hjump : ∀ i : ℤ, p.branch fv = some (i : ℚ) →
      p.newJump fv = some (lmcNid + i - lmcFval) := by
    intro i hi
    unfold TreeRow.newJump
    rw [hlmc, hfval, hi]
    show some (nearestInt (lmcNid + i - lmcFval)) = _
    have hcast : (lmcNid + i - lmcFval : ℚ) = ((lmcNid + i - lmcFval : ℤ) : ℚ) := by push_cast; rfl
    rw [hcast, nearestInt_intCast]
  have hinner : p.lmcNid ≠ none := by simp [hlmc]
  by_cases hcont : p.isContinuous = some true
  · obtain ⟨splitValue, hsplit⟩ := Option.ne_none_iff_exists'.mp (h.split p hp hinner hcont)
    have hbranch : p.branch fv =
        some (((if splitValue < value then 1 else 0) + 1 : ℤ) : ℚ) := by
      unfold TreeRow.branch
      rw [if_pos hcont, hsplit, hvalue]
      show some _ = _
      split <;> norm_num
    refine ⟨_, ?_, ?_, hjump _ hbranch⟩
    · split <;> norm_num
    · rw [TreeRow.arity, if_pos hcont]
      split <;> norm_num
  · obtain ⟨i, rfl, hlo, hhi⟩ := hfv p hp hinner hcont value hvalue
    refine ⟨i, hlo, ?_, hjump i ?_⟩
    · rwa [TreeRow.arity, if_neg hcont]
    · rw [TreeRow.branch, if_neg hcont, hvalue]

/-- A jump to a node leads to a child. -/
theorem isChild_of_newJump (h : IsForest distinctFeatures tree)
    (hfv : Encoded distinctFeatures tree fv) (hp : p ∈ tree) (hc : c ∈ tree)
    (hjump : p.newJump fv = some c.id) : ∃ i, IsChild distinctFeatures p c i := by
  cases hlmc : p.lmcNid with
  | none =>
      have hzero : p.newJump fv = some 0 := by
        unfold TreeRow.newJump
        rw [hlmc]
      have hid := h.id_pos c hc
      rw [hzero] at hjump
      rw [← Option.some.inj hjump] at hid
      exact absurd hid (lt_irrefl 0)
  | some lmcNid =>
      obtain ⟨lmcFval, hfval, -, hchild⟩ := h.inner p hp lmcNid hlmc
      cases hvalue : fv p.feature with
      | none =>
          have hnone : p.newJump fv = none := by
            unfold TreeRow.newJump TreeRow.branch
            rw [hlmc, hvalue]
            by_cases hcont : p.isContinuous = some true
            · rw [if_pos hcont]
              cases p.splitValue <;> rfl
            · rw [if_neg hcont]
              rfl
          rw [hnone] at hjump
          cases hjump
      | some value =>
          obtain ⟨i, hlo, hhi, hto⟩ := newJump_of_branch h hfv hp hlmc hfval hvalue
          rw [hjump] at hto
          exact ⟨i, hchild c hc i hlo hhi (Option.some.inj hto)⟩

theorem Reaches.one_le_level (h : IsForest distinctFeatures tree)
    (hfv : Encoded distinctFeatures tree fv) (hp : Reaches tree fv tid p) : 1 ≤ p.level := by
  cases hp with
  | root hmem hroot => exact (h.root_level p hmem hroot).ge
  | child hq hjump hmem =>
      obtain ⟨i, hchild⟩ := isChild_of_newJump h hfv hq.mem hmem hjump
      rw [hchild.level_eq]
      omega

/-- A record is led through one node of a level. -/
theorem Reaches.eq_of_level (h : IsForest distinctFeatures tree)
    (hfv : Encoded distinctFeatures tree fv) (hp : Reaches tree fv tid p)
    (hq : Reaches tree fv tid q) (hlevel : p.level = q.level) : p = q := by
  induction hp generalizing q with
  | @root p hmem hroot htid =>
      cases hq with
      | root hmem' hroot' htid' =>
          exact h.root_unique p hmem q hmem' hroot hroot' (htid.trans htid'.symm)
      | child hq' hjump hmem' =>
          obtain ⟨i, hchild⟩ := isChild_of_newJump h hfv hq'.mem hmem' hjump
          have hlo := hq'.one_le_level h hfv
          rw [h.root_level p hmem hroot, hchild.level_eq] at hlevel
          omega
  | @child p' p hp' hjump hmem htid ih =>
      obtain ⟨i, hchild⟩ := isChild_of_newJump h hfv hp'.mem hmem hjump
      cases hq with
      | root hmem' hroot' htid' =>
          have hlo := hp'.one_le_level h hfv
          rw [h.root_level q hmem' hroot', hchild.level_eq] at hlevel
          omega
      | @child q' _ hq' hjump' hmem' htid' =>
          obtain ⟨i', hchild'⟩ := isChild_of_newJump h hfv hq'.mem hmem' hjump'
          rw [hchild.level_eq, hchild'.level_eq, Nat.add_right_cancel_iff] at hlevel
          obtain rfl := ih hq' hlevel
          rw [hjump] at hjump'
          exact h.eq_of_id hmem hmem' (Option.some.inj hjump')

/-- A record that has stopped was led through no node behind. -/
theorem StopsAt.level_le (h : IsForest distinctFeatures tree)
    (hfv : Encoded distinctFeatures tree fv) (hp : StopsAt tree fv tid p)
    (hq : Reaches tree fv tid q) : q.level ≤ p.level := by
  induction hq with
  | @root q hmem hroot htid =>
      rw [h.root_level q hmem hroot]
      exact hp.1.one_le_level h hfv
  | @child q' q hq' hjump hmem htid ih =>
      obtain ⟨i, hchild⟩ := isChild_of_newJump h hfv hq'.mem hmem hjump
      rw [hchild.level_eq]
      rcases ih.lt_or_eq with hlt | heq
      · exact hlt
      · obtain rfl := hq'.eq_of_level h hfv hp.1 heq
        obtain ⟨jump, hto, hnone⟩ := hp.2
        rw [hjump] at hto
        exact absurd (Option.some.inj hto) (hnone q hmem htid)

theorem StopsAt.unique (h : IsForest distinctFeatures tree)
    (hfv : Encoded distinctFeatures tree fv) (hp : StopsAt tree fv tid p)
    (hq : StopsAt tree fv tid q) : p = q :=
  hp.1.eq_of_level h hfv hq.1 (le_antisymm (hq.level_le h hfv hp.1) (hp.level_le h hfv hq.1))

/-- A record with a value of every feature of the tree is led to an end. -/
theorem exists_stopsAt (h : IsForest distinctFeatures tree)
    (hfv : Encoded distinctFeatures tree fv) {r : TreeRow} (hr : r ∈ tree) (hroot : r.parentId = 0)
    (hvalues : ∀ p ∈ tree, p.tid = r.tid → p.lmcNid ≠ none → fv p.feature ≠ none) :
    ∃ leaf, StopsAt tree fv r.tid leaf := by
  classical
  -- a reached node of the largest level
  obtain ⟨leaf, hleaf, hmax⟩ := (tree.toFinset.filter (Reaches tree fv r.tid)).exists_max_image
    TreeRow.level ⟨r, by simpa using ⟨hr, Reaches.root hr hroot rfl⟩⟩
  rw [Finset.mem_filter, List.mem_toFinset] at hleaf
  obtain ⟨hmem, hreach⟩ := hleaf
  have hjump : ∃ jump, leaf.newJump fv = some jump := by
    cases hlmc : leaf.lmcNid with
    | none =>
        refine ⟨0, ?_⟩
        unfold TreeRow.newJump
        rw [hlmc]
    | some lmcNid =>
        obtain ⟨lmcFval, hfval, -⟩ := h.inner leaf hmem lmcNid hlmc
        obtain ⟨value, hvalue⟩ := Option.ne_none_iff_exists'.mp
          (hvalues leaf hmem hreach.tid_eq (by simp [hlmc]))
        obtain ⟨i, -, -, hto⟩ := newJump_of_branch h hfv hmem hlmc hfval hvalue
        exact ⟨_, hto⟩
  obtain ⟨jump, hto⟩ := hjump
  refine ⟨leaf, hreach, jump, hto, fun row hrow htid hid => ?_⟩
  rw [← hid] at hto
  obtain ⟨i, hchild⟩ := isChild_of_newJump h hfv hmem hrow hto
  have hle := hmax row (Finset.mem_filter.mpr
    ⟨List.mem_toFinset.mpr hrow, Reaches.child hreach hto hrow htid⟩)
  rw [hchild.level_eq] at hle
  omega

end Way

end Madlib.Cart
