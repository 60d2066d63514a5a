import Madlib.Backend
import Madlib.Cart.ClassifyInternal
import Madlib.Cart.TreeTable
import Madlib.Lib.BottomUp
import Madlib.Lib.Tables

/-!
# Pruning a tree table

Both ways to prune work in rounds: nodes whose children are all leaves are selected, the children
are deleted, and the nodes are made leaves.  What is left after some rounds is the table of the
nodes with no selected node above them, where the selected ones are leaves.
-/

namespace Madlib.Cart

open Madlib.Backend
open Madlib.Lib.BottomUp
open Madlib.Lib.Tables
open Relation

/-- The parents of the nodes with children. -/
def innerParents (tree : List TreeRow) : List ℤ :=
  (tree.filter fun row => row.lmcNid ≠ none).map TreeRow.parentId

/-- The nodes, apart from the first root, whose siblings are all leaves. -/
def lastNodes (tree : List TreeRow) : List TreeRow :=
  tree.filter fun row => row.parentId ∉ innerParents tree ∧ row.id ≠ 1

/-- The DELETE and the UPDATE of a round. -/
def pruneRows (selected : List ℤ) (toLeaf : TreeRow → TreeRow) (tree : List TreeRow) :
    List TreeRow :=
  (tree.filter fun row => row.parentId ∉ selected).map fun row =>
    if row.id ∈ selected then toLeaf row else row

/-- A node without children, with a class. -/
def TreeRow.asLeaf (row : TreeRow) (maxclass : ℤ) : TreeRow :=
  { row with lmcNid := none, lmcFval := none, maxclass := maxclass }

/-! ## What is left of a tree -/

/-- The nodes of a table and their children. -/
def ChildRow (tree : List TreeRow) (p c : TreeRow) : Prop :=
  p ∈ tree ∧ c ∈ tree ∧ c.parentId = p.id

/-- The rows of the children. -/
def childRows (tree : List TreeRow) (p : TreeRow) : List TreeRow :=
  tree.filter fun row => row.parentId = p.id

open Classical in
/-- The row of a node that is left. -/
noncomputable def prunedRow (cut : TreeRow → Prop) (cls : TreeRow → ℤ) (row : TreeRow) : TreeRow :=
  if cut row then row.asLeaf (cls row) else row

open Classical in
/-- The rows that are left. -/
noncomputable def prunedTree (tree : List TreeRow) (cut : TreeRow → Prop) (cls : TreeRow → ℤ) :
    List TreeRow :=
  (tree.filter fun row => Left (ChildRow tree) cut row).map (prunedRow cut cls)

section Pruned

variable {distinctFeatures : ℤ → ℤ} {tree : List TreeRow} {cut : TreeRow → Prop}
  {cls : TreeRow → ℤ} {row p c : TreeRow}

theorem prunedRow_of_cut (h : cut row) : prunedRow cut cls row = row.asLeaf (cls row) :=
  if_pos h

theorem prunedRow_of_uncut (h : ¬cut row) : prunedRow cut cls row = row :=
  if_neg h

/-- What pruning leaves as it is. -/
theorem prunedRow_fields (cut : TreeRow → Prop) (cls : TreeRow → ℤ) (row : TreeRow) :
    (prunedRow cut cls row).id = row.id ∧ (prunedRow cut cls row).parentId = row.parentId ∧
      (prunedRow cut cls row).tid = row.tid ∧
      (prunedRow cut cls row).treeLocation = row.treeLocation ∧
      (prunedRow cut cls row).ebpCoeff = row.ebpCoeff ∧
      (prunedRow cut cls row).feature = row.feature ∧
      (prunedRow cut cls row).isContinuous = row.isContinuous ∧
      (prunedRow cut cls row).splitValue = row.splitValue := by
  unfold prunedRow
  split
  · exact ⟨rfl, rfl, rfl, rfl, rfl, rfl, rfl, rfl⟩
  · exact ⟨rfl, rfl, rfl, rfl, rfl, rfl, rfl, rfl⟩

@[simp] theorem prunedRow_id : (prunedRow cut cls row).id = row.id :=
  (prunedRow_fields cut cls row).1

@[simp] theorem prunedRow_parentId : (prunedRow cut cls row).parentId = row.parentId :=
  (prunedRow_fields cut cls row).2.1

@[simp] theorem prunedRow_tid : (prunedRow cut cls row).tid = row.tid :=
  (prunedRow_fields cut cls row).2.2.1

@[simp] theorem prunedRow_treeLocation :
    (prunedRow cut cls row).treeLocation = row.treeLocation :=
  (prunedRow_fields cut cls row).2.2.2.1

@[simp] theorem prunedRow_ebpCoeff : (prunedRow cut cls row).ebpCoeff = row.ebpCoeff :=
  (prunedRow_fields cut cls row).2.2.2.2.1

theorem mem_prunedTree : row ∈ prunedTree tree cut cls ↔
    ∃ r ∈ tree, Left (ChildRow tree) cut r ∧ row = prunedRow cut cls r := by
  classical
  simp only [prunedTree, List.mem_map, List.mem_filter, decide_eq_true_eq]
  constructor
  · rintro ⟨r, ⟨hr, hleft⟩, rfl⟩
    exact ⟨r, hr, hleft, rfl⟩
  · rintro ⟨r, hr, hleft, rfl⟩
    exact ⟨r, ⟨hr, hleft⟩, rfl⟩

theorem mem_childRows (hp : p ∈ tree) :
    row ∈ childRows tree p ↔ ChildRow tree p row := by
  rw [childRows, List.mem_filter, decide_eq_true_eq]
  exact ⟨fun hrow => ⟨hp, hrow⟩, fun hrow => hrow.2⟩

theorem leftUnique_childRow (h : IsForest distinctFeatures tree) :
    Relator.LeftUnique (ChildRow tree) := by
  rintro p c q ⟨hp, -, hpc⟩ ⟨hq, -, hqc⟩
  exact h.eq_of_id hp hq (hpc.symm.trans hqc)

/-- A node has no children when no first child is noted in its row. -/
theorem childless_iff (h : IsForest distinctFeatures tree) (hp : p ∈ tree) :
    Childless (ChildRow tree) p ↔ p.lmcNid = none := by
  constructor
  · intro hnone
    cases hlmc : p.lmcNid with
    | none => rfl
    | some lmcNid =>
        obtain ⟨-, -, ⟨c, hc, hparent⟩, -⟩ := h.inner p hp lmcNid hlmc
        exact absurd ⟨hp, hc, hparent⟩ (hnone c)
  · rintro hlmc c ⟨-, hc, hparent⟩
    exact h.leaf p hp hlmc c hc hparent

theorem mem_of_ready (h : Ready (ChildRow tree) cut p) : p ∈ tree := by
  obtain ⟨c, hc⟩ := exists_child h.inner
  exact hc.1

theorem isChild_of_childRow (h : IsForest distinctFeatures tree) (hchild : ChildRow tree p c) :
    ∃ i, IsChild distinctFeatures p c i := by
  have hpos := h.id_pos p hchild.1
  obtain ⟨q, hq, i, hc⟩ := h.parent c hchild.2.1 (by rw [hchild.2.2]; exact hpos.ne')
  obtain rfl := h.eq_of_id hq hchild.1 (hc.parentId_eq.symm.trans hchild.2.2)
  exact ⟨i, hc⟩

/-- Before the first round. -/
theorem prunedTree_start : prunedTree tree (fun _ => False) cls = tree := by
  classical
  unfold prunedTree
  rw [List.filter_eq_self.mpr fun row _ => decide_eq_true left_start]
  calc
    tree.map (prunedRow (fun _ => False) cls) = tree.map id :=
      List.map_congr_left fun row _ => prunedRow_of_uncut id
    _ = tree := List.map_id tree

theorem prunedTree_congr {cut' : TreeRow → Prop}
    (hleft : ∀ r, Left (ChildRow tree) cut r ↔ Left (ChildRow tree) cut' r)
    (hcut : ∀ r, Left (ChildRow tree) cut r → (cut r ↔ cut' r)) :
    prunedTree tree cut cls = prunedTree tree cut' cls := by
  classical
  have hkept : (tree.filter fun row => Left (ChildRow tree) cut row) =
      tree.filter fun row => Left (ChildRow tree) cut' row :=
    List.filter_congr fun r _ => decide_eq_decide.mpr (hleft r)
  have hrows : ∀ r, Left (ChildRow tree) cut r → prunedRow cut cls r = prunedRow cut' cls r := by
    intro r hr
    by_cases hr' : cut r
    · rw [prunedRow_of_cut hr', prunedRow_of_cut ((hcut r hr).mp hr')]
    · rw [prunedRow_of_uncut hr', prunedRow_of_uncut (mt (hcut r hr).mpr hr')]
  rw [prunedTree, prunedTree, ← hkept]
  refine List.map_congr_left fun r hr => hrows r ?_
  exact of_decide_eq_true (List.mem_filter.mp hr).2

/-- When no ready node is worth it, the rounds have left the tree that is left by them all. -/
theorem prunedTree_final (h : IsForest distinctFeatures tree) {worth : TreeRow → Prop}
    (hrounds : Rounds (ChildRow tree) worth cut)
    (hfinal : ∀ p, Ready (ChildRow tree) cut p → ¬worth p) :
    prunedTree tree cut cls = prunedTree tree (Cut (ChildRow tree) worth) cls :=
  prunedTree_congr (fun _ => hrounds.left_iff hfinal (leftUnique_childRow h))
    fun _ hleft => hrounds.cut_iff hfinal (leftUnique_childRow h) hleft

/-! ## A round -/

/-- The nodes that a round makes leaves. -/
def Selected (tree : List TreeRow) (selected : List ℤ) (p : TreeRow) : Prop :=
  p ∈ tree ∧ p.id ∈ selected

/-- A round leaves the rows of the trees with the selected nodes cut. -/
theorem pruneRows_prunedTree {selected : List ℤ} {toLeaf : TreeRow → TreeRow}
    (hparent : ∀ id ∈ selected, ∃ p ∈ tree, p.id = id)
    (hready : ∀ p, Selected tree selected p → Ready (ChildRow tree) cut p)
    (hleaf : ∀ p, Selected tree selected p → toLeaf p = p.asLeaf (cls p)) :
    pruneRows selected toLeaf (prunedTree tree cut cls) =
      prunedTree tree (fun p => cut p ∨ Selected tree selected p) cls := by
  classical
  unfold pruneRows prunedTree
  rw [List.filter_map, List.filter_filter, List.map_map]
  have hkept : ∀ r ∈ tree, (decide ((prunedRow cut cls r).parentId ∉ selected) &&
      decide (Left (ChildRow tree) cut r)) =
      decide (Left (ChildRow tree) (fun p => cut p ∨ Selected tree selected p) r) := by
    intro r hr
    rw [prunedRow_parentId, ← Bool.decide_and, decide_eq_decide, left_round hready, and_comm]
    refine and_congr_right fun _ => ⟨?_, ?_⟩
    · rintro hout p ⟨-, -, hp⟩ ⟨-, hsel⟩
      exact hout (hp ▸ hsel)
    · intro hnone hsel
      obtain ⟨p, hp, hid⟩ := hparent _ hsel
      exact hnone p ⟨hp, hr, hid.symm⟩ ⟨hp, hid ▸ hsel⟩
  have hfilter : tree.filter (fun r => decide ((prunedRow cut cls r).parentId ∉ selected) &&
      decide (Left (ChildRow tree) cut r)) = tree.filter fun r =>
      decide (Left (ChildRow tree) (fun p => cut p ∨ Selected tree selected p) r) :=
    List.filter_congr hkept
  show ((tree.filter fun r => decide ((prunedRow cut cls r).parentId ∉ selected) &&
    decide (Left (ChildRow tree) cut r)).map _) = _
  rw [hfilter]
  apply List.map_congr_left
  intro r hr
  have hmem := List.mem_of_mem_filter hr
  show (if (prunedRow cut cls r).id ∈ selected then toLeaf (prunedRow cut cls r)
    else prunedRow cut cls r) = _
  rw [prunedRow_id]
  by_cases hsel : r.id ∈ selected
  · have huncut := (hready r ⟨hmem, hsel⟩).uncut
    rw [if_pos hsel, prunedRow_of_uncut huncut, hleaf r ⟨hmem, hsel⟩]
    exact (prunedRow_of_cut (.inr ⟨hmem, hsel⟩)).symm
  · rw [if_neg hsel]
    by_cases hcut : cut r
    · rw [prunedRow_of_cut hcut]
      exact (prunedRow_of_cut (.inl hcut)).symm
    · rw [prunedRow_of_uncut hcut]
      refine (prunedRow_of_uncut ?_).symm
      rintro (hin | ⟨-, hin⟩)
      · exact hcut hin
      · exact hsel hin

/-! ## The nodes that can be selected -/

/-- Only a root has the identifier 1. -/
def FirstRoot (tree : List TreeRow) : Prop := ∀ row ∈ tree, row.id = 1 → row.parentId = 0

theorem mem_innerParents {id : ℤ} :
    id ∈ innerParents tree ↔ ∃ row ∈ tree, row.lmcNid ≠ none ∧ row.parentId = id := by
  simp only [innerParents, List.mem_map, List.mem_filter, decide_eq_true_eq, and_assoc]

/-- The parent of a last node is ready. -/
theorem ready_of_lastNode (h : IsForest distinctFeatures tree)
    (hc : c ∈ lastNodes (prunedTree tree cut cls)) (hp : p ∈ tree) (hparent : c.parentId = p.id) :
    Ready (ChildRow tree) cut p := by
  obtain ⟨hmem, hlast⟩ := List.mem_filter.mp hc
  rw [decide_eq_true_eq] at hlast
  obtain ⟨r, hr, hleft, rfl⟩ := mem_prunedTree.mp hmem
  rw [prunedRow_parentId] at hparent hlast
  have hchild : ChildRow tree p r := ⟨hp, hr, hparent⟩
  have huncut : ¬cut p := hleft p (.single hchild)
  refine ⟨hleft.parent hchild, huncut, fun hnone => hnone r hchild, fun q hq hinner => ?_⟩
  by_contra hqcut
  refine hlast.1 (mem_innerParents.mpr ⟨q, mem_prunedTree.mpr ⟨q, hq.2.1, ?_, ?_⟩, ?_, ?_⟩)
  · exact (hleft.parent hchild).of_parent (leftUnique_childRow h) huncut hq
  · exact (prunedRow_of_uncut hqcut).symm
  · exact mt (childless_iff h hq.2.1).mpr hinner
  · rw [hq.2.2, hparent]

/-- The last nodes below a node that is ready are all its children. -/
theorem lastNodes_of_ready (h : IsForest distinctFeatures tree) (hroot : FirstRoot tree)
    (hready : Ready (ChildRow tree) cut p) :
    (lastNodes (prunedTree tree cut cls)).filter (fun row => row.parentId = p.id) =
      (childRows tree p).map (prunedRow cut cls) := by
  classical
  have hp := mem_of_ready hready
  have hlast : p.id ∉ innerParents (prunedTree tree cut cls) := by
    rw [mem_innerParents]
    rintro ⟨row, hrow, hlmc, hparent⟩
    obtain ⟨r, hr, -, rfl⟩ := mem_prunedTree.mp hrow
    rw [prunedRow_parentId] at hparent
    by_cases hcut : cut r
    · rw [prunedRow_of_cut hcut] at hlmc
      exact hlmc rfl
    · rw [prunedRow_of_uncut hcut] at hlmc
      exact hcut (hready.children r ⟨hp, hr, hparent⟩ (mt (childless_iff h hr).mp hlmc))
  unfold lastNodes
  rw [List.filter_filter]
  unfold prunedTree at hlast ⊢
  rw [List.filter_map, List.filter_filter, childRows]
  congr 1
  apply List.filter_congr
  intro r hr
  show (decide ((prunedRow cut cls r).parentId = p.id) &&
    decide ((prunedRow cut cls r).parentId ∉ innerParents _ ∧ (prunedRow cut cls r).id ≠ 1) &&
    decide (Left (ChildRow tree) cut r)) = decide (r.parentId = p.id)
  rw [prunedRow_parentId, prunedRow_id, ← Bool.decide_and, ← Bool.decide_and, decide_eq_decide]
  constructor
  · exact fun hall => hall.1.1
  · intro hparent
    have hpos := h.id_pos p hp
    refine ⟨⟨hparent, hparent ▸ hlast, fun hone => ?_⟩, ?_⟩
    · have hzero := hroot r hr hone
      omega
    · exact hready.left.of_parent (leftUnique_childRow h) hready.uncut ⟨hp, hr, hparent⟩

/-! ## What is left is a table of trees -/

theorem prunedRow_lmcNid_iff {lmcNid : ℤ} : (prunedRow cut cls row).lmcNid = some lmcNid ↔
    ¬cut row ∧ row.lmcNid = some lmcNid := by
  by_cases hcut : cut row
  · rw [prunedRow_of_cut hcut]
    simp [hcut, TreeRow.asLeaf]
  · rw [prunedRow_of_uncut hcut]
    simp [hcut]

theorem prunedRow_arity : (prunedRow cut cls row).arity distinctFeatures =
    row.arity distinctFeatures := by
  obtain ⟨-, -, -, -, -, hfeature, hcont, -⟩ := prunedRow_fields cut cls row
  rw [TreeRow.arity, TreeRow.arity, hfeature, hcont]

theorem IsChild.pruned {i : ℤ} (h : IsChild distinctFeatures p c i) :
    IsChild distinctFeatures (prunedRow cut cls p) (prunedRow cut cls c) i where
  tid_eq := by rw [prunedRow_tid, prunedRow_tid, h.tid_eq]
  parentId_eq := by rw [prunedRow_parentId, prunedRow_id, h.parentId_eq]
  location_eq := by rw [prunedRow_treeLocation, prunedRow_treeLocation, h.location_eq]
  mem := by
    rw [prunedRow_arity]
    exact h.mem

theorem isForest_prunedTree (h : IsForest distinctFeatures tree) :
    IsForest distinctFeatures (prunedTree tree cut cls) where
  nodup := by
    classical
    rw [prunedTree, List.map_map]
    have hid : TreeRow.id ∘ prunedRow cut cls = TreeRow.id := funext fun row => prunedRow_id
    rw [hid]
    exact h.nodup.sublist (List.filter_sublist.map _)
  id_pos row hrow := by
    obtain ⟨r, hr, -, rfl⟩ := mem_prunedTree.mp hrow
    rw [prunedRow_id]
    exact h.id_pos r hr
  root_level row hrow hparent := by
    obtain ⟨r, hr, -, rfl⟩ := mem_prunedTree.mp hrow
    rw [prunedRow_parentId] at hparent
    rw [TreeRow.level, prunedRow_treeLocation]
    exact h.root_level r hr hparent
  root_unique row hrow other hother hparent hparent' htid := by
    obtain ⟨r, hr, -, rfl⟩ := mem_prunedTree.mp hrow
    obtain ⟨r', hr', -, rfl⟩ := mem_prunedTree.mp hother
    rw [prunedRow_parentId] at hparent hparent'
    rw [prunedRow_tid, prunedRow_tid] at htid
    rw [h.root_unique r hr r' hr' hparent hparent' htid]
  parent row hrow hparent := by
    obtain ⟨r, hr, hleft, rfl⟩ := mem_prunedTree.mp hrow
    rw [prunedRow_parentId] at hparent
    obtain ⟨p, hp, i, hchild⟩ := h.parent r hr hparent
    have hp' : prunedRow cut cls p ∈ prunedTree tree cut cls :=
      mem_prunedTree.mpr ⟨p, hp, hleft.parent ⟨hp, hr, hchild.parentId_eq⟩, rfl⟩
    exact ⟨_, hp', i, hchild.pruned⟩
  leaf p hp hlmc row hrow hparent := by
    obtain ⟨r, hr, hleft, rfl⟩ := mem_prunedTree.mp hp
    obtain ⟨c, hc, hleft', rfl⟩ := mem_prunedTree.mp hrow
    rw [prunedRow_parentId, prunedRow_id] at hparent
    have huncut : ¬cut r := hleft' r (.single ⟨hr, hc, hparent⟩)
    rw [prunedRow_of_uncut huncut] at hlmc
    exact h.leaf r hr hlmc c hc hparent
  inner p hp lmcNid hlmc := by
    obtain ⟨r, hr, hleft, rfl⟩ := mem_prunedTree.mp hp
    obtain ⟨huncut, hlmc⟩ := prunedRow_lmcNid_iff.mp hlmc
    obtain ⟨lmcFval, hfval, ⟨c, hc, hparent⟩, hchildren⟩ := h.inner r hr lmcNid hlmc
    have hleft' := hleft.of_parent (leftUnique_childRow h) huncut ⟨hr, hc, hparent⟩
    refine ⟨lmcFval, ?_, ⟨_, mem_prunedTree.mpr ⟨c, hc, hleft', rfl⟩, ?_⟩, ?_⟩
    · rw [prunedRow_of_uncut huncut, hfval]
    · rw [prunedRow_parentId, prunedRow_id, hparent]
    · intro row hrow i hlo hhi hid
      obtain ⟨d, hd, -, rfl⟩ := mem_prunedTree.mp hrow
      rw [prunedRow_id] at hid
      rw [prunedRow_arity] at hhi
      exact (hchildren d hd i hlo hhi hid).pruned
  split p hp hlmc hcont := by
    obtain ⟨r, hr, -, rfl⟩ := mem_prunedTree.mp hp
    obtain ⟨lmcNid, hlmc⟩ := Option.ne_none_iff_exists'.mp hlmc
    obtain ⟨huncut, hlmc⟩ := prunedRow_lmcNid_iff.mp hlmc
    rw [prunedRow_of_uncut huncut] at hcont ⊢
    exact h.split r hr (by simp [hlmc]) hcont

/-! ## The way of a record -/

variable {fv : ℤ → Option ℚ} {tid : ℤ}

theorem newJump_asLeaf (row : TreeRow) (maxclass : ℤ) :
    (row.asLeaf maxclass).newJump fv = some 0 :=
  rfl

theorem childRow_of_newJump (h : IsForest distinctFeatures tree)
    (hfv : Encoded distinctFeatures tree fv) (hp : p ∈ tree) (hc : c ∈ tree)
    (hjump : p.newJump fv = some c.id) : ChildRow tree p c := by
  obtain ⟨i, hchild⟩ := isChild_of_newJump h hfv hp hc hjump
  exact ⟨hp, hc, hchild.parentId_eq⟩

/-- A record is led through the nodes of its way that are left. -/
theorem reaches_prunedTree (h : IsForest distinctFeatures tree)
    (hfv : Encoded distinctFeatures tree fv) :
    Reaches (prunedTree tree cut cls) fv tid row ↔
      ∃ r, Reaches tree fv tid r ∧ Left (ChildRow tree) cut r ∧ row = prunedRow cut cls r := by
  constructor
  · intro hreach
    induction hreach with
    | @root row hrow hparent htid =>
        obtain ⟨r, hr, hleft, rfl⟩ := mem_prunedTree.mp hrow
        rw [prunedRow_parentId] at hparent
        rw [prunedRow_tid] at htid
        exact ⟨r, .root hr hparent htid, hleft, rfl⟩
    | @child p c hp hjump hc htid ih =>
        obtain ⟨q, hq, -, rfl⟩ := ih
        obtain ⟨r, hr, hleft, rfl⟩ := mem_prunedTree.mp hc
        rw [prunedRow_tid] at htid
        rw [prunedRow_id] at hjump
        have huncut : ¬cut q := by
          intro hcut
          have hpos := h.id_pos r hr
          rw [prunedRow_of_cut hcut, newJump_asLeaf] at hjump
          rw [← Option.some.inj hjump] at hpos
          exact absurd hpos (lt_irrefl 0)
        rw [prunedRow_of_uncut huncut] at hjump
        exact ⟨r, .child hq hjump hr htid, hleft, rfl⟩
  · rintro ⟨r, hreach, hleft, rfl⟩
    induction hreach with
    | @root r hr hparent htid =>
        refine .root (mem_prunedTree.mpr ⟨r, hr, hleft, rfl⟩) ?_ ?_
        · rw [prunedRow_parentId, hparent]
        · rw [prunedRow_tid, htid]
    | @child p c hp hjump hc htid ih =>
        have hchild := childRow_of_newJump h hfv hp.mem hc hjump
        have huncut : ¬cut p := hleft p (.single hchild)
        have hreach := ih (hleft.parent hchild)
        rw [prunedRow_of_uncut huncut] at hreach
        refine .child hreach ?_ (mem_prunedTree.mpr ⟨c, hc, hleft, rfl⟩) ?_
        · rw [prunedRow_id, hjump]
        · rw [prunedRow_tid, htid]

/-- The first node of the way of a record that is cut, or the end of the way. -/
structure EndsAt (tree : List TreeRow) (cut : TreeRow → Prop) (fv : ℤ → Option ℚ) (tid : ℤ)
    (r : TreeRow) : Prop where
  reaches : Reaches tree fv tid r
  left : Left (ChildRow tree) cut r
  leaf : cut r ∨ StopsAt tree fv tid r

/-- A record stops at the first node of its way that is cut, or at the end of its way. -/
theorem stopsAt_prunedTree (h : IsForest distinctFeatures tree)
    (hfv : Encoded distinctFeatures tree fv) :
    StopsAt (prunedTree tree cut cls) fv tid row ↔
      ∃ r, EndsAt tree cut fv tid r ∧ row = prunedRow cut cls r := by
  constructor
  · rintro ⟨hreach, jump, hjump, hnone⟩
    obtain ⟨r, hr, hleft, rfl⟩ := (reaches_prunedTree h hfv).mp hreach
    refine ⟨r, ⟨hr, hleft, ?_⟩, rfl⟩
    by_cases hcut : cut r
    · exact .inl hcut
    · rw [prunedRow_of_uncut hcut] at hjump
      refine .inr ⟨hr, jump, hjump, fun c hc htid hid => ?_⟩
      have hchild := childRow_of_newJump h hfv hr.mem hc (hjump.trans (congrArg some hid.symm))
      have hleft' := hleft.of_parent (leftUnique_childRow h) hcut hchild
      refine hnone _ (mem_prunedTree.mpr ⟨c, hc, hleft', rfl⟩) ?_ ?_
      · rw [prunedRow_tid, htid]
      · rw [prunedRow_id, hid]
  · rintro ⟨r, ⟨hr, hleft, hend⟩, rfl⟩
    refine ⟨(reaches_prunedTree h hfv).mpr ⟨r, hr, hleft, rfl⟩, ?_⟩
    by_cases hcut : cut r
    · refine ⟨0, ?_, fun row hrow _ => ?_⟩
      · rw [prunedRow_of_cut hcut, newJump_asLeaf]
      · exact ((isForest_prunedTree h).id_pos row hrow).ne'
    · obtain ⟨-, jump, hjump, hnone⟩ := hend.resolve_left hcut
      refine ⟨jump, ?_, fun row hrow htid => ?_⟩
      · rw [prunedRow_of_uncut hcut, hjump]
      · obtain ⟨c, hc, -, rfl⟩ := mem_prunedTree.mp hrow
        rw [prunedRow_tid] at htid
        rw [prunedRow_id]
        exact hnone c hc htid

theorem encoded_prunedTree (hfv : Encoded distinctFeatures tree fv) :
    Encoded distinctFeatures (prunedTree tree cut cls) fv := by
  intro row hrow hlmc hdiscrete value hvalue
  obtain ⟨r, hr, -, rfl⟩ := mem_prunedTree.mp hrow
  obtain ⟨lmcNid, hlmc⟩ := Option.ne_none_iff_exists'.mp hlmc
  obtain ⟨huncut, hlmc⟩ := prunedRow_lmcNid_iff.mp hlmc
  rw [prunedRow_of_uncut huncut] at hdiscrete hvalue ⊢
  exact hfv r hr (by simp [hlmc]) hdiscrete value hvalue

theorem EndsAt.unique (h : IsForest distinctFeatures tree)
    (hfv : Encoded distinctFeatures tree fv) {r r' : TreeRow} (hr : EndsAt tree cut fv tid r)
    (hr' : EndsAt tree cut fv tid r') : r = r' := by
  have hstop : ∀ {r}, EndsAt tree cut fv tid r → StopsAt (prunedTree tree cut TreeRow.maxclass)
      fv tid (prunedRow cut TreeRow.maxclass r) :=
    fun hr => (stopsAt_prunedTree h hfv).mpr ⟨_, hr, rfl⟩
  have heq := (hstop hr).unique (isForest_prunedTree h) (encoded_prunedTree hfv) (hstop hr')
  apply h.eq_of_id hr.reaches.mem hr'.reaches.mem
  have hid := congrArg TreeRow.id heq
  rwa [prunedRow_id, prunedRow_id] at hid

/-- A round deletes a row. -/
theorem length_pruneRows_lt {selected : List ℤ} {toLeaf : TreeRow → TreeRow}
    {rows : List TreeRow} (hrow : row ∈ rows) (hsel : row.parentId ∈ selected) :
    (pruneRows selected toLeaf rows).length < rows.length := by
  rw [pruneRows, List.length_map, List.length_filter_lt_length_iff_exists]
  exact ⟨row, hrow, by simpa using hsel⟩

/-- A child of a ready node is left. -/
theorem exists_last_child (h : IsForest distinctFeatures tree)
    (hready : Ready (ChildRow tree) cut p) :
    ∃ row ∈ prunedTree tree cut cls, row.parentId = p.id := by
  obtain ⟨c, hc⟩ := exists_child hready.inner
  have hleft := hready.left.of_parent (leftUnique_childRow h) hready.uncut hc
  refine ⟨_, mem_prunedTree.mpr ⟨c, hc.2.1, hleft, rfl⟩, ?_⟩
  rw [prunedRow_parentId]
  exact hc.2.2

end Pruned

/-! ## Error-based pruning

A node becomes a leaf when its children are leaves with more errors, by their estimates, than it
has itself.  The rounds end, and a record then stops at the first such node of its way. -/

/-- `sum(ebp_coeff)`; NULLs are left out, and there is no sum of nothing. -/
def ebpSum (rows : List TreeRow) : Option ℚ :=
  match rows.filterMap TreeRow.ebpCoeff with
  | [] => none
  | coeff :: coeffs => some (coeff + coeffs.sum)

/-- `x < y` holds; it is unknown for a NULL. -/
def lessThan : Option ℚ → Option ℚ → Bool
  | some x, some y => decide (x < y)
  | _, _ => false

/-- `selected_parent_ids_ebp` -/
def selectedParentIdsEbp (tree : List TreeRow) : List ℤ :=
  (groupBy TreeRow.parentId (lastNodes tree)).flatMap fun s =>
    (tree.filter fun p => p.id = s.1 ∧ lessThan p.ebpCoeff (ebpSum s.2)).map fun _ => s.1

/-- `SET lmc_nid = NULL, lmc_fval = NULL` -/
def clearLmc (row : TreeRow) : TreeRow := { row with lmcNid := none, lmcFval := none }

/-- `__ebp_prune_tree`, with at most so many rounds. -/
def ebpPruneTree : ℕ → List TreeRow → Except Fault (List TreeRow)
  | 0, _ => .error .unfinished
  | rounds + 1, tree =>
      if selectedParentIdsEbp tree = [] then .ok tree
      else ebpPruneTree rounds (pruneRows (selectedParentIdsEbp tree) clearLmc tree)

/-! ## What a round selects -/

section Rounds

variable {distinctFeatures : ℤ → ℤ} {tree : List TreeRow} {cut : TreeRow → Prop}

/-- The children have more errors than the node. -/
def EbpWorth (tree : List TreeRow) (p : TreeRow) : Prop :=
  lessThan p.ebpCoeff (ebpSum (childRows tree p)) = true

/-- What is left by error-based pruning. -/
noncomputable abbrev ebpTree (tree : List TreeRow) (cut : TreeRow → Prop) : List TreeRow :=
  prunedTree tree cut TreeRow.maxclass

theorem ebpSum_map_prunedRow (rows : List TreeRow) (cls : TreeRow → ℤ) :
    ebpSum (rows.map (prunedRow cut cls)) = ebpSum rows := by
  have hcoeff : TreeRow.ebpCoeff ∘ prunedRow cut cls = TreeRow.ebpCoeff :=
    funext fun row => prunedRow_ebpCoeff
  rw [ebpSum, ebpSum, List.filterMap_map, hcoeff]

/-- The nodes that a round selects are all the ready ones whose children have more errors. -/
theorem mem_selectedEbp (h : IsForest distinctFeatures tree) (hroot : FirstRoot tree) {id : ℤ} :
    id ∈ selectedParentIdsEbp (ebpTree tree cut) ↔
      ∃ p ∈ tree, p.id = id ∧ Ready (ChildRow tree) cut p ∧ EbpWorth tree p := by
  rw [selectedParentIdsEbp, List.mem_flatMap]
  constructor
  · rintro ⟨⟨key, rows⟩, hgroup, hid⟩
    obtain ⟨p', hp', rfl⟩ := List.mem_map.mp hid
    rw [List.mem_filter, decide_eq_true_eq] at hp'
    obtain ⟨hmem, hkey, hless⟩ := hp'
    obtain ⟨p, hp, -, rfl⟩ := mem_prunedTree.mp hmem
    rw [prunedRow_id] at hkey
    rw [prunedRow_ebpCoeff] at hless
    obtain ⟨hin, hrows⟩ := mem_groupBy.mp hgroup
    obtain ⟨c, hc, hparent⟩ := List.mem_map.mp hin
    have hready := ready_of_lastNode h hc hp (hparent.trans hkey.symm)
    refine ⟨p, hp, hkey, hready, ?_⟩
    change rows = _ at hrows
    change p.id = key at hkey
    subst hkey
    change lessThan p.ebpCoeff (ebpSum rows) = true at hless
    rw [hrows] at hless
    simp only [lastNodes_of_ready h hroot hready, ebpSum_map_prunedRow] at hless
    exact hless
  · rintro ⟨p, hp, rfl, hready, hworth⟩
    have hgroup : (lastNodes (ebpTree tree cut)).filter (fun row => row.parentId = p.id) = _ :=
      lastNodes_of_ready h hroot hready
    obtain ⟨c, hc⟩ := exists_child hready.inner
    have hchild : prunedRow cut TreeRow.maxclass c ∈ lastNodes (ebpTree tree cut) := by
      have hin : prunedRow cut TreeRow.maxclass c ∈
          (childRows tree p).map (prunedRow cut TreeRow.maxclass) :=
        List.mem_map_of_mem (List.mem_filter.mpr ⟨hc.2.1, decide_eq_true hc.2.2⟩)
      rw [← hgroup] at hin
      exact List.mem_of_mem_filter hin
    refine ⟨(p.id, _), mem_groupBy_mk.mpr ⟨?_, rfl⟩, ?_⟩
    · refine List.mem_map.mpr ⟨_, hchild, ?_⟩
      rw [prunedRow_parentId]
      exact hc.2.2
    · refine List.mem_map.mpr ⟨prunedRow cut TreeRow.maxclass p, ?_, rfl⟩
      rw [List.mem_filter, decide_eq_true_eq, prunedRow_id, prunedRow_ebpCoeff]
      refine ⟨mem_prunedTree.mpr ⟨p, hp, hready.left, rfl⟩, rfl, ?_⟩
      simp only [hgroup, ebpSum_map_prunedRow]
      exact hworth

/-! ## The errors of the leaves -/

def errors (row : TreeRow) : ℚ := row.ebpCoeff.getD 0

/-- The estimated errors of a table of trees. -/
def leafErrors (tree : List TreeRow) : ℚ :=
  ((tree.filter fun row => row.lmcNid = none).map errors).sum

theorem ebpSum_eq {rows : List TreeRow} {total : ℚ} (h : ebpSum rows = some total) :
    total = (rows.map errors).sum := by
  have hsum : (rows.map errors).sum = (rows.filterMap TreeRow.ebpCoeff).sum := by
    clear h
    induction rows with
    | nil => rfl
    | cons row rows ih =>
        rw [List.map_cons, List.sum_cons, ih, errors]
        cases hcoeff : row.ebpCoeff with
        | none =>
            rw [List.filterMap_cons_none hcoeff]
            exact zero_add _
        | some coeff =>
            rw [List.filterMap_cons_some hcoeff, List.sum_cons]
            rfl
  rw [hsum]
  unfold ebpSum at h
  cases hcoeffs : rows.filterMap TreeRow.ebpCoeff with
  | nil =>
      rw [hcoeffs] at h
      cases h
  | cons coeff coeffs =>
      rw [hcoeffs] at h
      rw [List.sum_cons]
      exact (Option.some.inj h).symm

theorem EbpWorth.lt {p : TreeRow} (h : EbpWorth tree p) :
    errors p < ((childRows tree p).map errors).sum := by
  unfold EbpWorth lessThan at h
  cases hcoeff : p.ebpCoeff with
  | none =>
      rw [hcoeff] at h
      cases h
  | some coeff =>
      cases htotal : ebpSum (childRows tree p) with
      | none =>
          rw [hcoeff, htotal] at h
          cases h
      | some total =>
          rw [hcoeff, htotal] at h
          rw [← ebpSum_eq htotal, errors, hcoeff]
          exact of_decide_eq_true h

section Sums

open Classical in
/-- The leaves that are left. -/
noncomputable def leftLeaves (tree : List TreeRow) (cut : TreeRow → Prop) : Finset TreeRow :=
  tree.toFinset.filter fun row =>
    Left (ChildRow tree) cut row ∧ (cut row ∨ Childless (ChildRow tree) row)

open Classical in
/-- The nodes that are made leaves. -/
noncomputable def newLeaves (tree : List TreeRow) (selected : TreeRow → Prop) : Finset TreeRow :=
  tree.toFinset.filter selected

open Classical in
/-- The nodes that are deleted. -/
noncomputable def deletedRows (tree : List TreeRow) (selected : TreeRow → Prop) :
    Finset TreeRow :=
  (newLeaves tree selected).biUnion fun p => (childRows tree p).toFinset

variable {selected : TreeRow → Prop} {row : TreeRow}

theorem mem_leftLeaves : row ∈ leftLeaves tree cut ↔ row ∈ tree ∧
    Left (ChildRow tree) cut row ∧ (cut row ∨ Childless (ChildRow tree) row) := by
  classical
  rw [leftLeaves, Finset.mem_filter, List.mem_toFinset]

theorem mem_newLeaves (hready : ∀ p, selected p → Ready (ChildRow tree) cut p) :
    row ∈ newLeaves tree selected ↔ selected row := by
  classical
  rw [newLeaves, Finset.mem_filter, List.mem_toFinset]
  exact and_iff_right_of_imp fun hsel => mem_of_ready (hready row hsel)

theorem mem_deletedRows (hready : ∀ p, selected p → Ready (ChildRow tree) cut p) :
    row ∈ deletedRows tree selected ↔ ∃ p, selected p ∧ ChildRow tree p row := by
  classical
  simp only [deletedRows, Finset.mem_biUnion, mem_newLeaves hready, List.mem_toFinset]
  exact exists_congr fun p => and_congr_right fun hp =>
    mem_childRows (mem_of_ready (hready p hp))

theorem leafErrors_ebpTree (h : IsForest distinctFeatures tree) (cut : TreeRow → Prop) :
    leafErrors (ebpTree tree cut) = ∑ row ∈ leftLeaves tree cut, errors row := by
  classical
  have herrors : errors ∘ prunedRow cut TreeRow.maxclass = errors :=
    funext fun row => congrArg (fun c : Option ℚ => c.getD 0) prunedRow_ebpCoeff
  have hleaves : leftLeaves tree cut = ((tree.filter fun row => Left (ChildRow tree) cut row).filter
      fun row => (prunedRow cut TreeRow.maxclass row).lmcNid = none).toFinset := by
    ext row
    simp only [mem_leftLeaves, List.mem_toFinset, List.mem_filter, decide_eq_true_eq, and_assoc]
    refine and_congr_right fun hrow => and_congr_right fun _ => ?_
    by_cases hcut : cut row
    · rw [prunedRow_of_cut hcut]
      exact ⟨fun _ => rfl, fun _ => .inl hcut⟩
    · rw [prunedRow_of_uncut hcut, childless_iff h hrow]
      exact or_iff_right hcut
  rw [hleaves, List.sum_toFinset _ ((h.nodup.of_map.filter _).filter _), leafErrors, ebpTree,
    prunedTree, List.filter_map, List.map_map, herrors]
  rfl

/-- The deleted nodes have been leaves. -/
theorem deletedRows_subset (h : IsForest distinctFeatures tree)
    (hready : ∀ p, selected p → Ready (ChildRow tree) cut p) :
    deletedRows tree selected ⊆ leftLeaves tree cut := by
  intro c hc
  obtain ⟨p, hp, hchild⟩ := (mem_deletedRows hready).mp hc
  have hleft := (hready p hp).left.of_parent (leftUnique_childRow h) (hready p hp).uncut hchild
  refine mem_leftLeaves.mpr ⟨hchild.2.1, hleft, ?_⟩
  by_cases hnone : Childless (ChildRow tree) c
  · exact .inr hnone
  · exact .inl ((hready p hp).children c hchild hnone)

open Classical in
/-- The selected nodes take the places of their children. -/
theorem leftLeaves_round (hready : ∀ p, selected p → Ready (ChildRow tree) cut p) :
    leftLeaves tree (fun p => cut p ∨ selected p) =
      (leftLeaves tree cut \ deletedRows tree selected) ∪ newLeaves tree selected := by
  ext row
  rw [Finset.mem_union, Finset.mem_sdiff, mem_newLeaves hready, mem_leftLeaves, mem_leftLeaves,
    mem_deletedRows hready, left_round hready]
  constructor
  · rintro ⟨hrow, ⟨hleft, hparent⟩, (hcut | hsel) | hnone⟩
    · exact .inl ⟨⟨hrow, hleft, .inl hcut⟩, fun ⟨p, hp, hchild⟩ => hparent p hchild hp⟩
    · exact .inr hsel
    · exact .inl ⟨⟨hrow, hleft, .inr hnone⟩, fun ⟨p, hp, hchild⟩ => hparent p hchild hp⟩
  · rintro (⟨⟨hrow, hleft, hleaf⟩, hnot⟩ | hsel)
    · refine ⟨hrow, ⟨hleft, fun p hchild hp => hnot ⟨p, hp, hchild⟩⟩, ?_⟩
      exact hleaf.imp_left .inl
    · have hrow := hready row hsel
      refine ⟨mem_of_ready hrow, ⟨hrow.left, fun p hchild hp => ?_⟩, .inl (.inr hsel)⟩
      exact hrow.uncut ((hready p hp).children row hchild hrow.inner)

/-- The selected nodes have not been leaves. -/
theorem disjoint_newLeaves (hready : ∀ p, selected p → Ready (ChildRow tree) cut p) :
    Disjoint (leftLeaves tree cut) (newLeaves tree selected) := by
  rw [Finset.disjoint_left]
  intro row hrow hsel
  have hrowReady := hready row ((mem_newLeaves hready).mp hsel)
  obtain ⟨-, -, hcut | hnone⟩ := mem_leftLeaves.mp hrow
  · exact hrowReady.uncut hcut
  · exact hrowReady.inner hnone

theorem sum_deletedRows (h : IsForest distinctFeatures tree) (selected : TreeRow → Prop) :
    ∑ c ∈ deletedRows tree selected, errors c =
      ∑ p ∈ newLeaves tree selected, ((childRows tree p).map errors).sum := by
  classical
  rw [deletedRows, Finset.sum_biUnion]
  · exact Finset.sum_congr rfl fun p _ => List.sum_toFinset _ (h.nodup.of_map.filter _)
  · intro p hp q hq hne
    refine Finset.disjoint_left.mpr fun c hc hc' => hne ?_
    rw [List.mem_toFinset] at hc hc'
    have hmem : ∀ p ∈ newLeaves tree selected, p ∈ tree := fun p hp =>
      List.mem_toFinset.mp (Finset.mem_filter.mp hp).1
    exact leftUnique_childRow h ((mem_childRows (hmem p hp)).mp hc)
      ((mem_childRows (hmem q hq)).mp hc')

/-- A round takes errors away. -/
theorem sum_leftLeaves_lt (h : IsForest distinctFeatures tree)
    (hready : ∀ p, selected p → Ready (ChildRow tree) cut p)
    (hworth : ∀ p, selected p → EbpWorth tree p) (hsome : ∃ p, selected p) :
    ∑ row ∈ leftLeaves tree (fun p => cut p ∨ selected p), errors row <
      ∑ row ∈ leftLeaves tree cut, errors row := by
  classical
  have hless : ∑ p ∈ newLeaves tree selected, errors p <
      ∑ p ∈ newLeaves tree selected, ((childRows tree p).map errors).sum := by
    obtain ⟨p, hp⟩ := hsome
    refine Finset.sum_lt_sum_of_nonempty ⟨p, (mem_newLeaves hready).mpr hp⟩ fun q hq => ?_
    exact (hworth q ((mem_newLeaves hready).mp hq)).lt
  have hdisjoint := (disjoint_newLeaves hready).mono_left
    (Finset.sdiff_subset (t := deletedRows tree selected))
  calc
    ∑ row ∈ leftLeaves tree (fun p => cut p ∨ selected p), errors row
        = ∑ row ∈ leftLeaves tree cut \ deletedRows tree selected, errors row +
            ∑ p ∈ newLeaves tree selected, errors p := by
      rw [leftLeaves_round hready, Finset.sum_union hdisjoint]
    _ < ∑ row ∈ leftLeaves tree cut \ deletedRows tree selected, errors row +
          ∑ c ∈ deletedRows tree selected, errors c := by
      rw [sum_deletedRows h selected]
      exact (add_lt_add_iff_left _).mpr hless
    _ = ∑ row ∈ leftLeaves tree cut, errors row :=
      Finset.sum_sdiff (deletedRows_subset h hready)

end Sums

/-! ## The rounds -/

theorem ebpPruneTree_rounds (h : IsForest distinctFeatures tree) (hroot : FirstRoot tree)
    (hrounds : Rounds (ChildRow tree) (EbpWorth tree) cut) {rounds : ℕ}
    (hfuel : (ebpTree tree cut).length < rounds) :
    ∃ cut', Rounds (ChildRow tree) (EbpWorth tree) cut' ∧
      (∀ p, Ready (ChildRow tree) cut' p → ¬EbpWorth tree p) ∧
      ebpPruneTree rounds (ebpTree tree cut) = .ok (ebpTree tree cut') ∧
      leafErrors (ebpTree tree cut') ≤ leafErrors (ebpTree tree cut) ∧
      (ebpTree tree cut' ≠ ebpTree tree cut →
        leafErrors (ebpTree tree cut') < leafErrors (ebpTree tree cut)) := by
  induction rounds generalizing cut with
  | zero => exact absurd hfuel (Nat.not_lt_zero _)
  | succ rounds ih =>
      by_cases hnone : selectedParentIdsEbp (ebpTree tree cut) = []
      · refine ⟨cut, hrounds, fun p hready hworth => ?_, if_pos hnone, le_rfl, fun hne => ?_⟩
        · have hsel : p.id ∈ selectedParentIdsEbp (ebpTree tree cut) :=
            (mem_selectedEbp h hroot).mpr ⟨p, mem_of_ready hready, rfl, hready, hworth⟩
          rw [hnone] at hsel
          exact absurd hsel List.not_mem_nil
        · exact absurd rfl hne
      · generalize hsel : selectedParentIdsEbp (ebpTree tree cut) = selected at hnone
        have hmem : ∀ p, Selected tree selected p →
            Ready (ChildRow tree) cut p ∧ EbpWorth tree p := by
          rintro p ⟨hp, hid⟩
          rw [← hsel, mem_selectedEbp h hroot] at hid
          obtain ⟨q, hq, hid, hready⟩ := hid
          rwa [← h.eq_of_id hq hp hid]
        obtain ⟨id, hid⟩ := List.exists_mem_of_ne_nil _ hnone
        rw [← hsel, mem_selectedEbp h hroot] at hid
        obtain ⟨p, hp, rfl, hready, hworth⟩ := hid
        have hpsel : p.id ∈ selected := by
          rw [← hsel, mem_selectedEbp h hroot]
          exact ⟨p, hp, rfl, hready, hworth⟩
        have hround : pruneRows selected clearLmc (ebpTree tree cut) =
            ebpTree tree fun p => cut p ∨ Selected tree selected p := by
          refine pruneRows_prunedTree (fun id hid => ?_) (fun p hp => (hmem p hp).1) fun _ _ => rfl
          rw [← hsel, mem_selectedEbp h hroot] at hid
          obtain ⟨q, hq, hid, -⟩ := hid
          exact ⟨q, hq, hid⟩
        have hless := sum_leftLeaves_lt h (fun p hp => (hmem p hp).1) (fun p hp => (hmem p hp).2)
          ⟨p, hp, hpsel⟩
        rw [← leafErrors_ebpTree h, ← leafErrors_ebpTree h] at hless
        obtain ⟨row, hrow, hparent⟩ : ∃ row ∈ ebpTree tree cut, row.parentId = p.id :=
          exists_last_child h hready
        have hshorter : (pruneRows selected clearLmc (ebpTree tree cut)).length <
            (ebpTree tree cut).length := length_pruneRows_lt hrow (hparent ▸ hpsel)
        rw [hround] at hshorter
        obtain ⟨cut', hrounds', hfinal, hrun, hle, -⟩ := ih (.round hrounds hmem)
          (hshorter.trans_le (Nat.lt_succ_iff.mp hfuel))
        refine ⟨cut', hrounds', hfinal, ?_, hle.trans hless.le, fun _ => hle.trans_lt hless⟩
        rw [ebpPruneTree, hsel, if_neg hnone, hround, hrun]

/-- Pruning ends, and leaves a table of trees with no more estimated errors.  It leads every record
to the first node of its way whose children, cut themselves or leaves, have more errors. -/
theorem ebpPruneTree_ok (h : IsForest distinctFeatures tree) (hroot : FirstRoot tree) :
    ∃ pruned, (∀ rounds, tree.length < rounds → ebpPruneTree rounds tree = .ok pruned) ∧
      IsForest distinctFeatures pruned ∧
      leafErrors pruned ≤ leafErrors tree ∧
      (pruned ≠ tree → leafErrors pruned < leafErrors tree) ∧
      (∀ row, row ∈ pruned ↔ ∃ r ∈ tree,
        Left (ChildRow tree) (Cut (ChildRow tree) (EbpWorth tree)) r ∧
          row = prunedRow (Cut (ChildRow tree) (EbpWorth tree)) TreeRow.maxclass r) ∧
      ∀ fv, Encoded distinctFeatures tree fv → ∀ tid leaf, StopsAt pruned fv tid leaf ↔
        ∃ r, EndsAt tree (Cut (ChildRow tree) (EbpWorth tree)) fv tid r ∧
          leaf = prunedRow (Cut (ChildRow tree) (EbpWorth tree)) TreeRow.maxclass r := by
  have hrun : ∀ rounds, tree.length < rounds →
      ebpPruneTree rounds tree = .ok (ebpTree tree (Cut (ChildRow tree) (EbpWorth tree))) ∧
      leafErrors (ebpTree tree (Cut (ChildRow tree) (EbpWorth tree))) ≤ leafErrors tree ∧
      (ebpTree tree (Cut (ChildRow tree) (EbpWorth tree)) ≠ tree →
        leafErrors (ebpTree tree (Cut (ChildRow tree) (EbpWorth tree))) < leafErrors tree) := by
    intro rounds hfuel
    have hstart : ebpTree tree (fun _ => False) = tree := prunedTree_start
    have hfuel' : (ebpTree tree fun _ => False).length < rounds := by rwa [hstart]
    obtain ⟨cut', hrounds, hfinal, hrun, hle, hlt⟩ := ebpPruneTree_rounds h hroot .start hfuel'
    have heq : ebpTree tree cut' = ebpTree tree (Cut (ChildRow tree) (EbpWorth tree)) :=
      prunedTree_final h hrounds hfinal
    rw [hstart, heq] at hrun hle hlt
    exact ⟨hrun, hle, hlt⟩
  obtain ⟨-, hle, hlt⟩ := hrun (tree.length + 1) (Nat.lt_succ_self _)
  exact ⟨_, fun rounds hfuel => (hrun rounds hfuel).1, isForest_prunedTree h, hle, hlt,
    fun row => mem_prunedTree, fun fv hfv tid leaf => stopsAt_prunedTree h hfv⟩

theorem firstRoot_stump : FirstRoot stump := by
  unfold FirstRoot
  decide

/-- Two leaves have more errors than their root. -/
theorem ebpPruneTree_ok_stump :
    ∃ pruned, ebpPruneTree 4 stump = .ok pruned ∧ leafErrors pruned < leafErrors stump := by
  obtain ⟨pruned, hrun, -, -, hlt, -⟩ := ebpPruneTree_ok isForest_stump firstRoot_stump
  refine ⟨pruned, hrun 4 (by decide), hlt ?_⟩
  rintro rfl
  have hlength : (ebpPruneTree 4 stump).map List.length = .ok 1 := by decide +kernel
  rw [hrun 4 (by decide)] at hlength
  exact absurd hlength (by decide)

end Rounds

end Madlib.Cart
