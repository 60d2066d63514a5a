import Madlib.Backend
import Madlib.Cart.TreeTable
import Madlib.Lib.LevelTables
import Madlib.Lib.Tables

/-!
# Classification with a tree table

All records are led down all trees at once, a level with every statement, or down one tree after
the other.  Either way a record ends up with the node of each tree at which it is led to no child.
-/

namespace Madlib.Cart

open Madlib.Backend
open Madlib.Lib.LevelTables
open Madlib.Lib.Tables

/-- A row of `classified_instance_ping` or `classified_instance_pong`, without the tree. -/
structure Instance where
  id : ℤ
  jump : Option ℤ
  cls : ℤ
  prob : ℚ
  parentId : Option ℤ
  leafId : Option ℤ

/-- `x NOT IN (..)` holds; it is unknown for NULL. -/
def notIn (x : Option ℤ) (ids : List ℤ) : Bool :=
  match x with
  | some x => !ids.contains x
  | none => ids.isEmpty

/-- The row of a record at a node. -/
def instanceAt (gt : TreeRow) (id : ℤ) (farray : ℤ → Option ℚ) : Instance :=
  ⟨id, gt.newJump farray, gt.maxclass, gt.probability, some gt.parentId, some gt.id⟩

/-- The features of the record that was joined, all NULL without one. -/
def farrayOf (joined : Option EncodedRow) (fid : ℤ) : Option ℚ := joined.bind fun t2 => t2.fv fid

/-- The nodes of the tree. -/
def ofTree (tree : List TreeRow) (treeId : ℤ) : List TreeRow :=
  tree.filter fun row => row.tid = treeId

/-- `SELECT DISTINCT tid` -/
def treeIds (tree : List TreeRow) : List ℤ := (tree.map TreeRow.tid).dedup

/-- A moved row has no further jump. -/
def Instance.classified (row : Instance) : Instance := { row with jump := some 0 }

/-! ## All trees at once -/

/-- The first rows: every record at the root of every tree. -/
def firstInstances (tree : List TreeRow) (encoded : List EncodedRow) : List (ℤ × Instance) :=
  encoded.flatMap fun m =>
    ((tree.filter fun t => t.parentId = 0).map fun t => (t.tid, t.id)).dedup.map fun t =>
      (t.1, ⟨m.id, some t.2, 0, 0, none, none⟩)

/-- The rows of a level, from those of the level before. -/
def jumpLevel (tree : List TreeRow) (encoded : List EncodedRow) (currLevel : ℕ)
    (rows : List (ℤ × Instance)) : List (ℤ × Instance) :=
  (rows.flatMap fun t1 => withMatches t1 (encoded.filter fun t2 => t1.2.id = t2.id)).flatMap
    fun pt =>
      (tree.filter fun gt => gt.level = currLevel ∧ pt.1.2.jump = some gt.id ∧ pt.1.1 = gt.tid).map
        fun gt => (pt.1.1, instanceAt gt pt.1.2.id (farrayOf pt.2))

/-- `jump NOT IN (..) AND tid = treeId` -/
def leaves (tree : List TreeRow) (treeId : ℤ) (row : ℤ × Instance) : Bool :=
  notIn row.2.jump ((ofTree tree treeId).map TreeRow.id) && decide (row.1 = treeId)

/-- `__treemodel_classify_internal` -/
def treemodelClassifyInternal (tree : List TreeRow) (encoded : List EncodedRow) :
    Except Fault (List (ℤ × Instance)) :=
  match (tree.map TreeRow.level).max? with
  | none => .error (.ereport .raiseException "tree should not be empty")
  | some maxLevel =>
      let t := Tables.run (fun row => (row.1, row.2.classified)) (jumpLevel tree encoded)
        ((treeIds tree).map (leaves tree)) (List.range' 1 maxLevel)
        ⟨firstInstances tree encoded, [], []⟩
      .ok (t.result ++ (t.current.filter fun row => row.2.jump = some 0) ++
        t.other.filter fun row => row.2.jump = some 0)

/-! ## Tree after tree -/

def jumpLevelSerial (tree : List TreeRow) (encoded : List EncodedRow) (treeId : ℤ) (currLevel : ℕ)
    (rows : List Instance) : List Instance :=
  (rows.flatMap fun t1 => withMatches t1 (encoded.filter fun t2 => t1.id = t2.id)).flatMap
    fun pt =>
      (tree.filter fun gt => (gt.level = currLevel ∧ gt.tid = treeId) ∧ pt.1.jump = some gt.id).map
        fun gt => instanceAt gt pt.1.id (farrayOf pt.2)

def leavesSerial (tree : List TreeRow) (treeId : ℤ) (row : Instance) : Bool :=
  notIn row.jump ((ofTree tree treeId).map TreeRow.id)

/-- The rounds of the loop over the trees. -/
def classifyTree (tree : List TreeRow) (encoded : List EncodedRow) (result : List (ℤ × Instance))
    (treeId : ℤ) : Except Fault (List (ℤ × Instance)) :=
  match ((ofTree tree treeId).map TreeRow.level).max? with
  | none => .error (.ereport .raiseException "tree should not be empty")
  | some maxLevel =>
      match (ofTree tree treeId).find? fun row => row.parentId = 0 with
      | none => .error (.ereport .nullValueNotAllowed "query string argument of EXECUTE is null")
      | some root =>
          let t := Tables.run (fun row => (treeId, row.classified))
            (jumpLevelSerial tree encoded treeId) [leavesSerial tree treeId]
            (List.range' 1 maxLevel)
            ⟨encoded.map fun m => ⟨m.id, some root.id, 0, 0, none, none⟩, [], result⟩
          .ok (t.result ++ ((t.current.filter fun row => row.jump = some 0).map fun row =>
            (treeId, row)) ++ (t.other.filter fun row => row.jump = some 0).map fun row =>
            (treeId, row))

/-- `__treemodel_classify_internal_serial` -/
def treemodelClassifyInternalSerial (tree : List TreeRow) (encoded : List EncodedRow) :
    Except Fault (List (ℤ × Instance)) :=
  (treeIds tree).foldlM (classifyTree tree encoded) []

/-! ## The rows of a level -/

section Level

variable {distinctFeatures : ℤ → ℤ} {tree : List TreeRow} {encoded : List EncodedRow}

/-- The tables are as they are after training and after encoding. -/
structure Classifies (distinctFeatures : ℤ → ℤ) (tree : List TreeRow)
    (encoded : List EncodedRow) : Prop where
  forest : IsForest distinctFeatures tree
  ids : (encoded.map EncodedRow.id).Nodup
  encoded : ∀ m ∈ encoded, Encoded distinctFeatures tree m.fv

/-- The row of a level: a record at a node of that level it is led through. -/
def OnLevel (tree : List TreeRow) (encoded : List EncodedRow) (level : ℕ) (tid : ℤ)
    (row : Instance) : Prop :=
  ∃ m ∈ encoded, ∃ p, Reaches tree m.fv tid p ∧ p.level = level ∧ row = instanceAt p m.id m.fv

/-- The rows of a record that has stopped. -/
def Stopped (tree : List TreeRow) (encoded : List EncodedRow) (row : ℤ × Instance) : Prop :=
  ∃ m ∈ encoded, ∃ leaf, StopsAt tree m.fv row.1 leaf ∧
    row.2 = (instanceAt leaf m.id m.fv).classified

theorem length_le_one {α : Type} {l : List α} (hnodup : l.Nodup)
    (heq : ∀ a ∈ l, ∀ b ∈ l, a = b) : l.length ≤ 1 := by
  match l with
  | [] => exact Nat.zero_le 1
  | [a] => exact le_rfl
  | a :: b :: l =>
      have hab := heq a (by simp) b (by simp)
      rw [hab, List.nodup_cons] at hnodup
      exact absurd List.mem_cons_self hnodup.1

/-- Rows that are each replaced by at most one row with the same key. -/
theorem flatMap_keys_sublist {α β κ : Type} {f : α → List β} {key : α → κ} {key' : β → κ}
    {rows : List α} (h : ∀ a ∈ rows, (f a).length ≤ 1 ∧ ∀ b ∈ f a, key' b = key a) :
    ((rows.flatMap f).map key').Sublist (rows.map key) := by
  induction rows with
  | nil => exact .slnil
  | cons a rows ih =>
      obtain ⟨hlength, hkey⟩ := h a List.mem_cons_self
      rw [List.flatMap_cons, List.map_append, List.map_cons, ← List.singleton_append]
      refine List.Sublist.append ?_ (ih fun a' ha' => h a' (List.mem_cons_of_mem _ ha'))
      match hblock : f a with
      | [] => exact List.nil_sublist _
      | [b] =>
          rw [hblock] at hkey
          rw [List.map_singleton, hkey b (List.mem_singleton_self b)]
      | b :: b' :: l =>
          rw [hblock] at hlength
          simp at hlength

/-- A record is joined with its row of the encoded table. -/
theorem withMatches_find {α : Type} (h : (encoded.map EncodedRow.id).Nodup) (t1 : α) (id : ℤ) :
    withMatches t1 (encoded.filter fun t2 => id = t2.id) =
      [(t1, encoded.find? fun t2 => id = t2.id)] := by
  have hlength : (encoded.filter fun t2 => id = t2.id).length ≤ 1 := by
    refine length_le_one (h.of_map.filter _) fun a ha b hb => ?_
    simp only [List.mem_filter, decide_eq_true_eq] at ha hb
    exact List.inj_on_of_nodup_map h ha.1 hb.1 (ha.2.symm.trans hb.2)
  rw [← List.head?_filter]
  generalize (encoded.filter fun t2 => id = t2.id) = found at hlength ⊢
  match found, hlength with
  | [], _ => rfl
  | [t2], _ => rfl

theorem find_encoded (h : (encoded.map EncodedRow.id).Nodup) {m : EncodedRow} (hm : m ∈ encoded) :
    (encoded.find? fun t2 => m.id = t2.id) = some m := by
  cases hfind : encoded.find? fun t2 => m.id = t2.id with
  | none =>
      rw [List.find?_eq_none] at hfind
      exact absurd (by simp) (hfind m hm)
  | some m' =>
      have hid := List.find?_some hfind
      rw [decide_eq_true_eq] at hid
      rw [List.inj_on_of_nodup_map h hm (List.mem_of_find?_eq_some hfind) hid]

/-- At most one node has an identifier. -/
theorem length_nodes_le (h : IsForest distinctFeatures tree) {q : TreeRow → Bool}
    (jump : Option ℤ) (hq : ∀ gt ∈ tree, q gt = true → jump = some gt.id) :
    (tree.filter q).length ≤ 1 := by
  refine length_le_one (h.nodup.of_map.filter _) fun a ha b hb => ?_
  obtain ⟨ha, hqa⟩ := List.mem_filter.mp ha
  obtain ⟨hb, hqb⟩ := List.mem_filter.mp hb
  exact h.eq_of_id ha hb (Option.some.inj ((hq a ha hqa).symm.trans (hq b hb hqb)))

/-- A record comes to a node of the next level from the one it is led through before. -/
theorem reaches_succ_iff (h : IsForest distinctFeatures tree) {fv : ℤ → Option ℚ}
    (hfv : Encoded distinctFeatures tree fv) {tid : ℤ} {c : TreeRow} {level : ℕ}
    (hlevel : 1 ≤ level) :
    Reaches tree fv tid c ∧ c.level = level + 1 ↔
      ∃ p, Reaches tree fv tid p ∧ p.level = level ∧ p.newJump fv = some c.id ∧ c ∈ tree ∧
        c.tid = tid ∧ c.level = level + 1 := by
  constructor
  · rintro ⟨hreach, hc⟩
    cases hreach with
    | root hmem hroot =>
        rw [h.root_level c hmem hroot] at hc
        omega
    | @child p _ hp hjump hmem htid =>
        obtain ⟨i, hchild⟩ := isChild_of_newJump h hfv hp.mem hmem hjump
        have hstep := hchild.level_eq
        exact ⟨p, hp, by omega, hjump, hmem, htid, hc⟩
  · rintro ⟨p, hp, -, hjump, hmem, htid, hc⟩
    exact ⟨.child hp hjump hmem htid, hc⟩

theorem onLevel_succ_iff (h : Classifies distinctFeatures tree encoded) {level : ℕ}
    (hlevel : 1 ≤ level) (tid : ℤ) (row : Instance) :
    OnLevel tree encoded (level + 1) tid row ↔ ∃ src, OnLevel tree encoded level tid src ∧
      ∃ gt ∈ tree, gt.level = level + 1 ∧ src.jump = some gt.id ∧ tid = gt.tid ∧
        row = instanceAt gt src.id (farrayOf (encoded.find? fun t2 => src.id = t2.id)) := by
  constructor
  · rintro ⟨m, hm, c, hreach, hc, rfl⟩
    obtain ⟨p, hp, hplevel, hjump, hmem, htid, -⟩ :=
      (reaches_succ_iff h.forest (h.encoded m hm) hlevel).mp ⟨hreach, hc⟩
    refine ⟨instanceAt p m.id m.fv, ⟨m, hm, p, hp, hplevel, rfl⟩, c, hmem, hc, hjump, htid.symm, ?_⟩
    show _ = instanceAt c m.id (farrayOf (encoded.find? fun t2 => m.id = t2.id))
    rw [find_encoded h.ids hm]
    rfl
  · rintro ⟨src, ⟨m, hm, p, hp, hplevel, rfl⟩, c, hmem, hc, hjump, htid, rfl⟩
    obtain ⟨hreach, -⟩ := (reaches_succ_iff h.forest (h.encoded m hm) hlevel).mpr
      ⟨p, hp, hplevel, hjump, hmem, htid.symm, hc⟩
    refine ⟨m, hm, c, hreach, hc, ?_⟩
    show instanceAt c m.id (farrayOf (encoded.find? fun t2 => m.id = t2.id)) = _
    rw [find_encoded h.ids hm]
    rfl

/-- The nodes of the first level are the roots. -/
theorem onLevel_one_iff (h : Classifies distinctFeatures tree encoded) (tid : ℤ) (row : Instance) :
    OnLevel tree encoded 1 tid row ↔ ∃ m ∈ encoded, ∃ root ∈ tree, root.parentId = 0 ∧
      root.tid = tid ∧ row = instanceAt root m.id m.fv := by
  constructor
  · rintro ⟨m, hm, p, hreach, hlevel, rfl⟩
    cases hreach with
    | root hmem hroot htid => exact ⟨m, hm, p, hmem, hroot, htid, rfl⟩
    | child hq hjump hmem =>
        obtain ⟨i, hchild⟩ := isChild_of_newJump h.forest (h.encoded m hm) hq.mem hmem hjump
        have hlo := hq.one_le_level h.forest (h.encoded m hm)
        rw [hchild.level_eq] at hlevel
        omega
  · rintro ⟨m, hm, root, hmem, hroot, htid, rfl⟩
    exact ⟨m, hm, root, .root hmem hroot htid, h.forest.root_level root hmem hroot, rfl⟩

/-- A row leaves the tables when its record has stopped. -/
theorem notIn_iff {tid : ℤ} {p : TreeRow} (hmem : p ∈ tree) (htid : p.tid = tid) {jump : Option ℤ} :
    notIn jump ((ofTree tree tid).map TreeRow.id) = true ↔
      ∃ j, jump = some j ∧ ∀ row ∈ tree, row.tid = tid → row.id ≠ j := by
  cases jump with
  | none =>
      have hne : ofTree tree tid ≠ [] := List.ne_nil_of_mem (a := p)
        (List.mem_filter.mpr ⟨hmem, decide_eq_true htid⟩)
      simp [notIn, hne]
  | some j =>
      simp only [notIn, ofTree, Bool.not_eq_true', List.contains_eq_mem, decide_eq_false_iff_not,
        List.mem_map, List.mem_filter, decide_eq_true_eq, not_exists, not_and, and_imp,
        Option.some.injEq, exists_eq_left', ne_eq]

end Level

/-! ## The result of a classification

Level by level, the tables hold the records at the nodes of the level they are led through.  A
record leaves them where it stops, so that the result has a row for every record and every tree in
which it stops; the two ways to classify give the same rows. -/

section Result

variable {distinctFeatures : ℤ → ℤ} {tree : List TreeRow} {encoded : List EncodedRow}

/-- The record and the tree of a row. -/
def rowKey (row : ℤ × Instance) : ℤ × ℤ := (row.1, row.2.id)

/-- The record of a row has stopped. -/
def Settled (tree : List TreeRow) (tid : ℤ) (row : Instance) : Prop :=
  ∃ jump, row.jump = some jump ∧ ∀ node ∈ tree, node.tid = tid → node.id ≠ jump

theorem jump_ne_zero (h : IsForest distinctFeatures tree) {tid : ℤ} {row : Instance}
    (hrow : ¬Settled tree tid row) : row.jump ≠ some 0 := by
  intro hjump
  refine hrow ⟨0, hjump, fun node hnode _ hid => ?_⟩
  have hpos := h.id_pos node hnode
  rw [hid] at hpos
  exact absurd hpos (lt_irrefl 0)

theorem OnLevel.mem_treeIds {level : ℕ} {tid : ℤ} {row : Instance}
    (h : OnLevel tree encoded level tid row) : ∃ p ∈ tree, p.tid = tid := by
  obtain ⟨m, -, p, hreach, -⟩ := h
  exact ⟨p, hreach.mem, hreach.tid_eq⟩

/-- The rows of the result, by their levels. -/
theorem stopped_iff (h : Classifies distinctFeatures tree encoded) {maxLevel : ℕ}
    {row : ℤ × Instance} (hmax : ∀ node ∈ tree, node.tid = row.1 → node.level ≤ maxLevel) :
    Stopped tree encoded row ↔ ∃ level x, 0 < level ∧ level ≤ maxLevel ∧
      OnLevel tree encoded level row.1 x ∧ Settled tree row.1 x ∧ row.2 = x.classified := by
  constructor
  · rintro ⟨m, hm, leaf, ⟨hreach, hstop⟩, hrow⟩
    exact ⟨leaf.level, instanceAt leaf m.id m.fv, hreach.one_le_level h.forest (h.encoded m hm),
      hmax leaf hreach.mem hreach.tid_eq, ⟨m, hm, leaf, hreach, rfl, rfl⟩, hstop, hrow⟩
  · rintro ⟨level, x, -, -, ⟨m, hm, p, hreach, -, rfl⟩, hsettled, hrow⟩
    exact ⟨m, hm, p, ⟨hreach, hsettled⟩, hrow⟩

/-- The row of a record before the first level. -/
def firstInstance (m : EncodedRow) (root : TreeRow) : Instance :=
  ⟨m.id, some root.id, 0, 0, none, none⟩

/-- The rows from which those of the next level are inserted. -/
def Source (tree : List TreeRow) (encoded : List EncodedRow) (tid : ℤ) : ℕ → Instance → Prop
  | 0, row => ∃ m ∈ encoded, ∃ root ∈ tree, root.parentId = 0 ∧ root.tid = tid ∧
      row = firstInstance m root
  | level + 1, row => OnLevel tree encoded (level + 1) tid row ∧ ¬Settled tree tid row

theorem onLevel_iff_source (h : Classifies distinctFeatures tree encoded) (level : ℕ) (tid : ℤ)
    (row : Instance) : OnLevel tree encoded (level + 1) tid row ↔
      ∃ src, Source tree encoded tid level src ∧ ∃ gt ∈ tree, gt.level = level + 1 ∧
        src.jump = some gt.id ∧ tid = gt.tid ∧
          row = instanceAt gt src.id (farrayOf (encoded.find? fun t2 => src.id = t2.id)) := by
  cases level with
  | zero =>
      rw [onLevel_one_iff h]
      constructor
      · rintro ⟨m, hm, root, hmem, hroot, htid, rfl⟩
        refine ⟨firstInstance m root, ⟨m, hm, root, hmem, hroot, htid, rfl⟩, root, hmem,
          h.forest.root_level root hmem hroot, rfl, htid.symm, ?_⟩
        show _ = instanceAt root m.id (farrayOf (encoded.find? fun t2 => m.id = t2.id))
        rw [find_encoded h.ids hm]
        rfl
      · rintro ⟨src, ⟨m, hm, root, hmem, hroot, htid, rfl⟩, gt, hgt, -, hjump, -, rfl⟩
        obtain rfl := h.forest.eq_of_id hmem hgt (Option.some.inj hjump)
        refine ⟨m, hm, root, hmem, hroot, htid, ?_⟩
        show instanceAt root m.id (farrayOf (encoded.find? fun t2 => m.id = t2.id)) = _
        rw [find_encoded h.ids hm]
        rfl
  | succ level =>
      rw [onLevel_succ_iff h (Nat.succ_pos level)]
      constructor
      · rintro ⟨src, hsrc, gt, hgt, hlevel, hjump, htid, hrow⟩
        refine ⟨src, ⟨hsrc, ?_⟩, gt, hgt, hlevel, hjump, htid, hrow⟩
        rintro ⟨jump, hto, hnone⟩
        exact hnone gt hgt htid.symm (Option.some.inj (hjump.symm.trans hto))
      · rintro ⟨src, hsrc, hgt⟩
        exact ⟨src, hsrc.1, hgt⟩

/-- A row of the result stands for a record that has stopped, and there is one for each. -/
structure IsResult (stopped : ℤ × Instance → Prop) (result : List (ℤ × Instance)) : Prop where
  nodup : (result.map rowKey).Nodup
  mem_iff : ∀ row, row ∈ result ↔ stopped row

theorem exists_max_level (hne : tree ≠ []) :
    ∃ maxLevel, (tree.map TreeRow.level).max? = some maxLevel ∧
      ∀ node ∈ tree, node.level ≤ maxLevel := by
  cases hmax : (tree.map TreeRow.level).max? with
  | none =>
      rw [List.max?_eq_none_iff, List.map_eq_nil_iff] at hmax
      exact absurd hmax hne
  | some maxLevel =>
      exact ⟨maxLevel, rfl, fun node hnode =>
        (List.max?_eq_some_iff.mp hmax).2 _ (List.mem_map_of_mem hnode)⟩

/-! ## The levels of all trees -/

section Parallel

/-- The rows of a level of the classification. -/
def Walks (tree : List TreeRow) (encoded : List EncodedRow) : ℕ → ℤ × Instance → Prop
  | 0, row => row ∈ firstInstances tree encoded
  | level + 1, row => OnLevel tree encoded (level + 1) row.1 row.2

theorem mem_firstInstances {row : ℤ × Instance} :
    row ∈ firstInstances tree encoded ↔ Source tree encoded row.1 0 row.2 := by
  simp only [firstInstances, List.mem_flatMap, List.mem_map, List.mem_dedup, List.mem_filter,
    decide_eq_true_eq]
  constructor
  · rintro ⟨m, hm, t, ⟨root, ⟨hmem, hroot⟩, rfl⟩, rfl⟩
    exact ⟨m, hm, root, hmem, hroot, rfl, rfl⟩
  · rintro ⟨m, hm, root, hmem, hroot, htid, hrow⟩
    exact ⟨m, hm, _, ⟨root, ⟨hmem, hroot⟩, rfl⟩, Prod.ext htid hrow.symm⟩

theorem jumpLevel_eq (h : (encoded.map EncodedRow.id).Nodup) (level : ℕ)
    (rows : List (ℤ × Instance)) : jumpLevel tree encoded level rows = rows.flatMap fun t1 =>
      (tree.filter fun gt => gt.level = level ∧ t1.2.jump = some gt.id ∧ t1.1 = gt.tid).map
        fun gt => (t1.1, instanceAt gt t1.2.id
          (farrayOf (encoded.find? fun t2 => t1.2.id = t2.id))) := by
  unfold jumpLevel
  simp only [withMatches_find h]
  rw [← List.map_eq_flatMap, List.flatMap_map]

theorem done_iff (row : ℤ × Instance) (hrow : ∃ p ∈ tree, p.tid = row.1) :
    Done ((treeIds tree).map (leaves tree)) row ↔ Settled tree row.1 row.2 := by
  obtain ⟨p, hp, htid⟩ := hrow
  have hmem : row.1 ∈ treeIds tree := by
    rw [treeIds, List.mem_dedup, ← htid]
    exact List.mem_map_of_mem hp
  rw [Settled, ← notIn_iff hp htid]
  constructor
  · rintro ⟨g, hg, hrow⟩
    obtain ⟨treeId, -, rfl⟩ := List.mem_map.mp hg
    rw [leaves, Bool.and_eq_true, decide_eq_true_eq] at hrow
    rw [hrow.2]
    exact hrow.1
  · intro hnot
    refine ⟨leaves tree row.1, List.mem_map_of_mem hmem, ?_⟩
    rw [leaves, hnot, decide_eq_true rfl]
    rfl

theorem Walks.mem_tree {level : ℕ} {row : ℤ × Instance} (h : Walks tree encoded level row) :
    ∃ p ∈ tree, p.tid = row.1 := by
  cases level with
  | zero =>
      obtain ⟨m, -, root, hmem, -, htid, -⟩ := mem_firstInstances.mp h
      exact ⟨root, hmem, htid⟩
  | succ level => exact OnLevel.mem_treeIds h

theorem source_iff_walks (level : ℕ) (row : ℤ × Instance) :
    Walks tree encoded level row ∧ ¬Done ((treeIds tree).map (leaves tree)) row ↔
      Source tree encoded row.1 level row.2 := by
  cases level with
  | zero =>
      refine ⟨fun hrow => mem_firstInstances.mp hrow.1, fun hrow => ?_⟩
      obtain ⟨m, -, root, hmem, -, htid, hfirst⟩ := id hrow
      refine ⟨mem_firstInstances.mpr hrow, ?_⟩
      rw [done_iff row ⟨root, hmem, htid⟩, hfirst]
      rintro ⟨jump, hjump, hnone⟩
      exact hnone root hmem htid (Option.some.inj hjump)
  | succ level =>
      refine and_congr_right fun hrow => not_congr (done_iff row (Walks.mem_tree hrow))

theorem inserts_jumpLevel (h : Classifies distinctFeatures tree encoded) :
    Inserts (Walks tree encoded) (jumpLevel tree encoded) ((treeIds tree).map (leaves tree))
      rowKey where
  mem level source hsource row := by
    show _ ↔ OnLevel tree encoded (level + 1) row.1 row.2
    rw [onLevel_iff_source h, jumpLevel_eq h.ids]
    simp only [List.mem_flatMap, List.mem_map, List.mem_filter, decide_eq_true_eq, hsource,
      source_iff_walks]
    constructor
    · rintro ⟨src, hsrc, gt, ⟨hgt, hlevel, hjump, htid⟩, rfl⟩
      exact ⟨src.2, hsrc, gt, hgt, hlevel, hjump, htid, rfl⟩
    · rintro ⟨src, hsrc, gt, hgt, hlevel, hjump, htid, hrow⟩
      exact ⟨(row.1, src), hsrc, gt, ⟨hgt, hlevel, hjump, htid⟩, Prod.ext rfl hrow.symm⟩
  keys level source := by
    rw [jumpLevel_eq h.ids]
    refine flatMap_keys_sublist fun t1 _ => ⟨?_, fun b hb => ?_⟩
    · rw [List.length_map]
      refine length_nodes_le h.forest t1.2.jump fun gt _ hgt => ?_
      rw [decide_eq_true_eq] at hgt
      exact hgt.2.1
    · obtain ⟨gt, -, rfl⟩ := List.mem_map.mp hb
      rfl

theorem nodup_firstInstances (h : Classifies distinctFeatures tree encoded) :
    ((firstInstances tree encoded).map rowKey).Nodup := by
  have hkeys : (firstInstances tree encoded).map rowKey = encoded.flatMap fun m =>
      ((tree.filter fun t => t.parentId = 0).map fun t => (t.tid, t.id)).dedup.map fun t =>
        (t.1, m.id) := by
    rw [firstInstances, List.map_flatMap]
    simp only [List.map_map]
    rfl
  rw [hkeys, List.nodup_flatMap]
  constructor
  · intro m _
    refine List.Nodup.map_on (fun t ht t' ht' heq => ?_) (List.nodup_dedup _)
    simp only [List.mem_dedup, List.mem_map, List.mem_filter, decide_eq_true_eq] at ht ht'
    obtain ⟨root, ⟨hmem, hroot⟩, rfl⟩ := ht
    obtain ⟨root', ⟨hmem', hroot'⟩, rfl⟩ := ht'
    rw [h.forest.root_unique root hmem root' hmem' hroot hroot' (congrArg Prod.fst heq)]
  · refine (List.pairwise_map.mp h.ids).imp fun hne => ?_
    intro key hkey hkey'
    obtain ⟨t, -, rfl⟩ := List.mem_map.mp hkey
    obtain ⟨t', -, heq⟩ := List.mem_map.mp hkey'
    exact hne (congrArg Prod.snd heq).symm

theorem treemodelClassifyInternal_ok (h : Classifies distinctFeatures tree encoded)
    (hne : tree ≠ []) : ∃ result, treemodelClassifyInternal tree encoded = .ok result ∧
      IsResult (Stopped tree encoded) result := by
  obtain ⟨maxLevel, hmaxLevel, hmax⟩ := exists_max_level hne
  have hfirst : Behind (Walks tree encoded) ((treeIds tree).map (leaves tree)) rowKey rowKey 0
      ⟨firstInstances tree encoded, [], []⟩ := by
    refine ⟨fun row => ?_, nodup_firstInstances h⟩
    rw [source_iff_walks, ← mem_firstInstances]
  have hran := run_levels (inserts_jumpLevel h) (fun row => (row.1, row.2.classified))
    (fun _ => rfl) maxLevel hfirst
  rw [Nat.zero_add] at hran
  -- no row that is left has the jump 0
  have hleft : ∀ row, (∃ level, Walks tree encoded level row ∧
      ¬Done ((treeIds tree).map (leaves tree)) row) → row.2.jump ≠ some 0 := by
    rintro row ⟨level, hrow, hdone⟩
    rw [done_iff row hrow.mem_tree] at hdone
    exact jump_ne_zero h.forest hdone
  refine ⟨_, ?_, hran.nodup, fun row => ?_⟩
  · unfold treemodelClassifyInternal
    rw [hmaxLevel]
    simp only
    rw [List.filter_eq_nil_iff.mpr, List.filter_eq_nil_iff.mpr, List.append_nil, List.append_nil]
    · intro row hrow
      rcases hran.other row hrow with hnil | hrow
      · exact absurd hnil List.not_mem_nil
      · simpa using hleft row hrow
    · intro row hrow
      simpa using hleft row (hran.current row hrow)
  · rw [hran.result row, stopped_iff h fun node hnode _ => hmax node hnode]
    constructor
    · rintro (hnil | ⟨level, x, hlo, hhi, hx, hdone, rfl⟩)
      · exact absurd hnil List.not_mem_nil
      · obtain ⟨level, rfl⟩ := Nat.exists_eq_succ_of_ne_zero hlo.ne'
        exact ⟨_, x.2, hlo, hhi, hx, (done_iff x hx.mem_tree).mp hdone, rfl⟩
    · rintro ⟨level, x, hlo, hhi, hx, hsettled, hrow⟩
      obtain ⟨level, rfl⟩ := Nat.exists_eq_succ_of_ne_zero hlo.ne'
      exact .inr ⟨_, (row.1, x), hlo, hhi, hx,
        (done_iff (row.1, x) hx.mem_treeIds).mpr hsettled, Prod.ext rfl hrow⟩

end Parallel

/-! ## The levels of a tree -/

section Serial

def WalksSerial (tree : List TreeRow) (encoded : List EncodedRow) (tid : ℤ) : ℕ → Instance → Prop
  | 0, row => Source tree encoded tid 0 row
  | level + 1, row => OnLevel tree encoded (level + 1) tid row

theorem jumpLevelSerial_eq (h : (encoded.map EncodedRow.id).Nodup) (tid : ℤ) (level : ℕ)
    (rows : List Instance) : jumpLevelSerial tree encoded tid level rows = rows.flatMap fun t1 =>
      (tree.filter fun gt => (gt.level = level ∧ gt.tid = tid) ∧ t1.jump = some gt.id).map
        fun gt => instanceAt gt t1.id (farrayOf (encoded.find? fun t2 => t1.id = t2.id)) := by
  unfold jumpLevelSerial
  simp only [withMatches_find h]
  rw [← List.map_eq_flatMap, List.flatMap_map]

theorem done_serial_iff {tid : ℤ} (htid : ∃ p ∈ tree, p.tid = tid) (row : Instance) :
    Done [leavesSerial tree tid] row ↔ Settled tree tid row := by
  obtain ⟨p, hp, htid⟩ := htid
  rw [Settled, ← notIn_iff hp htid]
  constructor
  · rintro ⟨g, hg, hrow⟩
    rw [List.mem_singleton] at hg
    rwa [hg] at hrow
  · exact fun hrow => ⟨_, List.mem_singleton_self _, hrow⟩

theorem source_iff_walksSerial {tid : ℤ} (htid : ∃ p ∈ tree, p.tid = tid) (level : ℕ)
    (row : Instance) : WalksSerial tree encoded tid level row ∧ ¬Done [leavesSerial tree tid] row ↔
      Source tree encoded tid level row := by
  rw [done_serial_iff htid]
  cases level with
  | zero =>
      refine ⟨And.left, fun hrow => ⟨hrow, ?_⟩⟩
      obtain ⟨m, -, root, hmem, -, htid, rfl⟩ := hrow
      rintro ⟨jump, hjump, hnone⟩
      exact hnone root hmem htid (Option.some.inj hjump)
  | succ level => rfl

theorem inserts_jumpLevelSerial (h : Classifies distinctFeatures tree encoded) {tid : ℤ}
    (htid : ∃ p ∈ tree, p.tid = tid) : Inserts (WalksSerial tree encoded tid)
      (jumpLevelSerial tree encoded tid) [leavesSerial tree tid] fun row => (tid, row.id) where
  mem level source hsource row := by
    show _ ↔ OnLevel tree encoded (level + 1) tid row
    rw [onLevel_iff_source h, jumpLevelSerial_eq h.ids]
    simp only [List.mem_flatMap, List.mem_map, List.mem_filter, decide_eq_true_eq, hsource,
      source_iff_walksSerial htid]
    constructor
    · rintro ⟨src, hsrc, gt, ⟨hgt, ⟨hlevel, htid⟩, hjump⟩, rfl⟩
      exact ⟨src, hsrc, gt, hgt, hlevel, hjump, htid.symm, rfl⟩
    · rintro ⟨src, hsrc, gt, hgt, hlevel, hjump, htid, rfl⟩
      exact ⟨src, hsrc, gt, ⟨hgt, ⟨hlevel, htid.symm⟩, hjump⟩, rfl⟩
  keys level source := by
    rw [jumpLevelSerial_eq h.ids]
    refine flatMap_keys_sublist fun t1 _ => ⟨?_, fun b hb => ?_⟩
    · rw [List.length_map]
      refine length_nodes_le h.forest t1.jump fun gt _ hgt => ?_
      rw [decide_eq_true_eq] at hgt
      exact hgt.2
    · obtain ⟨gt, -, rfl⟩ := List.mem_map.mp hb
      rfl

/-- Every tree has a root. -/
theorem exists_root (h : IsForest distinctFeatures tree) {row : TreeRow} (hrow : row ∈ tree) :
    ∃ root ∈ tree, root.parentId = 0 ∧ root.tid = row.tid := by
  induction hlevel : row.level generalizing row with
  | zero =>
      by_cases hroot : row.parentId = 0
      · exact ⟨row, hrow, hroot, rfl⟩
      · obtain ⟨p, -, i, hchild⟩ := h.parent row hrow hroot
        have hstep := hchild.level_eq
        omega
  | succ level ih =>
      by_cases hroot : row.parentId = 0
      · exact ⟨row, hrow, hroot, rfl⟩
      · obtain ⟨p, hp, i, hchild⟩ := h.parent row hrow hroot
        have hstep := hchild.level_eq
        obtain ⟨root, hmem, hzero, htid⟩ := ih hp (by omega)
        exact ⟨root, hmem, hzero, htid.trans hchild.tid_eq.symm⟩

theorem find_root (h : IsForest distinctFeatures tree) {tid : ℤ} (htid : ∃ p ∈ tree, p.tid = tid) :
    ∃ root, ((ofTree tree tid).find? fun row => row.parentId = 0) = some root ∧ root ∈ tree ∧
      root.parentId = 0 ∧ root.tid = tid := by
  obtain ⟨p, hp, rfl⟩ := htid
  obtain ⟨root, hmem, hroot, htid⟩ := exists_root h hp
  cases hfind : (ofTree tree p.tid).find? fun row => row.parentId = 0 with
  | none =>
      rw [List.find?_eq_none] at hfind
      exact absurd (decide_eq_true hroot)
        (hfind root (List.mem_filter.mpr ⟨hmem, decide_eq_true htid⟩))
  | some root' =>
      have hmem' := List.mem_filter.mp (List.mem_of_find?_eq_some hfind)
      have hroot' := List.find?_some hfind
      rw [decide_eq_true_eq] at hmem' hroot'
      exact ⟨root', rfl, hmem'.1, hroot', hmem'.2⟩

/-- A tree adds the rows of its records to the result. -/
theorem classifyTree_ok (h : Classifies distinctFeatures tree encoded) {tid : ℤ}
    (htid : ∃ p ∈ tree, p.tid = tid) {result : List (ℤ × Instance)}
    (hresult : (result.map rowKey).Nodup) (hothers : ∀ row ∈ result, row.1 ≠ tid) :
    ∃ result', classifyTree tree encoded result tid = .ok result' ∧
      (result'.map rowKey).Nodup ∧ ∀ row, row ∈ result' ↔
        row ∈ result ∨ row.1 = tid ∧ Stopped tree encoded row := by
  obtain ⟨root, hfind, hmem, hroot, hrootTid⟩ := find_root h.forest htid
  have hne : ofTree tree tid ≠ [] :=
    List.ne_nil_of_mem (List.mem_filter.mpr ⟨hmem, decide_eq_true hrootTid⟩)
  obtain ⟨maxLevel, hmaxLevel, hmax⟩ := exists_max_level hne
  have hnodes : ∀ node ∈ tree, node.tid = tid → node.level ≤ maxLevel := fun node hnode hnodeTid =>
    hmax node (List.mem_filter.mpr ⟨hnode, decide_eq_true hnodeTid⟩)
  have hfirst : Behind (WalksSerial tree encoded tid) [leavesSerial tree tid]
      (fun row : Instance => (tid, row.id)) rowKey 0
      ⟨encoded.map fun m => firstInstance m root, [], result⟩ := by
    refine ⟨fun row => ?_, ?_⟩
    · rw [source_iff_walksSerial htid, List.mem_map]
      constructor
      · rintro ⟨m, hm, rfl⟩
        exact ⟨m, hm, root, hmem, hroot, hrootTid, rfl⟩
      · rintro ⟨m, hm, root', hmem', hroot', hrootTid', rfl⟩
        refine ⟨m, hm, ?_⟩
        rw [h.forest.root_unique root hmem root' hmem' hroot hroot'
          (hrootTid.trans hrootTid'.symm)]
    · have hkeys : (encoded.map fun m => firstInstance m root).map
          (fun row : Instance => (tid, row.id)) =
          (encoded.map EncodedRow.id).map (Prod.mk tid) := by
        rw [List.map_map, List.map_map]
        rfl
      show (result.map rowKey ++ (encoded.map fun m => firstInstance m root).map _).Nodup
      rw [hkeys, List.nodup_append]
      refine ⟨hresult, h.ids.map (Prod.mk_right_injective tid), fun key hkey key' hkey' heq => ?_⟩
      obtain ⟨row, hrow, rfl⟩ := List.mem_map.mp hkey
      obtain ⟨id, -, rfl⟩ := List.mem_map.mp hkey'
      exact hothers row hrow (congrArg Prod.fst heq)
  have hran := run_levels (inserts_jumpLevelSerial h htid) (fun row => (tid, row.classified))
    (fun _ => rfl) maxLevel hfirst
  rw [Nat.zero_add] at hran
  have hleft : ∀ row, (∃ level, WalksSerial tree encoded tid level row ∧
      ¬Done [leavesSerial tree tid] row) → row.jump ≠ some 0 := by
    rintro row ⟨level, -, hdone⟩
    rw [done_serial_iff htid] at hdone
    exact jump_ne_zero h.forest hdone
  refine ⟨_, ?_, hran.nodup, fun row => ?_⟩
  · unfold classifyTree
    rw [hmaxLevel, hfind]
    show Except.ok _ = _
    rw [List.filter_eq_nil_iff.mpr, List.filter_eq_nil_iff.mpr, List.map_nil, List.append_nil,
      List.append_nil]
    · rfl
    · intro row hrow
      rcases hran.other row hrow with hnil | hrow
      · exact absurd hnil List.not_mem_nil
      · simpa using hleft row hrow
    · intro row hrow
      simpa using hleft row (hran.current row hrow)
  · rw [hran.result row]
    refine or_congr_right ?_
    constructor
    · rintro ⟨level, x, hlo, hhi, hx, hdone, rfl⟩
      obtain ⟨level, rfl⟩ := Nat.exists_eq_succ_of_ne_zero hlo.ne'
      exact ⟨rfl, (stopped_iff h hnodes).mpr
        ⟨_, x, hlo, hhi, hx, (done_serial_iff htid x).mp hdone, rfl⟩⟩
    · rintro ⟨rfl, hstopped⟩
      obtain ⟨level, x, hlo, hhi, hx, hsettled, hrow⟩ := (stopped_iff h hnodes).mp hstopped
      obtain ⟨level, rfl⟩ := Nat.exists_eq_succ_of_ne_zero hlo.ne'
      exact ⟨_, x, hlo, hhi, hx, (done_serial_iff htid x).mpr hsettled, Prod.ext rfl hrow⟩

/-- The trees, one after the other. -/
theorem classifyTrees_ok (h : Classifies distinctFeatures tree encoded) {tids : List ℤ}
    (hnodup : tids.Nodup) (htids : ∀ tid ∈ tids, ∃ p ∈ tree, p.tid = tid)
    {result : List (ℤ × Instance)} (hresult : (result.map rowKey).Nodup)
    (hothers : ∀ row ∈ result, row.1 ∉ tids) :
    ∃ result', tids.foldlM (classifyTree tree encoded) result = .ok result' ∧
      (result'.map rowKey).Nodup ∧ ∀ row, row ∈ result' ↔
        row ∈ result ∨ row.1 ∈ tids ∧ Stopped tree encoded row := by
  induction tids generalizing result with
  | nil => exact ⟨result, rfl, hresult, fun row => by simp⟩
  | cons tid tids ih =>
      obtain ⟨hfresh, hnodup⟩ := List.nodup_cons.mp hnodup
      obtain ⟨htid, htids⟩ := List.forall_mem_cons.mp htids
      obtain ⟨mid, hmid, hmidNodup, hmidMem⟩ := classifyTree_ok h htid hresult fun row hrow heq =>
        hothers row hrow (heq ▸ List.mem_cons_self)
      obtain ⟨result', hrun, hresult', hmem⟩ := ih hnodup htids hmidNodup fun row hrow hin => by
        rcases (hmidMem row).mp hrow with hrow | ⟨rfl, -⟩
        · exact hothers row hrow (List.mem_cons_of_mem _ hin)
        · exact hfresh hin
      refine ⟨result', ?_, hresult', fun row => ?_⟩
      · rw [List.foldlM_cons, hmid]
        exact hrun
      · rw [hmem, hmidMem, List.mem_cons]
        tauto

theorem treemodelClassifyInternalSerial_ok (h : Classifies distinctFeatures tree encoded) :
    ∃ result, treemodelClassifyInternalSerial tree encoded = .ok result ∧
      IsResult (Stopped tree encoded) result := by
  have htids : ∀ tid ∈ treeIds tree, ∃ p ∈ tree, p.tid = tid := by
    intro tid htid
    rw [treeIds, List.mem_dedup] at htid
    exact List.mem_map.mp htid
  have hnil : (([] : List (ℤ × Instance)).map rowKey).Nodup := List.nodup_nil
  obtain ⟨result, hrun, hnodup, hmem⟩ := classifyTrees_ok h (List.nodup_dedup _) htids hnil
    fun row hrow => absurd hrow List.not_mem_nil
  refine ⟨result, hrun, hnodup, fun row => ?_⟩
  rw [hmem]
  constructor
  · rintro (hnil | ⟨-, hrow⟩)
    · exact absurd hnil List.not_mem_nil
    · exact hrow
  · rintro ⟨m, hm, leaf, hstop, hrow⟩
    refine .inr ⟨?_, m, hm, leaf, hstop, hrow⟩
    rw [← hstop.1.tid_eq]
    exact List.mem_dedup.mpr (List.mem_map_of_mem hstop.1.mem)

end Serial

/-- The two results have the same rows. -/
theorem IsResult.perm {stopped : ℤ × Instance → Prop} {result result' : List (ℤ × Instance)}
    (h : IsResult stopped result) (h' : IsResult stopped result') : result.Perm result' := by
  rw [List.perm_ext_iff_of_nodup h.nodup.of_map h'.nodup.of_map]
  exact fun row => (h.mem_iff row).trans (h'.mem_iff row).symm

/-! ## The two ways to classify -/

/-- Both ways lead every record down every tree to the same end, and give it one row for each. -/
theorem classify_agree (h : Classifies distinctFeatures tree encoded) (hne : tree ≠ []) :
    ∃ result serial, treemodelClassifyInternal tree encoded = .ok result ∧
      treemodelClassifyInternalSerial tree encoded = .ok serial ∧ result.Perm serial ∧
      (result.map rowKey).Nodup ∧ (∀ row, row ∈ result ↔ Stopped tree encoded row) ∧
      ∀ m ∈ encoded, ∀ root ∈ tree, root.parentId = 0 →
        (∀ p ∈ tree, p.tid = root.tid → p.lmcNid ≠ none → m.fv p.feature ≠ none) →
        ∃ leaf, StopsAt tree m.fv root.tid leaf ∧
          (root.tid, (instanceAt leaf m.id m.fv).classified) ∈ result := by
  obtain ⟨result, hrun, hresult⟩ := treemodelClassifyInternal_ok h hne
  obtain ⟨serial, hrunSerial, hserial⟩ := treemodelClassifyInternalSerial_ok h
  refine ⟨result, serial, hrun, hrunSerial, hresult.perm hserial, hresult.nodup, hresult.mem_iff,
    fun m hm root hroot hparent hvalues => ?_⟩
  obtain ⟨leaf, hstops⟩ := exists_stopsAt h.forest (h.encoded m hm) hroot hparent hvalues
  exact ⟨leaf, hstops, (hresult.mem_iff _).mpr ⟨m, hm, leaf, hstops, rfl⟩⟩

/-- A root that is split at zero, and its two leaves. -/
def stump : List TreeRow :=
  [⟨1, [0], 1, 1 / 2, some 1, 1, 1, 0, some 2, 0, some 2, some 1, some true, some 0, 1, none⟩,
    ⟨2, [0, 1], 0, 1, some 1, 1, 0, 0, some 1, 1, none, none, none, none, 1, none⟩,
    ⟨3, [0, 2], 0, 1, some 1, 2, 0, 0, some 1, 1, none, none, none, none, 1, none⟩]

theorem isForest_stump : IsForest (fun _ => 0) stump where
  nodup := by decide
  id_pos := by decide
  root_level := by decide
  root_unique := by simp [stump]
  parent := by
    intro row hrow hparent
    simp only [stump, List.mem_cons, List.not_mem_nil, or_false] at hrow
    rcases hrow with rfl | rfl | rfl
    · exact absurd rfl hparent
    · exact ⟨_, List.mem_cons_self, 1, rfl, rfl, rfl, by decide⟩
    · exact ⟨_, List.mem_cons_self, 2, rfl, rfl, rfl, by decide⟩
  leaf := by decide
  inner := by
    intro p hp lmcNid hlmc
    simp only [stump, List.mem_cons, List.not_mem_nil, or_false] at hp
    rcases hp with rfl | rfl | rfl
    · obtain rfl := Option.some.inj hlmc
      refine ⟨1, rfl, by decide, fun row hrow i hlo hhi hid => ?_⟩
      change i ≤ 2 at hhi
      simp only [stump, List.mem_cons, List.not_mem_nil, or_false] at hrow
      rcases hrow with rfl | rfl | rfl
      · change (1 : ℤ) = 2 + i - 1 at hid
        omega
      · obtain rfl : i = 1 := by
          change (2 : ℤ) = 2 + i - 1 at hid
          omega
        exact ⟨rfl, rfl, rfl, by decide⟩
      · obtain rfl : i = 2 := by
          change (3 : ℤ) = 2 + i - 1 at hid
          omega
        exact ⟨rfl, rfl, rfl, by decide⟩
    · cases hlmc
    · cases hlmc
  split := by decide

/-- A record on each side of the split. -/
def sides : List EncodedRow := [⟨7, fun _ => some (-1), some 1⟩, ⟨8, fun _ => some 1, some 2⟩]

theorem encoded_stump (fv : ℤ → Option ℚ) : Encoded (fun _ => 0) stump fv := by
  intro p hp hlmc hdiscrete
  simp only [stump, List.mem_cons, List.not_mem_nil, or_false] at hp
  rcases hp with rfl | rfl | rfl
  · exact absurd rfl hdiscrete
  · exact absurd rfl hlmc
  · exact absurd rfl hlmc

theorem classifies_sides : Classifies (fun _ => 0) stump sides where
  forest := isForest_stump
  ids := by decide
  encoded m _ := encoded_stump m.fv

theorem classify_agree_sides : ∃ result serial, treemodelClassifyInternal stump sides = .ok result ∧
    treemodelClassifyInternalSerial stump sides = .ok serial ∧ result.Perm serial ∧
    (result.map rowKey).Nodup := by
  obtain ⟨result, serial, hrun, hserial, hperm, hnodup, -⟩ :=
    classify_agree classifies_sides (by simp [stump])
  exact ⟨result, serial, hrun, hserial, hperm, hnodup⟩

end Result

end Madlib.Cart
