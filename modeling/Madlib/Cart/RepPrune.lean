import Madlib.Cart.ClassCounts
import Madlib.Cart.PruneTree
import Madlib.Cart.VoteResult
import Madlib.Lib.Statement

/-!
# Reduced-error pruning

The records of a validation set are classified once.  A node becomes a leaf when its children are
leaves that are wrong about more of the records below it, or about as many, than its most frequent
class is.  The records move up with it; they take the class the node has had from the training.
-/

namespace Madlib.Cart

open Madlib.Backend
open Madlib.Lib.BottomUp
open Madlib.Lib.Segments
open Madlib.Lib.Statement
open Madlib.Lib.Tables

/-- A row of the join of the classification result and the validation set: the parent of the
leaf, the class of the result and that of the record. -/
structure RepRow where
  parentId : Option ℤ
  classified : ℤ
  original : Option ℤ

/-- `FROM classify_result c, encoded_table s WHERE c.id = s.id` -/
def repRows (encoded : List EncodedRow) (rows : List (ℤ × Instance)) : List RepRow :=
  rows.flatMap fun c => (encoded.filter fun s => c.2.id = s.id).map fun s =>
    ⟨c.2.parentId, c.2.cls, s.cls⟩

/-- The arguments of `__rep_aggr_class_count`; a NULL is read as if it had a value. -/
def repArgs (row : RepRow) : Except Fault (ℤ × ℤ) :=
  match row.original with
  | some original => .ok (row.classified, original)
  | none => .error .uninitialised

/-- `maxclass` and `isreplace` of a group. -/
def repAggr (maxNumClasses : ℤ) (rows : List RepRow) : Except Fault (ℤ × ℤ) := do
  let args ← rows.mapM repArgs
  let state ← (repAggrClassCount maxNumClasses).run (.segment args)
  match state with
  | none => pure (-1, -1)
  | some state => do
      let result ← dtRepAggrClassCountFfunc state
      pure (result.data.getD 0 0, result.data.getD 1 0)

/-- `WHERE (t.g).isreplace >= 0 AND t.parent_id IN (..)` -/
def replacement (tree : List TreeRow) (t : Option ℤ × ℤ × ℤ) : Option (ℤ × ℤ) :=
  t.1.bind fun parentId =>
    if 0 ≤ t.2.2 ∧ parentId ∈ (lastNodes tree).map TreeRow.parentId then some (parentId, t.2.1)
    else none

/-- `selected_parent_ids_rep` -/
def selectedParentIdsRep (maxNumClasses : ℤ) (tree : List TreeRow) (encoded : List EncodedRow)
    (rows : List (ℤ × Instance)) : Except Fault (List (ℤ × ℤ)) := do
  let groups ← (groupBy RepRow.parentId (repRows encoded rows)).mapM fun group => do
    let g ← repAggr maxNumClasses group.2
    pure (group.1, g)
  pure (groups.filterMap (replacement tree))

/-- The update of the classification result; it reads the tree before that is updated. -/
def moveUp (tree : List TreeRow) (selected : List ℤ) (m : ℤ × Instance) : ℤ × Instance :=
  match tree.find? fun t => t.id ∈ selected ∧ m.2.parentId = some t.id with
  | some t =>
      (m.1, { m.2 with cls := t.maxclass, parentId := some t.parentId, leafId := some t.id })
  | none => m

/-- `SET lmc_nid = NULL, lmc_fval = NULL, maxclass = t2.maxclass` -/
def repLeaf (selected : List (ℤ × ℤ)) (row : TreeRow) : TreeRow :=
  match selected.find? fun t2 => row.id = t2.1 with
  | some t2 => { row with lmcNid := none, lmcFval := none, maxclass := t2.2 }
  | none => row

/-- The loop of `__rep_prune_tree`, with at most so many rounds. -/
def repPruneLoop (maxNumClasses : ℤ) (encoded : List EncodedRow) :
    ℕ → List TreeRow → List (ℤ × Instance) → Except Fault (List TreeRow)
  | 0, _, _ => .error .unfinished
  | rounds + 1, tree, rows => do
      let selected ← selectedParentIdsRep maxNumClasses tree encoded rows
      if selected = [] then pure tree
      else
        repPruneLoop maxNumClasses encoded rounds
          (pruneRows (selected.map Prod.fst) (repLeaf selected) tree)
          (rows.map (moveUp tree (selected.map Prod.fst)))

/-- `__rep_prune_tree` -/
def repPruneTree (maxNumClasses : ℤ) (rounds : ℕ) (tree : List TreeRow)
    (encoded : List EncodedRow) : Except Fault (List TreeRow) := do
  let rows ← treemodelClassifyInternal tree encoded
  repPruneLoop maxNumClasses encoded rounds tree rows

/-! ## Where the records are -/

section Rows

variable {distinctFeatures : ℤ → ℤ} {tree : List TreeRow} {encoded : List EncodedRow}
  {cut : TreeRow → Prop}

/-- The row of a record that has been moved from one node to another. -/
def movedRow (stop r : TreeRow) (m : EncodedRow) : Instance :=
  { (instanceAt stop m.id m.fv).classified with
    cls := r.maxclass
    parentId := some r.parentId
    leafId := some r.id }

/-- The classification result behind some rounds. -/
structure Moved (tree : List TreeRow) (encoded : List EncodedRow) (cut : TreeRow → Prop)
    (rows : List (ℤ × Instance)) : Prop where
  keys : (rows.map rowKey).Nodup
  row : ∀ row ∈ rows, ∃ m ∈ encoded, ∃ stop, StopsAt tree m.fv row.1 stop ∧
    ∃ r, EndsAt tree cut m.fv row.1 r ∧ row.2 = movedRow stop r m
  exists_row : ∀ m ∈ encoded, ∀ tid stop, StopsAt tree m.fv tid stop →
    ∃ row ∈ rows, rowKey row = (tid, m.id)

theorem Moved.start {result : List (ℤ × Instance)}
    (hresult : IsResult (Stopped tree encoded) result) :
    Moved tree encoded (fun _ => False) result where
  keys := hresult.nodup
  row row hrow := by
    obtain ⟨m, hm, leaf, hstop, heq⟩ := (hresult.mem_iff row).mp hrow
    exact ⟨m, hm, leaf, hstop, leaf, ⟨hstop.1, left_start, .inr hstop⟩, heq⟩
  exists_row m hm tid stop hstop :=
    ⟨(tid, (instanceAt stop m.id m.fv).classified),
      (hresult.mem_iff _).mpr ⟨m, hm, stop, hstop, rfl⟩, rfl⟩

theorem rowKey_moveUp (t : List TreeRow) (selected : List ℤ) (m : ℤ × Instance) :
    rowKey (moveUp t selected m) = rowKey m := by
  unfold moveUp
  cases t.find? fun t => t.id ∈ selected ∧ m.2.parentId = some t.id with
  | some t => rfl
  | none => rfl

/-- A record goes through the parent of a node of its way. -/
theorem reaches_parent (h : IsForest distinctFeatures tree) {fv : ℤ → Option ℚ}
    (hfv : Encoded distinctFeatures tree fv) {tid : ℤ} {p c : TreeRow}
    (hc : Reaches tree fv tid c) (hchild : ChildRow tree p c) : Reaches tree fv tid p := by
  cases hc with
  | root _ hparent =>
      have hpos := h.id_pos p hchild.1
      rw [← hchild.2.2, hparent] at hpos
      exact absurd hpos (lt_irrefl 0)
  | @child q _ hq hjump hmem _ =>
      have hchild' := childRow_of_newJump h hfv hq.mem hmem hjump
      rwa [leftUnique_childRow h hchild hchild']

/-- A round moves the records up to the nodes it makes leaves. -/
theorem Moved.round (h : Classifies distinctFeatures tree encoded) {rows : List (ℤ × Instance)}
    (hmoved : Moved tree encoded cut rows) {selected : List ℤ}
    (hready : ∀ p, Selected tree selected p → Ready (ChildRow tree) cut p) (cls : TreeRow → ℤ) :
    Moved tree encoded (fun p => cut p ∨ Selected tree selected p)
      (rows.map (moveUp (prunedTree tree cut cls) selected)) where
  keys := by
    rw [List.map_map]
    have hkey : rowKey ∘ moveUp (prunedTree tree cut cls) selected = rowKey :=
      funext fun m => rowKey_moveUp _ _ m
    rw [hkey]
    exact hmoved.keys
  row row' hrow' := by
    obtain ⟨row, hrow, rfl⟩ := List.mem_map.mp hrow'
    obtain ⟨m, hm, stop, hstop, r, hr, heq⟩ := hmoved.row row hrow
    refine ⟨m, hm, stop, ?_⟩
    have htid : (moveUp (prunedTree tree cut cls) selected row).1 = row.1 :=
      (Prod.mk.inj (rowKey_moveUp (prunedTree tree cut cls) selected row)).1
    rw [htid]
    refine ⟨hstop, ?_⟩
    have hparentId : row.2.parentId = some r.parentId := by
      rw [heq]
      rfl
    unfold moveUp
    cases hfind : (prunedTree tree cut cls).find? fun t =>
        t.id ∈ selected ∧ row.2.parentId = some t.id with
    | some t =>
        -- the parent has been selected: the record moves to it
        have hfound := List.find?_some hfind
        rw [decide_eq_true_eq, hparentId] at hfound
        obtain ⟨p, hp, -, rfl⟩ := mem_prunedTree.mp (List.mem_of_find?_eq_some hfind)
        rw [prunedRow_id] at hfound
        have hchild : ChildRow tree p r := ⟨hp, hr.reaches.mem, Option.some.inj hfound.2⟩
        have hpready := hready p ⟨hp, hfound.1⟩
        have hreach := reaches_parent h.forest (h.encoded m hm) hr.reaches hchild
        refine ⟨p, ⟨hreach, (left_round hready).mpr ⟨hpready.left, fun q hq hsel => ?_⟩,
          .inl (.inr ⟨hp, hfound.1⟩)⟩, ?_⟩
        · exact hpready.uncut ((hready q hsel).children p hq hpready.inner)
        · rw [prunedRow_of_uncut hpready.uncut, heq]
          rfl
    | none =>
        refine ⟨r, ⟨hr.reaches, (left_round hready).mpr ⟨hr.left, fun q hq hsel => ?_⟩,
          hr.leaf.imp_left .inl⟩, heq⟩
        rw [List.find?_eq_none] at hfind
        refine hfind (prunedRow cut cls q)
          (mem_prunedTree.mpr ⟨q, hq.1, (hready q hsel).left, rfl⟩) ?_
        rw [decide_eq_true_eq, hparentId, prunedRow_id, hq.2.2]
        exact ⟨hsel.2, rfl⟩
  exists_row m hm tid stop hstop := by
    obtain ⟨row, hrow, hkey⟩ := hmoved.exists_row m hm tid stop hstop
    exact ⟨_, List.mem_map_of_mem hrow, (rowKey_moveUp _ _ row).trans hkey⟩

/-! ## The records below a node -/

/-- The class of a record. -/
def classOf (encoded : List EncodedRow) (id : ℤ) : Option ℤ :=
  (encoded.find? fun s => id = s.id).bind EncodedRow.cls

theorem repRows_eq (h : Classifies distinctFeatures tree encoded) {rows : List (ℤ × Instance)}
    (hmoved : Moved tree encoded cut rows) :
    repRows encoded rows = rows.map fun row =>
      ⟨row.2.parentId, row.2.cls, classOf encoded row.2.id⟩ := by
  have hone : ∀ row ∈ rows, ((encoded.filter fun s => row.2.id = s.id).map fun s =>
      (⟨row.2.parentId, row.2.cls, s.cls⟩ : RepRow)) =
      [⟨row.2.parentId, row.2.cls, classOf encoded row.2.id⟩] := by
    intro row hrow
    obtain ⟨m, hm, stop, -, r, -, heq⟩ := hmoved.row row hrow
    have hid : row.2.id = m.id := by
      rw [heq]
      rfl
    have hpair := withMatches_find h.ids () row.2.id
    have hfind := find_encoded h.ids hm
    rw [← hid] at hfind
    rw [hfind] at hpair
    have hfilter : (encoded.filter fun s => row.2.id = s.id) = [m] := by
      generalize (encoded.filter fun s => row.2.id = s.id) = found at hpair
      match found, hpair with
      | [s], hpair =>
          have hsome : some s = some m := congrArg (fun l => (l.head?.bind Prod.snd)) hpair
          rw [Option.some.inj hsome]
    rw [hfilter, classOf, hfind]
    rfl
  unfold repRows
  rw [List.map_eq_flatMap]
  exact List.flatMap_congr hone

open Classical in
/-- The records that go on below a node, and stop somewhere, with the children that they come to. -/
noncomputable def recordsBelow (tree : List TreeRow) (encoded : List EncodedRow) (p : TreeRow) :
    List (EncodedRow × TreeRow) :=
  encoded.flatMap fun m => ((childRows tree p).filter fun c =>
    Reaches tree m.fv p.tid c ∧ ∃ stop, StopsAt tree m.fv p.tid stop).map fun c => (m, c)

/-- The class of the child and that of the record. -/
noncomputable def classesBelow (tree : List TreeRow) (encoded : List EncodedRow) (p : TreeRow) :
    List (ℤ × ℤ) :=
  (recordsBelow tree encoded p).map fun mc => (mc.2.maxclass, mc.1.cls.getD 0)

theorem mem_recordsBelow {p : TreeRow} (hp : p ∈ tree) {m : EncodedRow} {c : TreeRow} :
    (m, c) ∈ recordsBelow tree encoded p ↔ m ∈ encoded ∧ ChildRow tree p c ∧
      Reaches tree m.fv p.tid c ∧ ∃ stop, StopsAt tree m.fv p.tid stop := by
  classical
  simp only [recordsBelow, List.mem_flatMap, List.mem_map, List.mem_filter, decide_eq_true_eq,
    Prod.mk.injEq, mem_childRows hp]
  constructor
  · rintro ⟨m', hm', c', ⟨hc', hreach, hstop⟩, rfl, rfl⟩
    exact ⟨hm', hc', hreach, hstop⟩
  · rintro ⟨hm, hc, hreach, hstop⟩
    exact ⟨m, hm, c, ⟨hc, hreach, hstop⟩, rfl, rfl⟩

/-- At most one child of a node is on the way of a record. -/
theorem nodup_recordsBelow (h : Classifies distinctFeatures tree encoded) {p : TreeRow}
    (hp : p ∈ tree) : ((recordsBelow tree encoded p).map fun mc => mc.1.id).Nodup := by
  classical
  have hone : ∀ m ∈ encoded, ((childRows tree p).filter fun c =>
      Reaches tree m.fv p.tid c ∧ ∃ stop, StopsAt tree m.fv p.tid stop).length ≤ 1 := by
    intro m hm
    refine length_le_one ((h.forest.nodup.of_map.filter _).filter _) fun c hc d hd => ?_
    rw [List.mem_filter, decide_eq_true_eq, mem_childRows hp] at hc hd
    obtain ⟨i, hci⟩ := isChild_of_childRow h.forest hc.1
    obtain ⟨j, hdj⟩ := isChild_of_childRow h.forest hd.1
    exact hc.2.1.eq_of_level h.forest (h.encoded m hm) hd.2.1
      (hci.level_eq.trans hdj.level_eq.symm)
  have hkeys : ((recordsBelow tree encoded p).map fun mc => mc.1.id).Sublist
      (encoded.map EncodedRow.id) := by
    refine flatMap_keys_sublist fun m hm => ⟨?_, fun mc hmc => ?_⟩
    · rw [List.length_map]
      exact hone m hm
    · obtain ⟨c, -, rfl⟩ := List.mem_map.mp hmc
      rfl
  exact hkeys.nodup h.ids

/-- A child of a ready node ends the way of the records that come to it. -/
theorem endsAt_of_ready (h : IsForest distinctFeatures tree) {p c : TreeRow}
    (hready : Ready (ChildRow tree) cut p) (hchild : ChildRow tree p c) {fv : ℤ → Option ℚ}
    {tid : ℤ} (hreach : Reaches tree fv tid c) : EndsAt tree cut fv tid c := by
  refine ⟨hreach, hready.left.of_parent (leftUnique_childRow h) hready.uncut hchild, ?_⟩
  by_cases hnone : Childless (ChildRow tree) c
  · refine .inr ⟨hreach, 0, ?_, fun row hrow _ => (h.id_pos row hrow).ne'⟩
    unfold TreeRow.newJump
    rw [(childless_iff h hchild.2.1).mp hnone]
  · exact .inl (hready.children c hchild hnone)

/-- The rows of the group of a ready node stand for the records below it. -/
theorem group_perm (h : Classifies distinctFeatures tree encoded) {rows : List (ℤ × Instance)}
    (hmoved : Moved tree encoded cut rows) {p : TreeRow}
    (hready : Ready (ChildRow tree) cut p) :
    ((rows.filter fun row => row.2.parentId = some p.id).map fun row =>
      (row.2.cls, (classOf encoded row.2.id).getD 0)).Perm (classesBelow tree encoded p) := by
  have hp := mem_of_ready hready
  -- where a row of the group comes from
  have hrow : ∀ row ∈ rows, row.2.parentId = some p.id → ∃ m ∈ encoded, ∃ c,
      row.2.id = m.id ∧ row.1 = p.tid ∧ row.2.cls = c.maxclass ∧ ChildRow tree p c ∧
        EndsAt tree cut m.fv p.tid c ∧ ∃ stop, StopsAt tree m.fv p.tid stop := by
    intro row hrow hparent
    obtain ⟨m, hm, stop, hstop, c, hc, heq⟩ := hmoved.row row hrow
    rw [heq] at hparent
    have hchild : ChildRow tree p c := ⟨hp, hc.reaches.mem, Option.some.inj hparent⟩
    obtain ⟨i, hi⟩ := isChild_of_childRow h.forest hchild
    have hrowTid : row.1 = p.tid := hc.reaches.tid_eq.symm.trans hi.tid_eq
    rw [hrowTid] at hc hstop
    exact ⟨m, hm, c, by rw [heq]; rfl, hrowTid, by rw [heq]; rfl, hchild, hc, stop, hstop⟩
  have hperm : ((rows.filter fun row => row.2.parentId = some p.id).map fun row => row.2.id).Perm
      ((recordsBelow tree encoded p).map fun mc => mc.1.id) := by
    rw [List.perm_ext_iff_of_nodup _ (nodup_recordsBelow h hp)]
    · intro id
      rw [List.mem_map, List.mem_map]
      constructor
      · rintro ⟨row, hin, rfl⟩
        rw [List.mem_filter, decide_eq_true_eq] at hin
        obtain ⟨m, hm, c, hid, -, -, hchild, hc, hstop⟩ := hrow row hin.1 hin.2
        exact ⟨(m, c), (mem_recordsBelow hp).mpr ⟨hm, hchild, hc.reaches, hstop⟩, hid.symm⟩
      · rintro ⟨⟨m, c⟩, hmc, rfl⟩
        obtain ⟨hm, hchild, hreach, stop, hstop⟩ := (mem_recordsBelow hp).mp hmc
        obtain ⟨row, hin, hkey⟩ := hmoved.exists_row m hm p.tid stop hstop
        obtain ⟨m', hm', stop', -, r, hr, heq⟩ := hmoved.row row hin
        have hid : m'.id = m.id := by
          rw [← (Prod.mk.inj hkey).2, heq]
          rfl
        obtain rfl := List.inj_on_of_nodup_map h.ids hm' hm hid
        rw [(Prod.mk.inj hkey).1] at hr
        obtain rfl := hr.unique h.forest (h.encoded m' hm')
          (endsAt_of_ready h.forest hready hchild hreach)
        refine ⟨row, List.mem_filter.mpr ⟨hin, decide_eq_true ?_⟩, (Prod.mk.inj hkey).2⟩
        rw [heq, ← hchild.2.2]
        rfl
    · have hkeys : ((rows.filter fun row => row.2.parentId = some p.id).map rowKey).Nodup :=
        hmoved.keys.sublist (List.filter_sublist.map _)
      refine List.Nodup.of_map (fun id => (p.tid, id)) ?_
      rw [List.map_map]
      refine (List.map_congr_left fun row hin => ?_) ▸ hkeys
      rw [List.mem_filter, decide_eq_true_eq] at hin
      obtain ⟨-, -, -, -, hrowTid, -⟩ := hrow row hin.1 hin.2
      exact Prod.ext hrowTid rfl
  refine map_perm_of_keys hperm fun row hin mc hmc hid => ?_
  rw [List.mem_filter, decide_eq_true_eq] at hin
  obtain ⟨m, hm, c, hrowId, -, hcls, hchild, hc, -⟩ := hrow row hin.1 hin.2
  obtain ⟨hm', hchild', hreach, -⟩ := (mem_recordsBelow (m := mc.1) (c := mc.2) hp).mp hmc
  have heqm := List.inj_on_of_nodup_map h.ids hm hm' (hrowId.symm.trans hid)
  rw [heqm] at hc
  have heqc := hc.unique h.forest (h.encoded mc.1 hm')
    (endsAt_of_ready h.forest hready hchild' hreach)
  show (row.2.cls, (classOf encoded row.2.id).getD 0) = (mc.2.maxclass, mc.1.cls.getD 0)
  have hid' : row.2.id = mc.1.id := hid
  rw [hcls, heqc, classOf, hid', find_encoded h.ids hm']
  rfl

/-! ## What a round selects -/

/-- The smallest of the most frequent classes. -/
noncomputable def repClass (K : ℕ) (votes : List (ℤ × ℤ)) : ℕ :=
  sInf {c | c ∈ Finset.Ico 1 (K + 1) ∧ originalCount votes c = largestClass K votes}

/-- By how many more records the children are wrong than that class is. -/
def repGain (K : ℕ) (votes : List (ℤ × ℤ)) : ℤ :=
  misclassified votes - (votes.length - largestClass K votes)

theorem repGain_perm {K : ℕ} {votes votes' : List (ℤ × ℤ)} (h : votes.Perm votes') :
    repGain K votes = repGain K votes' := by
  rw [repGain, repGain, h.length_eq, Multiset.coe_eq_coe.mpr h]

theorem repClass_perm {K : ℕ} {votes votes' : List (ℤ × ℤ)} (h : votes.Perm votes') :
    repClass K votes = repClass K votes' := by
  rw [repClass, repClass, Multiset.coe_eq_coe.mpr h]

theorem repAggr_ok {K : ℕ} (hK : 2 ≤ K) (hfit : CountsFit K) {rows : List RepRow}
    {votes : List (ℤ × ℤ)} (hargs : rows.mapM repArgs = .ok votes) (hne : votes ≠ [])
    (hvotes : ∀ v ∈ votes, InClasses K v) (hcard : votes.length < 2 ^ 63) :
    repAggr K rows = .ok ((repClass K votes : ℤ), repGain K votes) := by
  have hrows : ∀ v ∈ (Plan.segment votes).rows, InClasses K v :=
    fun v hv => hvotes v (Multiset.mem_coe.mp hv)
  have hstate : repState K (Plan.segment votes).rows = some ⟨1, countArray K votes⟩ :=
    if_neg (mt (Multiset.coe_eq_zero votes).mp hne)
  obtain ⟨maxid, hffunc, hleast⟩ := ffunc_countArray (by omega) hrows hcard
  unfold repAggr
  rw [hargs, ok_bind, repAggrClassCount_run hK hfit hrows, hstate, ok_bind]
  change (dtRepAggrClassCountFfunc ⟨1, countArray K votes⟩ = _) at hffunc
  show (dtRepAggrClassCountFfunc ⟨1, countArray K votes⟩ >>= _) = _
  have hclass : repClass K votes = maxid := hleast.csInf_eq
  rw [hffunc, ok_bind, hclass]
  rfl

/-- A tree and a validation set with all their classes among `1..K`; the tree has one root. -/
structure Validates (K : ℕ) (distinctFeatures : ℤ → ℤ) (tree : List TreeRow)
    (validation : List EncodedRow) : Prop extends Classifies distinctFeatures tree validation where
  two_le : 2 ≤ K
  fit : CountsFit K
  classes : ∀ m ∈ validation, ∃ c, m.cls = some c ∧ 1 ≤ c ∧ c ≤ K
  maxclass : ∀ r ∈ tree, 1 ≤ r.maxclass ∧ r.maxclass ≤ K
  card : (treeIds tree).length * validation.length < 2 ^ 63
  root : ∀ row ∈ tree, row.id = 1 ↔ row.parentId = 0

/-- The most frequent class is not wrong about more records below the node than its children. -/
def RepWorth (K : ℕ) (tree : List TreeRow) (encoded : List EncodedRow) (p : TreeRow) : Prop :=
  classesBelow tree encoded p ≠ [] ∧ 0 ≤ repGain K (classesBelow tree encoded p)

theorem Moved.length_le {rows : List (ℤ × Instance)} (hmoved : Moved tree encoded cut rows) :
    rows.length ≤ (treeIds tree).length * encoded.length := by
  have hsub : rows.map rowKey ⊆ treeIds tree ×ˢ encoded.map EncodedRow.id := by
    intro key hkey
    obtain ⟨row, hrow, rfl⟩ := List.mem_map.mp hkey
    obtain ⟨m, hm, stop, hstop, r, hr, heq⟩ := hmoved.row row hrow
    rw [List.mem_product]
    refine ⟨List.mem_dedup.mpr (List.mem_map.mpr ⟨stop, hstop.1.mem, hstop.1.tid_eq⟩), ?_⟩
    rw [rowKey, heq]
    exact List.mem_map_of_mem hm
  have hle := (hmoved.keys.subperm hsub).length_le
  rwa [List.length_map, List.length_product, List.length_map] at hle

/-- The classes of the rows of a group. -/
def votesOf (rows : List RepRow) : List (ℤ × ℤ) :=
  rows.map fun row => (row.classified, row.original.getD 0)

/-- A row of the join has both classes. -/
theorem row_classes {K : ℕ} (h : Validates K distinctFeatures tree encoded)
    {rows : List (ℤ × Instance)} (hmoved : Moved tree encoded cut rows) {row : RepRow}
    (hrow : row ∈ repRows encoded rows) :
    repArgs row = .ok (row.classified, row.original.getD 0) ∧
      InClasses K (row.classified, row.original.getD 0) := by
  rw [repRows_eq h.toClassifies hmoved] at hrow
  obtain ⟨x, hx, rfl⟩ := List.mem_map.mp hrow
  obtain ⟨m, hm, stop, -, r, hr, heq⟩ := hmoved.row x hx
  obtain ⟨c, hc, hclass⟩ := h.classes m hm
  have hsome : classOf encoded x.2.id = some c := by
    have hid : x.2.id = m.id := by
      rw [heq]
      rfl
    rw [classOf, hid, find_encoded h.ids hm]
    exact hc
  refine ⟨?_, ?_, ?_⟩
  · unfold repArgs
    rw [hsome]
    rfl
  · show 1 ≤ x.2.cls ∧ x.2.cls ≤ K
    rw [heq]
    exact h.maxclass r hr.reaches.mem
  · show 1 ≤ (classOf encoded x.2.id).getD 0 ∧ (classOf encoded x.2.id).getD 0 ≤ K
    rw [hsome]
    exact hclass

/-- The aggregate returns for every group. -/
theorem repAggr_group {K : ℕ} (h : Validates K distinctFeatures tree encoded)
    {rows : List (ℤ × Instance)} (hmoved : Moved tree encoded cut rows)
    {group : Option ℤ × List RepRow}
    (hgroup : group ∈ groupBy RepRow.parentId (repRows encoded rows)) :
    repAggr K group.2 = .ok ((repClass K (votesOf group.2) : ℤ), repGain K (votesOf group.2)) := by
  obtain ⟨hkey, hrows⟩ := mem_groupBy.mp hgroup
  have hsub : ∀ row ∈ group.2, row ∈ repRows encoded rows := by
    intro row hrow
    rw [hrows] at hrow
    exact List.mem_of_mem_filter hrow
  apply repAggr_ok h.two_le h.fit
  · exact mapM_of_forall fun row hrow => (row_classes h hmoved (hsub row hrow)).1
  · obtain ⟨row, hrow, heq⟩ := List.mem_map.mp hkey
    have hin : row ∈ group.2 := by
      rw [hrows]
      exact List.mem_filter.mpr ⟨hrow, decide_eq_true heq⟩
    exact List.ne_nil_of_mem (List.mem_map_of_mem hin)
  · intro v hv
    obtain ⟨row, hrow, rfl⟩ := List.mem_map.mp hv
    exact (row_classes h hmoved (hsub row hrow)).2
  · have hle := hmoved.length_le
    have hcard := h.card
    have hgroupLe : group.2.length ≤ rows.length := by
      rw [hrows, repRows_eq h.toClassifies hmoved]
      exact (List.length_filter_le _ _).trans_eq (List.length_map _)
    rw [votesOf, List.length_map]
    omega

/-- The group of a ready node. -/
theorem votesOf_perm (h : Classifies distinctFeatures tree encoded)
    {rows : List (ℤ × Instance)} (hmoved : Moved tree encoded cut rows) {p : TreeRow}
    (hready : Ready (ChildRow tree) cut p) :
    (votesOf ((repRows encoded rows).filter fun row => row.parentId = some p.id)).Perm
      (classesBelow tree encoded p) := by
  refine .trans (.of_eq ?_) (group_perm h hmoved hready)
  rw [repRows_eq h hmoved, List.filter_map, votesOf, List.map_map]
  rfl

/-- What the query returns for a group. -/
noncomputable def repResult (K : ℕ) (group : Option ℤ × List RepRow) : Option ℤ × ℤ × ℤ :=
  (group.1, (repClass K (votesOf group.2) : ℤ), repGain K (votesOf group.2))

theorem replacement_eq_some_iff {t : Option ℤ × ℤ × ℤ} {id c : ℤ} :
    replacement tree t = some (id, c) ↔ t.1 = some id ∧ 0 ≤ t.2.2 ∧
      id ∈ (lastNodes tree).map TreeRow.parentId ∧ t.2.1 = c := by
  unfold replacement
  rw [Option.bind_eq_some_iff]
  constructor
  · rintro ⟨parentId, hparent, hif⟩
    split at hif
    next hcond =>
      obtain ⟨rfl, rfl⟩ := Prod.mk.inj (Option.some.inj hif)
      exact ⟨hparent, hcond.1, hcond.2, rfl⟩
    next => cases hif
  · rintro ⟨hparent, hgain, hmem, rfl⟩
    exact ⟨id, hparent, if_pos ⟨hgain, hmem⟩⟩

/-- The nodes that a round selects are all the ready ones that are worth it, with their class. -/
theorem selectedParentIdsRep_ok {K : ℕ} (h : Validates K distinctFeatures tree encoded)
    {rows : List (ℤ × Instance)} (hmoved : Moved tree encoded cut rows) (cls : TreeRow → ℤ) :
    ∃ selected, selectedParentIdsRep K (prunedTree tree cut cls) encoded rows = .ok selected ∧
      ∀ id c, (id, c) ∈ selected ↔ ∃ p, p.id = id ∧ Ready (ChildRow tree) cut p ∧
        RepWorth K tree encoded p ∧ c = repClass K (classesBelow tree encoded p) := by
  have hfirst : FirstRoot tree := fun row hrow => (h.root row hrow).mp
  refine ⟨((groupBy RepRow.parentId (repRows encoded rows)).map (repResult K)).filterMap
    (replacement (prunedTree tree cut cls)), ?_, fun id c => ?_⟩
  · unfold selectedParentIdsRep
    have hgroups : ((groupBy RepRow.parentId (repRows encoded rows)).mapM fun group => do
        let g ← repAggr K group.2
        pure (group.1, g)) =
        .ok ((groupBy RepRow.parentId (repRows encoded rows)).map (repResult K)) := by
      refine mapM_of_forall fun group hgroup => ?_
      rw [repAggr_group h hmoved hgroup]
      rfl
    rw [hgroups]
    rfl
  · rw [List.mem_filterMap]
    constructor
    · rintro ⟨t, ht, hsome⟩
      obtain ⟨⟨key, group⟩, hgroup, rfl⟩ := List.mem_map.mp ht
      obtain ⟨hkey, hgain, hlast, rfl⟩ := replacement_eq_some_iff.mp hsome
      change key = some id at hkey
      subst hkey
      obtain ⟨hin, rfl⟩ := mem_groupBy_mk.mp hgroup
      obtain ⟨last, hlastMem, hparent⟩ := List.mem_map.mp hlast
      -- the first root is not among the last nodes, so that the node has a parent
      obtain ⟨p, hp, hid⟩ : ∃ p ∈ tree, last.parentId = p.id := by
        obtain ⟨r, hr, -, rfl⟩ := mem_prunedTree.mp (List.mem_of_mem_filter hlastMem)
        rw [prunedRow_parentId]
        have hroot : r.parentId ≠ 0 := by
          intro hzero
          have hone := (List.mem_filter.mp hlastMem).2
          rw [decide_eq_true_eq, prunedRow_id] at hone
          exact hone.2 ((h.root r hr).mpr hzero)
        obtain ⟨p, hp, i, hchild⟩ := h.forest.parent r hr hroot
        exact ⟨p, hp, hchild.parentId_eq⟩
      have hready := ready_of_lastNode h.forest hlastMem hp hid
      obtain rfl : p.id = id := hid.symm.trans hparent
      have hperm := votesOf_perm h.toClassifies hmoved hready
      refine ⟨p, rfl, hready, ⟨fun hnil => ?_, ?_⟩, ?_⟩
      · obtain ⟨row, hrow, hrowKey⟩ := List.mem_map.mp hin
        have hvote : (row.classified, row.original.getD 0) ∈ classesBelow tree encoded p :=
          hperm.mem_iff.mp (List.mem_map_of_mem (List.mem_filter.mpr
            ⟨hrow, decide_eq_true hrowKey⟩))
        rw [hnil] at hvote
        exact absurd hvote List.not_mem_nil
      · rw [← repGain_perm hperm]
        exact hgain
      · rw [← repClass_perm hperm]
        rfl
    · rintro ⟨p, rfl, hready, ⟨hne, hgain⟩, rfl⟩
      have hperm := votesOf_perm h.toClassifies hmoved hready
      have hgroup : (some p.id, (repRows encoded rows).filter fun row =>
          row.parentId = some p.id) ∈ groupBy RepRow.parentId (repRows encoded rows) := by
        refine mem_groupBy_mk.mpr ⟨?_, rfl⟩
        obtain ⟨v, hv⟩ := List.exists_mem_of_ne_nil _ hne
        obtain ⟨row, hrow, -⟩ := List.mem_map.mp (hperm.mem_iff.mpr hv)
        rw [List.mem_filter, decide_eq_true_eq] at hrow
        exact List.mem_map.mpr ⟨row, hrow.1, hrow.2⟩
      refine ⟨_, List.mem_map_of_mem hgroup, replacement_eq_some_iff.mpr ⟨rfl, ?_, ?_, ?_⟩⟩
      · show 0 ≤ repGain K _
        rw [repGain_perm hperm]
        exact hgain
      · obtain ⟨c, hc⟩ := exists_child hready.inner
        have hin : prunedRow cut cls c ∈ (childRows tree p).map (prunedRow cut cls) :=
          List.mem_map_of_mem ((mem_childRows hc.1).mpr hc)
        rw [← lastNodes_of_ready h.forest hfirst hready] at hin
        rw [List.mem_filter, decide_eq_true_eq] at hin
        exact List.mem_map.mpr ⟨_, hin.1, hin.2⟩
      · show (repClass K _ : ℤ) = _
        rw [repClass_perm hperm]

/-! ## The rounds -/

/-- What is left by reduced-error pruning. -/
noncomputable abbrev repTree (K : ℕ) (encoded : List EncodedRow) (tree : List TreeRow)
    (cut : TreeRow → Prop) : List TreeRow :=
  prunedTree tree cut fun p => repClass K (classesBelow tree encoded p)

theorem repPruneLoop_rounds {K : ℕ} (h : Validates K distinctFeatures tree encoded)
    (hrounds : Rounds (ChildRow tree) (RepWorth K tree encoded) cut)
    {rows : List (ℤ × Instance)} (hmoved : Moved tree encoded cut rows) {rounds : ℕ}
    (hfuel : (repTree K encoded tree cut).length < rounds) :
    ∃ cut', Rounds (ChildRow tree) (RepWorth K tree encoded) cut' ∧
      (∀ p, Ready (ChildRow tree) cut' p → ¬RepWorth K tree encoded p) ∧
      repPruneLoop K encoded rounds (repTree K encoded tree cut) rows =
        .ok (repTree K encoded tree cut') := by
  induction rounds generalizing cut rows with
  | zero => exact absurd hfuel (Nat.not_lt_zero _)
  | succ rounds ih =>
      obtain ⟨selected, hselect, hmem⟩ := selectedParentIdsRep_ok h hmoved
        fun p => (repClass K (classesBelow tree encoded p) : ℤ)
      by_cases hnone : selected = []
      · refine ⟨cut, hrounds, fun p hready hworth => ?_, ?_⟩
        · have hin := (hmem p.id _).mpr ⟨p, rfl, hready, hworth, rfl⟩
          rw [hnone] at hin
          exact absurd hin List.not_mem_nil
        · rw [repPruneLoop, hselect, ok_bind, if_pos hnone]
          rfl
      · have hready : ∀ p, Selected tree (selected.map Prod.fst) p →
            Ready (ChildRow tree) cut p ∧ RepWorth K tree encoded p := by
          rintro p ⟨hp, hid⟩
          obtain ⟨t, hin, htid⟩ := List.mem_map.mp hid
          obtain ⟨q, hq, hqready, hworth, -⟩ := (hmem t.1 t.2).mp hin
          rw [← h.forest.eq_of_id (mem_of_ready hqready) hp (hq.trans htid)]
          exact ⟨hqready, hworth⟩
        have hleaf : ∀ p, Selected tree (selected.map Prod.fst) p → repLeaf selected p =
            p.asLeaf (repClass K (classesBelow tree encoded p)) := by
          rintro p ⟨hp, hid⟩
          obtain ⟨t, hin, htid⟩ := List.mem_map.mp hid
          unfold repLeaf
          cases hfind : selected.find? fun t2 => p.id = t2.1 with
          | none => exact absurd (decide_eq_true htid.symm) (List.find?_eq_none.mp hfind t hin)
          | some t2 =>
              have hfound := List.find?_some hfind
              rw [decide_eq_true_eq] at hfound
              obtain ⟨q, hq, hqready, -, hclass⟩ :=
                (hmem t2.1 t2.2).mp (List.mem_of_find?_eq_some hfind)
              rw [h.forest.eq_of_id (mem_of_ready hqready) hp (hq.trans hfound.symm)] at hclass
              rw [← hclass]
              rfl
        have hround : pruneRows (selected.map Prod.fst) (repLeaf selected)
            (repTree K encoded tree cut) =
            repTree K encoded tree fun p => cut p ∨ Selected tree (selected.map Prod.fst) p := by
          refine pruneRows_prunedTree (fun id hid => ?_) (fun p hp => (hready p hp).1) hleaf
          obtain ⟨⟨id, c⟩, hin, rfl⟩ := List.mem_map.mp hid
          obtain ⟨q, hq, hqready, -⟩ := (hmem id c).mp hin
          exact ⟨q, mem_of_ready hqready, hq⟩
        obtain ⟨⟨id, c⟩, hin⟩ := List.exists_mem_of_ne_nil _ hnone
        obtain ⟨p, rfl, hpready, -⟩ := (hmem id c).mp hin
        obtain ⟨row, hrow, hparent⟩ : ∃ row ∈ repTree K encoded tree cut, row.parentId = p.id :=
          exists_last_child h.forest hpready
        have hshorter : (pruneRows (selected.map Prod.fst) (repLeaf selected)
            (repTree K encoded tree cut)).length < (repTree K encoded tree cut).length := by
          refine length_pruneRows_lt hrow ?_
          rw [hparent]
          exact List.mem_map_of_mem hin
        rw [hround] at hshorter
        have hmoved' := hmoved.round h.toClassifies (fun p hp => (hready p hp).1)
          fun p => (repClass K (classesBelow tree encoded p) : ℤ)
        obtain ⟨cut', hrounds', hfinal, hrun⟩ := ih (.round hrounds hready) hmoved'
          (hshorter.trans_le (Nat.lt_succ_iff.mp hfuel))
        refine ⟨cut', hrounds', hfinal, ?_⟩
        rw [repPruneLoop, hselect, ok_bind, if_neg hnone, hround, hrun]

theorem inClasses_below {K : ℕ} (h : Validates K distinctFeatures tree encoded) {p : TreeRow}
    (hp : p ∈ tree) : ∀ v ∈ classesBelow tree encoded p, InClasses K v := by
  intro v hv
  obtain ⟨⟨m, c⟩, hmc, rfl⟩ := List.mem_map.mp hv
  obtain ⟨hm, hchild, -⟩ := (mem_recordsBelow hp).mp hmc
  obtain ⟨cls, hcls, hclass⟩ := h.classes m hm
  refine ⟨h.maxclass c hchild.2.1, ?_⟩
  show 1 ≤ m.cls.getD 0 ∧ m.cls.getD 0 ≤ K
  rw [hcls]
  exact hclass

theorem length_classesBelow_le (h : Classifies distinctFeatures tree encoded) {p : TreeRow}
    (hp : p ∈ tree) : (classesBelow tree encoded p).length ≤ encoded.length := by
  have hsub : (recordsBelow tree encoded p).map (fun mc => mc.1.id) ⊆
      encoded.map EncodedRow.id := by
    intro id hid
    obtain ⟨⟨m, c⟩, hmc, rfl⟩ := List.mem_map.mp hid
    exact List.mem_map_of_mem ((mem_recordsBelow hp).mp hmc).1
  have hle := ((nodup_recordsBelow h hp).subperm hsub).length_le
  rw [List.length_map, List.length_map] at hle
  unfold classesBelow
  rwa [List.length_map]

/-- The class of a node is wrong about no more records below it than its children are. -/
theorem RepWorth.errors_le {K : ℕ} (h : Validates K distinctFeatures tree encoded) {p : TreeRow}
    (hp : p ∈ tree) (hworth : RepWorth K tree encoded p) :
    ((classesBelow tree encoded p).countP fun v =>
      v.2 ≠ (repClass K (classesBelow tree encoded p) : ℤ)) ≤
      (classesBelow tree encoded p).countP fun v => v.2 ≠ v.1 := by
  have htwo := h.two_le
  have htids : 0 < (treeIds tree).length := List.length_pos_of_mem
    (List.mem_dedup.mpr (List.mem_map_of_mem (f := TreeRow.tid) hp))
  have hcard : (classesBelow tree encoded p).length < 2 ^ 63 :=
    (length_classesBelow_le h.toClassifies hp).trans_lt
      ((Nat.le_mul_of_pos_left _ htids).trans_lt h.card)
  have hvotes : ∀ v ∈ (classesBelow tree encoded p : Multiset (ℤ × ℤ)), InClasses K v :=
    inClasses_below h hp
  obtain ⟨maxid, -, hleast⟩ := ffunc_countArray (by omega) hvotes hcard
  have hclass : repClass K (classesBelow tree encoded p) = maxid := hleast.csInf_eq
  have hlargest : (classesBelow tree encoded p).countP (fun v => v.2 = (maxid : ℤ)) =
      largestClass K (classesBelow tree encoded p) := hleast.1.2
  have hsplit := (classesBelow tree encoded p).length_eq_countP_add_countP
    fun v => decide (v.2 = (maxid : ℤ))
  have hnot : (classesBelow tree encoded p).countP (fun v => ¬decide (v.2 = (maxid : ℤ)) = true) =
      (classesBelow tree encoded p).countP fun v => v.2 ≠ (maxid : ℤ) :=
    List.countP_congr fun v _ => by simp
  have hgain := hworth.2
  rw [repGain] at hgain
  have hmis : misclassified (classesBelow tree encoded p) =
      (classesBelow tree encoded p).countP fun v => v.2 ≠ v.1 := rfl
  rw [hmis] at hgain
  rw [hclass]
  rw [hlargest, hnot] at hsplit
  omega

/-- Pruning ends, and leaves a table of trees.  It leads every record to the first node of its way
whose most frequent class is not worse than its children are, cut themselves or leaves. -/
theorem repPruneTree_ok {K : ℕ} (h : Validates K distinctFeatures tree encoded)
    (hne : tree ≠ []) :
    ∃ pruned, (∀ rounds, tree.length < rounds →
        repPruneTree K rounds tree encoded = .ok pruned) ∧
      IsForest distinctFeatures pruned ∧
      (∀ row, row ∈ pruned ↔ ∃ r ∈ tree,
        Left (ChildRow tree) (Cut (ChildRow tree) (RepWorth K tree encoded)) r ∧
          row = prunedRow (Cut (ChildRow tree) (RepWorth K tree encoded))
            (fun p => repClass K (classesBelow tree encoded p)) r) ∧
      (∀ r ∈ tree, Cut (ChildRow tree) (RepWorth K tree encoded) r →
        ((classesBelow tree encoded r).countP fun v =>
          v.2 ≠ (repClass K (classesBelow tree encoded r) : ℤ)) ≤
          (classesBelow tree encoded r).countP fun v => v.2 ≠ v.1) ∧
      ∀ fv, Encoded distinctFeatures tree fv → ∀ tid leaf, StopsAt pruned fv tid leaf ↔
        ∃ r, EndsAt tree (Cut (ChildRow tree) (RepWorth K tree encoded)) fv tid r ∧
          leaf = prunedRow (Cut (ChildRow tree) (RepWorth K tree encoded))
            (fun p => repClass K (classesBelow tree encoded p)) r := by
  obtain ⟨rows, hclassify, hresult⟩ := treemodelClassifyInternal_ok h.toClassifies hne
  refine ⟨repTree K encoded tree (Cut (ChildRow tree) (RepWorth K tree encoded)),
    fun rounds hfuel => ?_, isForest_prunedTree h.forest, fun row => mem_prunedTree,
    fun r hr hcut => ?_, fun fv hfv tid leaf => stopsAt_prunedTree h.forest hfv⟩
  swap
  · cases hcut with
    | mk hworth _ _ => exact hworth.errors_le h hr
  have hstart : repTree K encoded tree (fun _ => False) = tree := prunedTree_start
  have hfuel' : (repTree K encoded tree fun _ => False).length < rounds := by rwa [hstart]
  obtain ⟨cut', hrounds, hfinal, hrun⟩ :=
    repPruneLoop_rounds h .start (Moved.start hresult) hfuel'
  have heq : repTree K encoded tree cut' =
      repTree K encoded tree (Cut (ChildRow tree) (RepWorth K tree encoded)) :=
    prunedTree_final h.forest hrounds hfinal
  rw [hstart, heq] at hrun
  rw [repPruneTree, hclassify]
  exact hrun

/-- Two records of the first class, at the two leaves. -/
def sameClass : List EncodedRow := [⟨7, fun _ => some (-1), some 1⟩, ⟨8, fun _ => some 1, some 1⟩]

theorem validates_sameClass : Validates 2 (fun _ => 0) stump sameClass where
  forest := isForest_stump
  ids := by decide
  encoded m _ := encoded_stump m.fv
  two_le := le_rfl
  fit := by norm_num [CountsFit, maxAllocSize]
  classes := by decide
  maxclass := by decide
  card := by decide
  root := by decide

/-- The second leaf is wrong about its record, and the root is wrong about none. -/
theorem repPruneTree_ok_stump : ∃ pruned, repPruneTree 2 4 stump sameClass = .ok pruned ∧
    IsForest (fun _ => 0) pruned ∧ pruned.length = 1 := by
  obtain ⟨pruned, hrun, hforest, -⟩ := repPruneTree_ok validates_sameClass (by simp [stump])
  refine ⟨pruned, hrun 4 (by decide), hforest, ?_⟩
  have hlength : (repPruneTree 2 4 stump sameClass).map List.length = .ok 1 := by decide +kernel
  rw [show ((2 : ℕ) : ℤ) = 2 from rfl] at hrun
  rw [hrun 4 (by decide)] at hlength
  exact Except.ok.inj hlength

end Rows

end Madlib.Cart
