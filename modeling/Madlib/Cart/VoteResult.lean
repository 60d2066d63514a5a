import Madlib.Cart.ClassifyInternal
import Mathlib.Data.Prod.Lex

/-!
# Votes of the trees

The trees of a forest may lead a record to different classes.  The class of most of the trees is
taken, among such the one with the largest mean probability, and then the largest one.  The score
of a forest is the part of the records that have the class their trees vote for.
-/

namespace Madlib.Cart

open Madlib.Backend
open Madlib.Lib.Tables

/-- `array[count,prob,class]`; arrays are compared item by item. -/
abbrev VoteArray := ℕ ×ₗ ℚ ×ₗ ℤ

/-- A row of the voted results. -/
structure VoteResult where
  id : ℤ
  cls : ℤ
  prob : ℚ

/-- `COUNT(*)`, `AVG(prob)` and the class of a group. -/
def voteArray (probs : List ℚ) (cls : ℤ) : VoteArray :=
  toLex (probs.length, toLex (probs.sum / probs.length, cls))

/-- The groups of the rows with the same record and class, with the record. -/
def classVotes (rows : List (ℤ × Instance)) : List (ℤ × VoteArray) :=
  (groupBy (fun row => (row.2.id, row.2.cls)) rows).map fun group =>
    (group.1.1, voteArray (group.2.map fun row => row.2.prob) group.1.2)

/-- `__treemodel_get_vote_result` -/
def treemodelGetVoteResult (rows : List (ℤ × Instance)) : List VoteResult :=
  (groupBy Prod.fst (classVotes rows)).filterMap fun group =>
    (group.2.map Prod.snd).max?.map fun maxArray =>
      ⟨group.1, (ofLex (ofLex maxArray).2).2, (ofLex (ofLex maxArray).2).1⟩

/-- The voted results that differ from the class of the record; NULL does not. -/
def misclassifiedRows (encoded : List EncodedRow) (final : List VoteResult) : List VoteResult :=
  encoded.flatMap fun a => final.filter fun b => a.id = b.id ∧ ∃ cls ∈ a.cls, cls ≠ b.cls

/-- `__treemodel_score` -/
def treemodelScore (tree : List TreeRow) (encoded : List EncodedRow) : Except Fault ℚ := do
  let result ← treemodelClassifyInternal tree encoded
  let final := treemodelGetVoteResult result
  let numOfRow := final.length
  let misOfRow := (misclassifiedRows encoded final).length
  if numOfRow = 0 then .error (.ereport .divisionByZero "division by zero")
  else .ok (((numOfRow : ℚ) - misOfRow) / numOfRow)

/-! ## What the trees vote for -/

/-- The end of the way of a record in a tree. -/
noncomputable def endOf (tree : List TreeRow) (fv : ℤ → Option ℚ) (tid : ℤ) : Option TreeRow :=
  open Classical in if h : ∃ leaf, StopsAt tree fv tid leaf then some h.choose else none

/-- The nodes that the trees lead a record to, one for each tree in which it has an end. -/
noncomputable def ballots (tree : List TreeRow) (fv : ℤ → Option ℚ) : List TreeRow :=
  (treeIds tree).filterMap (endOf tree fv)

/-- The votes of a class. -/
def standing (nodes : List TreeRow) (cls : ℤ) : VoteArray :=
  voteArray ((nodes.filter fun node => node.maxclass = cls).map TreeRow.probability) cls

/-- The class that is voted for. -/
def Elects (nodes : List TreeRow) (cls : ℤ) : Prop :=
  cls ∈ nodes.map TreeRow.maxclass ∧
    ∀ other ∈ nodes.map TreeRow.maxclass, standing nodes other ≤ standing nodes cls

theorem standing_injective {nodes : List TreeRow} {cls other : ℤ}
    (h : standing nodes cls = standing nodes other) : cls = other :=
  congrArg (fun a : VoteArray => (ofLex (ofLex a).2).2) h

theorem Elects.unique {nodes : List TreeRow} {cls other : ℤ} (h : Elects nodes cls)
    (h' : Elects nodes other) : cls = other :=
  standing_injective (le_antisymm (h'.2 cls h.1) (h.2 other h'.1))

theorem exists_elects {nodes : List TreeRow} (hne : nodes ≠ []) : ∃ cls, Elects nodes cls := by
  obtain ⟨node, hnode⟩ := List.exists_mem_of_ne_nil nodes hne
  obtain ⟨cls, hmem, hmax⟩ := (nodes.map TreeRow.maxclass).toFinset.exists_max_image
    (standing nodes) ⟨node.maxclass, List.mem_toFinset.mpr (List.mem_map_of_mem hnode)⟩
  exact ⟨cls, List.mem_toFinset.mp hmem,
    fun other hother => hmax other (List.mem_toFinset.mpr hother)⟩

section Votes

variable {distinctFeatures : ℤ → ℤ} {tree : List TreeRow} {encoded : List EncodedRow}

theorem endOf_eq_some_iff (h : IsForest distinctFeatures tree) {fv : ℤ → Option ℚ}
    (hfv : Encoded distinctFeatures tree fv) {tid : ℤ} {leaf : TreeRow} :
    endOf tree fv tid = some leaf ↔ StopsAt tree fv tid leaf := by
  unfold endOf
  constructor
  · intro heq
    split at heq
    next hex =>
      obtain rfl := Option.some.inj heq
      exact hex.choose_spec
    next => cases heq
  · intro hstop
    have hex : ∃ leaf, StopsAt tree fv tid leaf := ⟨leaf, hstop⟩
    rw [dif_pos hex]
    exact congrArg some (hex.choose_spec.unique h hfv hstop)

/-- The rows of a record are those of its ballots. -/
theorem recordRows_perm (h : Classifies distinctFeatures tree encoded)
    {result : List (ℤ × Instance)} (hresult : IsResult (Stopped tree encoded) result)
    {m : EncodedRow} (hm : m ∈ encoded) :
    (result.filter fun row => row.2.id = m.id).Perm ((treeIds tree).filterMap fun tid =>
      (endOf tree m.fv tid).map fun leaf => (tid, (instanceAt leaf m.id m.fv).classified)) := by
  rw [List.perm_ext_iff_of_nodup (hresult.nodup.of_map.filter _)]
  · intro row
    rw [List.mem_filter, hresult.mem_iff, decide_eq_true_eq, List.mem_filterMap]
    constructor
    · rintro ⟨⟨m', hm', leaf, hstop, hrow⟩, hid⟩
      have hsame : m'.id = m.id := by
        rw [← hid, hrow]
        rfl
      obtain rfl := List.inj_on_of_nodup_map h.ids hm' hm hsame
      refine ⟨row.1, ?_, ?_⟩
      · rw [← hstop.1.tid_eq]
        exact List.mem_dedup.mpr (List.mem_map_of_mem hstop.1.mem)
      · rw [(endOf_eq_some_iff h.forest (h.encoded m' hm)).mpr hstop, Option.map_some, ← hrow]
    · rintro ⟨tid, -, heq⟩
      obtain ⟨leaf, hleaf, rfl⟩ := Option.map_eq_some_iff.mp heq
      exact ⟨⟨m, hm, leaf, (endOf_eq_some_iff h.forest (h.encoded m hm)).mp hleaf, rfl⟩, rfl⟩
  · refine (List.nodup_dedup _).filterMap fun tid tid' row hrow hrow' => ?_
    obtain ⟨leaf, -, rfl⟩ := Option.map_eq_some_iff.mp hrow
    obtain ⟨leaf', -, heq⟩ := Option.map_eq_some_iff.mp hrow'
    exact (congrArg Prod.fst heq).symm

/-- The rows of a record with a class. -/
theorem group_probs (h : Classifies distinctFeatures tree encoded)
    {result : List (ℤ × Instance)} (hresult : IsResult (Stopped tree encoded) result)
    {m : EncodedRow} (hm : m ∈ encoded) (cls : ℤ) :
    ((result.filter fun row => (row.2.id, row.2.cls) = (m.id, cls)).map
      fun row => row.2.prob).Perm
      (((ballots tree m.fv).filter fun node => node.maxclass = cls).map TreeRow.probability) := by
  have hsplit : (result.filter fun row => (row.2.id, row.2.cls) = (m.id, cls)) =
      (result.filter fun row => row.2.id = m.id).filter fun row => row.2.cls = cls := by
    rw [List.filter_filter]
    refine List.filter_congr fun row _ => ?_
    rw [← Bool.decide_and, decide_eq_decide, Prod.mk.injEq]
    exact and_comm
  rw [hsplit]
  refine (((recordRows_perm h hresult hm).filter _).map _).trans (.of_eq ?_)
  rw [ballots, List.filter_filterMap, List.map_filterMap, List.filter_filterMap,
    List.map_filterMap]
  congr 1
  funext tid
  cases endOf tree m.fv tid with
  | none => rfl
  | some leaf =>
      show Option.map _ (if decide (leaf.maxclass = cls) then _ else none) =
        Option.map _ (if decide (leaf.maxclass = cls) then _ else none)
      by_cases hcls : leaf.maxclass = cls
      · rw [if_pos (decide_eq_true hcls), if_pos (decide_eq_true hcls)]
        rfl
      · rw [if_neg (mt of_decide_eq_true hcls), if_neg (mt of_decide_eq_true hcls)]
        rfl

theorem voteArray_perm {probs probs' : List ℚ} (h : probs.Perm probs') (cls : ℤ) :
    voteArray probs cls = voteArray probs' cls := by
  rw [voteArray, voteArray, h.length_eq, h.sum_eq]

/-- The classes of a record's rows. -/
theorem exists_row_iff (h : Classifies distinctFeatures tree encoded)
    {result : List (ℤ × Instance)} (hresult : IsResult (Stopped tree encoded) result)
    {m : EncodedRow} (hm : m ∈ encoded) (cls : ℤ) :
    (m.id, cls) ∈ result.map (fun row => (row.2.id, row.2.cls)) ↔
      cls ∈ (ballots tree m.fv).map TreeRow.maxclass := by
  have hlength := (group_probs h hresult hm cls).length_eq
  rw [List.length_map, List.length_map, ← List.countP_eq_length_filter,
    ← List.countP_eq_length_filter] at hlength
  have hrows : (m.id, cls) ∈ result.map (fun row => (row.2.id, row.2.cls)) ↔
      0 < result.countP fun row => (row.2.id, row.2.cls) = (m.id, cls) := by
    simp only [List.countP_pos_iff, decide_eq_true_eq, List.mem_map]
  have hnodes : cls ∈ (ballots tree m.fv).map TreeRow.maxclass ↔
      0 < (ballots tree m.fv).countP fun node => node.maxclass = cls := by
    simp only [List.countP_pos_iff, decide_eq_true_eq, List.mem_map]
  rw [hrows, hnodes, hlength]

/-- The votes of a record, class by class. -/
theorem mem_classVotes (h : Classifies distinctFeatures tree encoded)
    {result : List (ℤ × Instance)} (hresult : IsResult (Stopped tree encoded) result)
    {vote : ℤ × VoteArray} : vote ∈ classVotes result ↔ ∃ m ∈ encoded, vote.1 = m.id ∧
      ∃ cls ∈ (ballots tree m.fv).map TreeRow.maxclass,
        vote.2 = standing (ballots tree m.fv) cls := by
  have hgroup : ∀ m ∈ encoded, ∀ cls, voteArray
      ((result.filter fun row => (row.2.id, row.2.cls) = (m.id, cls)).map fun row => row.2.prob)
      cls = standing (ballots tree m.fv) cls :=
    fun m hm cls => voteArray_perm (group_probs h hresult hm cls) cls
  rw [classVotes, List.mem_map]
  constructor
  · rintro ⟨⟨⟨id, cls⟩, rows⟩, hmem, rfl⟩
    obtain ⟨hkey, rfl⟩ := mem_groupBy_mk.mp hmem
    obtain ⟨row, hrow, heq⟩ := List.mem_map.mp hkey
    obtain ⟨m, hm, leaf, -, hrowEq⟩ := (hresult.mem_iff row).mp hrow
    have hrowId : row.2.id = m.id := by
      rw [hrowEq]
      rfl
    obtain rfl : id = m.id := (congrArg Prod.fst heq).symm.trans hrowId
    exact ⟨m, hm, rfl, cls, (exists_row_iff h hresult hm cls).mp hkey, hgroup m hm cls⟩
  · rintro ⟨m, hm, hid, cls, hcls, hvote⟩
    refine ⟨((m.id, cls), _), mem_groupBy_mk.mpr
      ⟨(exists_row_iff h hresult hm cls).mpr hcls, rfl⟩, Prod.ext hid.symm ?_⟩
    exact (hgroup m hm cls).trans hvote.symm

/-- The row of a record that its ballots give a class. -/
def IsVote (tree : List TreeRow) (encoded : List EncodedRow) (v : VoteResult) : Prop :=
  ∃ m ∈ encoded, v.id = m.id ∧ Elects (ballots tree m.fv) v.cls ∧
    v.prob = (ofLex (ofLex (standing (ballots tree m.fv) v.cls)).2).1

/-- The votes of a record in the table of all votes. -/
theorem recordVotes (h : Classifies distinctFeatures tree encoded)
    {result : List (ℤ × Instance)} (hresult : IsResult (Stopped tree encoded) result)
    {m : EncodedRow} (hm : m ∈ encoded) {a : VoteArray} :
    a ∈ ((classVotes result).filter fun vote => vote.1 = m.id).map Prod.snd ↔
      ∃ cls ∈ (ballots tree m.fv).map TreeRow.maxclass, a = standing (ballots tree m.fv) cls := by
  rw [List.mem_map]
  constructor
  · rintro ⟨vote, hvote, rfl⟩
    rw [List.mem_filter, decide_eq_true_eq, mem_classVotes h hresult] at hvote
    obtain ⟨⟨m', hm', hid', hcls⟩, hid⟩ := hvote
    obtain rfl := List.inj_on_of_nodup_map h.ids hm' hm (hid'.symm.trans hid)
    exact hcls
  · intro hcls
    exact ⟨(m.id, a), List.mem_filter.mpr
      ⟨(mem_classVotes h hresult).mpr ⟨m, hm, rfl, hcls⟩, decide_eq_true rfl⟩, rfl⟩

theorem mem_voteResult (h : Classifies distinctFeatures tree encoded)
    {result : List (ℤ × Instance)} (hresult : IsResult (Stopped tree encoded) result)
    {v : VoteResult} : v ∈ treemodelGetVoteResult result ↔ IsVote tree encoded v := by
  rw [treemodelGetVoteResult, List.mem_filterMap]
  constructor
  · rintro ⟨⟨id, votes⟩, hmem, hmax⟩
    obtain ⟨hkey, rfl⟩ := mem_groupBy_mk.mp hmem
    obtain ⟨vote, hvote, rfl⟩ := List.mem_map.mp hkey
    obtain ⟨m, hm, hid, -⟩ := (mem_classVotes h hresult).mp hvote
    obtain ⟨a, ha, rfl⟩ := Option.map_eq_some_iff.mp hmax
    obtain ⟨hin, hle⟩ := List.max?_eq_some_iff.mp ha
    simp only [hid] at hin hle
    obtain ⟨cls, hcls, rfl⟩ := (recordVotes h hresult hm).mp hin
    refine ⟨m, hm, hid, ⟨hcls, fun other hother => ?_⟩, rfl⟩
    exact hle _ ((recordVotes h hresult hm).mpr ⟨other, hother, rfl⟩)
  · rintro ⟨m, hm, hid, ⟨hcls, hle⟩, hprob⟩
    refine ⟨(m.id, _), mem_groupBy_mk.mpr ⟨?_, rfl⟩, ?_⟩
    · exact List.mem_map.mpr ⟨(m.id, _),
        (mem_classVotes h hresult).mpr ⟨m, hm, rfl, v.cls, hcls, rfl⟩, rfl⟩
    · refine Option.map_eq_some_iff.mpr ⟨standing (ballots tree m.fv) v.cls, ?_, ?_⟩
      · refine List.max?_eq_some_iff.mpr
          ⟨(recordVotes h hresult hm).mpr ⟨v.cls, hcls, rfl⟩, fun a ha => ?_⟩
        obtain ⟨other, hother, rfl⟩ := (recordVotes h hresult hm).mp ha
        exact hle other hother
      · cases v
        simp only at hid hprob
        rw [hid, hprob]
        rfl

/-- There is a row for a record and the class that is voted for. -/
theorem exists_voteResult (h : Classifies distinctFeatures tree encoded)
    {result : List (ℤ × Instance)} (hresult : IsResult (Stopped tree encoded) result)
    {m : EncodedRow} (hm : m ∈ encoded) (hne : ballots tree m.fv ≠ []) :
    ∃ v ∈ treemodelGetVoteResult result, m.id = v.id := by
  obtain ⟨cls, helects⟩ := exists_elects hne
  refine ⟨⟨m.id, cls, (ofLex (ofLex (standing (ballots tree m.fv) cls)).2).1⟩, ?_, rfl⟩
  exact (mem_voteResult h hresult).mpr ⟨m, hm, rfl, helects, rfl⟩

theorem filterMap_keys_sublist {α β κ : Type} {f : α → Option β} {key : α → κ} {key' : β → κ}
    (h : ∀ a b, f a = some b → key' b = key a) (rows : List α) :
    ((rows.filterMap f).map key').Sublist (rows.map key) := by
  induction rows with
  | nil => exact .slnil
  | cons a rows ih =>
      cases hf : f a with
      | none =>
          rw [List.filterMap_cons_none hf]
          exact ih.cons _
      | some b =>
          rw [List.filterMap_cons_some hf, List.map_cons, List.map_cons, h a b hf]
          exact ih.cons_cons _

theorem nodup_voteResult (rows : List (ℤ × Instance)) :
    ((treemodelGetVoteResult rows).map VoteResult.id).Nodup := by
  have hkeys : ((treemodelGetVoteResult rows).map VoteResult.id).Sublist
      ((groupBy Prod.fst (classVotes rows)).map Prod.fst) := by
    refine filterMap_keys_sublist (fun group v hv => ?_) _
    obtain ⟨maxArray, -, rfl⟩ := Option.map_eq_some_iff.mp hv
    rfl
  exact hkeys.nodup (nodup_fst_groupBy Prod.fst (classVotes rows))

/-! ## The score -/

/-- The records that end in some tree. -/
noncomputable def voters (tree : List TreeRow) (encoded : List EncodedRow) : List EncodedRow :=
  open Classical in encoded.filter fun m => ballots tree m.fv ≠ []

/-- The record does not have another class than the one its trees vote for. -/
def VotedRight (tree : List TreeRow) (m : EncodedRow) : Prop :=
  ∀ cls ∈ m.cls, Elects (ballots tree m.fv) cls

theorem mem_voters {m : EncodedRow} :
    m ∈ voters tree encoded ↔ m ∈ encoded ∧ ballots tree m.fv ≠ [] := by
  simp [voters]

theorem Elects.ne_nil {nodes : List TreeRow} {cls : ℤ} (h : Elects nodes cls) : nodes ≠ [] := by
  rintro rfl
  exact absurd h.1 List.not_mem_nil

/-- There is a row for every record that ends in some tree. -/
theorem length_voteResult (h : Classifies distinctFeatures tree encoded)
    {result : List (ℤ × Instance)} (hresult : IsResult (Stopped tree encoded) result) :
    (treemodelGetVoteResult result).length = (voters tree encoded).length := by
  have hids : ((voters tree encoded).map EncodedRow.id).Nodup :=
    h.ids.sublist (List.filter_sublist.map _)
  have hperm : ((treemodelGetVoteResult result).map VoteResult.id).Perm
      ((voters tree encoded).map EncodedRow.id) := by
    rw [List.perm_ext_iff_of_nodup (nodup_voteResult result) hids]
    intro id
    rw [List.mem_map, List.mem_map]
    constructor
    · rintro ⟨v, hv, rfl⟩
      obtain ⟨m, hm, hid, helects, -⟩ := (mem_voteResult h hresult).mp hv
      exact ⟨m, mem_voters.mpr ⟨hm, helects.ne_nil⟩, hid.symm⟩
    · rintro ⟨m, hm, rfl⟩
      obtain ⟨hm, hne⟩ := mem_voters.mp hm
      obtain ⟨v, hv, hid⟩ := exists_voteResult h hresult hm hne
      exact ⟨v, hv, hid.symm⟩
  have hlength := hperm.length_eq
  rwa [List.length_map, List.length_map] at hlength

/-- A record has one voted result, which counts when it is of another class. -/
theorem length_misclassified (h : Classifies distinctFeatures tree encoded)
    {result : List (ℤ × Instance)} (hresult : IsResult (Stopped tree encoded) result)
    {m : EncodedRow} (hm : m ∈ encoded) [Decidable (VotedRight tree m)]
    [Decidable (ballots tree m.fv ≠ [])] :
    ((treemodelGetVoteResult result).filter fun b =>
      m.id = b.id ∧ ∃ cls ∈ m.cls, cls ≠ b.cls).length =
      if ballots tree m.fv ≠ [] ∧ ¬VotedRight tree m then 1 else 0 := by
  have hrow : ∀ b ∈ treemodelGetVoteResult result, m.id = b.id →
      Elects (ballots tree m.fv) b.cls := by
    intro b hb hid
    obtain ⟨m', hm', hid', helects, -⟩ := (mem_voteResult h hresult).mp hb
    obtain rfl := List.inj_on_of_nodup_map h.ids hm' hm (hid'.symm.trans hid.symm)
    exact helects
  have hwrong : ∀ b ∈ treemodelGetVoteResult result, m.id = b.id →
      ((∃ cls ∈ m.cls, cls ≠ b.cls) ↔ ¬VotedRight tree m) := by
    intro b hb hid
    have helects := hrow b hb hid
    constructor
    · rintro ⟨cls, hcls, hne⟩ hright
      exact hne ((hright cls hcls).unique helects)
    · intro hright
      by_contra hnone
      refine hright fun cls hcls => ?_
      obtain rfl : cls = b.cls := by
        by_contra hne
        exact hnone ⟨cls, hcls, hne⟩
      exact helects
  split
  next hvote =>
    obtain ⟨v, hv, hid⟩ := exists_voteResult h hresult hm hvote.1
    refine le_antisymm (length_le_one ((nodup_voteResult result).of_map.filter _) ?_) ?_
    · intro a ha b hb
      rw [List.mem_filter, decide_eq_true_eq] at ha hb
      exact List.inj_on_of_nodup_map (nodup_voteResult result) ha.1 hb.1
        (ha.2.1.symm.trans hb.2.1)
    · rw [Nat.one_le_iff_ne_zero, ← Nat.pos_iff_ne_zero, List.length_pos_iff_exists_mem]
      exact ⟨v, List.mem_filter.mpr
        ⟨hv, decide_eq_true ⟨hid, (hwrong v hv hid).mpr hvote.2⟩⟩⟩
  next hvote =>
    rw [List.length_eq_zero_iff, List.filter_eq_nil_iff]
    intro b hb hdiffer
    rw [decide_eq_true_eq] at hdiffer
    exact hvote ⟨(hrow b hb hdiffer.1).ne_nil, (hwrong b hb hdiffer.1).mp hdiffer.2⟩

/-- The records that are counted as wrong. -/
theorem length_misclassifiedRows (h : Classifies distinctFeatures tree encoded)
    {result : List (ℤ × Instance)} (hresult : IsResult (Stopped tree encoded) result)
    [DecidablePred (VotedRight tree)] :
    (misclassifiedRows encoded (treemodelGetVoteResult result)).length =
      (voters tree encoded).countP fun m => ¬VotedRight tree m := by
  classical
  have hcount : ∀ rows : List EncodedRow, (∀ m ∈ rows, m ∈ encoded) →
      (misclassifiedRows rows (treemodelGetVoteResult result)).length =
        (voters tree rows).countP fun m => ¬VotedRight tree m := by
    intro rows hrows
    induction rows with
    | nil => rfl
    | cons m rows ih =>
        have hone := length_misclassified h hresult (hrows m List.mem_cons_self)
        have hrest := ih fun m' hm' => hrows m' (List.mem_cons_of_mem _ hm')
        rw [misclassifiedRows, voters] at hrest
        rw [misclassifiedRows, List.flatMap_cons, List.length_append, hone, hrest, voters,
          List.filter_cons]
        by_cases hne : ballots tree m.fv = []
        · simp [hne]
        · by_cases hright : VotedRight tree m <;> simp [hne, hright, add_comm]
  exact hcount encoded fun m hm => hm

/-- The score of a forest is the part of the records, of those that end in some tree, that do not
have another class than the one their trees vote for. -/
theorem treemodelScore_votes (h : Classifies distinctFeatures tree encoded) (hne : tree ≠ [])
    [DecidablePred (VotedRight tree)] :
    (∃ result, treemodelClassifyInternal tree encoded = .ok result ∧
      ((treemodelGetVoteResult result).map VoteResult.id).Nodup ∧
      ∀ v, v ∈ treemodelGetVoteResult result ↔ IsVote tree encoded v) ∧
    treemodelScore tree encoded =
      if voters tree encoded = [] then .error (.ereport .divisionByZero "division by zero")
      else .ok ((voters tree encoded).countP (fun m => VotedRight tree m) /
        (voters tree encoded).length) := by
  obtain ⟨result, hrun, hresult⟩ := treemodelClassifyInternal_ok h hne
  refine ⟨⟨result, hrun, nodup_voteResult result, fun v => mem_voteResult h hresult⟩, ?_⟩
  have htotal := (voters tree encoded).length_eq_countP_add_countP fun m =>
    decide (VotedRight tree m)
  rw [treemodelScore, hrun]
  show (if (treemodelGetVoteResult result).length = 0 then _ else _) = _
  rw [length_voteResult h hresult, length_misclassifiedRows h hresult]
  by_cases hnil : voters tree encoded = []
  · rw [if_pos hnil, if_pos (List.length_eq_zero_iff.mpr hnil)]
  · rw [if_neg hnil, if_neg (mt List.length_eq_zero_iff.mp hnil)]
    congr 2
    rw [sub_eq_iff_eq_add, htotal, Nat.cast_add]
    congr 2
    exact List.countP_congr fun m _ => by simp

theorem treemodelScore_votes_sides : ∃ result,
    treemodelClassifyInternal stump sides = .ok result ∧
      ((treemodelGetVoteResult result).map VoteResult.id).Nodup ∧
      ∀ v, v ∈ treemodelGetVoteResult result ↔ IsVote stump sides v := by
  classical
  exact (treemodelScore_votes classifies_sides (by simp [stump])).1

example : treemodelScore stump sides = .ok 1 := by decide +kernel

end Votes

end Madlib.Cart
