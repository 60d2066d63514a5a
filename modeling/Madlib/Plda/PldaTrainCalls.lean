import Madlib.Plda.ConsistentCounts

/-!
# What words are sampled with

The counts that an iteration hands on are those of the corpus it hands on.  The first iteration is
handed the counts of the topics, and zeros for those of the words.
-/

namespace Madlib.Plda

open Madlib.Backend Madlib.Lib Madlib.Lib.Call Madlib.Lib.MachineInt Madlib.Lib.Tally

variable {numTopics dsize : Int32} {row : CorpusRow} {word topic : Int}

/-! ## Iterations -/

/-- If the row has topics, they are topics for its words. -/
def TopicsFit (numTopics : Int32) (row : CorpusRow) : Prop :=
  ∀ t, row.topics = some t → IsTopics numTopics row.contents.words.length t

theorem countTopics_tally {procedure : String → String} {rows scanned : List CorpusRow}
    (hperm : scanned.Perm rows) (hrows : ∀ row ∈ rows, TopicsFit numTopics row)
    {total : Option Int4Array} (h : countTopics procedure scanned = .ok total) :
    (∀ row ∈ rows, HasTopics numTopics row) ∧
      ∀ arr ∈ total, arr.data = tally numTopics.toInt.toNat (rows.flatMap topicIndices) := by
  unfold countTopics at h
  constructor
  · intro row hrow
    cases ht : row.topics with
    | none =>
        have hmem : none ∈ scanned.map fun row => row.topics.map TopicsT.topicD :=
          List.mem_map.mpr ⟨row, hperm.mem_iff.mpr hrow, by rw [ht, Option.map_none]⟩
        exact absurd hmem (ne_none_of_sumInt4arrayAgg h)
    | some t => exact ⟨t, ht, hrows row hrow t ht⟩
  · have hparts : AreTallies numTopics.toInt.toNat (scanned.map topicIndices)
        (scanned.map fun row => row.topics.map TopicsT.topicD) := by
      unfold AreTallies
      rw [List.forall₂_map_left_iff, List.forall₂_map_right_iff, List.forall₂_same]
      intro row hrow arr harr
      obtain ⟨t, ht, rfl⟩ := Option.map_eq_some_iff.mp harr
      rw [(hrows row (hperm.mem_iff.mp hrow) t ht).counts]
      unfold topicIndices topicsOf
      rw [ht]
    have hall := sumInt4arrayAgg_tally hparts h
    rw [← List.flatMap_def] at hall
    rwa [tally_perm (hperm.flatMap_right topicIndices)] at hall

/-- The counts of the segments add up to those of the corpus. -/
theorem reduced_tally {procedure : String → String} {rows : List CorpusRow}
    {segments : List (List CorpusRow)} (hperm : segments.flatten.Perm rows)
    (hrows : ∀ row ∈ rows, HasTopics numTopics row) {lcounts reduced : List (Option Int4Array)}
    (hcounts : segments.mapM' (countWords procedure numTopics dsize) = .ok lcounts)
    (hreduced : reduced.Perm lcounts) {procedure' : String} {total : Option Int4Array}
    (h : sumInt4arrayAgg procedure' reduced = .ok total) :
    ∀ arr ∈ total, arr.data = tally (matrixSize numTopics dsize).toNat
      (rows.flatMap (wordIndices numTopics)) := by
  have htopics : ∀ segment ∈ segments, ∀ row ∈ segment, HasTopics numTopics row :=
    fun segment hsegment row hrow =>
      hrows row (hperm.mem_iff.mp (List.mem_flatten.mpr ⟨segment, hsegment, hrow⟩))
  have hsegments : List.Forall₂ (fun (lcount : Option Int4Array) segment => ∀ arr ∈ lcount,
      arr.data = tally (matrixSize numTopics dsize).toNat
        (segment.flatMap (wordIndices numTopics))) lcounts segments :=
    (((List.forall₂_and_left _ _).mpr ⟨htopics, of_mapM'_ok hcounts⟩).imp fun _ _ h =>
      countWords_tally h.1 h.2).flip
  obtain ⟨segments', hforall, hsame⟩ := List.perm_comp_forall₂ hreduced hsegments
  have hparts : AreTallies (matrixSize numTopics dsize).toNat
      (segments'.map fun segment => segment.flatMap (wordIndices numTopics)) reduced := by
    unfold AreTallies
    rw [List.forall₂_map_left_iff]
    exact hforall.flip
  have hall := sumInt4arrayAgg_tally hparts h
  have hflatten :
      (segments'.map fun segment => segment.flatMap (wordIndices numTopics)).flatten.Perm
        (rows.flatMap (wordIndices numTopics)) := by
    rw [← List.flatMap_def, ← List.flatMap_assoc (f := fun segment => segment), List.flatMap_id']
    exact (hsame.flatten.trans hperm).flatMap_right (wordIndices numTopics)
  rwa [tally_perm hflatten] at hall

/-- After `i` iterations: one table is empty and the other one holds the corpus, whose topics have
been counted, and whose words, unless no iteration is done yet. -/
structure StateAt (numTopics dsize : Int32) (i : ℕ) (s : TrainState) : Prop where
  product_mem : -2147483648 ≤ dsize.toInt * numTopics.toInt ∧
    dsize.toInt * numTopics.toInt < 2147483648
  other_eq_nil : s.corpus ((i + 1) % 2) = []
  topics : ∀ row ∈ s.corpus (i % 2), HasTopics numTopics row
  topicCounts : ∀ arr ∈ s.topicCounts,
    arr.data = tally numTopics.toInt.toNat ((s.corpus (i % 2)).flatMap topicIndices)
  glwcounts_zero : i = 0 → ∀ arr ∈ s.glwcounts, ∀ n ∈ arr.data, n = 0
  words : 1 ≤ i → ∀ row ∈ s.corpus (i % 2), ∀ word ∈ row.contents.array.data,
    1 ≤ word ∧ word ≤ dsize.toInt
  glwcounts : 1 ≤ i → ∀ arr ∈ s.glwcounts, arr.data =
    tally (matrixSize numTopics dsize).toNat ((s.corpus (i % 2)).flatMap (wordIndices numTopics))
  localWordTopicCount : ∀ row ∈ s.localWordTopicCount, row.1 ≤ i
  modelTable : ∀ row ∈ s.modelTable, row.1 ≤ i

section Start

variable {α : Type} {exec : Execution α}

theorem topicsFit_of_initialRow {n : ℕ} {contents : Contents} (hpos : 1 ≤ numTopics.toInt)
    (h : initialRow numTopics exec n contents = .ok row) : TopicsFit numTopics row := by
  unfold initialRow at h
  intro t ht
  cases hupper : contents.upper with
  | none =>
      rw [hupper] at h
      cases h
      cases ht
  | some doclen =>
      rw [hupper] at h
      obtain ⟨topics, hrandom, h⟩ := bind_eq_ok.mp h
      cases h
      cases ht
      have htopics := isTopics_of_randomTopics hpos hrandom
      rwa [toInt_upper hupper, Int.toNat_natCast] at htopics

theorem stateAt_zero {procedure : String → String} {dataTable : List Contents}
    (hpos : 1 ≤ numTopics.toInt) {s : TrainState}
    (h : trainStart procedure numTopics dsize exec dataTable = .ok s) :
    StateAt numTopics dsize 0 s := by
  unfold trainStart at h
  obtain ⟨glwcounts, hzero, h⟩ := bind_eq_ok.mp h
  obtain ⟨corpus0, hcorpus, h⟩ := bind_eq_ok.mp h
  obtain ⟨topicCounts, hcounts, h⟩ := bind_eq_ok.mp h
  cases h
  have hfit : ∀ row ∈ corpus0, TopicsFit numTopics row := by
    intro row hrow
    obtain ⟨source, -, hsource⟩ := exists_row (of_mapM'_ok hcorpus) hrow
    exact topicsFit_of_initialRow hpos hsource
  obtain ⟨htopics, htally⟩ := countTopics_tally (exec.summed_perm 0 corpus0) hfit hcounts
  unfold pldaZeroArray at hzero
  split at hzero
  case isFalse => cases hzero
  case isTrue hrange =>
      constructor
      · exact hrange
      · rfl
      · exact htopics
      · exact htally
      · intro _ arr harr n hn
        cases harr
        rw [data_of_constructZeros hzero] at hn
        exact List.eq_of_mem_replicate hn
      · intro h
        cases h
      · intro h
        cases h
      · intro row hrow
        cases hrow
      · intro row hrow
        cases hrow

end Start

section Iteration

variable {α : Type} [Field α] [LinearOrder α] [IsStrictOrderedRing α] {alpha eta : α}
  {exec : Execution α} {procedure : String → String} {s : TrainState} {i : ℕ}

/-- A call is consistent in the second iteration and later, and only there. -/
def CallMeets (dsize : Int32) (c : TrainCall α) : Prop :=
  (Consistent dsize c → 2 ≤ c.iteration) ∧
    (2 ≤ c.iteration → CountsFit c.corpus → Consistent dsize c)

theorem data_of_arrayLiteral {result : Option Int4Array} {arr : Int4Array}
    (h : arrayLiteral result = .ok arr) : ∃ arr' ∈ result, arr.data = arr'.data := by
  unfold arrayLiteral at h
  cases result with
  | none => cases h
  | some arr' =>
      dsimp only at h
      split at h
      case isTrue => cases h
      case isFalse =>
          cases h
          exact ⟨arr', rfl, rfl⟩

theorem data_of_arrayArgument {result : Option Int4Array} {arr : Int4Array}
    (h : arrayArgument result = .ok arr) : ∃ arr' ∈ result, arr.data = arr'.data := by
  unfold arrayArgument at h
  obtain ⟨arr', hliteral, h⟩ := bind_eq_ok.mp h
  split at h
  case isTrue => cases h
  case isFalse =>
      cases h
      exact data_of_arrayLiteral hliteral

/-- The calls that the iteration `i + 1` makes for a row. -/
theorem StateAt.call (h : StateAt numTopics dsize i s) (hpos : 1 ≤ numTopics.toInt)
    (halpha : 0 < alpha) (heta : 0 < eta) {glwcounts topicCounts : Int4Array}
    (hglwcounts : arrayArgument s.glwcounts = .ok glwcounts)
    (htopicCounts : arrayArgument s.topicCounts = .ok topicCounts)
    (hrow : row ∈ s.corpus (i % 2)) {t : TopicsT} (ht : row.topics = some t) {j : ℕ}
    (hword : row.contents.array.data[j]? = some word) (htopic : t.topics.data[j]? = some topic)
    (hlo : 1 ≤ word) (hhi : word ≤ dsize.toInt) :
    CallMeets dsize ⟨i + 1, s.corpus (i % 2),
      ⟨numTopics, word, topic, glwcounts.data, t.topicD.data, topicCounts.data, alpha, eta⟩⟩ := by
  obtain ⟨counts, hcounts, hdata⟩ := data_of_arrayArgument hglwcounts
  obtain ⟨totals, htotals, hdata'⟩ := data_of_arrayArgument htopicCounts
  have hsizes : Sizes numTopics dsize := ⟨hpos, by omega, h.product_mem.2⟩
  have hmem : (word, topic) ∈ assignments row := by
    unfold assignments topicsOf
    rw [ht]
    exact List.mem_of_getElem? (List.getElem?_zip_eq_some.mpr ⟨hword, htopic⟩)
  constructor
  · intro hconsistent
    by_contra hfirst
    have hi : i = 0 := by
      dsimp only at hfirst
      omega
    obtain ⟨n, hread, hn⟩ := hconsistent.globalCount
    have hn' := mem_of_readAt hread
    dsimp only at hn'
    rw [hdata] at hn'
    have hzero := h.glwcounts_zero hi counts hcounts n hn'
    omega
  · intro hlater hfits
    dsimp only at hlater hfits
    have hi : 1 ≤ i := by omega
    have hcountsOf : CountsOf numTopics dsize (s.corpus (i % 2)) glwcounts.data
        topicCounts.data := by
      constructor
      · exact h.topics
      · exact h.words hi
      · rw [hdata, h.glwcounts hi counts hcounts]
      · rw [hdata', h.topicCounts totals htotals]
    exact hcountsOf.consistent hsizes hfits hrow ht hmem halpha heta (i + 1)

/-- A row after sampling. -/
structure Resampled (numTopics dsize : Int32) (row row' : CorpusRow) : Prop where
  contents_eq : row'.contents = row.contents
  topics : HasTopics numTopics row'
  words : ∀ word ∈ row.contents.array.data, 1 ≤ word ∧ word ≤ dsize.toInt

theorem StateAt.keeps_sampleRow (h : StateAt numTopics dsize i s) (hpos : 1 ≤ numTopics.toInt)
    (halpha : 0 < alpha) (heta : 0 < eta) {glwcounts topicCounts : Int4Array}
    (hglwcounts : arrayArgument s.glwcounts = .ok glwcounts)
    (htopicCounts : arrayArgument s.topicCounts = .ok topicCounts)
    (hrow : row ∈ s.corpus (i % 2)) (n : ℕ) :
    Keeps (All fun args => CallMeets dsize ⟨i + 1, s.corpus (i % 2), args⟩)
      (sampleRow procedure numTopics dsize alpha eta exec glwcounts topicCounts (i + 1) n row)
      (Resampled numTopics dsize row) := by
  obtain ⟨t, ht, -⟩ := h.topics row hrow
  unfold sampleRow
  rw [ht]
  dsimp only
  apply (keeps_sampleNewTopics fun j word topic hword htopic hlo hhi =>
    h.call hpos halpha heta hglwcounts htopicCounts hrow ht hword htopic hlo hhi).bind
  intro t' ⟨ht', hwords⟩
  apply keeps_pure
  constructor
  · rfl
  · rw [length_array] at ht'
    exact ⟨t', rfl, ht'⟩
  · exact hwords

/-- The rows of one iteration among those of all. -/
theorem map_snd_filter {β : Type} {rows : List (ℕ × β)} (hrows : ∀ row ∈ rows, row.1 ≤ i)
    (new : List β) :
    ((rows ++ new.map fun b => (i + 1, b)).filter fun row => row.1 = i + 1).map Prod.snd = new := by
  have hold : (rows.filter fun row => row.1 = i + 1) = [] := by
    rw [List.filter_eq_nil_iff]
    intro row hrow
    have hle := hrows row hrow
    simp only [decide_eq_true_eq]
    omega
  rw [List.filter_append, hold, List.nil_append, List.filter_map, List.map_map]
  simp [Function.comp_def]

theorem find?_concat {β : Type} {rows : List (ℕ × β)} (hrows : ∀ row ∈ rows, row.1 ≤ i) (b : β) :
    ((rows ++ [(i + 1, b)]).find? fun row => row.1 = i + 1) = some (i + 1, b) := by
  have hold : (rows.find? fun row => row.1 = i + 1) = none := by
    rw [List.find?_eq_none]
    intro row hrow
    have hle := hrows row hrow
    simp only [decide_eq_true_eq]
    omega
  rw [List.find?_append, hold, Option.none_or, List.find?_singleton]
  simp

omit [Field α] [LinearOrder α] [IsStrictOrderedRing α] in
/-- What is kept for the next iteration. -/
theorem StateAt.after (h : StateAt numTopics dsize i s) {rows : List CorpusRow}
    (htopics : ∀ row ∈ rows, HasTopics numTopics row)
    (hwords : ∀ row ∈ rows, ∀ word ∈ row.contents.array.data, 1 ≤ word ∧ word ≤ dsize.toInt)
    {topicCounts gcounts : Option Int4Array} {tcounts : Int4Array}
    {lcounts : List (Option Int4Array)}
    (htopicCounts : countTopics procedure (exec.summed (i + 1) rows) = .ok topicCounts)
    (hlcounts : (exec.segments (i + 1) rows).mapM' (countWords procedure numTopics dsize) =
      .ok lcounts)
    (hgcounts : sumInt4arrayAgg (procedure "plda_sum_int4array") (exec.reduced (i + 1) lcounts) =
      .ok gcounts) :
    StateAt numTopics dsize (i + 1)
      ⟨Function.update (Function.update s.corpus ((i + 1) % 2) rows) (i % 2) [],
        s.localWordTopicCount ++ lcounts.map fun lcount => (i + 1, lcount),
        s.modelTable ++ [(i + 1, gcounts, tcounts)],
        gcounts.map fun arr =>
          int4ArrayOf (arr.data.take (dsize.toInt * numTopics.toInt).toNat),
        topicCounts⟩ := by
  have hnew : Function.update (Function.update s.corpus ((i + 1) % 2) rows) (i % 2) []
      ((i + 1) % 2) = rows := by
    rw [Function.update_of_ne (by omega), Function.update_self]
  have hother : Function.update (Function.update s.corpus ((i + 1) % 2) rows) (i % 2) []
      ((i + 1 + 1) % 2) = [] := by
    rw [show (i + 1 + 1) % 2 = i % 2 by omega, Function.update_self]
  obtain ⟨-, htotals⟩ := countTopics_tally (exec.summed_perm (i + 1) rows)
    (fun row hrow t ht => by
      obtain ⟨t', ht', htopics'⟩ := htopics row hrow
      cases ht.symm.trans ht'
      exact htopics') htopicCounts
  have hmatrix := reduced_tally (exec.segments_perm (i + 1) rows) htopics hlcounts
    (exec.reduced_perm (i + 1) lcounts) hgcounts
  constructor
  · exact h.product_mem
  · exact hother
  · dsimp only
    rwa [hnew]
  · dsimp only
    rwa [hnew]
  · intro hzero
    omega
  · intro _
    dsimp only
    rwa [hnew]
  · intro _ arr harr
    dsimp only at harr ⊢
    obtain ⟨total, htotal, rfl⟩ := Option.map_eq_some_iff.mp harr
    have hsize : matrixSize numTopics dsize = dsize.toInt * numTopics.toInt :=
      toInt32_of_mem h.product_mem.1 h.product_mem.2
    rw [hnew, ← hmatrix total htotal, ← hsize]
    apply List.take_of_length_le
    rw [hmatrix total htotal, length_tally]
  · intro row hrow
    rcases List.mem_append.mp hrow with hold | hmem
    · exact (h.localWordTopicCount row hold).trans (Nat.le_succ i)
    · obtain ⟨lcount, -, rfl⟩ := List.mem_map.mp hmem
      exact le_refl _
  · intro row hrow
    rcases List.mem_append.mp hrow with hold | hmem
    · exact (h.modelTable row hold).trans (Nat.le_succ i)
    · rw [List.mem_singleton.mp hmem]

theorem StateAt.keeps_trainIteration (h : StateAt numTopics dsize i s)
    (hpos : 1 ≤ numTopics.toInt) (halpha : 0 < alpha) (heta : 0 < eta) :
    Keeps (All (CallMeets dsize))
      (trainIteration procedure numTopics dsize alpha eta exec s (i + 1))
      (StateAt numTopics dsize (i + 1)) := by
  have hold : (if (i + 1) % 2 = 0 then 1 else 0) = i % 2 := by
    split <;> omega
  unfold trainIteration
  dsimp only
  rw [hold, h.other_eq_nil]
  apply (keeps_lift _).bind
  intro glwcounts hglwcounts
  apply (keeps_lift _).bind
  intro topicCounts htopicCounts
  have hsample : Keeps (All (CallMeets dsize))
      (tagged (fun args => ⟨i + 1, s.corpus (i % 2), args⟩)
        ((exec.scanned (i + 1) (s.corpus (i % 2))).zipIdx.mapM' fun row =>
          sampleRow procedure numTopics dsize alpha eta exec glwcounts topicCounts (i + 1) row.2
            row.1))
      (List.Forall₂ (fun row row' => Resampled numTopics dsize row.1 row')
        (exec.scanned (i + 1) (s.corpus (i % 2))).zipIdx) := by
    apply keeps_tagged
    apply keeps_mapM'
    intro row hrow
    apply h.keeps_sampleRow hpos halpha heta hglwcounts htopicCounts
    exact (exec.scanned_perm _ _).mem_iff.mp (List.fst_mem_of_mem_zipIdx hrow)
  apply hsample.bind
  intro rows hrows
  rw [List.nil_append]
  apply (keeps_lift _).bind
  intro topicCounts' htotals
  apply (keeps_lift _).bind
  intro lcounts hlcounts
  rw [map_snd_filter h.localWordTopicCount]
  apply (keeps_lift _).bind
  intro gcounts hgcounts
  apply (keeps_lift _).bind
  intro tcounts htcounts
  rw [find?_concat h.modelTable]
  apply keeps_pure
  apply h.after _ _ htotals hlcounts hgcounts
  · intro row' hrow'
    obtain ⟨row, -, hresampled⟩ := exists_row hrows hrow'
    exact hresampled.topics
  · intro row' hrow'
    obtain ⟨row, -, hresampled⟩ := exists_row hrows hrow'
    rw [hresampled.contents_eq]
    exact hresampled.words

end Iteration

/-! ## Runs -/

section Runs

variable {α : Type} [Field α] [LinearOrder α] [IsStrictOrderedRing α] {alpha eta : α}

theorem keeps_pldaTrain (procedure : String → String) (hpos : 1 ≤ numTopics.toInt)
    (halpha : 0 < alpha) (heta : 0 < eta) (exec : Execution α) (numIter : Int32)
    (dataTable : List Contents) :
    Keeps (All (CallMeets dsize))
      (pldaTrain procedure numTopics alpha eta exec numIter [some dsize] dataTable)
      fun _ => True := by
  unfold pldaTrain
  dsimp only
  split
  case isTrue => exact keeps_fail _
  case isFalse =>
      apply (keeps_lift _).bind
      intro start hstart
      apply (keeps_foldlM_range (StateAt numTopics dsize) (stateAt_zero hpos hstart) _).bind
      · intro s _
        split
        · exact keeps_fail _
        · exact keeps_pure trivial
      · intro i _ s hs
        exact hs.keeps_trainIteration hpos halpha heta

end Runs

/-- A word is sampled with consistent counts in the second iteration and later, if no topic has more
words than can be counted, and never in the first one. -/
theorem pldaTrain_consistent {α : Type} [Field α] [LinearOrder α] [IsStrictOrderedRing α]
    (procedure : String → String) (numTopics dsize numIter : Int32) (alpha eta : α)
    (exec : Execution α) (dataTable : List Contents) (hpos : 1 ≤ numTopics.toInt)
    (halpha : 0 < alpha) (heta : 0 < eta) :
    ∀ c ∈ (pldaTrain procedure numTopics alpha eta exec numIter [some dsize] dataTable []).2,
      (Consistent dsize c → 2 ≤ c.iteration) ∧
        (2 ≤ c.iteration → CountsFit c.corpus → Consistent dsize c) :=
  (keeps_pldaTrain procedure hpos halpha heta exec numIter dataTable [] (all_nil _)).1

/-- All rows on one segment, in their order, and all random numbers zero. -/
def plainExecution : Execution ℚ where
  random _ _ := 0
  drand48 _ _ _ := 0
  scanned _ rows := rows
  scanned_perm _ _ := .refl _
  summed _ rows := rows
  summed_perm _ _ := .refl _
  segments _ rows := if rows.isEmpty then [] else [rows]
  segments_perm _ rows := by cases rows <;> simp
  segments_ne_nil _ rows := by cases rows <;> simp
  reduced _ counts := counts
  reduced_perm _ _ := .refl _

/-- One document of one word. -/
def oneWord : List Contents := [⟨[1], by decide⟩]

/-- The second iteration of a run. -/
theorem pldaTrain_consistent_second :
    ∃ c ∈ (pldaTrain (fun name => name) 2 1 (1 / 10) plainExecution 2 [some 3] oneWord []).2,
      c.iteration = 2 ∧ Consistent 3 c := by
  have hrun : ((pldaTrain (fun name => name) 2 1 (1 / 10) plainExecution 2 [some 3] oneWord
      []).2.map fun c => (c.iteration, (c.corpus.flatMap topicsOf).length)) =
        [(1, 1), (2, 1)] := by decide +kernel
  have hmem : (2, 1) ∈ [(1, 1), (2, 1)] := by decide
  rw [← hrun] at hmem
  obtain ⟨c, hc, hcall⟩ := List.mem_map.mp hmem
  obtain ⟨hiteration, hlength⟩ := Prod.mk.inj hcall
  have hfits : CountsFit c.corpus := by
    intro topic
    have hle : topicTotal c.corpus topic ≤ (c.corpus.flatMap topicsOf).length :=
      List.count_le_length
    omega
  have hmeets := pldaTrain_consistent (fun name => name) 2 3 2 1 (1 / 10) plainExecution oneWord
    (by decide) (by norm_num) (by norm_num) c hc
  exact ⟨c, hc, hiteration, hmeets.2 hiteration.ge hfits⟩

/-- In the first iteration the only word is not counted. -/
theorem not_pldaTrain_consistent :
    ¬∀ (procedure : String → String) (numTopics dsize numIter : Int32) (alpha eta : ℚ)
      (exec : Execution ℚ) (dataTable : List Contents), 1 ≤ numTopics.toInt → 1 ≤ numIter.toInt →
      0 < alpha → 0 < eta →
      (∀ contents ∈ dataTable, ∀ word ∈ contents.words, 1 ≤ word.toInt ∧ word.toInt ≤ dsize.toInt) →
      ∀ c ∈ (pldaTrain procedure numTopics alpha eta exec numIter [some dsize] dataTable []).2,
        Consistent dsize c := by
  intro hall
  have hrun : ((pldaTrain (fun name => name) 1 (1 / 10) (1 / 10) plainExecution 1 [some 1] oneWord
      []).2.map fun c => c.args.globalCount) = [[0]] := by decide +kernel
  have hmem : [0] ∈ [[(0 : Int)]] := List.mem_singleton_self [0]
  rw [← hrun] at hmem
  obtain ⟨c, hc, hcount⟩ := List.mem_map.mp hmem
  have hwords : ∀ contents ∈ oneWord, ∀ word ∈ contents.words,
      1 ≤ word.toInt ∧ word.toInt ≤ (1 : Int32).toInt := by
    intro contents hcontents word hword
    rw [oneWord, List.mem_singleton] at hcontents
    subst hcontents
    rw [List.mem_singleton.mp hword]
    decide
  have hconsistent := hall (fun name => name) 1 1 1 (1 / 10) (1 / 10) plainExecution oneWord
    (by decide) (by decide) (by norm_num) (by norm_num) hwords c hc
  obtain ⟨n, hread, hn⟩ := hconsistent.globalCount
  have hzero := mem_of_readAt hread
  rw [hcount, List.mem_singleton] at hzero
  omega

end Madlib.Plda
