import Madlib.Plda.PldaTrain

/-!
# Consistent counts

The counts of a corpus are the tallies of the places that its topics, and its words with their
topics, have in the arrays.  When a word is sampled with the counts of the corpus it is in, the
word itself is among what is counted, and so no weight is negative.
-/

namespace Madlib.Plda

open Madlib.Backend Madlib.Lib Madlib.Lib.Call Madlib.Lib.MachineInt Madlib.Lib.Tally

/-! ## The corpus -/

def topicsOf (row : CorpusRow) : List Int :=
  match row.topics with
  | none => []
  | some t => t.topics.data

/-- The words of a document with their topics. -/
def assignments (row : CorpusRow) : List (Int × Int) :=
  row.contents.array.data.zip (topicsOf row)

/-- At how many places of the corpus the word has the topic. -/
def assigned (corpus : List CorpusRow) (word topic : Int) : ℕ :=
  (corpus.flatMap assignments).count (word, topic)

/-- At how many places of the corpus a word has the topic. -/
def topicTotal (corpus : List CorpusRow) (topic : Int) : ℕ :=
  (corpus.flatMap topicsOf).count topic

/-- The place of a topic in the counts of topics. -/
def topicIndices (row : CorpusRow) : List Int := (topicsOf row).map fun topic => topic - 1

/-- The places of words and topics in the matrix. -/
def wordIndices (numTopics : Int32) (row : CorpusRow) : List Int :=
  (assignments row).map fun p => linearIndex numTopics p.1 p.2

/-- The row has topics. -/
def HasTopics (numTopics : Int32) (row : CorpusRow) : Prop :=
  ∃ t, row.topics = some t ∧ IsTopics numTopics row.contents.words.length t

variable {numTopics dsize : Int32} {procedure : String} {items : List Int} {count : List Int}

theorem length_array (contents : Contents) :
    contents.array.data.length = contents.words.length := by
  simp [Contents.array, int4ArrayOf]

/-! ## Counting words -/

theorem toInt_upper {contents : Contents} {doclen : Int32} (h : contents.upper = some doclen) :
    doclen.toInt = contents.words.length := by
  unfold Contents.upper at h
  split at h
  case isTrue => cases h
  case isFalse =>
      cases h
      exact toInt_length contents.size_le

theorem uint32_upper (contents : Contents) :
    uint32 (contents.upper.getD 0).toInt = contents.words.length := by
  unfold Contents.upper
  split
  case isTrue hnil =>
      rw [hnil]
      rfl
  case isFalse => exact uint32_length contents.size_le

theorem of_countPosition_tally {word topic : Int}
    (h : countPosition procedure numTopics dsize
      (tally (matrixSize numTopics dsize).toNat items) word topic = .ok count) :
    count = tally (matrixSize numTopics dsize).toNat
      (items ++ [linearIndex numTopics word topic]) := by
  by_cases hrange : 0 ≤ linearIndex numTopics word topic ∧
      linearIndex numTopics word topic < matrixSize numTopics dsize
  · rw [countPosition_tally hrange] at h
    exact (Except.ok.inj h).symm
  · unfold countPosition at h
    rw [if_pos (by omega)] at h
    cases h

theorem rounds_tally {docArr topicsArr : Int4Array} {m : ℕ}
    (h : (List.range m).foldlM (cwordRound procedure numTopics dsize docArr topicsArr)
      (tally (matrixSize numTopics dsize).toNat items) = .ok count) :
    count = tally (matrixSize numTopics dsize).toNat (items ++
      ((docArr.data.zip topicsArr.data).take m).map fun p => linearIndex numTopics p.1 p.2) := by
  induction m generalizing count with
  | zero =>
      cases h
      rw [List.take_zero, List.map_nil, List.append_nil]
  | succ m ih =>
      rw [List.range_succ, List.foldlM_append] at h
      obtain ⟨before, hbefore, h⟩ := bind_eq_ok.mp h
      rw [List.foldlM_cons] at h
      obtain ⟨next, hround, h⟩ := bind_eq_ok.mp h
      cases h
      rw [ih hbefore] at hround
      unfold cwordRound at hround
      split at hround
      case h_1 word topic hword htopic =>
          have hget : (docArr.data.zip topicsArr.data)[m]? = some (word, topic) := by
            rw [List.getElem?_zip_eq_some]
            exact ⟨hword, htopic⟩
          rw [List.take_add_one, hget, Option.toList_some, List.map_append, ← List.append_assoc]
          exact of_countPosition_tally hround
      case h_2 => cases hround

theorem cwordCount_tally {state : Option Int4Array} {contents : Contents}
    {topicsArr ret : Int4Array}
    (hlength : topicsArr.data.length = contents.words.length)
    (hstate : ∀ arr ∈ state, arr.data = tally (matrixSize numTopics dsize).toNat items)
    (hstart : state = none → items = [])
    (h : cwordCount procedure numTopics dsize true state contents.array topicsArr
      (contents.upper.getD 0) = .ok ret) :
    ret.data = tally (matrixSize numTopics dsize).toNat (items ++
      (contents.array.data.zip topicsArr.data).map fun p => linearIndex numTopics p.1 p.2) := by
  unfold cwordCount at h
  rw [if_neg (by decide)] at h
  obtain ⟨countArr, hcountArr, h⟩ := bind_eq_ok.mp h
  have hdata : countArr.data = tally (matrixSize numTopics dsize).toNat items := by
    cases state with
    | none =>
        rw [hstart rfl, tally_nil, data_of_constructZeros hcountArr]
    | some arr =>
        cases hcountArr
        exact hstate _ rfl
  split at h
  case isTrue => cases h
  case isFalse =>
      obtain ⟨data, hrounds, h⟩ := bind_eq_ok.mp h
      cases h
      rw [hdata, uint32_upper] at hrounds
      dsimp only
      rw [rounds_tally hrounds, List.take_of_length_le]
      rw [List.length_zip, length_array, hlength, min_self]

/-- The call of `plda_cword_count` for a row. -/
theorem countRow_tally {state : Option Int4Array} {row : CorpusRow} {t : TopicsT} {ret : Int4Array}
    (ht : row.topics = some t) (hrow : HasTopics numTopics row)
    (hstate : ∀ arr ∈ state, arr.data = tally (matrixSize numTopics dsize).toNat items)
    (hstart : state = none → items = [])
    (h : cwordCount procedure numTopics dsize true state row.contents.array t.topics
      (row.contents.upper.getD 0) = .ok ret) :
    ret.data =
      tally (matrixSize numTopics dsize).toNat (items ++ wordIndices numTopics row) := by
  obtain ⟨t', ht', htopics⟩ := hrow
  cases ht.symm.trans ht'
  rw [cwordCount_tally htopics.length_eq hstate hstart h]
  unfold wordIndices assignments topicsOf
  rw [ht]

theorem foldlM_countWords {procedure : String → String} {rows : List CorpusRow}
    (hrows : ∀ row ∈ rows, HasTopics numTopics row) {state total : Option Int4Array}
    (hstate : ∀ arr ∈ state, arr.data = tally (matrixSize numTopics dsize).toNat items)
    (hstart : state = none → items = [])
    (h : rows.foldlM (countRow procedure numTopics dsize) state = .ok total) :
    ∀ arr ∈ total, arr.data = tally (matrixSize numTopics dsize).toNat
      (items ++ rows.flatMap (wordIndices numTopics)) := by
  induction rows generalizing state items with
  | nil =>
      cases h
      rwa [List.flatMap_nil, List.append_nil]
  | cons row rows ih =>
      rw [List.foldlM_cons] at h
      obtain ⟨state', hstep, hrest⟩ := bind_eq_ok.mp h
      unfold countRow at hstep
      split at hstep
      case h_1 => cases hstep
      case h_2 t ht =>
          obtain ⟨ret, hcount, hret⟩ := bind_eq_ok.mp hstep
          cases hret
          have hdata := countRow_tally ht (hrows row List.mem_cons_self) hstate hstart hcount
          rw [List.flatMap_cons, ← List.append_assoc]
          exact ih (fun r hr => hrows r (List.mem_cons_of_mem row hr))
            (fun arr harr => Option.some.inj harr ▸ hdata) (by simp) hrest

theorem countWords_tally {procedure : String → String} {rows : List CorpusRow}
    (hrows : ∀ row ∈ rows, HasTopics numTopics row) {total : Option Int4Array}
    (h : countWords procedure numTopics dsize rows = .ok total) :
    ∀ arr ∈ total, arr.data = tally (matrixSize numTopics dsize).toNat
      (rows.flatMap (wordIndices numTopics)) := by
  have hall : ∀ arr ∈ total, arr.data = tally (matrixSize numTopics dsize).toNat
      ([] ++ rows.flatMap (wordIndices numTopics)) :=
    foldlM_countWords hrows (by simp) (fun _ => rfl) h
  rwa [List.nil_append] at hall

/-! ## Consistent counts -/

section Consistent

variable {α : Type} [Field α] [LinearOrder α]

/-- The arrays of a call count the word itself with its topic, the matrix is that of the corpus,
no topic has a negative weight, and the weights have a positive sum. -/
structure Consistent (dsize : Int32) (c : TrainCall α) : Prop where
  localD : ∃ n, readAt c.args.localD (c.args.wtopic - 1) = .ok n ∧ 1 ≤ n
  globalCount : ∃ n, readAt c.args.globalCount
    ((c.args.widx - 1) * c.args.numtopics.toInt + (c.args.wtopic - 1)) = .ok n ∧ 1 ≤ n
  topicCounts : ∃ n, readAt c.args.topicCounts (c.args.wtopic - 1) = .ok n ∧ 1 ≤ n
  table : ∀ word topic : Int, 1 ≤ word ∧ word ≤ dsize.toInt →
    1 ≤ topic ∧ topic ≤ c.args.numtopics.toInt →
      readAt c.args.globalCount ((word - 1) * c.args.numtopics.toInt + (topic - 1)) =
        .ok (assigned c.corpus word topic : Int)
  weights : ∃ weights : List α,
    (List.range c.args.numtopics.toInt.toNat).mapM' (clProb c.args) = .ok weights ∧
      (∀ weight ∈ weights, 0 ≤ weight) ∧ 0 < weights.sum

end Consistent

/-- The counts that are passed on with a corpus. -/
structure CountsOf (numTopics dsize : Int32) (corpus : List CorpusRow)
    (globalCount topicCounts : List Int) : Prop where
  topics : ∀ row ∈ corpus, HasTopics numTopics row
  words : ∀ row ∈ corpus, ∀ word ∈ row.contents.array.data, 1 ≤ word ∧ word ≤ dsize.toInt
  globalCount_eq : globalCount =
    tally (matrixSize numTopics dsize).toNat (corpus.flatMap (wordIndices numTopics))
  topicCounts_eq : topicCounts = tally numTopics.toInt.toNat (corpus.flatMap topicIndices)

variable {corpus : List CorpusRow} {globalCount topicCounts : List Int} {row : CorpusRow}
  {word topic : Int}

theorem readAt_tally {n : ℕ} {i : Int} (hi : 0 ≤ i) (hn : i < n)
    (hfits : items.count i < 2147483648) :
    readAt (tally n items) i = .ok (items.count i : Int) := by
  obtain ⟨k, rfl⟩ := Int.eq_ofNat_of_zero_le hi
  exact readAt_natCast_iff.mpr (getElem?_tally_of_lt (by omega) hfits)

theorem count_topicIndices (row : CorpusRow) (topic : Int) :
    (topicIndices row).count (topic - 1) = (topicsOf row).count topic :=
  List.count_map_of_injective _ _
    (sub_left_injective : Function.Injective fun topic : Int => topic - 1) topic

theorem count_flatMap_topicIndices (corpus : List CorpusRow) (topic : Int) :
    (corpus.flatMap topicIndices).count (topic - 1) = topicTotal corpus topic := by
  unfold topicTotal
  rw [List.count_flatMap, List.count_flatMap]
  congr 2
  funext row
  exact count_topicIndices row topic

theorem map_snd_assignments (h : HasTopics numTopics row) :
    (assignments row).map Prod.snd = topicsOf row := by
  obtain ⟨t, ht, htopics⟩ := h
  unfold assignments topicsOf
  rw [ht]
  apply List.map_snd_zip
  rw [length_array, htopics.length_eq]

theorem assigned_le (h : ∀ row ∈ corpus, HasTopics numTopics row) (word topic : Int) :
    assigned corpus word topic ≤ topicTotal corpus topic := by
  have hmap : (corpus.flatMap assignments).map Prod.snd = corpus.flatMap topicsOf := by
    rw [List.map_flatMap]
    exact List.flatMap_congr fun row hrow => map_snd_assignments (h row hrow)
  unfold assigned topicTotal
  rw [← hmap]
  exact List.count_le_count_map (f := Prod.snd) (x := (word, topic))

theorem count_topicsOf_le (hrow : row ∈ corpus) (topic : Int) :
    (topicsOf row).count topic ≤ topicTotal corpus topic := by
  unfold topicTotal
  rw [List.flatMap_def]
  exact (List.sublist_flatten_of_mem (List.mem_map_of_mem hrow)).count_le topic

theorem range_of_mem_assignments (h : HasTopics numTopics row)
    (hwords : ∀ word ∈ row.contents.array.data, 1 ≤ word ∧ word ≤ dsize.toInt)
    (hmem : (word, topic) ∈ assignments row) :
    (1 ≤ word ∧ word ≤ dsize.toInt) ∧ 1 ≤ topic ∧ topic ≤ numTopics.toInt := by
  obtain ⟨t, ht, htopics⟩ := h
  unfold assignments topicsOf at hmem
  rw [ht] at hmem
  obtain ⟨hword, htopic⟩ := List.of_mem_zip hmem
  exact ⟨hwords _ hword, htopics.range _ htopic⟩

theorem Sizes.linearIndex_eq (h : Sizes numTopics dsize)
    (hword : 1 ≤ word ∧ word ≤ dsize.toInt) (htopic : 1 ≤ topic ∧ topic ≤ numTopics.toInt) :
    linearIndex numTopics word topic = (word - 1) * numTopics.toInt + (topic - 1) := by
  have hcell := h.cell_bounds hword htopic
  have hlt := h.product_lt
  exact toInt32_of_mem (by omega) (by omega)

/-- The matrix has the places of the words and topics. -/
theorem CountsOf.count_wordIndices (hsizes : Sizes numTopics dsize)
    (h : CountsOf numTopics dsize corpus globalCount topicCounts)
    (word : Int) (htopic : 1 ≤ topic ∧ topic ≤ numTopics.toInt) :
    (corpus.flatMap (wordIndices numTopics)).count
        ((word - 1) * numTopics.toInt + (topic - 1)) = assigned corpus word topic := by
  have hmap : corpus.flatMap (wordIndices numTopics) =
      (corpus.flatMap assignments).map fun p => linearIndex numTopics p.1 p.2 := by
    rw [List.map_flatMap]
    rfl
  rw [hmap, assigned, List.count, List.countP_map, List.count]
  apply List.countP_congr
  intro ⟨word', topic'⟩ hmem
  obtain ⟨row, hrow, hmem⟩ := List.mem_flatMap.mp hmem
  obtain ⟨hword, hrange⟩ :=
    range_of_mem_assignments (h.topics row hrow) (h.words row hrow) hmem
  simp only [Function.comp_apply, beq_iff_eq, hsizes.linearIndex_eq hword hrange]
  constructor
  · intro heq
    obtain ⟨rfl, rfl⟩ := cell_injective hrange htopic heq
    rfl
  · intro heq
    cases heq
    rfl

/-- No topic has more words than an `int4` can count. -/
def CountsFit (corpus : List CorpusRow) : Prop := ∀ topic, topicTotal corpus topic < 2147483648

section Entries

variable (hsizes : Sizes numTopics dsize)
  (h : CountsOf numTopics dsize corpus globalCount topicCounts) (hfits : CountsFit corpus)

include hsizes h hfits

theorem CountsOf.readAt_globalCount (hword : 1 ≤ word ∧ word ≤ dsize.toInt)
    (htopic : 1 ≤ topic ∧ topic ≤ numTopics.toInt) :
    readAt globalCount ((word - 1) * numTopics.toInt + (topic - 1)) =
      .ok (assigned corpus word topic : Int) := by
  have hcell := hsizes.cell_bounds hword htopic
  have hcount := h.count_wordIndices hsizes word htopic
  have hle := assigned_le h.topics word topic
  have hlt := hfits topic
  rw [h.globalCount_eq, readAt_tally hcell.1 (by rw [hsizes.matrixSize_eq]; omega) (by omega),
    hcount]

omit hsizes in
theorem CountsOf.readAt_topicCounts (htopic : 1 ≤ topic ∧ topic ≤ numTopics.toInt) :
    readAt topicCounts (topic - 1) = .ok (topicTotal corpus topic : Int) := by
  have hcount := count_flatMap_topicIndices corpus topic
  have hlt := hfits topic
  rw [h.topicCounts_eq, readAt_tally (by omega) (by omega) (by omega), hcount]

omit hsizes in
theorem CountsOf.readAt_topicD (hrow : row ∈ corpus) {t : TopicsT} (ht : row.topics = some t)
    (htopic : 1 ≤ topic ∧ topic ≤ numTopics.toInt) :
    readAt t.topicD.data (topic - 1) = .ok ((topicsOf row).count topic : Int) := by
  obtain ⟨t', ht', htopics⟩ := h.topics row hrow
  cases ht.symm.trans ht'
  have hindices : t.topics.data.map (fun topic => topic - 1) = topicIndices row := by
    unfold topicIndices topicsOf
    rw [ht]
  have hcount := count_topicIndices row topic
  have hle := count_topicsOf_le hrow topic
  have hlt := hfits topic
  rw [htopics.counts, hindices, readAt_tally (by omega) (by omega) (by omega), hcount]

end Entries

theorem assigned_pos (hrow : row ∈ corpus) (hmem : (word, topic) ∈ assignments row) :
    0 < assigned corpus word topic :=
  List.count_pos_iff.mpr (List.mem_flatMap.mpr ⟨row, hrow, hmem⟩)

theorem count_topicsOf_pos (hmem : (word, topic) ∈ assignments row) :
    0 < (topicsOf row).count topic :=
  List.count_pos_iff.mpr (List.of_mem_zip hmem).2

/-- What is left of a count without the current word. -/
theorem toInt32_left_out {n : ℕ} (hn : n < 2147483648) {own : Prop} [Decidable own]
    (hpos : own → 0 < n) :
    0 ≤ if own then toInt32 ((n : Int) - 1) else (n : Int) := by
  split
  case isTrue hown =>
      have hn' := hpos hown
      rw [toInt32_of_mem (by omega) (by omega)]
      omega
  case isFalse => omega

section Weights

variable {α : Type} [Field α] [LinearOrder α] [IsStrictOrderedRing α] {alpha eta : α}

/-- Every weight is positive. -/
theorem CountsOf.clProb_pos (hsizes : Sizes numTopics dsize)
    (h : CountsOf numTopics dsize corpus globalCount topicCounts) (hfits : CountsFit corpus)
    (hrow : row ∈ corpus) {t : TopicsT} (ht : row.topics = some t)
    (hmem : (word, topic) ∈ assignments row) (halpha : 0 < alpha) (heta : 0 < eta) {j : ℕ}
    (hj : j < numTopics.toInt.toNat) :
    ∃ p, clProb ⟨numTopics, word, topic, globalCount, t.topicD.data, topicCounts, alpha, eta⟩ j =
      .ok p ∧ 0 < p := by
  obtain ⟨hword, htopic⟩ := range_of_mem_assignments (h.topics row hrow) (h.words row hrow) hmem
  have hother : 1 ≤ (j : Int) + 1 ∧ (j : Int) + 1 ≤ numTopics.toInt := by omega
  have hindex : toInt32 (toInt32 (word - 1) * numTopics.toInt + j) =
      (word - 1) * numTopics.toInt + ((j : Int) + 1 - 1) := by
    have hdsize := int32_mem dsize
    rw [toInt32_of_mem (x := word - 1) (by omega) (by omega), ← hsizes.linearIndex_eq hword hother,
      linearIndex, add_sub_cancel_right]
  have hown : toInt32 (topic - 1) = topic - 1 := by
    have hnumTopics := int32_mem numTopics
    exact toInt32_of_mem (by omega) (by omega)
  have hglobal := h.readAt_globalCount hsizes hfits hword hother
  have hlocal := h.readAt_topicD hfits hrow ht hother
  have htotal := h.readAt_topicCounts hfits hother
  rw [← hindex] at hglobal
  rw [add_sub_cancel_right] at hlocal htotal
  refine ⟨_, clProb_ok hglobal hlocal htotal, ?_⟩
  dsimp only
  rw [hown]
  have hself : (j : Int) = topic - 1 → topic = j + 1 := by omega
  have hlt := hfits (j + 1)
  have hl : 0 ≤ if (j : Int) = topic - 1 then
      toInt32 (((topicsOf row).count ((j : Int) + 1) : Int) - 1)
      else ((topicsOf row).count ((j : Int) + 1) : Int) :=
    toInt32_left_out ((count_topicsOf_le hrow _).trans_lt hlt) fun heq =>
      count_topicsOf_pos (hself heq ▸ hmem)
  have hg : 0 ≤ if (j : Int) = topic - 1 then toInt32 ((assigned corpus word (j + 1) : Int) - 1)
      else (assigned corpus word (j + 1) : Int) :=
    toInt32_left_out ((assigned_le h.topics word _).trans_lt hlt) fun heq =>
      assigned_pos hrow (hself heq ▸ hmem)
  have hpos : (0 : Int) < numTopics.toInt := by omega
  positivity

/-- A call is made with the counts of its corpus. -/
theorem CountsOf.consistent (hsizes : Sizes numTopics dsize)
    (h : CountsOf numTopics dsize corpus globalCount topicCounts) (hfits : CountsFit corpus)
    (hrow : row ∈ corpus) {t : TopicsT} (ht : row.topics = some t)
    (hmem : (word, topic) ∈ assignments row) (halpha : 0 < alpha) (heta : 0 < eta) (i : ℕ) :
    Consistent dsize ⟨i, corpus,
      ⟨numTopics, word, topic, globalCount, t.topicD.data, topicCounts, alpha, eta⟩⟩ := by
  obtain ⟨hword, htopic⟩ := range_of_mem_assignments (h.topics row hrow) (h.words row hrow) hmem
  have hglobal := assigned_pos hrow hmem
  constructor
  · exact ⟨_, h.readAt_topicD hfits hrow ht htopic,
      Int.natCast_pos.mpr (count_topicsOf_pos hmem)⟩
  · exact ⟨_, h.readAt_globalCount hsizes hfits hword htopic, Int.natCast_pos.mpr hglobal⟩
  · exact ⟨_, h.readAt_topicCounts hfits htopic,
      Int.natCast_pos.mpr (hglobal.trans_le (assigned_le h.topics word topic))⟩
  · exact fun word topic hword htopic => h.readAt_globalCount hsizes hfits hword htopic
  · have hall := mapM'_ok (List.range numTopics.toInt.toNat) fun j hj =>
      h.clProb_pos hsizes hfits hrow ht hmem halpha heta (List.mem_range.mp hj)
    obtain ⟨weights, hweights, hlength, hpos⟩ := hall
    refine ⟨weights, hweights, fun weight hweight => (hpos weight hweight).le, ?_⟩
    apply List.sum_pos _ hpos
    rintro rfl
    rw [List.length_nil, List.length_range] at hlength
    omega

end Weights

end Madlib.Plda
