import Madlib.Backend
import Madlib.Lib.Tally

/-!
# Word-topic counts

`cword_count` keeps the counts of all words and topics in one `int4[]`, row by row.  A word and a
topic are made into one index, and only that index is checked: a topic beyond the number of topics
is counted in a later row.
-/

namespace Madlib.Plda

open Madlib.Backend Madlib.Lib.MachineInt Madlib.Lib.Tally

/-- An `int4[]` without NULLs. -/
structure Int4Array where
  ndim : Nat
  data : List Int

/-- An array with these elements, which has no dimension when there are none. -/
def int4ArrayOf (elements : List Int) : Int4Array :=
  ⟨if elements = [] then 0 else 1, elements⟩

/-- `palloc0` and `construct_array` for that many zeros. -/
def constructZeros (n : Int) : Except Fault Int4Array := do
  palloc (sizeT (n * 8))
  pure (int4ArrayOf (List.replicate n.toNat 0))

section Transition

variable (procedure : String) (numTopics dsize : Int32)

def invalidParameters : Fault :=
  .ereport .invalidParameterValue ("function \"" ++ procedure ++ "\" called with invalid parameters")

/-- `(doc[i]-1) * num_topics + (topics[i]-1)`, computed in `int32`. -/
def linearIndex (word topic : Int) : Int :=
  toInt32 ((word - 1) * numTopics.toInt + (topic - 1))

/-- `dsize*num_topics` -/
def matrixSize : Int := toInt32 (dsize.toInt * numTopics.toInt)

/-- What is done with one position of a document. -/
def countPosition (count : List Int) (word topic : Int) : Except Fault (List Int) :=
  let idx := linearIndex numTopics word topic
  if idx < 0 ∨ matrixSize numTopics dsize ≤ idx then .error (invalidParameters procedure)
  else
    match count[idx.toNat]? with
    | some c => .ok (count.set idx.toNat (toInt32 (c + 1)))
    | none => .error .outOfBounds

/-- The round `i` of the loop. -/
def cwordRound (docArr topicsArr : Int4Array) (count : List Int) (i : Nat) :
    Except Fault (List Int) :=
  match docArr.data[i]?, topicsArr.data[i]? with
  | some word, some topic => countPosition procedure numTopics dsize count word topic
  | _, _ => .error .outOfBounds

/-- The array that is counted in: a new one at the first call. -/
def countArray (state : Option Int4Array) : Except Fault Int4Array :=
  match state with
  | none => constructZeros (matrixSize numTopics dsize)
  | some countArr => .ok countArr

/-- `cword_count` -/
def cwordCount (asAggregate : Bool) (state : Option Int4Array) (docArr topicsArr : Int4Array)
    (doclen : Int32) : Except Fault Int4Array := do
  if asAggregate = false then
    .error (.elog "cword_count not used as part of an aggregate")
  else
    let countArr ← countArray numTopics dsize state
    if countArr.ndim ≠ 1 ∨ docArr.ndim ≠ 1 ∨ topicsArr.ndim ≠ 1 then
      .error (.ereport .invalidParameterValue
        ("transition function \"" ++ procedure ++ "\" called with invalid parameters"))
    else
      let rounds := List.range (uint32 doclen.toInt)
      let count ← rounds.foldlM (cwordRound procedure numTopics dsize docArr topicsArr) countArr.data
      pure { countArr with data := count }

/-- The words of a document with their topics; both arrays are backend arrays. -/
structure Document where
  positions : List (Int32 × Int32)
  size_le : 24 + 4 * positions.length ≤ maxAllocSize

def Document.words (doc : Document) : Int4Array :=
  int4ArrayOf (doc.positions.map fun p => p.1.toInt)

def Document.topics (doc : Document) : Int4Array :=
  int4ArrayOf (doc.positions.map fun p => p.2.toInt)

/-- The call for one document. -/
def cwordStep (state : Option Int4Array) (doc : Document) : Except Fault (Option Int4Array) := do
  let countArr ← cwordCount procedure numTopics dsize true state doc.words doc.topics
    (Int32.ofNat doc.positions.length)
  pure (some countArr)

/-- `cword_agg` -/
def cwordAgg (docs : List Document) : Except Fault (Option Int4Array) :=
  docs.foldlM (cwordStep procedure numTopics dsize) none

end Transition

/-- The word and the topic of every position of the documents. -/
def allPositions (docs : List Document) : List (Int32 × Int32) := docs.flatMap (·.positions)

/-! ## Positions -/

variable {procedure : String} {numTopics dsize : Int32}

/-- The index of a position. -/
def indexOf (numTopics : Int32) (p : Int32 × Int32) : Int :=
  linearIndex numTopics p.1.toInt p.2.toInt

/-- The index is one of the matrix. -/
def InBounds (numTopics dsize : Int32) (p : Int32 × Int32) : Prop :=
  0 ≤ indexOf numTopics p ∧ indexOf numTopics p < matrixSize numTopics dsize

/-- The counts are those of the positions by their indices. -/
structure Represents (numTopics dsize : Int32) (count : List Int)
    (positions : List (Int32 × Int32)) : Prop where
  length_eq : count.length = (matrixSize numTopics dsize).toNat
  count_eq : ∀ k < count.length,
    count[k]? = some (toInt32 (positions.countP fun p => indexOf numTopics p = k))

variable {count : List Int} {positions : List (Int32 × Int32)} {p : Int32 × Int32}

theorem represents_iff : Represents numTopics dsize count positions ↔
    count = tally (matrixSize numTopics dsize).toNat (positions.map (indexOf numTopics)) := by
  have hcount : ∀ k : ℕ, (positions.map (indexOf numTopics)).count (k : Int) =
      positions.countP fun p => indexOf numTopics p = k := by
    intro k
    rw [List.count, List.countP_map]
    exact List.countP_congr fun p _ => by simp
  constructor
  · intro h
    apply List.ext_getElem?
    intro k
    by_cases hk : k < count.length
    · rw [h.count_eq k hk, getElem?_tally (h.length_eq ▸ hk), hcount]
    · have hlength := h.length_eq
      rw [List.getElem?_eq_none (by omega), List.getElem?_eq_none (by rw [length_tally]; omega)]
  · rintro rfl
    constructor
    · exact length_tally _ _
    · intro k hk
      rw [length_tally] at hk
      rw [getElem?_tally hk, hcount]

theorem represents_zeros :
    Represents numTopics dsize (List.replicate (matrixSize numTopics dsize).toNat 0) [] :=
  represents_iff.mpr (tally_nil _).symm

/-- A position that is counted. -/
theorem countPosition_tally {items : List Int} {word topic : Int}
    (h : 0 ≤ linearIndex numTopics word topic ∧
      linearIndex numTopics word topic < matrixSize numTopics dsize) :
    countPosition procedure numTopics dsize (tally (matrixSize numTopics dsize).toNat items) word
        topic =
      .ok (tally (matrixSize numTopics dsize).toNat
        (items ++ [linearIndex numTopics word topic])) := by
  have hlt : (linearIndex numTopics word topic).toNat < (matrixSize numTopics dsize).toNat := by
    omega
  unfold countPosition
  rw [if_neg (by omega), getElem?_tally hlt]
  dsimp only
  rw [set_tally hlt (getElem?_tally hlt), Int.toNat_of_nonneg h.1]

theorem Represents.countPosition (h : Represents numTopics dsize count positions)
    (procedure : String) (hp : InBounds numTopics dsize p) :
    ∃ count', countPosition procedure numTopics dsize count p.1.toInt p.2.toInt = .ok count' ∧
      Represents numTopics dsize count' (positions ++ [p]) := by
  rw [represents_iff.mp h]
  refine ⟨_, countPosition_tally hp, represents_iff.mpr ?_⟩
  rw [List.map_append]
  rfl

theorem countPosition_error (h : ¬InBounds numTopics dsize p) :
    countPosition procedure numTopics dsize count p.1.toInt p.2.toInt =
      .error (invalidParameters procedure) := by
  unfold InBounds at h
  unfold countPosition
  rw [← indexOf, if_pos (by omega)]

/-- The loop over positions: they are counted, or one of them is out of bounds. -/
theorem Represents.countPositions {doc : List (Int32 × Int32)}
    (h : Represents numTopics dsize count positions) (procedure : String) :
    ((∀ p ∈ doc, InBounds numTopics dsize p) →
      ∃ count', doc.foldlM (fun count p =>
          Plda.countPosition procedure numTopics dsize count p.1.toInt p.2.toInt) count =
            .ok count' ∧ Represents numTopics dsize count' (positions ++ doc)) ∧
    ((∃ p ∈ doc, ¬InBounds numTopics dsize p) →
      doc.foldlM (fun count p =>
          Plda.countPosition procedure numTopics dsize count p.1.toInt p.2.toInt) count =
        .error (invalidParameters procedure)) := by
  induction doc generalizing count positions with
  | nil => exact ⟨fun _ => ⟨count, rfl, by rwa [List.append_nil]⟩, by simp⟩
  | cons p doc ih =>
      by_cases hp : InBounds numTopics dsize p
      · obtain ⟨count', hcount, hrep⟩ := h.countPosition procedure hp
        have hrest := ih hrep
        rw [List.append_assoc, List.singleton_append] at hrest
        rw [List.foldlM_cons, hcount, ok_bind]
        refine ⟨fun hall => hrest.1 fun q hq => hall q (List.mem_cons_of_mem p hq), ?_⟩
        rintro ⟨q, hq, hbad⟩
        rcases List.mem_cons.mp hq with rfl | hq
        · exact absurd hp hbad
        · exact hrest.2 ⟨q, hq, hbad⟩
      · rw [List.foldlM_cons, countPosition_error hp, error_bind]
        exact ⟨fun hall => absurd (hall p List.mem_cons_self) hp, fun _ => rfl⟩

/-! ## Documents -/

variable {doc : Document}

/-- The length of a backend array is an `int4`. -/
theorem toInt_length {n : ℕ} (h : 24 + 4 * n ≤ maxAllocSize) : (Int32.ofNat n).toInt = n := by
  unfold maxAllocSize at h
  exact Int32.toInt_ofNat_of_lt (by omega)

theorem uint32_length {n : ℕ} (h : 24 + 4 * n ≤ maxAllocSize) :
    uint32 (Int32.ofNat n).toInt = n := by
  rw [toInt_length h]
  unfold maxAllocSize at h
  exact uint32_of_mem (by omega)

theorem rounds_eq (doc : Document) (count : List Int) :
    (List.range doc.positions.length).foldlM
        (cwordRound procedure numTopics dsize doc.words doc.topics) count =
      doc.positions.foldlM (fun count p =>
        countPosition procedure numTopics dsize count p.1.toInt p.2.toInt) count := by
  have hprefix : ∀ m ≤ doc.positions.length,
      (List.range m).foldlM (cwordRound procedure numTopics dsize doc.words doc.topics) count =
        (doc.positions.take m).foldlM (fun count p =>
          countPosition procedure numTopics dsize count p.1.toInt p.2.toInt) count := by
    intro m hm
    induction m with
    | zero => rfl
    | succ m ih =>
        have hround : ∀ c, cwordRound procedure numTopics dsize doc.words doc.topics c m =
            countPosition procedure numTopics dsize c doc.positions[m].1.toInt
              doc.positions[m].2.toInt := by
          intro c
          simp [cwordRound, Document.words, Document.topics, int4ArrayOf,
            List.getElem?_eq_getElem (show m < doc.positions.length by omega)]
        rw [List.range_succ, List.foldlM_append, ih (by omega),
          List.take_succ_eq_append_getElem (by omega), List.foldlM_append]
        simp only [List.foldlM_cons, List.foldlM_nil, hround]
  have hall := hprefix doc.positions.length (le_refl _)
  rwa [List.take_length] at hall

/-- The zeroed array fits into an allocation. -/
def Fits (numTopics dsize : Int32) : Prop := 8 * matrixSize numTopics dsize ≤ maxAllocSize

instance : Decidable (Fits numTopics dsize) := inferInstanceAs (Decidable (_ ≤ _))

/-- The documents up to here have been counted. -/
inductive Counted (numTopics dsize : Int32) :
    Option Int4Array → List (Int32 × Int32) → Prop where
  | start : Counted numTopics dsize none []
  | counts {count : List Int} {positions : List (Int32 × Int32)}
      (h : Represents numTopics dsize count positions) :
      Counted numTopics dsize (some ⟨1, count⟩) positions

/-- A document that is counted. -/
def Accepted (numTopics dsize : Int32) (doc : Document) : Prop :=
  doc.positions ≠ [] ∧ ∀ p ∈ doc.positions, InBounds numTopics dsize p

variable {state : Option Int4Array}

theorem constructZeros_ok {n : Int} (hpos : 0 < n) (hfits : 8 * n ≤ maxAllocSize) :
    constructZeros n = .ok ⟨1, List.replicate n.toNat 0⟩ := by
  have hsize : sizeT (n * 8) ≤ maxAllocSize := by
    unfold sizeT maxAllocSize at *
    omega
  have hne : List.replicate n.toNat (0 : Int) ≠ [] := by
    rw [ne_eq, List.replicate_eq_nil_iff]
    omega
  rw [constructZeros, palloc_ok hsize, ok_bind, int4ArrayOf, if_neg hne]
  rfl

theorem Counted.countArray (h : Counted numTopics dsize state positions)
    (hpos : 0 < matrixSize numTopics dsize) (hfits : Fits numTopics dsize) :
    ∃ count, countArray numTopics dsize state = .ok ⟨1, count⟩ ∧
      Represents numTopics dsize count positions := by
  cases h with
  | start => exact ⟨_, constructZeros_ok hpos hfits, represents_zeros⟩
  | counts h => exact ⟨_, rfl, h⟩

theorem ndim_words (h : doc.positions ≠ []) : doc.words.ndim = 1 ∧ doc.topics.ndim = 1 := by
  simp [Document.words, Document.topics, int4ArrayOf, h]

theorem Counted.cwordCount (h : Counted numTopics dsize state positions) (procedure : String)
    (hpos : 0 < matrixSize numTopics dsize) (hfits : Fits numTopics dsize)
    (hdoc : Accepted numTopics dsize doc) :
    ∃ count, cwordCount procedure numTopics dsize true state doc.words doc.topics
        (Int32.ofNat doc.positions.length) = .ok ⟨1, count⟩ ∧
      Represents numTopics dsize count (positions ++ doc.positions) := by
  obtain ⟨count, hstart, hrep⟩ := h.countArray hpos hfits
  obtain ⟨count', hcount, hrep'⟩ := (hrep.countPositions procedure).1 hdoc.2
  have hndim := ndim_words hdoc.1
  refine ⟨count', ?_, hrep'⟩
  unfold Plda.cwordCount
  rw [if_neg (by decide), hstart, ok_bind, if_neg (by simp [hndim]), uint32_length doc.size_le]
  simp only [rounds_eq, hcount, ok_bind, pure_eq_ok]

theorem Counted.cwordCount_error (h : Counted numTopics dsize state positions)
    (procedure : String) (hpos : 0 < matrixSize numTopics dsize) (hfits : Fits numTopics dsize)
    (hdoc : ¬Accepted numTopics dsize doc) :
    ∃ e, Plda.cwordCount procedure numTopics dsize true state doc.words doc.topics
        (Int32.ofNat doc.positions.length) = .error e ∧ e.isRaised = true := by
  obtain ⟨count, hstart, hrep⟩ := h.countArray hpos hfits
  unfold Plda.cwordCount
  rw [if_neg (by decide), hstart, ok_bind]
  by_cases hempty : doc.positions = []
  · have hndim : doc.words.ndim ≠ 1 := by simp [Document.words, int4ArrayOf, hempty]
    rw [if_pos (.inr (.inl hndim))]
    exact ⟨_, rfl, rfl⟩
  · have hndim := ndim_words hempty
    have hout : ∃ p ∈ doc.positions, ¬InBounds numTopics dsize p := by
      by_contra hall
      push Not at hall
      exact hdoc ⟨hempty, hall⟩
    have herror := (hrep.countPositions procedure).2 hout
    rw [if_neg (by simp [hndim]), uint32_length doc.size_le]
    simp only [rounds_eq, herror, error_bind]
    exact ⟨_, rfl, rfl⟩

/-- The aggregate counts all documents, or one of them is not accepted. -/
theorem Counted.run (h : Counted numTopics dsize state positions) (procedure : String)
    (docs : List Document) (hpos : 0 < matrixSize numTopics dsize) (hfits : Fits numTopics dsize) :
    ((∀ doc ∈ docs, Accepted numTopics dsize doc) → ∃ state',
      docs.foldlM (cwordStep procedure numTopics dsize) state = .ok state' ∧
        Counted numTopics dsize state' (positions ++ allPositions docs)) ∧
    ((∃ doc ∈ docs, ¬Accepted numTopics dsize doc) → ∃ e,
      docs.foldlM (cwordStep procedure numTopics dsize) state = .error e ∧ e.isRaised = true) := by
  induction docs generalizing state positions with
  | nil => exact ⟨fun _ => ⟨state, rfl, by simpa [allPositions] using h⟩, by simp⟩
  | cons doc docs ih =>
      by_cases hdoc : Accepted numTopics dsize doc
      · obtain ⟨count, hcount, hrep⟩ := h.cwordCount procedure hpos hfits hdoc
        have hstep : cwordStep procedure numTopics dsize state doc = .ok (some ⟨1, count⟩) := by
          rw [cwordStep, hcount, ok_bind, pure_eq_ok]
        have hrest := ih (.counts hrep)
        rw [List.append_assoc] at hrest
        rw [List.foldlM_cons, hstep, ok_bind]
        refine ⟨fun hall => hrest.1 fun d hd => hall d (List.mem_cons_of_mem doc hd), ?_⟩
        rintro ⟨d, hd, hbad⟩
        rcases List.mem_cons.mp hd with rfl | hd
        · exact absurd hdoc hbad
        · exact hrest.2 ⟨d, hd, hbad⟩
      · obtain ⟨e, herror, hraised⟩ := h.cwordCount_error procedure hpos hfits hdoc
        rw [List.foldlM_cons, cwordStep, herror]
        exact ⟨fun hall => absurd (hall doc List.mem_cons_self) hdoc, fun _ => ⟨e, rfl, hraised⟩⟩

/-- An array that does not fit is refused with the first document. -/
theorem cwordAgg_not_fits {docs : List Document} (procedure : String)
    (hpos : 0 < matrixSize numTopics dsize) (hfits : ¬Fits numTopics dsize) (hdocs : docs ≠ []) :
    ∃ e, cwordAgg procedure numTopics dsize docs = .error e ∧ e.isRaised = true := by
  obtain ⟨doc, rest, rfl⟩ := List.exists_cons_of_ne_nil hdocs
  have hsize : maxAllocSize < sizeT (matrixSize numTopics dsize * 8) := by
    have hhi := (toInt32_mem (dsize.toInt * numTopics.toInt)).2
    unfold Fits matrixSize at *
    unfold sizeT
    rw [Int.emod_eq_of_lt (by omega) (by omega)]
    omega
  have harray : countArray numTopics dsize none =
      .error (.elog "invalid memory alloc request size") := by
    rw [countArray, constructZeros, palloc_error hsize, error_bind]
  rw [cwordAgg, List.foldlM_cons, cwordStep, cwordCount, if_neg (by decide), harray]
  exact ⟨_, rfl, rfl⟩

/-! ## Words and topics -/

/-- The word is one of the dictionary and the topic one of the topics. -/
def InRange (numTopics dsize : Int32) (p : Int32 × Int32) : Prop :=
  (1 ≤ p.1.toInt ∧ p.1.toInt ≤ dsize.toInt) ∧ 1 ≤ p.2.toInt ∧ p.2.toInt ≤ numTopics.toInt

instance (p : Int32 × Int32) : Decidable (InRange numTopics dsize p) :=
  inferInstanceAs (Decidable ((_ ∧ _) ∧ _ ∧ _))

/-- At how many positions the word has the topic. -/
def occurrences (docs : List Document) (word topic : Int) : Nat :=
  (allPositions docs).countP fun p => p.1.toInt = word ∧ p.2.toInt = topic

/-- The sizes of a matrix. -/
structure Sizes (numTopics dsize : Int32) : Prop where
  numTopics_pos : 1 ≤ numTopics.toInt
  dsize_pos : 1 ≤ dsize.toInt
  product_lt : dsize.toInt * numTopics.toInt < 2147483648

theorem Sizes.matrixSize_eq (h : Sizes numTopics dsize) :
    matrixSize numTopics dsize = dsize.toInt * numTopics.toInt := by
  have hdsize := h.dsize_pos
  have htopics := h.numTopics_pos
  have hnonneg := mul_nonneg (show 0 ≤ dsize.toInt by omega) (show 0 ≤ numTopics.toInt by omega)
  exact toInt32_of_mem (by omega) h.product_lt

theorem Sizes.matrixSize_pos (h : Sizes numTopics dsize) : 0 < matrixSize numTopics dsize := by
  rw [h.matrixSize_eq]
  exact mul_pos (by have := h.dsize_pos; omega) (by have := h.numTopics_pos; omega)

/-- In their ranges a word and a topic have an index of their own. -/
theorem Sizes.cell_bounds (h : Sizes numTopics dsize) {word topic : Int}
    (hword : 1 ≤ word ∧ word ≤ dsize.toInt) (htopic : 1 ≤ topic ∧ topic ≤ numTopics.toInt) :
    0 ≤ (word - 1) * numTopics.toInt + (topic - 1) ∧
      (word - 1) * numTopics.toInt + (topic - 1) < dsize.toInt * numTopics.toInt := by
  have htopics := h.numTopics_pos
  have hlo := mul_nonneg (show 0 ≤ word - 1 by omega) (show 0 ≤ numTopics.toInt by omega)
  have hhi := mul_le_mul_of_nonneg_right (show word - 1 ≤ dsize.toInt - 1 by omega)
    (show 0 ≤ numTopics.toInt by omega)
  rw [sub_one_mul dsize.toInt] at hhi
  omega

theorem Sizes.indexOf_eq (h : Sizes numTopics dsize) (hp : InRange numTopics dsize p) :
    indexOf numTopics p = (p.1.toInt - 1) * numTopics.toInt + (p.2.toInt - 1) := by
  have hcell := h.cell_bounds hp.1 hp.2
  have hlt := h.product_lt
  exact toInt32_of_mem (by omega) (by omega)

theorem Sizes.inBounds (h : Sizes numTopics dsize) (hp : InRange numTopics dsize p) :
    InBounds numTopics dsize p := by
  have hcell := h.cell_bounds hp.1 hp.2
  unfold InBounds
  rwa [h.indexOf_eq hp, h.matrixSize_eq]

/-- No two cells share an index. -/
theorem cell_injective {n w t w' t' : Int} (ht : 1 ≤ t ∧ t ≤ n) (ht' : 1 ≤ t' ∧ t' ≤ n)
    (h : (w - 1) * n + (t - 1) = (w' - 1) * n + (t' - 1)) : w = w' ∧ t = t' := by
  have hn : 0 < n := by omega
  have hdiv : ∀ {w t : Int}, 1 ≤ t ∧ t ≤ n → ((w - 1) * n + (t - 1)) / n = w - 1 := by
    intro w t ht
    rw [Int.add_comm, Int.add_mul_ediv_right _ _ hn.ne',
      Int.ediv_eq_zero_of_lt (by omega) (by omega), zero_add]
  have hword : w - 1 = w' - 1 := by rw [← hdiv ht, h, hdiv ht']
  rw [hword] at h
  omega

theorem Sizes.countP_index (h : Sizes numTopics dsize) {docs : List Document}
    (hrange : ∀ p ∈ allPositions docs, InRange numTopics dsize p) (word : Int) {topic : Int}
    (htopic : 1 ≤ topic ∧ topic ≤ numTopics.toInt) :
    (allPositions docs).countP (fun p =>
        indexOf numTopics p = (word - 1) * numTopics.toInt + (topic - 1)) =
      occurrences docs word topic := by
  apply List.countP_congr
  intro p hp
  have hindex := h.indexOf_eq (hrange p hp)
  simp only [hindex, decide_eq_true_eq]
  constructor
  · exact fun heq => cell_injective (hrange p hp).2 htopic heq
  · rintro ⟨hword, htopic⟩
    rw [hword, htopic]

/-- The counts are exact, or an error is raised because something is out of its range. -/
def ExactOrRefused (procedure : String) (numTopics dsize : Int32) (docs : List Document) : Prop :=
  (∀ p ∈ allPositions docs, InRange numTopics dsize p) ∧
    (∃ state, cwordAgg procedure numTopics dsize docs = .ok state ∧
      ∀ countArr ∈ state, ∀ word topic : Int, 1 ≤ word ∧ word ≤ dsize.toInt →
        1 ≤ topic ∧ topic ≤ numTopics.toInt →
          countArr.data[((word - 1) * numTopics.toInt + (topic - 1)).toNat]? =
            some (occurrences docs word topic : Int)) ∨
  (∃ p ∈ allPositions docs, ¬InRange numTopics dsize p) ∧
    ∃ e, cwordAgg procedure numTopics dsize docs = .error e ∧ e.isRaised = true

/-- Every index is in range and nothing else is refused or too large, or what is out of range
comes with something that is refused. -/
def Meets (numTopics dsize : Int32) (docs : List Document) : Prop :=
  (∀ p ∈ allPositions docs, InRange numTopics dsize p) ∧ (docs = [] ∨ Fits numTopics dsize) ∧
    (∀ doc ∈ docs, doc.positions ≠ []) ∧
    (∀ word topic, occurrences docs word topic < 2147483648) ∨
  (∃ p ∈ allPositions docs, ¬InRange numTopics dsize p) ∧
    (¬Fits numTopics dsize ∨ (∃ doc ∈ docs, doc.positions = []) ∨
      ∃ p ∈ allPositions docs, ¬InBounds numTopics dsize p)

theorem mem_allPositions {docs : List Document} (hdoc : doc ∈ docs) (hp : p ∈ doc.positions) :
    p ∈ allPositions docs := List.mem_flatMap.mpr ⟨doc, hdoc, hp⟩

theorem accepted_iff {docs : List Document} :
    (∀ doc ∈ docs, Accepted numTopics dsize doc) ↔
      (∀ doc ∈ docs, doc.positions ≠ []) ∧
        ∀ p ∈ allPositions docs, InBounds numTopics dsize p := by
  constructor
  · intro h
    refine ⟨fun doc hdoc => (h doc hdoc).1, fun p hp => ?_⟩
    obtain ⟨doc, hdoc, hp⟩ := List.mem_flatMap.mp hp
    exact (h doc hdoc).2 p hp
  · rintro ⟨hne, hbounds⟩ doc hdoc
    exact ⟨hne doc hdoc, fun p hp => hbounds p (mem_allPositions hdoc hp)⟩

/-- What is returned for documents in range. -/
theorem Counted.entry (hsizes : Sizes numTopics dsize) {docs : List Document}
    (hrange : ∀ p ∈ allPositions docs, InRange numTopics dsize p)
    (h : Counted numTopics dsize state (allPositions docs)) {countArr : Int4Array}
    (hstate : countArr ∈ state) {word topic : Int} (hword : 1 ≤ word ∧ word ≤ dsize.toInt)
    (htopic : 1 ≤ topic ∧ topic ≤ numTopics.toInt) :
    countArr.data[((word - 1) * numTopics.toInt + (topic - 1)).toNat]? =
      some (toInt32 (occurrences docs word topic)) := by
  generalize hall : allPositions docs = positions at h
  cases h with
  | start => cases hstate
  | counts h =>
      cases hstate
      subst hall
      have hcell := hsizes.cell_bounds hword htopic
      have hlength := h.length_eq
      rw [hsizes.matrixSize_eq] at hlength
      have hcount := hsizes.countP_index hrange word htopic
      rw [h.count_eq _ (by omega), ← hcount, Int.toNat_of_nonneg hcell.1]

theorem Counted.ne_none {docs : List Document} (hdocs : ∀ doc ∈ docs, doc.positions ≠ [])
    (hne : docs ≠ []) (h : Counted numTopics dsize state (allPositions docs)) :
    ∃ countArr, countArr ∈ state := by
  generalize hall : allPositions docs = positions at h
  cases h with
  | start =>
      obtain ⟨doc, rest, rfl⟩ := List.exists_cons_of_ne_nil hne
      exact absurd (List.flatMap_eq_nil_iff.mp hall doc List.mem_cons_self)
        (hdocs doc List.mem_cons_self)
  | counts h => exact ⟨_, rfl⟩

theorem occurrences_eq_zero {docs : List Document}
    (hrange : ∀ p ∈ allPositions docs, InRange numTopics dsize p) {word topic : Int}
    (h : ¬((1 ≤ word ∧ word ≤ dsize.toInt) ∧ 1 ≤ topic ∧ topic ≤ numTopics.toInt)) :
    occurrences docs word topic = 0 := by
  rw [occurrences, List.countP_eq_zero]
  intro p hp
  have hp' := hrange p hp
  simp only [decide_eq_true_eq]
  rintro ⟨rfl, rfl⟩
  exact h hp'

/-- Exact counts, or an error for what is out of range, come under this condition only. -/
theorem exactOrRefused_iff_meets (procedure : String) (hsizes : Sizes numTopics dsize)
    (docs : List Document) :
    ExactOrRefused procedure numTopics dsize docs ↔ Meets numTopics dsize docs := by
  have hpos := hsizes.matrixSize_pos
  have hrun := fun hfits : Fits numTopics dsize =>
    Counted.start.run procedure docs hpos hfits
  rw [List.nil_append] at hrun
  constructor
  · rintro (⟨hrange, state, hok, hentries⟩ | ⟨hout, e, herror, -⟩)
    · have hfits : docs = [] ∨ Fits numTopics dsize := by
        by_contra hnot
        push Not at hnot
        obtain ⟨e, herror, -⟩ := cwordAgg_not_fits procedure hpos hnot.2 hnot.1
        cases hok.symm.trans herror
      have haccepted : ∀ doc ∈ docs, Accepted numTopics dsize doc := by
        rcases hfits with rfl | hfits
        · simp
        · by_contra hnot
          push Not at hnot
          obtain ⟨e, herror, -⟩ := (hrun hfits).2 hnot
          cases hok.symm.trans herror
      have hne := (accepted_iff.mp haccepted).1
      refine .inl ⟨hrange, hfits, hne, fun word topic => ?_⟩
      by_cases hcell : (1 ≤ word ∧ word ≤ dsize.toInt) ∧ 1 ≤ topic ∧ topic ≤ numTopics.toInt
      · rcases hfits with rfl | hfits
        · simp [occurrences, allPositions]
        · by_cases hdocs : docs = []
          · simp [occurrences, allPositions, hdocs]
          · obtain ⟨state', hok', hcounted⟩ := (hrun hfits).1 haccepted
            cases hok.symm.trans hok'
            obtain ⟨countArr, hstate⟩ := hcounted.ne_none hne hdocs
            have hentry := hcounted.entry hsizes hrange hstate hcell.1 hcell.2
            rw [hentries countArr hstate word topic hcell.1 hcell.2, Option.some_inj] at hentry
            have hself := (toInt32_eq_self_iff.mp hentry.symm).2
            omega
      · rw [occurrences_eq_zero hrange hcell]
        decide
    · refine .inr ⟨hout, ?_⟩
      by_contra hnot
      push Not at hnot
      obtain ⟨hfits, hne, hbounds⟩ := hnot
      obtain ⟨state, hok, -⟩ := (hrun hfits).1 (accepted_iff.mpr ⟨hne, hbounds⟩)
      cases herror.symm.trans hok
  · rintro (⟨hrange, hfits, hne, hless⟩ | ⟨hout, hbad⟩)
    · refine .inl ⟨hrange, ?_⟩
      rcases hfits with rfl | hfits
      · exact ⟨none, rfl, by simp⟩
      · have hbounds := fun p hp => hsizes.inBounds (hrange p hp)
        obtain ⟨state, hok, hcounted⟩ := (hrun hfits).1 (accepted_iff.mpr ⟨hne, hbounds⟩)
        refine ⟨state, hok, fun countArr hstate word topic hword htopic => ?_⟩
        have hlt := hless word topic
        rw [hcounted.entry hsizes hrange hstate hword htopic, toInt32_of_mem (by omega) (by omega)]
    · refine .inr ⟨hout, ?_⟩
      by_cases hfits : Fits numTopics dsize
      · have hnot : ¬∀ doc ∈ docs, Accepted numTopics dsize doc := by
          rw [accepted_iff]
          rintro ⟨hne, hbounds⟩
          rcases hbad with hbad | ⟨doc, hdoc, hempty⟩ | ⟨p, hp, hbad⟩
          · exact hbad hfits
          · exact hne doc hdoc hempty
          · exact hbad (hbounds p hp)
        push Not at hnot
        exact (hrun hfits).2 hnot
      · obtain ⟨p, hp, -⟩ := hout
        exact cwordAgg_not_fits procedure hpos hfits (by rintro rfl; cases hp)

/-- Two words and two topics. -/
theorem sizes_two : Sizes 2 2 := ⟨by decide, by decide, by decide⟩

theorem fits_two : Fits 2 2 := by
  have hsize : matrixSize 2 2 = 4 := sizes_two.matrixSize_eq
  unfold Fits maxAllocSize
  rw [hsize]
  decide

/-- A dictionary of two words, two topics, and one document. -/
theorem exactOrRefused_iff_meets_two :
    ExactOrRefused "plda_cword_count" 2 2 [⟨[(1, 2), (2, 1), (1, 2)], by decide⟩] := by
  refine (exactOrRefused_iff_meets _ ⟨by decide, by decide, by decide⟩ _).mpr (.inl ?_)
  refine ⟨?_, .inr fits_two, by simp, fun word topic => ?_⟩
  · intro p hp
    simp only [allPositions, List.flatMap_singleton, List.mem_cons, List.not_mem_nil, or_false]
      at hp
    rcases hp with rfl | rfl | rfl <;> decide
  · have hle : occurrences [⟨[(1, 2), (2, 1), (1, 2)], by decide⟩] word topic ≤ 3 :=
      List.countP_le_length
    omega

/-- With two topics, the topic 3 of the word 1 is counted as the topic 1 of the word 2. -/
theorem cwordAgg_other_row :
    ¬∀ (procedure : String) (numTopics dsize : Int32) (docs : List Document),
      Sizes numTopics dsize → ExactOrRefused procedure numTopics dsize docs := by
  intro h
  rcases h "plda_cword_count" 2 2 [⟨[(1, 3)], by decide⟩] sizes_two with
    ⟨hrange, -⟩ | ⟨-, e, herror, -⟩
  · exact absurd (hrange (1, 3) (List.mem_singleton.mpr rfl)) (by decide)
  · have haccepted : ∀ doc ∈ [Document.mk [(1, 3)] (by decide)], Accepted 2 2 doc := by
      rw [accepted_iff]
      refine ⟨by simp, fun p hp => ?_⟩
      obtain rfl : p = (1, 3) := List.mem_singleton.mp hp
      unfold InBounds
      rw [sizes_two.matrixSize_eq]
      decide
    obtain ⟨state, hok, -⟩ :=
      (Counted.start.run "plda_cword_count" _ sizes_two.matrixSize_pos fits_two).1 haccepted
    cases herror.symm.trans hok

end Madlib.Plda
