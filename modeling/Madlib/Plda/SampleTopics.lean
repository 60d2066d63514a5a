import Madlib.Lib.CallLog
import Madlib.Lib.Loop
import Madlib.Lib.Tally
import Madlib.Plda.WordTopicCount

/-!
# Sampling topics

`sampleTopic` draws a topic for one word from counts that are to include the word itself with the
topic it has so far, and leaves it out before it weighs the topics.  `sampleNewTopics` makes one
such call for each word of a document and counts the topics it assigns, as `randomTopics` does.
-/

namespace Madlib.Plda

open Madlib.Backend Madlib.Lib Madlib.Lib.Call Madlib.Lib.MachineInt Madlib.Lib.Tally

/-! ## One word -/

/-- The arguments of `sampleTopic`. -/
structure SampleCall (α : Type) where
  numtopics : Int32
  widx : Int
  wtopic : Int
  globalCount : List Int
  localD : List Int
  topicCounts : List Int
  alpha : α
  eta : α

section SampleTopic

variable {α : Type} [Field α] [LinearOrder α]

/-- `cl_prob` in the round `j` of the first loop. -/
def clProb (call : SampleCall α) (j : ℕ) : Except Fault α := do
  let widx := toInt32 (call.widx - 1)
  let wtopic := toInt32 (call.wtopic - 1)
  let glcount ← readAt call.globalCount (toInt32 (widx * call.numtopics.toInt + j))
  let locald ← readAt call.localD j
  -- the counts without the current word's contribution
  let glcount := if (j : Int) = wtopic then toInt32 (glcount - 1) else glcount
  let locald := if (j : Int) = wtopic then toInt32 (locald - 1) else locald
  let topicCount ← readAt call.topicCounts j
  pure ((locald + call.alpha) * (glcount + call.eta) /
    (topicCount + call.numtopics.toInt * call.eta))

/-- `r < p / total`; a quotient by zero is an infinity or not a number. -/
def BelowQuotient (r p total : α) : Prop := if total = 0 then 0 < p else r < p / total

instance (r p total : α) : Decidable (BelowQuotient r p total) :=
  inferInstanceAs (Decidable (ite _ _ _))

/-- The `while` loop, from the topic `ret` on. -/
def drawTopic (numtopics : Int) (r total : α) : Int → List α → Except Fault Int
  | ret, [] => if ret = numtopics then .ok ret else .error .outOfBounds
  | ret, p :: topicPrs =>
      if ret = numtopics ∨ BelowQuotient r p total then .ok ret
      else drawTopic numtopics r total (ret + 1) topicPrs

/-- `sampleTopic`, where `drand48` returns `r` -/
def sampleTopic (call : SampleCall α) (r : α) : Except Fault Int := do
  palloc (sizeT (8 * call.numtopics.toInt))
  let prs ← (List.range call.numtopics.toInt.toNat).foldlM (fun (prs : α × List α) j => do
    let total := prs.1 + (← clProb call j)
    pure (total, prs.2 ++ [total])) (0, [])
  let ret ← drawTopic call.numtopics.toInt r prs.1 1 prs.2
  if ret < 1 ∨ call.numtopics.toInt < ret then
    .error (.elog ("sampleTopic: ret = " ++ toString ret))
  else
    pure ret

end SampleTopic

/-! ## One document -/

/-- `plda_topics_t` -/
structure TopicsT where
  topics : Int4Array
  topicD : Int4Array

/-- `counts[i]++` -/
def incrementAt (counts : List Int) (i : Int) : Except Fault (List Int) := do
  let n ← readAt counts i
  writeAt counts i (toInt32 (n + 1))

/-- `ret_topics[i] = rtopic` and `ret_topic_d[rtopic-1]++` -/
def assignTopic (ret : List Int × List Int) (i : ℕ) (rtopic : Int) :
    Except Fault (List Int × List Int) := do
  let retTopics ← writeAt ret.1 i rtopic
  let retTopicD ← incrementAt ret.2 (rtopic - 1)
  pure (retTopics, retTopicD)

/-- `randomTopics`, where `random` returns these numbers -/
def randomTopics (doclen numTopics : Int32) (random : ℕ → ℕ) : Except Fault TopicsT := do
  let retTopicsArr ← constructZeros doclen.toInt
  let retTopicDArr ← constructZeros numTopics.toInt
  let ret ← (List.finRange doclen.toInt.toNat).foldlM (fun ret (i : Fin _) =>
    if numTopics.toInt = 0 then .error (.elog "floating-point exception")
    else assignTopic ret i (Int.tmod (random i) numTopics.toInt + 1))
    (retTopicsArr.data, retTopicDArr.data)
  pure ⟨{ retTopicsArr with data := ret.1 }, { retTopicDArr with data := ret.2 }⟩

/-- `check_array_sampleNewTopics`, for an array of integers without NULLs -/
def checkArraySampleNewTopics (procedure : String) (pArray : Int4Array) (arrayName : String) :
    Except Fault Unit :=
  if pArray.ndim ≠ 1 then
    .error (.ereport .invalidParameterValue ("In function \"" ++ procedure ++
      "\", the dimension of " ++ arrayName ++ " should be 1"))
  else .ok ()

section SampleNewTopics

variable {α : Type} [Field α] [LinearOrder α] (procedure : String)
  (docArr topicsArr topicDArr globalCountArr topicCountsArr : Int4Array)
  (numTopics dsize : Int32) (alpha eta : α) (drand48 : ℕ → α)

/-- The round `i` of the loop, which records its call of `sampleTopic`. -/
def sampleRound (ret : List Int × List Int) (i : ℕ) :
    Call (List (SampleCall α)) Fault (List Int × List Int) := do
  let widx ← lift (readAt docArr.data i)
  if widx < 1 ∨ dsize.toInt < widx then fail (invalidParameters procedure)
  else
    let wtopic ← lift (readAt topicsArr.data i)
    let call := ⟨numTopics, widx, wtopic, globalCountArr.data, topicDArr.data,
      topicCountsArr.data, alpha, eta⟩
    record call
    let rtopic ← lift (sampleTopic call (drand48 i))
    lift (assignTopic ret i rtopic)

/-- `sampleNewTopics` -/
def sampleNewTopics : Call (List (SampleCall α)) Fault TopicsT := do
  lift (checkArraySampleNewTopics procedure docArr "document array")
  lift (checkArraySampleNewTopics procedure topicsArr "topic array")
  lift (checkArraySampleNewTopics procedure topicDArr "topic distribution array")
  lift (checkArraySampleNewTopics procedure globalCountArr "global count array")
  lift (checkArraySampleNewTopics procedure topicCountsArr "topic count array")
  let retTopicsArr ← lift (constructZeros docArr.data.length)
  let retTopicDArr ← lift (constructZeros numTopics.toInt)
  let ret ← (List.range docArr.data.length).foldlM
    (sampleRound procedure docArr topicsArr topicDArr globalCountArr topicCountsArr numTopics dsize
      alpha eta drand48) (retTopicsArr.data, retTopicDArr.data)
  pure ⟨{ retTopicsArr with data := ret.1 }, { retTopicDArr with data := ret.2 }⟩

end SampleNewTopics

/-! ## Sums -/

/-- `sum_int4array` -/
def sumInt4array (procedure : String) (state arg : Option Int4Array) : Except Fault Int4Array :=
  match arg with
  | none => .error (.ereport .invalidParameterValue
      ("function \"" ++ procedure ++ "\" called with NULL second argument"))
  | some arr1 =>
      if arr1.ndim ≠ 1 then .error (invalidParameters procedure)
      else
        match state with
        | none => .ok arr1
        | some arr0 =>
            if arr0.ndim ≠ 1 ∨ arr1.data.length ≠ arr0.data.length then
              .error (invalidParameters procedure)
            else do
              let ret ← constructZeros arr1.data.length
              pure { ret with
                data := List.zipWith (fun x y => toInt32 (x + y)) arr0.data arr1.data }

/-- `plda_sum_int4array_agg` -/
def sumInt4arrayAgg (procedure : String) (args : List (Option Int4Array)) :
    Except Fault (Option Int4Array) :=
  args.foldlM (fun state arg => (sumInt4array procedure state arg).map some) none

/-! ## What is assigned -/

/-- Topics for a document of so many words, and how often each of them occurs. -/
structure IsTopics (numTopics : Int32) (len : ℕ) (t : TopicsT) : Prop where
  length_eq : t.topics.data.length = len
  range : ∀ topic ∈ t.topics.data, 1 ≤ topic ∧ topic ≤ numTopics.toInt
  counts : t.topicD.data = tally numTopics.toInt.toNat (t.topics.data.map fun topic => topic - 1)

/-- The first `i` words have been assigned a topic. -/
structure Assigned (numTopics : Int32) (len i : ℕ) (ret : List Int × List Int) : Prop where
  topics : ∃ done : List Int, done.length = i ∧ ret.1 = done ++ List.replicate (len - i) 0 ∧
    (∀ topic ∈ done, 1 ≤ topic ∧ topic ≤ numTopics.toInt) ∧
    ret.2 = tally numTopics.toInt.toNat (done.map fun topic => topic - 1)

variable {numTopics : Int32} {len : ℕ}

theorem data_of_constructZeros {n : Int} {arr : Int4Array} (h : constructZeros n = .ok arr) :
    arr.data = List.replicate n.toNat 0 := by
  unfold constructZeros at h
  obtain ⟨_, -, h⟩ := bind_eq_ok.mp h
  cases h
  rfl

theorem assigned_zero (numTopics : Int32) (len : ℕ) :
    Assigned numTopics len 0 (List.replicate len 0, List.replicate numTopics.toInt.toNat 0) :=
  ⟨[], rfl, rfl, by simp, (tally_nil _).symm⟩

theorem Assigned.isTopics {ret : List Int × List Int} (h : Assigned numTopics len len ret)
    {topicsArr topicDArr : Int4Array} (htopics : topicsArr.data = ret.1)
    (hcounts : topicDArr.data = ret.2) : IsTopics numTopics len ⟨topicsArr, topicDArr⟩ := by
  obtain ⟨done, hlength, hdone, hrange, htally⟩ := h.topics
  rw [Nat.sub_self, List.replicate_zero, List.append_nil] at hdone
  have heq : topicsArr.data = done := htopics.trans hdone
  constructor
  · dsimp only
    rw [heq, hlength]
  · dsimp only
    rwa [heq]
  · dsimp only
    rw [heq, hcounts, htally]

theorem incrementAt_tally {n : ℕ} {items counts : List Int} {i : Int} (hi : 0 ≤ i) (hn : i < n)
    (h : incrementAt (tally n items) i = .ok counts) : counts = tally n (items ++ [i]) := by
  obtain ⟨k, rfl⟩ := Int.eq_ofNat_of_zero_le hi
  have hk : k < n := by omega
  have hlt : k < (tally n items).length := by simpa using hk
  unfold incrementAt at h
  rw [readAt_natCast hlt, ok_bind, writeAt_natCast hlt] at h
  rw [← Except.ok.inj h]
  exact set_tally hk (List.getElem?_eq_getElem hlt)

/-- One more word. -/
theorem Assigned.assignTopic {i : ℕ} {ret ret' : List Int × List Int} {rtopic : Int}
    (h : Assigned numTopics len i ret) (hi : i < len)
    (htopic : 1 ≤ rtopic ∧ rtopic ≤ numTopics.toInt)
    (hrun : assignTopic ret i rtopic = .ok ret') : Assigned numTopics len (i + 1) ret' := by
  obtain ⟨done, hlength, hdone, hrange, htally⟩ := h.topics
  have hrest : List.replicate (len - i) (0 : Int) = 0 :: List.replicate (len - (i + 1)) 0 := by
    rw [← List.replicate_succ]
    congr 1
    omega
  unfold Plda.assignTopic at hrun
  rw [hdone, hrest, writeAt_append (by rw [hlength]), ok_bind] at hrun
  obtain ⟨counts, hcounts, hret⟩ := bind_eq_ok.mp hrun
  cases hret
  rw [htally] at hcounts
  refine ⟨done ++ [rtopic], by simp [hlength], by simp, ?_, ?_⟩
  · intro topic hmem
    rcases List.mem_append.mp hmem with hold | hnew
    · exact hrange topic hold
    · rw [List.mem_singleton.mp hnew]
      exact htopic
  · rw [List.map_append]
    exact incrementAt_tally (i := rtopic - 1) (by omega) (by omega) hcounts

/-- Random topics are topics. -/
theorem isTopics_of_randomTopics {doclen : Int32} {random : ℕ → ℕ} {t : TopicsT}
    (hpos : 1 ≤ numTopics.toInt) (h : randomTopics doclen numTopics random = .ok t) :
    IsTopics numTopics doclen.toInt.toNat t := by
  unfold randomTopics at h
  obtain ⟨topicsArr, htopics, h⟩ := bind_eq_ok.mp h
  obtain ⟨topicDArr, hcounts, h⟩ := bind_eq_ok.mp h
  obtain ⟨ret, hloop, h⟩ := bind_eq_ok.mp h
  cases h
  rw [data_of_constructZeros htopics, data_of_constructZeros hcounts] at hloop
  have hall := Loop.foldlM_finRange (Assigned numTopics doclen.toInt.toNat) hloop
    (assigned_zero _ _) fun i s s' hs hround => by
      rw [if_neg (by omega)] at hround
      have hlo := Int.tmod_nonneg numTopics.toInt (Int.natCast_nonneg (random i))
      have hhi := Int.tmod_lt_of_pos (random i) (by omega : 0 < numTopics.toInt)
      exact hs.assignTopic i.isLt (by omega) hround
  exact hall.isTopics rfl rfl

section Sampling

variable {α : Type} [Field α] [LinearOrder α]

omit [LinearOrder α] in
/-- The weight of a topic, from the counts that are read. -/
theorem clProb_ok {call : SampleCall α} {j : ℕ} {glcount locald topicCount : Int}
    (hglobal : readAt call.globalCount
      (toInt32 (toInt32 (call.widx - 1) * call.numtopics.toInt + j)) = .ok glcount)
    (hlocal : readAt call.localD j = .ok locald)
    (htopic : readAt call.topicCounts j = .ok topicCount) :
    clProb call j = .ok
      (((if (j : Int) = toInt32 (call.wtopic - 1) then toInt32 (locald - 1) else locald : Int) +
          call.alpha) *
        ((if (j : Int) = toInt32 (call.wtopic - 1) then toInt32 (glcount - 1) else glcount : Int) +
          call.eta) /
        (topicCount + call.numtopics.toInt * call.eta)) := by
  unfold clProb
  dsimp only
  rw [hglobal, ok_bind, hlocal, ok_bind, htopic, ok_bind, pure_eq_ok]

/-- A sampled topic is one of the topics. -/
theorem range_of_sampleTopic {call : SampleCall α} {r : α} {ret : Int}
    (h : sampleTopic call r = .ok ret) : 1 ≤ ret ∧ ret ≤ call.numtopics.toInt := by
  unfold sampleTopic at h
  obtain ⟨_, -, h⟩ := bind_eq_ok.mp h
  obtain ⟨prs, -, h⟩ := bind_eq_ok.mp h
  obtain ⟨ret', -, h⟩ := bind_eq_ok.mp h
  split at h
  case isTrue => cases h
  case isFalse hrange =>
      cases h
      omega

/-- The calls for a document, and the topics it is given. -/
theorem keeps_sampleNewTopics {P : SampleCall α → Prop} {procedure : String}
    {docArr topicsArr topicDArr globalCountArr topicCountsArr : Int4Array} {dsize : Int32}
    {alpha eta : α} {drand48 : ℕ → α}
    (hcalls : ∀ (i : ℕ) widx wtopic, docArr.data[i]? = some widx →
      topicsArr.data[i]? = some wtopic → 1 ≤ widx → widx ≤ dsize.toInt →
        P ⟨numTopics, widx, wtopic, globalCountArr.data, topicDArr.data, topicCountsArr.data, alpha,
          eta⟩) :
    Keeps (All P) (sampleNewTopics procedure docArr topicsArr topicDArr globalCountArr
        topicCountsArr numTopics dsize alpha eta drand48) fun t =>
      IsTopics numTopics docArr.data.length t ∧
        ∀ widx ∈ docArr.data, 1 ≤ widx ∧ widx ≤ dsize.toInt := by
  unfold sampleNewTopics
  iterate 5
    apply (keeps_lift _).bind
    intro _ _
  apply (keeps_lift _).bind
  intro retTopicsArr hretTopics
  apply (keeps_lift _).bind
  intro retTopicDArr hretTopicD
  rw [data_of_constructZeros hretTopics, data_of_constructZeros hretTopicD, Int.toNat_natCast]
  apply (keeps_foldlM_range (fun i ret => Assigned numTopics docArr.data.length i ret ∧
    ∀ widx ∈ docArr.data.take i, 1 ≤ widx ∧ widx ≤ dsize.toInt)
    ⟨assigned_zero _ _, by simp⟩ _).bind
  · intro ret hret
    rw [List.take_length] at hret
    exact keeps_pure ⟨hret.1.isTopics rfl rfl, hret.2⟩
  · intro i hi ret ⟨hassigned, hwords⟩
    unfold sampleRound
    apply (keeps_lift _).bind
    intro widx hwidx
    have hget := readAt_natCast_iff.mp hwidx
    split
    case isTrue => exact keeps_fail _
    case isFalse hrange =>
        apply (keeps_lift _).bind
        intro wtopic hwtopic
        apply (keeps_record (hcalls i widx wtopic hget (readAt_natCast_iff.mp hwtopic)
          (by omega) (by omega))).bind
        intro _ _
        apply (keeps_lift _).bind
        intro rtopic hrtopic
        apply (keeps_lift _).mono
        intro ret' hret'
        refine ⟨hassigned.assignTopic hi (range_of_sampleTopic hrtopic) hret', ?_⟩
        intro word hword
        rw [List.take_add_one, hget, Option.toList_some, List.mem_append,
          List.mem_singleton] at hword
        rcases hword with hold | rfl
        · exact hwords word hold
        · omega

end Sampling

/-! ## What is summed -/

variable {n : ℕ} {procedure : String} {items items' : List Int}

theorem data_of_sumInt4array {state : Option Int4Array} {arr ret : Int4Array}
    (hstate : ∀ arr0 ∈ state, arr0.data = tally n items) (hstart : state = none → items = [])
    (harr : arr.data = tally n items') (h : sumInt4array procedure state (some arr) = .ok ret) :
    ret.data = tally n (items ++ items') := by
  unfold sumInt4array at h
  dsimp only at h
  split at h
  case isTrue => cases h
  case isFalse =>
      cases state with
      | none =>
          cases h
          rw [hstart rfl, harr, List.nil_append]
      | some arr0 =>
          dsimp only at h
          split at h
          case isTrue => cases h
          case isFalse =>
              obtain ⟨zeros, -, h⟩ := bind_eq_ok.mp h
              cases h
              dsimp only
              rw [hstate arr0 rfl, harr, zipWith_tally]

/-- Arrays that are the tallies of these parts. -/
abbrev AreTallies (n : ℕ) (parts : List (List Int)) (args : List (Option Int4Array)) : Prop :=
  List.Forall₂ (fun items arg => ∀ arr ∈ arg, arr.data = tally n items) parts args

theorem foldlM_sumInt4array {parts : List (List Int)} {args : List (Option Int4Array)}
    (hargs : AreTallies n parts args) {state total : Option Int4Array}
    (hstate : ∀ arr ∈ state, arr.data = tally n items) (hstart : state = none → items = [])
    (h : args.foldlM (fun state arg => (sumInt4array procedure state arg).map some) state =
      .ok total) :
    ∀ arr ∈ total, arr.data = tally n (items ++ parts.flatten) := by
  induction hargs generalizing state items with
  | nil =>
      cases h
      rwa [List.flatten_nil, List.append_nil]
  | @cons part arg parts args hpart _ ih =>
      rw [List.foldlM_cons] at h
      obtain ⟨state', hstep, hrest⟩ := bind_eq_ok.mp h
      cases arg with
      | none => cases hstep
      | some arr =>
          cases hsum : sumInt4array procedure state (some arr) with
          | error e =>
              rw [hsum] at hstep
              cases hstep
          | ok ret =>
              rw [hsum] at hstep
              cases hstep
              have hret := data_of_sumInt4array hstate hstart (hpart arr rfl) hsum
              rw [List.flatten_cons, ← List.append_assoc]
              exact ih (fun arr h => Option.some.inj h ▸ hret) (by simp) hrest

/-- The sum of tallies is the tally of all. -/
theorem sumInt4arrayAgg_tally {parts : List (List Int)} {args : List (Option Int4Array)}
    (hargs : AreTallies n parts args) {total : Option Int4Array}
    (h : sumInt4arrayAgg procedure args = .ok total) :
    ∀ arr ∈ total, arr.data = tally n parts.flatten := by
  have hall : ∀ arr ∈ total, arr.data = tally n ([] ++ parts.flatten) :=
    foldlM_sumInt4array hargs (by simp) (fun _ => rfl) h
  rwa [List.nil_append] at hall

/-- A NULL is refused. -/
theorem ne_none_of_sumInt4arrayAgg {args : List (Option Int4Array)} {total : Option Int4Array}
    (h : sumInt4arrayAgg procedure args = .ok total) : none ∉ args := by
  intro hmem
  obtain ⟨before, after, rfl⟩ := List.append_of_mem hmem
  unfold sumInt4arrayAgg at h
  rw [List.foldlM_append] at h
  obtain ⟨state, -, h⟩ := bind_eq_ok.mp h
  cases h

end Madlib.Plda
