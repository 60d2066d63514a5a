import Madlib.Plda.SampleTopics

/-!
# Training

`plda_train` has two tables for the corpus and its topics, and each iteration reads the one that
the iteration before it has filled.  The words are counted by topic in each segment and the counts
of the segments are added.  Before the first iteration the topics are counted, and the words are
not.
-/

namespace Madlib.Plda

open Madlib.Backend Madlib.Lib Madlib.Lib.Call

/-! ## Tables -/

/-- The words of a document. -/
structure Contents where
  words : List Int32
  size_le : 24 + 4 * words.length ≤ maxAllocSize

def Contents.array (contents : Contents) : Int4Array :=
  int4ArrayOf (contents.words.map Int32.toInt)

/-- `array_upper(contents,1)` -/
def Contents.upper (contents : Contents) : Option Int32 :=
  if contents.words = [] then none else some (Int32.ofNat contents.words.length)

/-- A row of `corpus0` or `corpus1`. -/
structure CorpusRow where
  contents : Contents
  topics : Option TopicsT

/-- What a run of the program does not decide: the random numbers, the orders in which rows are
read, and the segments the rows are on. -/
structure Execution (α : Type) where
  random : ℕ → ℕ → ℕ
  drand48 : ℕ → ℕ → ℕ → α
  scanned : ℕ → List CorpusRow → List CorpusRow
  scanned_perm : ∀ i rows, (scanned i rows).Perm rows
  summed : ℕ → List CorpusRow → List CorpusRow
  summed_perm : ∀ i rows, (summed i rows).Perm rows
  segments : ℕ → List CorpusRow → List (List CorpusRow)
  segments_perm : ∀ i rows, (segments i rows).flatten.Perm rows
  segments_ne_nil : ∀ i rows, [] ∉ segments i rows
  reduced : ℕ → List (Option Int4Array) → List (Option Int4Array)
  reduced_perm : ∀ i counts, (reduced i counts).Perm counts

/-- What the program keeps from one iteration to the next. -/
structure TrainState where
  corpus : ℕ → List CorpusRow
  localWordTopicCount : List (ℕ × Option Int4Array)
  modelTable : List (ℕ × Option Int4Array × Int4Array)
  glwcounts : Option Int4Array
  topicCounts : Option Int4Array

/-- A call of `sampleTopic`, the iteration it is made in and the corpus that is read there. -/
structure TrainCall (α : Type) where
  iteration : ℕ
  corpus : List CorpusRow
  args : SampleCall α

/-! ## Statements -/

/-- `plda_zero_array` of a number in the text of a statement. -/
def pldaZeroArray (d : Int) : Except Fault Int4Array :=
  if -2147483648 ≤ d ∧ d < 2147483648 then constructZeros d
  else .error (.elog "function plda_zero_array(bigint) does not exist")

/-- `array[..]` in the text of a statement, from `str(..)[1:-1]` of what another one returned. -/
def arrayLiteral (result : Option Int4Array) : Except Fault Int4Array :=
  match result with
  | none => .error (.elog "syntax error at or near \"on\"")
  | some arr =>
      if arr.data = [] then .error (.elog "cannot determine type of empty array")
      else .ok ⟨1, arr.data⟩

/-- Such an array as an argument, where the least `int4` is read as a `bigint`. -/
def arrayArgument (result : Option Int4Array) : Except Fault Int4Array := do
  let arr ← arrayLiteral result
  if -2147483648 ∈ arr.data then .error (.elog "function plda_sample_new_topics does not exist")
  else pure arr

section Train

variable {α : Type} [Field α] [LinearOrder α] (procedure : String → String)
  (numTopics dsize : Int32) (alpha eta : α) (exec : Execution α)

/-- `plda_random_topics(array_upper(contents,1),num_topics)`, for the row `n` -/
def initialRow (n : ℕ) (contents : Contents) : Except Fault CorpusRow :=
  match contents.upper with
  | none => .ok ⟨contents, none⟩
  | some doclen => do
      let topics ← randomTopics doclen numTopics (exec.random n)
      pure ⟨contents, some topics⟩

/-- `plda_sample_new_topics`, for the row `n` -/
def sampleRow (glwcounts topicCounts : Int4Array) (i n : ℕ) (row : CorpusRow) :
    Call (List (SampleCall α)) Fault CorpusRow :=
  match row.topics with
  | none => pure ⟨row.contents, none⟩
  | some t => do
      let topics ← sampleNewTopics (procedure "plda_sample_new_topics") row.contents.array t.topics
        t.topicD glwcounts topicCounts numTopics dsize alpha eta (exec.drand48 i n)
      pure ⟨row.contents, some topics⟩

/-- `plda_sum_int4array_agg((topics).topic_d)` -/
def countTopics (rows : List CorpusRow) : Except Fault (Option Int4Array) :=
  sumInt4arrayAgg (procedure "plda_sum_int4array")
    (rows.map fun row => row.topics.map TopicsT.topicD)

/-- `plda_cword_count`, for one row -/
def countRow (state : Option Int4Array) (row : CorpusRow) : Except Fault (Option Int4Array) :=
  match row.topics with
  | none => .error .nullPointer
  | some t => do
      let countArr ← cwordCount (procedure "plda_cword_count") numTopics dsize true state
        row.contents.array t.topics (row.contents.upper.getD 0)
      pure (some countArr)

/-- `plda_cword_agg(contents,(topics).topics,array_upper(contents,1),num_topics,dsize)` -/
def countWords (rows : List CorpusRow) : Except Fault (Option Int4Array) :=
  rows.foldlM (countRow procedure numTopics dsize) none

/-- The loop body for the iteration `i`. -/
def trainIteration (s : TrainState) (i : ℕ) : Call (List (TrainCall α)) Fault TrainState := do
  let newTableId := i % 2
  let oldTableId := if newTableId = 0 then 1 else 0
  let old := s.corpus oldTableId
  let glwcounts ← lift (arrayArgument s.glwcounts)
  let topicCounts ← lift (arrayArgument s.topicCounts)
  let rows ← tagged (fun args => ⟨i, old, args⟩)
    ((exec.scanned i old).zipIdx.mapM' fun row =>
      sampleRow procedure numTopics dsize alpha eta exec glwcounts topicCounts i row.2 row.1)
  let new := s.corpus newTableId ++ rows
  let corpus := Function.update (Function.update s.corpus newTableId new) oldTableId []
  let topicCounts ← lift (countTopics procedure (exec.summed i new))
  let lcounts ← lift ((exec.segments i new).mapM' (countWords procedure numTopics dsize))
  let localWordTopicCount := s.localWordTopicCount ++ lcounts.map fun lcount => (i, lcount)
  let gcounts ← lift (sumInt4arrayAgg (procedure "plda_sum_int4array")
    (exec.reduced i ((localWordTopicCount.filter fun row => row.1 = i).map Prod.snd)))
  let tcounts ← lift (arrayLiteral topicCounts)
  let modelTable := s.modelTable ++ [(i, gcounts, tcounts)]
  -- `gcounts[1:dsize*num_topics]`
  let glwcounts := ((modelTable.find? fun row => row.1 = i).bind fun row => row.2.1).map fun arr =>
    int4ArrayOf (arr.data.take (dsize.toInt * numTopics.toInt).toNat)
  pure ⟨corpus, localWordTopicCount, modelTable, glwcounts, topicCounts⟩

/-- `corpus0`, the counts of its topics, and no counts of its words. -/
def trainStart (dataTable : List Contents) : Except Fault TrainState := do
  let glwcounts ← pldaZeroArray (dsize.toInt * numTopics.toInt)
  let corpus0 ← dataTable.zipIdx.mapM' fun row => initialRow numTopics exec row.2 row.1
  let topicCounts ← countTopics procedure (exec.summed 0 corpus0)
  pure ⟨fun id => if id = 0 then corpus0 else [], [], [], some glwcounts, topicCounts⟩

/-- What is left behind: the rows of `output_data_table` and those of `model_table`. -/
structure TrainResult where
  outputData : List CorpusRow
  model : List (ℕ × Option Int4Array × Int4Array)

/-- `plda_train`, for the sizes of the dictionaries in `dict_table` -/
def pldaTrain (numIter : Int32) (dictTable : List (Option Int32)) (dataTable : List Contents) :
    Call (List (TrainCall α)) Fault TrainResult :=
  match dictTable with
  | [some dsize] =>
      if dsize.toInt = 0 then fail (.elog "error: dictionary has not been initialised")
      else do
        let start ← lift (trainStart procedure numTopics dsize exec dataTable)
        let s ← (List.range numIter.toInt.toNat).foldlM (fun s i =>
          trainIteration procedure numTopics dsize alpha eta exec s (i + 1)) start
        -- without an iteration there is no `new_table_id`
        if numIter.toInt < 1 then fail .uninitialised
        else pure ⟨s.corpus (numIter.toInt.toNat % 2),
          s.modelTable.filter fun row => numIter.toInt ≤ row.1⟩
  | [none] => fail (.elog "unsupported operand type(s) for *: 'NoneType' and 'int'")
  | _ => fail (.elog "error: dictionary table is not of the expected form")

end Train

end Madlib.Plda
