import Madlib.Lib.Statement
import Madlib.Svec.Subarr

/-!
# Building a SparseData from positions

`position_to_sdata` sorts the indices of the pairs by their positions.  A run goes on while the
next position holds the same value, pairs that are given twice are skipped, and the gap to the
next position becomes a run of the default value.  The positions are positive int64s here, whose
differences are int64s as well.
-/

namespace Madlib.Svec

open Madlib.Backend Madlib.Lib.MachineInt Madlib.Lib.RunLength Madlib.Lib.Statement CountCode

/-! ## Sorting indices -/

/-- `qsort` on an array of indices.  What it does where the comparison is not an order is left
open by the C standard. -/
abbrev Qsort := (Nat → Nat → Int) → List Nat → Except Fault (List Nat)

/-- The first position is cut down to an `int` before the subtraction, the difference behind
it. -/
def compar (arrayPosRef : List Int) (i j : Nat) : Int :=
  toInt32 (toInt32 (arrayPosRef.getD i 0) - arrayPosRef.getD j 0)

/-- The comparison orders these indices. -/
structure Orders (cmp : Nat → Nat → Int) (index : List Nat) : Prop where
  swap : ∀ i ∈ index, ∀ j ∈ index, (cmp i j < 0 ↔ 0 < cmp j i)
  trans : ∀ i ∈ index, ∀ j ∈ index, ∀ k ∈ index, cmp i j ≤ 0 → cmp j k ≤ 0 → cmp i k ≤ 0

/-- The documented behaviour of `qsort`. -/
structure Sorts (qsort : Qsort) : Prop where
  sorted : ∀ cmp index, Orders cmp index →
    ∃ order, qsort cmp index = .ok order ∧ order.Pairwise fun i j => cmp i j ≤ 0
  perm : ∀ cmp index order, qsort cmp index = .ok order → order.Perm index
  not_raised : ∀ cmp index e, qsort cmp index = .error e → e.isRaised = false

/-! ## position_to_sdata -/

/-- A position and its value. -/
abbrev PosVal := Int × Float8

def pairAt (arrayVal : List Float8) (arrayPos : List Int) (i : Nat) : Except Fault PosVal :=
  match arrayPos[i]?, arrayVal[i]? with
  | some pos, some v => .ok (pos, v)
  | _, _ => .error .outOfBounds

/-- The first inner loop: the run goes on while the next position holds the same bytes. -/
def mergeConsecutive : Int → PosVal → List PosVal → Int × PosVal × List PosVal
  | runLen, cur, [] => (runLen, cur, [])
  | runLen, cur, next :: rest =>
      if next.1 - cur.1 = 1 ∧ cur.2 = next.2 then mergeConsecutive (runLen + 1) next rest
      else (runLen, cur, next :: rest)

/-- The second inner loop: the pairs at the same position are skipped. -/
def skipDuplicates : PosVal → List PosVal → Except Fault (PosVal × List PosVal)
  | cur, [] => .ok (cur, [])
  | cur, next :: rest =>
      if next.1 - cur.1 = 0 then
        if cur.2 = next.2 then skipDuplicates next rest
        else .error (.ereport .invalidParameterValue
          "posit_to_sdata conflicting values for the same position")
      else .ok (cur, next :: rest)

/-- A run of the default value, unless it would be empty. -/
def addGap (defaultVal : Float8) (runLen : Int) (sdata : SparseData) : Except Fault SparseData :=
  if 0 < runLen then addRunToSdata defaultVal runLen sdata else .ok sdata

/-- The remaining rounds of the loop over the pairs, of which `cur` is the next one. -/
def addPairs (stop : Int) (defaultVal : Float8) :
    Nat → PosVal → List PosVal → SparseData → Except Fault SparseData
  | 0, _, _, _ => .error .unfinished
  | rounds + 1, cur, rest, sdata => do
      let (runLen, cur, rest) := mergeConsecutive 1 cur rest
      let (cur, rest) ← skipDuplicates cur rest
      let sdata ← addRunToSdata cur.2 runLen sdata
      match rest with
      | next :: rest => do
          let sdata ← addGap defaultVal (next.1 - cur.1 - 1) sdata
          addPairs stop defaultVal rounds next rest sdata
      | [] => if cur.1 < stop then addGap defaultVal (stop - cur.1) sdata else .ok sdata

/-- The loop over the pairs in the order of `index`, the run in front of it and the final
tallies. -/
def orderedToSdata (stop : Int) (defaultVal : Float8) : List PosVal → Except Fault SparseData
  | [] => .error .outOfBounds
  | first :: rest => do
      let lead := if 1 < first.1 then addRunToSdata defaultVal (first.1 - 1) makeSparseData
        else .ok makeSparseData
      let sdata ← lead
      let sdata ← addPairs stop defaultVal (rest.length + 1) first rest sdata
      return { sdata with
        uniqueValueCount := sdata.valsLen / 8
        totalValueCount := Int32.ofInt stop }

def positionToSdata (qsort : Qsort) (arrayVal : List Float8) (arrayPos : List Int) (count : Nat)
    (stop : Int) (defaultVal : Float8) : Except Fault SparseData := do
  palloc (4 * count)
  let index ← qsort (compar arrayPos) (List.range count)
  let ordered ← index.mapM (pairAt arrayVal arrayPos)
  orderedToSdata stop defaultVal ordered

/-! ## The runs of ordered pairs -/

def gapRuns (defaultVal : Float8) (runLen : Int) : List (Nat × Float8) :=
  if 0 < runLen then [(runLen.toNat, defaultVal)] else []

/-- The runs of the pairs from `cur` on, in the order they stand in.  `n` positions of `cur`'s run
have been met; a run in which a pair is given twice does not go on. -/
def runsFrom (stop : Int) (defaultVal : Float8) :
    Bool → Nat → PosVal → List PosVal → List (Nat × Float8)
  | _, n, cur, [] => (n, cur.2) :: gapRuns defaultVal (stop - cur.1)
  | goesOn, n, cur, next :: rest =>
      if goesOn ∧ next.1 - cur.1 = 1 ∧ cur.2 = next.2 then
        runsFrom stop defaultVal true (n + 1) next rest
      else if next.1 = cur.1 then runsFrom stop defaultVal false n next rest
      else (n, cur.2) :: (gapRuns defaultVal (next.1 - cur.1 - 1) ++
        runsFrom stop defaultVal true 1 next rest)

def orderedRuns (stop : Int) (defaultVal : Float8) : List PosVal → List (Nat × Float8)
  | [] => []
  | first :: rest =>
      gapRuns defaultVal (first.1 - 1) ++ runsFrom stop defaultVal true 1 first rest

/-- Neighbours at the same position hold the same bytes. -/
def Agreeing (ordered : List PosVal) : Prop :=
  ordered.IsChain fun p q => p.1 = q.1 → p.2 = q.2

theorem agreeing_cons_cons {cur next : PosVal} {rest : List PosVal} :
    Agreeing (cur :: next :: rest) ↔ (cur.1 = next.1 → cur.2 = next.2) ∧ Agreeing (next :: rest) :=
  List.isChain_cons_cons

theorem runsFrom_false_cons (stop : Int) (defaultVal : Float8) (n : Nat) (cur next : PosVal)
    (rest : List PosVal) :
    runsFrom stop defaultVal false n cur (next :: rest) =
      if next.1 = cur.1 then runsFrom stop defaultVal false n next rest
      else (n, cur.2) :: (gapRuns defaultVal (next.1 - cur.1 - 1) ++
        runsFrom stop defaultVal true 1 next rest) := by
  rw [runsFrom, if_neg fun h => Bool.false_ne_true h.1]

/-- The pairs the first inner loop leaves have the same runs. -/
theorem mergeConsecutive_spec (stop : Int) (defaultVal : Float8) {n : Nat} {cur : PosVal}
    {rest : List PosVal} :
    ∃ (m : Nat) (cur' : PosVal) (rest' : List PosVal),
      mergeConsecutive n cur rest = ((m : Int), cur', rest') ∧
      m + rest'.length = n + rest.length ∧
      runsFrom stop defaultVal true n cur rest = runsFrom stop defaultVal false m cur' rest' ∧
      (Agreeing (cur :: rest) ↔ Agreeing (cur' :: rest')) ∧ cur' :: rest' <:+ cur :: rest := by
  induction rest generalizing n cur with
  | nil => exact ⟨n, cur, [], rfl, rfl, rfl, Iff.rfl, List.suffix_refl _⟩
  | cons next rest ih =>
      by_cases hnext : next.1 - cur.1 = 1 ∧ cur.2 = next.2
      · have ⟨m, cur', rest', hmerge, hlength, hruns, hagree, hsuffix⟩ :=
          @ih (n + 1) next
        refine ⟨m, cur', rest', ?_, ?_, ?_, ?_, ?_⟩
        · rw [mergeConsecutive, if_pos hnext]
          exact_mod_cast hmerge
        · rw [hlength, List.length_cons]
          omega
        · rw [runsFrom, if_pos ⟨rfl, hnext⟩, hruns]
        · rw [agreeing_cons_cons, ← hagree]
          exact and_iff_right fun _ => hnext.2
        · exact hsuffix.trans (List.suffix_cons cur _)
      · refine ⟨n, cur, next :: rest, ?_, rfl, ?_, Iff.rfl, List.suffix_refl _⟩
        · rw [mergeConsecutive, if_neg hnext]
        · rw [runsFrom, if_neg fun h => hnext h.2, runsFrom_false_cons]

/-- The second inner loop fails at the first pair that does not agree with its neighbour. -/
theorem skipDuplicates_spec (stop : Int) (defaultVal : Float8) (n : Nat) {cur : PosVal}
    {rest : List PosVal} :
    (skipDuplicates cur rest = .error (.ereport .invalidParameterValue
        "posit_to_sdata conflicting values for the same position") ∧ ¬ Agreeing (cur :: rest)) ∨
    ∃ cur' rest', skipDuplicates cur rest = .ok (cur', rest') ∧
      runsFrom stop defaultVal false n cur rest = runsFrom stop defaultVal false n cur' rest' ∧
      (Agreeing (cur :: rest) ↔ Agreeing (cur' :: rest')) ∧ cur' :: rest' <:+ cur :: rest ∧
      ∀ next ∈ rest'.head?, next.1 ≠ cur'.1 := by
  induction rest generalizing cur with
  | nil => exact .inr ⟨cur, [], rfl, rfl, Iff.rfl, List.suffix_refl _, by simp⟩
  | cons next rest ih =>
      rw [skipDuplicates]
      by_cases hpos : next.1 - cur.1 = 0
      · have hsame : next.1 = cur.1 := by omega
        rw [if_pos hpos]
        by_cases hval : cur.2 = next.2
        · have hagree : Agreeing (cur :: next :: rest) ↔ Agreeing (next :: rest) := by
            rw [agreeing_cons_cons]
            exact and_iff_right fun _ => hval
          have hruns : runsFrom stop defaultVal false n cur (next :: rest) =
              runsFrom stop defaultVal false n next rest := by
            rw [runsFrom_false_cons, if_pos hsame]
          rw [if_pos hval, hagree, hruns]
          rcases @ih next with hfail | ⟨cur', rest', hskip, hruns', hagree', hsuffix, hhead⟩
          · exact .inl hfail
          · exact .inr ⟨cur', rest', hskip, hruns', hagree', hsuffix.trans (List.suffix_cons cur _),
              hhead⟩
        · rw [if_neg hval]
          refine .inl ⟨rfl, fun h => hval ?_⟩
          exact (agreeing_cons_cons.mp h).1 hsame.symm
      · rw [if_neg hpos]
        refine .inr ⟨cur, next :: rest, rfl, rfl, Iff.rfl, List.suffix_refl _, ?_⟩
        intro p hp
        rw [List.head?_cons, Option.mem_some_iff] at hp
        subst hp
        omega

/-- The runs written so far; the declared size is filled in at the end. -/
structure RunsSoFar (s : SparseData) (pairs : List (Nat × Float8)) : Prop where
  hasRuns : HasRuns s (pairs.map Prod.fst)
  vals_eq : s.vals = pairs.map Prod.snd
  index_eq : s.index.data = some (rleBytes (pairs.map Prod.fst))

theorem runsSoFar_makeSparseData : RunsSoFar makeSparseData [] :=
  ⟨hasRuns_makeSparseData, rfl, rfl⟩

theorem RunsSoFar.add {s : SparseData} {pairs : List (Nat × Float8)} (h : RunsSoFar s pairs)
    (v : Float8) (n : Nat) (hn : n < 9223372036854775808) :
    ∃ s', addRunToSdata v n s = .ok s' ∧ RunsSoFar s' (pairs ++ [(n, v)]) := by
  have hdata : s.index.data ≠ none := by
    rw [h.index_eq]
    exact Option.some_ne_none _
  have ⟨s', hadd, hruns, hvals, _⟩ :=
    addRunToSdata_hasRuns v n h.hasRuns hdata (by omega) (by omega)
  have hindex := addRunToSdata_rleBytes h.index_eq (by omega) (by omega) hadd
  rw [Int.toNat_natCast] at hruns hindex
  refine ⟨s', hadd, ?_, ?_, ?_⟩
  · rw [List.map_append]
    exact hruns
  · rw [List.map_append, hvals, h.vals_eq]
    rfl
  · rw [List.map_append]
    exact hindex

theorem RunsSoFar.addGap {s : SparseData} {pairs : List (Nat × Float8)} (h : RunsSoFar s pairs)
    (defaultVal : Float8) (runLen : Int) (hlen : runLen < 9223372036854775808) :
    ∃ s', addGap defaultVal runLen s = .ok s' ∧
      RunsSoFar s' (pairs ++ gapRuns defaultVal runLen) := by
  unfold Svec.addGap gapRuns
  by_cases hpos : 0 < runLen
  · have ⟨s', hadd, hsofar⟩ := h.add defaultVal runLen.toNat (by omega)
    rw [Int.toNat_of_nonneg hpos.le] at hadd
    rw [if_pos hpos, if_pos hpos]
    exact ⟨s', hadd, hsofar⟩
  · rw [if_neg hpos, if_neg hpos, List.append_nil]
    exact ⟨s, rfl, h⟩

/-- A positive position of an int64. -/
def InRange (p : PosVal) : Prop := 1 ≤ p.1 ∧ p.1 < 9223372036854775808

/-- The loop writes the runs of the pairs, or fails where two neighbours conflict. -/
theorem addPairs_spec {stop : Int} (defaultVal : Float8) {rounds : Nat} {cur : PosVal}
    {rest : List PosVal} {s : SparseData} {pairs : List (Nat × Float8)}
    (h : RunsSoFar s pairs) (hrounds : rest.length < rounds)
    (hcount : rest.length < 1000000000) (hstop : stop < 9223372036854775808)
    (hrange : ∀ p ∈ cur :: rest, InRange p) :
    (¬ Agreeing (cur :: rest) → addPairs stop defaultVal rounds cur rest s =
      .error (.ereport .invalidParameterValue
        "posit_to_sdata conflicting values for the same position")) ∧
    (Agreeing (cur :: rest) → ∃ s', addPairs stop defaultVal rounds cur rest s = .ok s' ∧
      RunsSoFar s' (pairs ++ runsFrom stop defaultVal true 1 cur rest)) := by
  induction rounds generalizing cur rest s pairs with
  | zero => exact absurd hrounds (Nat.not_lt_zero _)
  | succ rounds ih =>
      obtain ⟨m, cur₁, rest₁, hmerge, hlength, hruns₁, hagree₁, hsuffix₁⟩ :=
        @mergeConsecutive_spec stop defaultVal 1 cur rest
      rw [Nat.cast_one] at hmerge
      rw [addPairs, hmerge, hruns₁, hagree₁]
      dsimp only
      rcases @skipDuplicates_spec stop defaultVal m cur₁ rest₁ with
        ⟨hfail, hconflict⟩ | ⟨cur₂, rest₂, hskip, hruns₂, hagree₂, hsuffix₂, hhead⟩
      · rw [hfail]
        exact ⟨fun _ => rfl, fun hagree => absurd hagree hconflict⟩
      · obtain ⟨s₁, hadd, hsofar⟩ := h.add cur₂.2 m (by omega)
        have hrange₂ : ∀ p ∈ cur₂ :: rest₂, InRange p := fun p hp =>
          hrange p ((hsuffix₂.trans hsuffix₁).subset hp)
        have hcur := hrange₂ cur₂ List.mem_cons_self
        have hshorter := (hsuffix₂.trans hsuffix₁).length_le
        unfold InRange at hcur
        rw [hskip, ok_bind, hruns₂, hagree₂]
        dsimp only
        rw [hadd, ok_bind]
        cases rest₂ with
        | nil =>
            dsimp only
            refine ⟨fun hconflict => absurd (List.isChain_singleton _) hconflict, fun _ => ?_⟩
            rw [runsFrom]
            obtain ⟨s₂, hgap, hsofar₂⟩ := hsofar.addGap defaultVal (stop - cur₂.1) (by omega)
            rw [List.append_assoc, List.singleton_append] at hsofar₂
            by_cases hend : cur₂.1 < stop
            · rw [if_pos hend]
              exact ⟨s₂, hgap, hsofar₂⟩
            · rw [if_neg hend]
              refine ⟨s₁, rfl, ?_⟩
              rw [gapRuns, if_neg (by omega)]
              exact hsofar
        | cons next rest₃ =>
            dsimp only
            have hne : next.1 ≠ cur₂.1 := hhead next rfl
            have hnext := hrange₂ next (List.mem_cons_of_mem _ List.mem_cons_self)
            unfold InRange at hnext
            obtain ⟨s₂, hgap, hsofar₂⟩ :=
              hsofar.addGap defaultVal (next.1 - cur₂.1 - 1) (by omega)
            rw [List.length_cons, List.length_cons, List.length_cons] at hshorter
            have hagree : Agreeing (cur₂ :: next :: rest₃) ↔ Agreeing (next :: rest₃) := by
              rw [agreeing_cons_cons]
              exact and_iff_right fun heq => absurd heq.symm hne
            have hrest := @ih next rest₃ s₂ _ hsofar₂ (by omega) (by omega)
              fun p hp => hrange₂ p (List.mem_cons_of_mem _ hp)
            rw [hgap, ok_bind, hagree, runsFrom_false_cons, if_neg hne]
            rw [List.append_assoc, List.append_assoc, List.singleton_append] at hrest
            exact hrest

/-! ## The pairs in order -/

/-- The pair an index stands for. -/
def pick (pairs : List PosVal) (i : Nat) : PosVal := pairs.getD i (0, 0)

theorem map_pick_range (pairs : List PosVal) :
    (List.range pairs.length).map (pick pairs) = pairs := by
  apply List.ext_getElem
  · simp
  · intro i h _
    rw [List.length_map, List.length_range] at h
    simp [pick, List.getD_eq_getElem?_getD, h]

theorem pairAt_eq {pairs : List PosVal} {i : Nat} (hi : i < pairs.length) :
    pairAt (pairs.map Prod.snd) (pairs.map Prod.fst) i = .ok (pick pairs i) := by
  simp [pairAt, pick, List.getD_eq_getElem?_getD, hi]

/-- The function called with the positions and the values of these pairs. -/
def pairsToSdata (qsort : Qsort) (pairs : List PosVal) (stop : Int) (defaultVal : Float8) :
    Except Fault SparseData :=
  positionToSdata qsort (pairs.map Prod.snd) (pairs.map Prod.fst) pairs.length stop defaultVal

/-- The order `qsort` puts the indices of the pairs in. -/
def qsortOrder (qsort : Qsort) (pairs : List PosVal) : Except Fault (List Nat) :=
  qsort (compar (pairs.map Prod.fst)) (List.range pairs.length)

theorem RunsSoFar.tally {s : SparseData} {pairs : List (Nat × Float8)} (h : RunsSoFar s pairs)
    (total : Int32) :
    RunsSoFar { s with uniqueValueCount := s.valsLen / 8, totalValueCount := total } pairs := by
  have hunique : s.valsLen / 8 = s.uniqueValueCount := by
    rw [SparseData.valsLen, Nat.mul_div_cancel_left _ (by omega), h.hasRuns.length_vals]
  rw [hunique]
  exact ⟨⟨h.hasRuns.index, h.hasRuns.length_runs, h.hasRuns.length_vals⟩, h.vals_eq, h.index_eq⟩

theorem orderedToSdata_spec {ordered : List PosVal} (hne : ordered ≠ [])
    (hcount : ordered.length < 1000000000) (hrange : ∀ p ∈ ordered, InRange p) {stop : Int}
    (hstop : stop < 9223372036854775808) (defaultVal : Float8) :
    (¬ Agreeing ordered → orderedToSdata stop defaultVal ordered =
      .error (.ereport .invalidParameterValue
        "posit_to_sdata conflicting values for the same position")) ∧
    (Agreeing ordered → ∃ s, orderedToSdata stop defaultVal ordered = .ok s ∧
      RunsSoFar s (orderedRuns stop defaultVal ordered) ∧
      s.totalValueCount = Int32.ofInt stop) := by
  cases ordered with
  | nil => exact absurd rfl hne
  | cons first rest =>
      have hfirst := hrange first List.mem_cons_self
      unfold InRange at hfirst
      rw [List.length_cons] at hcount
      have ⟨s, hgap, hsofar⟩ :=
        runsSoFar_makeSparseData.addGap defaultVal (first.1 - 1) (by omega)
      have ⟨hconflict, hagree⟩ := addPairs_spec defaultVal hsofar (Nat.lt_succ_self rest.length)
        (by omega) hstop hrange
      have hlead : (if 1 < first.1 then addRunToSdata defaultVal (first.1 - 1) makeSparseData
          else .ok makeSparseData) = addGap defaultVal (first.1 - 1) makeSparseData := by
        unfold addGap
        simp only [sub_pos]
      rw [orderedToSdata, hlead, hgap, ok_bind, orderedRuns]
      constructor
      · intro h
        rw [hconflict h, error_bind]
      · intro h
        have ⟨s', hadd, hsofar'⟩ := hagree h
        rw [hadd, ok_bind]
        exact ⟨_, rfl, hsofar'.tally _, rfl⟩

/-- The function reads the pairs in the order of `qsort`. -/
theorem pairsToSdata_eq {qsort : Qsort} (hqsort : Sorts qsort) {pairs : List PosVal}
    (hcount : 4 * pairs.length ≤ maxAllocSize) (stop : Int) (defaultVal : Float8)
    {order : List Nat} (horder : qsortOrder qsort pairs = .ok order) :
    pairsToSdata qsort pairs stop defaultVal =
        orderedToSdata stop defaultVal (order.map (pick pairs)) ∧
      (order.map (pick pairs)).Perm pairs := by
  have hperm := hqsort.perm _ _ _ horder
  have hread : (order.map id).mapM (pairAt (pairs.map Prod.snd) (pairs.map Prod.fst)) =
      .ok (order.map (pick pairs)) := mapM_map fun i hi =>
    pairAt_eq (List.mem_range.mp (hperm.mem_iff.mp hi))
  rw [List.map_id] at hread
  have hmap := hperm.map (pick pairs)
  rw [map_pick_range] at hmap
  unfold qsortOrder at horder
  unfold pairsToSdata positionToSdata
  rw [palloc_ok hcount, ok_bind, horder, ok_bind, hread, ok_bind]
  exact ⟨rfl, hmap⟩

/-! ## Positions that `compar` can tell apart -/

/-- No two positions are 2^31 or more apart. -/
def Near (pairs : List PosVal) : Prop := ∀ p ∈ pairs, ∀ q ∈ pairs, p.1 - q.1 < 2147483648

/-- Two pairs give the same position with different bytes. -/
def Conflicting (pairs : List PosVal) : Prop := ∃ p ∈ pairs, ∃ q ∈ pairs, p.1 = q.1 ∧ p.2 ≠ q.2

instance (pairs : List PosVal) : Decidable (Conflicting pairs) :=
  inferInstanceAs (Decidable (∃ p ∈ pairs, ∃ q ∈ pairs, p.1 = q.1 ∧ p.2 ≠ q.2))

theorem pick_mem {pairs : List PosVal} {i : Nat} (hi : i < pairs.length) :
    pick pairs i ∈ pairs := by
  rw [pick, List.getD_eq_getElem?_getD, List.getElem?_eq_getElem hi, Option.getD_some]
  exact List.getElem_mem hi

theorem compar_eq {pairs : List PosVal} (h : Near pairs) {i j : Nat} (hi : i < pairs.length)
    (hj : j < pairs.length) :
    compar (pairs.map Prod.fst) i j = (pick pairs i).1 - (pick pairs j).1 := by
  have hfst : ∀ k < pairs.length, (pairs.map Prod.fst).getD k 0 = (pick pairs k).1 := by
    intro k hk
    simp [pick, List.getD_eq_getElem?_getD, hk]
  have hup := h _ (pick_mem hi) _ (pick_mem hj)
  have hdown := h _ (pick_mem hj) _ (pick_mem hi)
  unfold compar
  rw [hfst i hi, hfst j hj, sub_eq_add_neg, toInt32_toInt32_add, ← sub_eq_add_neg]
  exact toInt32_of_mem (by omega) (by omega)

theorem orders_of_near {pairs : List PosVal} (h : Near pairs) :
    Orders (compar (pairs.map Prod.fst)) (List.range pairs.length) := by
  refine ⟨fun i hi j hj => ?_, fun i hi j hj k hk => ?_⟩
  · rw [List.mem_range] at hi hj
    rw [compar_eq h hi hj, compar_eq h hj hi]
    omega
  · rw [List.mem_range] at hi hj hk
    rw [compar_eq h hi hj, compar_eq h hj hk, compar_eq h hi hk]
    omega

theorem qsortOrder_of_near {qsort : Qsort} (hqsort : Sorts qsort) {pairs : List PosVal}
    (h : Near pairs) :
    ∃ order, qsortOrder qsort pairs = .ok order ∧ (order.map (pick pairs)).Perm pairs ∧
      (order.map (pick pairs)).Pairwise fun p q => p.1 ≤ q.1 := by
  have ⟨order, horder, hpairwise⟩ := hqsort.sorted _ _ (orders_of_near h)
  have hperm := hqsort.perm _ _ _ horder
  have hmap := hperm.map (pick pairs)
  rw [map_pick_range] at hmap
  refine ⟨order, horder, hmap, ?_⟩
  rw [List.pairwise_map]
  refine hpairwise.imp_of_mem fun {i j} hi hj hle => ?_
  rw [hperm.mem_iff, List.mem_range] at hi hj
  rw [compar_eq h hi hj] at hle
  omega

/-- In order of the positions the neighbours speak for all. -/
theorem Agreeing.pairwise {ordered : List PosVal} (hagree : Agreeing ordered)
    (h : ordered.Pairwise fun p q => p.1 ≤ q.1) :
    ordered.Pairwise fun p q => p.1 = q.1 → p.2 = q.2 := by
  induction ordered with
  | nil => exact List.Pairwise.nil
  | cons cur rest ih =>
      have ⟨hcur, hrest⟩ := List.pairwise_cons.mp h
      have htail := ih hagree.tail hrest
      refine List.pairwise_cons.mpr ⟨fun q hq hpos => ?_, htail⟩
      cases rest with
      | nil => cases hq
      | cons next rest =>
          have hnext := hcur next List.mem_cons_self
          rcases List.mem_cons.mp hq with rfl | hmem
          · exact (agreeing_cons_cons.mp hagree).1 hpos
          · have hle := (List.pairwise_cons.mp hrest).1 q hmem
            have hsame : cur.1 = next.1 := by omega
            calc cur.2 = next.2 := (agreeing_cons_cons.mp hagree).1 hsame
              _ = q.2 := (List.pairwise_cons.mp htail).1 q hmem (by omega)

theorem agreeing_iff {ordered : List PosVal} (h : ordered.Pairwise fun p q => p.1 ≤ q.1) :
    Agreeing ordered ↔ ¬ Conflicting ordered := by
  constructor
  · intro hagree hconflict
    have ⟨p, hp, q, hq, hpos, hval⟩ := hconflict
    have hpairwise := hagree.pairwise h
    have hall := List.Pairwise.forall_of_forall_of_flip (fun _ _ _ => rfl) hpairwise
      (hpairwise.imp fun hab heq => (hab heq.symm).symm)
    exact hval (hall hp hq hpos)
  · intro hnone
    apply List.Pairwise.isChain
    apply List.pairwise_of_forall_mem_list
    intro p hp q hq hpos
    by_contra hval
    exact hnone ⟨p, hp, q, hq, hpos, hval⟩

theorem conflicting_perm {pairs pairs' : List PosVal} (h : pairs.Perm pairs') :
    Conflicting pairs ↔ Conflicting pairs' := by
  unfold Conflicting
  simp only [h.mem_iff]

/-! ## The elements -/

/-- The element at a position: that of its pair, or the default value. -/
def valueAt (pairs : List PosVal) (defaultVal : Float8) (k : Int) : Float8 :=
  ((pairs.find? fun p => p.1 = k).map Prod.snd).getD defaultVal

theorem valueAt_cons_of_eq {cur : PosVal} {rest : List PosVal} {k : Int} (h : cur.1 = k)
    (defaultVal : Float8) : valueAt (cur :: rest) defaultVal k = cur.2 := by
  simp [valueAt, h]

theorem valueAt_cons_of_ne {cur : PosVal} {rest : List PosVal} {k : Int} (h : cur.1 ≠ k)
    (defaultVal : Float8) :
    valueAt (cur :: rest) defaultVal k = valueAt rest defaultVal k := by
  simp [valueAt, h]

theorem valueAt_of_forall_ne {pairs : List PosVal} {k : Int} (h : ∀ p ∈ pairs, p.1 ≠ k)
    (defaultVal : Float8) : valueAt pairs defaultVal k = defaultVal := by
  have hnone : (pairs.find? fun p => p.1 = k) = none := by simpa using h
  rw [valueAt, hnone]
  rfl

theorem valueAt_of_mem {pairs : List PosVal} (h : ¬ Conflicting pairs) {p : PosVal}
    (hp : p ∈ pairs) (defaultVal : Float8) : valueAt pairs defaultVal p.1 = p.2 := by
  cases hfind : pairs.find? fun q => q.1 = p.1 with
  | none =>
      rw [List.find?_eq_none] at hfind
      simpa using hfind p hp
  | some q =>
      have hq := List.find?_some hfind
      rw [decide_eq_true_eq] at hq
      rw [valueAt, hfind, Option.map_some, Option.getD_some]
      by_contra hval
      exact h ⟨q, List.mem_of_find?_eq_some hfind, p, hp, hq, hval⟩

/-- The elements at `len` positions from `lo` on. -/
def segment (f : Int → Float8) (lo : Int) (len : Nat) : List Float8 :=
  (List.range len).map fun i : Nat => f (lo + i)

theorem segment_congr {f g : Int → Float8} {lo : Int} {len : Nat}
    (h : ∀ k, lo ≤ k → k < lo + len → f k = g k) : segment f lo len = segment g lo len := by
  apply List.map_congr_left
  intro i hi
  rw [List.mem_range] at hi
  exact h _ (by omega) (by omega)

theorem segment_const {f : Int → Float8} {lo : Int} {len : Nat} {v : Float8}
    (h : ∀ k, lo ≤ k → k < lo + len → f k = v) : segment f lo len = List.replicate len v := by
  rw [segment_congr (g := fun _ => v) h, segment, List.map_const', List.length_range]

theorem segment_add (f : Int → Float8) (lo : Int) (len len' : Nat) :
    segment f lo (len + len') = segment f lo len ++ segment f (lo + len) len' := by
  unfold segment
  rw [List.range_add, List.map_append, List.map_map]
  congr 1
  apply List.map_congr_left
  intro i _
  rw [Function.comp_apply, Nat.cast_add, add_assoc]

theorem segment_one (f : Int → Float8) (lo : Int) : segment f lo 1 = [f lo] := by
  simp [segment]

theorem flat_gapRuns (defaultVal : Float8) (runLen : Int) :
    flat (gapRuns defaultVal runLen) = List.replicate runLen.toNat defaultVal := by
  unfold gapRuns
  by_cases h : 0 < runLen
  · rw [if_pos h, flat_cons, flat_nil, List.append_nil]
  · rw [if_neg h, Int.toNat_of_nonpos (not_lt.mp h)]
    rfl

/-- The element of the first pair, a gap, and the elements behind it. -/
theorem segment_valueAt_gap {cur next : PosVal} {rest : List PosVal} {top : Int}
    (hlt : cur.1 < next.1) (hsorted : (next :: rest).Pairwise fun p q => p.1 ≤ q.1)
    (htop : next.1 ≤ top) (defaultVal : Float8) :
    segment (valueAt (cur :: next :: rest) defaultVal) cur.1 (top + 1 - cur.1).toNat =
      cur.2 :: (List.replicate (next.1 - cur.1 - 1).toNat defaultVal ++
        segment (valueAt (next :: rest) defaultVal) next.1 (top + 1 - next.1).toNat) := by
  have hcount : (top + 1 - cur.1).toNat =
      1 + ((next.1 - cur.1 - 1).toNat + (top + 1 - next.1).toNat) := by omega
  have hnext : cur.1 + (1 : Nat) + ((next.1 - cur.1 - 1).toNat : Nat) = next.1 := by omega
  have hfirst : ∀ p ∈ next :: rest, next.1 ≤ p.1 := by
    intro p hp
    rcases List.mem_cons.mp hp with rfl | hmem
    · exact le_refl _
    · exact (List.pairwise_cons.mp hsorted).1 p hmem
  have hgap : segment (valueAt (cur :: next :: rest) defaultVal) (cur.1 + (1 : Nat))
      (next.1 - cur.1 - 1).toNat = List.replicate (next.1 - cur.1 - 1).toNat defaultVal := by
    apply segment_const
    intro k hlo hhi
    rw [valueAt_cons_of_ne (by omega)]
    apply valueAt_of_forall_ne
    intro p hp
    have hle := hfirst p hp
    omega
  have hrest : segment (valueAt (cur :: next :: rest) defaultVal) next.1
      (top + 1 - next.1).toNat =
        segment (valueAt (next :: rest) defaultVal) next.1 (top + 1 - next.1).toNat := by
    apply segment_congr
    intro k hlo _
    exact valueAt_cons_of_ne (by omega) defaultVal
  rw [hcount, segment_add, segment_add, hgap, hnext, hrest, segment_one,
    valueAt_cons_of_eq rfl]
  rfl

theorem replicate_append_pred {n : Nat} (hn : 0 < n) (v : Float8) (xs : List Float8) :
    List.replicate n v ++ xs = List.replicate (n - 1) v ++ v :: xs := by
  have hsucc : n = n - 1 + 1 := by omega
  rw [hsucc, List.replicate_succ', List.append_assoc, List.singleton_append, Nat.add_sub_cancel]

/-- A pair that is given twice counts once. -/
theorem valueAt_cons_same {cur next : PosVal} {rest : List PosVal} (hpos : next.1 = cur.1)
    (hval : cur.2 = next.2) (defaultVal : Float8) :
    valueAt (cur :: next :: rest) defaultVal = valueAt (next :: rest) defaultVal := by
  ext k : 1
  by_cases hk : cur.1 = k
  · rw [valueAt_cons_of_eq hk, valueAt_cons_of_eq (hpos.trans hk), hval]
  · exact valueAt_cons_of_ne hk defaultVal

/-- The runs are those of the elements up to the last position or the end. -/
theorem flat_runsFrom {stop top : Int} (defaultVal : Float8) {goesOn : Bool} {n : Nat}
    {cur : PosVal} {rest : List PosVal} (hsorted : (cur :: rest).Pairwise fun p q => p.1 ≤ q.1)
    (hagree : Agreeing (cur :: rest)) (htop : ∀ p ∈ cur :: rest, p.1 ≤ top)
    (hlast : top = max stop (rest.getLastD cur).1) (hn : 0 < n) :
    flat (runsFrom stop defaultVal goesOn n cur rest) = List.replicate (n - 1) cur.2 ++
      segment (valueAt (cur :: rest) defaultVal) cur.1 (top + 1 - cur.1).toNat := by
  induction rest generalizing goesOn n cur with
  | nil =>
      rw [List.getLastD_nil] at hlast
      have hcount : (top + 1 - cur.1).toNat = 1 + (stop - cur.1).toNat := by omega
      have hgap : segment (valueAt [cur] defaultVal) (cur.1 + (1 : Nat)) (stop - cur.1).toNat =
          List.replicate (stop - cur.1).toNat defaultVal := by
        apply segment_const
        intro k hlo _
        rw [valueAt_cons_of_ne (by omega)]
        rfl
      rw [runsFrom, flat_cons, flat_gapRuns, hcount, segment_add, hgap, segment_one,
        valueAt_cons_of_eq rfl, replicate_append_pred hn]
      rfl
  | cons next rest ih =>
      have ⟨hcur, hrest⟩ := List.pairwise_cons.mp hsorted
      have ⟨hhead, htail⟩ := agreeing_cons_cons.mp hagree
      have htops : ∀ p ∈ next :: rest, p.1 ≤ top := fun p hp => htop p (List.mem_cons_of_mem _ hp)
      have hle := hcur next List.mem_cons_self
      have hnext := htops next List.mem_cons_self
      rw [List.getLastD_cons] at hlast
      rw [runsFrom]
      by_cases hon : goesOn ∧ next.1 - cur.1 = 1 ∧ cur.2 = next.2
      · have hgap : (next.1 - cur.1 - 1).toNat = 0 := by omega
        rw [if_pos hon, ih hrest htail htops hlast (Nat.succ_pos n),
          segment_valueAt_gap (by omega) hrest hnext, ← replicate_append_pred hn, hon.2.2, hgap]
        rfl
      · rw [if_neg hon]
        by_cases hsame : next.1 = cur.1
        · rw [if_pos hsame, ih hrest htail htops hlast hn, hsame, ← hhead hsame.symm,
            valueAt_cons_same hsame (hhead hsame.symm)]
        · rw [if_neg hsame, flat_cons, flat_append, flat_gapRuns,
            ih hrest htail htops hlast Nat.one_pos,
            segment_valueAt_gap (by omega) hrest hnext, replicate_append_pred hn]
          rfl

theorem gapRuns_positive (defaultVal : Float8) (runLen : Int) :
    ∀ pair ∈ gapRuns defaultVal runLen, 0 < pair.1 := by
  intro pair hpair
  unfold gapRuns at hpair
  split at hpair
  · rw [List.mem_singleton.mp hpair]
    dsimp only
    omega
  · cases hpair

theorem runsFrom_positive {stop : Int} {defaultVal : Float8} {goesOn : Bool} {n : Nat}
    {cur : PosVal} {rest : List PosVal} (hn : 0 < n) :
    ∀ pair ∈ runsFrom stop defaultVal goesOn n cur rest, 0 < pair.1 := by
  induction rest generalizing goesOn n cur with
  | nil =>
      rw [runsFrom]
      exact List.forall_mem_cons.mpr ⟨hn, gapRuns_positive _ _⟩
  | cons next rest ih =>
      rw [runsFrom]
      split
      · exact ih (Nat.succ_pos n)
      · split
        · exact ih hn
        · refine List.forall_mem_cons.mpr ⟨hn, ?_⟩
          rw [List.forall_mem_append]
          exact ⟨gapRuns_positive _ _, ih Nat.one_pos⟩

/-- The highest position a SparseData of these pairs reaches. -/
def IsTop (stop : Int) (pairs : List PosVal) (top : Int) : Prop :=
  (∀ p ∈ pairs, p.1 ≤ top) ∧ stop ≤ top ∧ (top = stop ∨ ∃ p ∈ pairs, p.1 = top)

theorem IsTop.perm {stop top : Int} {pairs pairs' : List PosVal} (h : IsTop stop pairs top)
    (hperm : pairs'.Perm pairs) : IsTop stop pairs' top := by
  unfold IsTop at h ⊢
  simpa only [hperm.mem_iff] using h

theorem IsTop.eq_max {stop top : Int} {first : PosVal} {rest : List PosVal}
    (h : IsTop stop (first :: rest) top)
    (hsorted : (first :: rest).Pairwise fun p q => p.1 ≤ q.1) :
    top = max stop (rest.getLastD first).1 := by
  have ⟨hle, hstop, hreached⟩ := h
  have hlast : ∀ p ∈ first :: rest, p.1 ≤ (rest.getLastD first).1 := by
    clear h hle hreached
    induction rest generalizing first with
    | nil => simp
    | cons next rest ih =>
        have ⟨hfirst, hrest⟩ := List.pairwise_cons.mp hsorted
        rw [List.getLastD_cons]
        refine List.forall_mem_cons.mpr ⟨?_, ih hrest⟩
        exact hfirst _ List.getLastD_mem_cons
  have hmem := hle _ (List.getLastD_mem_cons (l := rest) (a := first))
  rcases hreached with rfl | ⟨p, hp, rfl⟩
  · omega
  · have hup := hlast p hp
    omega

theorem flat_orderedRuns {stop top : Int} (defaultVal : Float8) {ordered : List PosVal}
    (hne : ordered ≠ []) (hsorted : ordered.Pairwise fun p q => p.1 ≤ q.1)
    (hagree : Agreeing ordered) (hrange : ∀ p ∈ ordered, InRange p)
    (htop : IsTop stop ordered top) :
    flat (orderedRuns stop defaultVal ordered) =
      segment (valueAt ordered defaultVal) 1 top.toNat := by
  cases ordered with
  | nil => exact absurd rfl hne
  | cons first rest =>
      have hfirst := (hrange first List.mem_cons_self).1
      have hle := htop.1 first List.mem_cons_self
      have hcount : top.toNat = (first.1 - 1).toNat + (top + 1 - first.1).toNat := by omega
      have hnext : (1 : Int) + ((first.1 - 1).toNat : Nat) = first.1 := by omega
      have hgap : segment (valueAt (first :: rest) defaultVal) 1 (first.1 - 1).toNat =
          List.replicate (first.1 - 1).toNat defaultVal := by
        apply segment_const
        intro k _ hhi
        apply valueAt_of_forall_ne
        refine List.forall_mem_cons.mpr ⟨by omega, fun p hp => ?_⟩
        have hup := (List.pairwise_cons.mp hsorted).1 p hp
        omega
      rw [orderedRuns, flat_append, flat_gapRuns,
        flat_runsFrom defaultVal hsorted hagree htop.1 (htop.eq_max hsorted) Nat.one_pos, hcount,
        segment_add, hgap, hnext]
      rfl

theorem RunsSoFar.dense_eq {s : SparseData} {pairs : List (Nat × Float8)} (h : RunsSoFar s pairs) :
    s.dense = flat pairs := by
  rw [h.hasRuns.dense_eq, h.vals_eq, flat]

theorem length_segment (f : Int → Float8) (lo : Int) (len : Nat) :
    (segment f lo len).length = len := by
  rw [segment, List.length_map, List.length_range]

theorem getElem?_segment {f : Int → Float8} {k : Int} {len : Nat} (hlo : 1 ≤ k) (hhi : k ≤ len) :
    (segment f 1 len)[(k - 1).toNat]? = some (f k) := by
  have hk : (1 : Int) + ((k - 1).toNat : Nat) = k := by omega
  rw [segment, List.getElem?_map, List.getElem?_range (by omega), Option.map_some, hk]

theorem valueAt_perm {pairs pairs' : List PosVal} (h : ¬ Conflicting pairs)
    (hperm : pairs'.Perm pairs) (defaultVal : Float8) :
    valueAt pairs' defaultVal = valueAt pairs defaultVal := by
  have h' : ¬ Conflicting pairs' := by rwa [conflicting_perm hperm]
  ext k : 1
  by_cases hk : ∃ p ∈ pairs, p.1 = k
  · obtain ⟨p, hp, rfl⟩ := hk
    rw [valueAt_of_mem h hp, valueAt_of_mem h' (hperm.mem_iff.mpr hp)]
  · rw [not_exists] at hk
    have hnone : ∀ p ∈ pairs, p.1 ≠ k := fun p hp heq => hk p ⟨hp, heq⟩
    rw [valueAt_of_forall_ne hnone,
      valueAt_of_forall_ne fun p hp => hnone p (hperm.mem_iff.mp hp)]

/-- Without conflicts the order of the positions leaves nothing open. -/
theorem ordered_unique {ordered ordered' : List PosVal} (h : ¬ Conflicting ordered)
    (hsorted : ordered.Pairwise fun p q => p.1 ≤ q.1)
    (hsorted' : ordered'.Pairwise fun p q => p.1 ≤ q.1) (hperm : ordered'.Perm ordered) :
    ordered' = ordered := by
  refine hperm.eq_of_pairwise (fun p q hp hq hpq hqp => ?_) hsorted' hsorted
  have hpos : p.1 = q.1 := le_antisymm hpq hqp
  refine Prod.ext hpos ?_
  by_contra hval
  exact h ⟨p, hperm.mem_iff.mp hp, q, hq, hpos, hval⟩

theorem RunsSoFar.dense_ordered {s : SparseData} {stop top : Int} {defaultVal : Float8}
    {ordered : List PosVal} (h : RunsSoFar s (orderedRuns stop defaultVal ordered))
    (hne : ordered ≠ []) (hsorted : ordered.Pairwise fun p q => p.1 ≤ q.1)
    (hagree : Agreeing ordered) (hrange : ∀ p ∈ ordered, InRange p)
    (htop : IsTop stop ordered top) :
    s.dense = segment (valueAt ordered defaultVal) 1 top.toNat := by
  rw [h.dense_eq, flat_orderedRuns defaultVal hne hsorted hagree hrange htop]

theorem orderedRuns_positive (stop : Int) (defaultVal : Float8) (ordered : List PosVal) :
    ∀ pair ∈ orderedRuns stop defaultVal ordered, 0 < pair.1 := by
  cases ordered with
  | nil => simp [orderedRuns]
  | cons first rest =>
      rw [orderedRuns, List.forall_mem_append]
      exact ⟨gapRuns_positive _ _, runsFrom_positive Nat.one_pos⟩

/-- A SparseData of positive runs is well formed once its size is true. -/
theorem RunsSoFar.wellFormed {s : SparseData} {pairs : List (Nat × Float8)} (h : RunsSoFar s pairs)
    (hpositive : ∀ pair ∈ pairs, 0 < pair.1) (htotal : s.totalValueCount.toInt = s.dense.length)
    (hne : s.dense ≠ []) : WellFormed s := by
  have hlength := h.hasRuns.length_dense
  have hpos := List.length_pos_of_ne_nil hne
  refine ⟨⟨_, h.hasRuns, ?_, by rw [htotal, hlength]⟩, by omega⟩
  rw [List.forall_mem_map]
  exact hpositive

theorem Near.perm {pairs pairs' : List PosVal} (h : Near pairs) (hperm : pairs'.Perm pairs) :
    Near pairs' := by
  intro p hp q hq
  exact h p (hperm.mem_iff.mp hp) q (hperm.mem_iff.mp hq)

/-- Neither the order of the pairs nor that of `qsort` among equals matters. -/
theorem pairsToSdata_near {pairs : List PosVal} (hne : pairs ≠ [])
    (hcount : 4 * pairs.length ≤ maxAllocSize) (hrange : ∀ p ∈ pairs, InRange p)
    (hnear : Near pairs) (hfree : ¬ Conflicting pairs) {stop top : Int}
    (hstop : stop < 9223372036854775808) (htop : IsTop stop pairs top) (defaultVal : Float8)
    {ordered : List PosVal} (hperm : ordered.Perm pairs)
    (hsorted : ordered.Pairwise fun p q => p.1 ≤ q.1) :
    ∃ s, (∀ qsort pairs', Sorts qsort → pairs'.Perm pairs →
        pairsToSdata qsort pairs' stop defaultVal = .ok s) ∧
      RunsSoFar s (orderedRuns stop defaultVal ordered) ∧
      s.totalValueCount = Int32.ofInt stop ∧
      s.dense = segment (valueAt pairs defaultVal) 1 top.toNat := by
  have hfree' : ¬ Conflicting ordered := by rwa [conflicting_perm hperm]
  have hagree : Agreeing ordered := (agreeing_iff hsorted).mpr hfree'
  have hne' : ordered ≠ [] := by
    rintro rfl
    exact hne hperm.nil_eq.symm
  have hrange' : ∀ p ∈ ordered, InRange p := fun p hp => hrange p (hperm.mem_iff.mp hp)
  have hlength := hperm.length_eq
  have hmax : maxAllocSize < 1073741824 := by decide
  have ⟨s, hs, hsofar, htotal⟩ :=
    (orderedToSdata_spec hne' (by omega) hrange' hstop defaultVal).2 hagree
  refine ⟨s, fun qsort pairs' hqsort hperm' => ?_, hsofar, htotal, ?_⟩
  · have ⟨order, horder, hsame, hsorted'⟩ := qsortOrder_of_near hqsort (hnear.perm hperm')
    have hcount' : 4 * pairs'.length ≤ maxAllocSize := by rwa [hperm'.length_eq]
    have hunique := ordered_unique hfree' hsorted hsorted'
      ((hsame.trans hperm').trans hperm.symm)
    rw [(pairsToSdata_eq hqsort hcount' stop defaultVal horder).1, hunique, hs]
  · rw [hsofar.dense_ordered hne' hsorted hagree hrange' (htop.perm hperm),
      valueAt_perm hfree hperm]

/-- A conflict is met where the comparison orders the positions. -/
theorem pairsToSdata_conflicting {qsort : Qsort} (hqsort : Sorts qsort) {pairs : List PosVal}
    (hne : pairs ≠ []) (hcount : 4 * pairs.length ≤ maxAllocSize)
    (hrange : ∀ p ∈ pairs, InRange p) (hnear : Near pairs) (hconflict : Conflicting pairs)
    {stop : Int} (hstop : stop < 9223372036854775808) (defaultVal : Float8) :
    pairsToSdata qsort pairs stop defaultVal = .error (.ereport .invalidParameterValue
      "posit_to_sdata conflicting values for the same position") := by
  have ⟨order, horder, hperm, hsorted⟩ := qsortOrder_of_near hqsort hnear
  have hne' : order.map (pick pairs) ≠ [] := by
    intro hnil
    rw [hnil] at hperm
    exact hne hperm.nil_eq.symm
  have hlength := hperm.length_eq
  have hmax : maxAllocSize < 1073741824 := by decide
  have hspec := orderedToSdata_spec hne' (by omega)
    (fun p hp => hrange p (hperm.mem_iff.mp hp)) hstop defaultVal
  rw [(pairsToSdata_eq hqsort hcount stop defaultVal horder).1]
  apply hspec.1
  rw [agreeing_iff hsorted, not_not, conflicting_perm hperm]
  exact hconflict

theorem near_of_le {pairs : List PosVal} {stop : Int} (hstop : stop < 2147483648)
    (h : ∀ p ∈ pairs, 1 ≤ p.1 ∧ p.1 ≤ stop) : Near pairs := by
  intro p hp q hq
  have hup := (h p hp).2
  have hlow := (h q hq).1
  omega

theorem pairsToSdata_tooMany {qsort : Qsort} {pairs : List PosVal}
    (hcount : maxAllocSize < 4 * pairs.length) (stop : Int) (defaultVal : Float8) :
    pairsToSdata qsort pairs stop defaultVal =
      .error (.elog "invalid memory alloc request size") := by
  unfold pairsToSdata positionToSdata
  rw [palloc_error hcount, error_bind]

section Within

variable {pairs : List PosVal} {stop : Int} (hne : pairs ≠ []) (hstop : stop < 2147483648)
  (hrange : ∀ p ∈ pairs, 1 ≤ p.1 ∧ p.1 ≤ stop)

include hne hstop hrange

theorem pairsToSdata_within (hcount : 4 * pairs.length ≤ maxAllocSize)
    (hfree : ¬ Conflicting pairs) (defaultVal : Float8) :
    ∃ s, WellFormed s ∧ s.totalValueCount.toInt = stop ∧
      s.dense = segment (valueAt pairs defaultVal) 1 stop.toNat ∧
      ∀ qsort pairs', Sorts qsort → pairs'.Perm pairs →
        pairsToSdata qsort pairs' stop defaultVal = .ok s := by
  have hin : ∀ p ∈ pairs, InRange p := fun p hp =>
    ⟨(hrange p hp).1, lt_of_le_of_lt (hrange p hp).2 (by omega)⟩
  have htop : IsTop stop pairs stop := ⟨fun p hp => (hrange p hp).2, le_refl _, .inl rfl⟩
  have ⟨first, hfirst⟩ := List.exists_mem_of_ne_nil pairs hne
  have hone := hrange first hfirst
  have hperm := List.mergeSort_perm pairs fun p q => decide (p.1 ≤ q.1)
  have hsorted : (pairs.mergeSort fun p q => decide (p.1 ≤ q.1)).Pairwise fun p q => p.1 ≤ q.1 := by
    have hbool := @List.pairwise_mergeSort _ (fun p q : PosVal => decide (p.1 ≤ q.1))
      (fun a b c => by simpa using le_trans) (fun a b => by simpa using le_total a.1 b.1) pairs
    simpa using hbool
  have ⟨s, hs, hsofar, htotal, hdense⟩ := pairsToSdata_near hne hcount hin
    (near_of_le hstop hrange) hfree (by omega) htop defaultVal hperm hsorted
  have htotal' : s.totalValueCount.toInt = stop := by
    rw [htotal, int32_toInt_ofInt, toInt32_of_mem (by omega) hstop]
  have hlength : s.totalValueCount.toInt = s.dense.length := by
    rw [htotal', hdense, length_segment]
    omega
  refine ⟨s, hsofar.wellFormed (orderedRuns_positive _ _ _) hlength ?_, htotal', hdense, hs⟩
  apply List.ne_nil_of_length_pos
  omega

end Within

/-- A `qsort` that merges. -/
def sortIndices : Qsort := fun cmp index =>
  .ok ((index.attach.mergeSort fun i j => decide (cmp i j ≤ 0)).map Subtype.val)

theorem sorts_sortIndices : Sorts sortIndices where
  sorted cmp index h := by
    refine ⟨_, rfl, ?_⟩
    have hsorted := @List.pairwise_mergeSort _
      (fun i j : { i // i ∈ index } => decide (cmp i j ≤ 0))
      (fun a b c hab hbc => by
        rw [decide_eq_true_eq] at hab hbc ⊢
        exact h.trans a a.2 b b.2 c c.2 hab hbc)
      (fun a b => by
        have hswap := h.swap b b.2 a a.2
        rw [Bool.or_eq_true, decide_eq_true_eq, decide_eq_true_eq]
        omega) index.attach
    rw [List.pairwise_map]
    exact hsorted.imp fun hle => of_decide_eq_true hle
  perm cmp index order h := by
    rw [← Except.ok.inj h]
    have hperm := List.mergeSort_perm index.attach fun i j => decide (cmp i j ≤ 0)
    have hmap := hperm.map Subtype.val
    rwa [List.attach_map_subtype_val] at hmap
  not_raised cmp index e h := nomatch h

end Madlib.Svec
