import Mathlib
import Madlib.Svec.ArrayCast
import Madlib.Svec.Pivot

/-!
# The bridge to Eigen sparse vectors

An Eigen vector stores its non-zero elements under ascending indices.  On the way there the
runs of a value other than zero are stored one by one.  On the way back a run is only written
out when a stored value differs from the one before, however far apart the two are.
-/

namespace Madlib.Svec

open Madlib.Backend Madlib.Lib.MachineInt Madlib.Lib.RunLength CountCode

/-- `Eigen::SparseVector<double>`, whose indices are `int`s. -/
structure EigenSparseVector where
  size : Nat
  entries : List (Nat × Float8)
  ascending : (entries.map Prod.fst).Pairwise (· < ·)
  lt_size : ∀ entry ∈ entries, entry.1 < size
  size_lt : size < 2147483648

/-- The elements from position `pos` on.  Up to the first entry they are `fill`, and in the gap
behind an entry they are what `behind` makes of its value. -/
def fillFrom (behind : Float8 → Float8) (size : Nat) :
    Float8 → Nat → List (Nat × Float8) → List Float8
  | fill, pos, [] => List.replicate (size - pos) fill
  | fill, pos, (index, value) :: entries =>
      List.replicate (index - pos) fill ++
        value :: fillFrom behind size (behind value) (index + 1) entries

/-- The dense vector: zero at every index that is not stored. -/
def EigenSparseVector.dense (vec : EigenSparseVector) : List Float8 :=
  fillFrom (fun _ => 0) vec.size 0 0 vec.entries

/-- The vector in which every gap repeats the value in front of it. -/
def EigenSparseVector.held (vec : EigenSparseVector) : List Float8 :=
  fillFrom id vec.size 0 0 vec.entries

/-! ## LegacySparseVectorToSparseColumnVector -/

def EigenSparseVector.zeros (size : Int32) : EigenSparseVector where
  size := size.toInt.toNat
  entries := []
  ascending := List.Pairwise.nil
  lt_size _ h := nomatch h
  size_lt := by
    have hmem := int32_mem size
    omega

/-- `vec.insertBack(index) = value`, behind all entries there are. -/
def EigenSparseVector.insertBack (vec : EigenSparseVector) (index : Int) (value : Float8) :
    Except Fault EigenSparseVector :=
  if h : 0 ≤ index ∧ index < vec.size ∧ ∀ entry ∈ vec.entries, (entry.1 : Int) < index then
    .ok { vec with
      entries := vec.entries ++ [(index.toNat, value)]
      ascending := by
        rw [List.map_append, List.pairwise_append]
        refine ⟨vec.ascending, List.pairwise_singleton _ _, fun i hi j hj => ?_⟩
        have ⟨entry, hentry, hindex⟩ := List.mem_map.mp hi
        have hlt := h.2.2 entry hentry
        rw [List.map_singleton, List.mem_singleton] at hj
        omega
      lt_size := by
        intro entry hentry
        rw [List.mem_append, List.mem_singleton] at hentry
        rcases hentry with hentry | hentry
        · exact vec.lt_size entry hentry
        · rw [hentry]
          omega }
  else .error .outOfBounds

/-- The elements of one run, from `logicalIdx` on. -/
def insertRun (value : Float8) : Nat → Int → EigenSparseVector →
    Except Fault (Int × EigenSparseVector)
  | 0, logicalIdx, vec => .ok (logicalIdx, vec)
  | count + 1, logicalIdx, vec => do
      let vec ← vec.insertBack logicalIdx value
      insertRun value count (toInt32 (logicalIdx + 1)) vec

/-- One round of the loop over the runs. -/
def eigenRun (value : Float8) (runLength : Int) (logicalIdx : Int) (vec : EigenSparseVector) :
    Except Fault (Int × EigenSparseVector) :=
  if float8Eq value 0 then .ok (toInt32 (logicalIdx + runLength), vec)
  else insertRun value runLength.toNat logicalIdx vec

/-- The remaining rounds. -/
def eigenRuns (sdata : SparseData) :
    Nat → Nat → IndexPtr → Int → EigenSparseVector → Except Fault EigenSparseVector
  | 0, _, _, _, vec => .ok vec
  | rounds + 1, physicalIdx, ix, logicalIdx, vec => do
      let runLength ← compwordToInt8 ix
      let value ← valref sdata physicalIdx
      let (logicalIdx, vec) ← eigenRun value runLength logicalIdx vec
      let ix ← advance ix
      eigenRuns sdata rounds (physicalIdx + 1) ix logicalIdx vec

def legacySparseVectorToSparseColumnVector (inVec : SvecType) :
    Except Fault EigenSparseVector :=
  let sdata := sdataFromSvec inVec
  eigenRuns sdata sdata.uniqueValueCount 0 sdata.index.data 0
    (EigenSparseVector.zeros sdata.totalValueCount)

/-! ## SparseColumnVectorToLegacySparseVector -/

/-- `lastIndex`, `runValue` and the runs written out. -/
abbrev BridgeState := Nat × Float8 × SparseData

/-- The first entry. -/
def bridgeFirst : List (Nat × Float8) → Except Fault BridgeState
  | [] => .ok (0, 0, makeSparseData)
  | (index, value) :: _ =>
      if index = 0 then .ok (0, value, makeSparseData)
      else if value ≠ 0 then do
        let sdata ← addRunToSdata 0 index makeSparseData
        pure (index, value, sdata)
      else .ok (0, 0, makeSparseData)

/-- One round of the loop over the other entries. -/
def bridgeRound (state : BridgeState) (entry : Nat × Float8) : Except Fault BridgeState :=
  let (lastIndex, runValue, sdata) := state
  if entry.2 ≠ runValue then do
    let sdata ← addRunToSdata runValue ((entry.1 : Int) - lastIndex) sdata
    pure (entry.1, entry.2, sdata)
  else .ok state

def sparseColumnVectorToLegacySparseVector (inVec : EigenSparseVector) : Except Fault SvecType := do
  let state ← bridgeFirst inVec.entries
  let (lastIndex, runValue, sdata) ← inVec.entries.tail.foldlM bridgeRound state
  let sdata ← addRunToSdata runValue ((inVec.size : Int) - lastIndex) sdata
  svecFromSparsedata (tallied sdata inVec.size) true

/-! ## The way back -/

/-- The runs written out and the run that goes on make up the elements `seen`. -/
def BridgeAt (state : BridgeState) (seen : List Float8) : Prop :=
  state.1 < seen.length ∧
    ∃ runs, CompressedAt (state.2.1, (seen.length : Int) - state.1, state.2.2) runs seen

/-- The run goes on through a gap. -/
theorem BridgeAt.grow {state : BridgeState} {seen : List Float8} (h : BridgeAt state seen)
    (gap : Nat) : BridgeAt state (seen ++ List.replicate gap state.2.1) := by
  have ⟨hlt, runs, hat⟩ := h
  have hlength : (seen ++ List.replicate gap state.2.1).length = seen.length + gap := by
    rw [List.length_append, List.length_replicate]
  have htot : ((seen.length + gap : Nat) : Int) - state.1 = (seen.length : Int) - state.1 + gap := by
    omega
  refine ⟨by omega, runs, ?_, ?_⟩
  · rw [hlength, htot]
    exact hat.output.grow hat.positive (Int.natCast_nonneg gap)
  · rw [hlength, htot]
    have hpositive := hat.positive
    dsimp only at hpositive ⊢
    omega

/-- An entry right behind the elements seen. -/
theorem bridgeRound_spec {state : BridgeState} {seen : List Float8} (h : BridgeAt state seen)
    (hlength : seen.length < 2147483648) (value : Float8) :
    ∃ state', bridgeRound state (seen.length, value) = .ok state' ∧ state'.2.1 = value ∧
      BridgeAt state' (seen ++ [value]) := by
  have ⟨hlt, runs, hat⟩ := h
  by_cases hvalue : value = state.2.1
  · refine ⟨state, ?_, hvalue.symm, ?_⟩
    · show (if value ≠ state.2.1 then _ else _) = _
      rw [if_neg (not_not.mpr hvalue)]
    · rw [hvalue]
      exact h.grow 1
  · have hseen := hat.length_seen
    have ⟨s, hadd, hout⟩ := hat.output.change hat.positive (Ne.symm hvalue) Int.one_pos (by
      dsimp only at hseen ⊢
      omega)
    have hnext : ((seen ++ [value]).length : Int) - (seen.length : Nat) = 1 := by
      rw [List.length_append, List.length_singleton]
      omega
    refine ⟨(seen.length, value, s), ?_, rfl, ?_, ?_⟩
    · show (if value ≠ state.2.1 then _ else _) = _
      rw [if_pos hvalue]
      dsimp only
      rw [hadd]
      rfl
    · rw [List.length_append, List.length_singleton]
      exact Nat.lt_succ_self _
    · refine ⟨runs ++ [((seen.length : Int) - state.1).toNat], ?_, ?_⟩
      · dsimp only
        rw [hnext]
        exact hout
      · dsimp only
        rw [hnext]
        exact Int.one_pos

/-- The indices ascend from `pos` on and stay below the size. -/
def EntriesFrom (size : Nat) : Nat → List (Nat × Float8) → Prop
  | pos, [] => pos ≤ size
  | pos, (index, _) :: entries => pos ≤ index ∧ index < size ∧ EntriesFrom size (index + 1) entries

theorem entriesFrom_of_ascending {size : Nat} {entries : List (Nat × Float8)} {pos : Nat}
    (hpos : pos ≤ size) (hlo : ∀ entry ∈ entries, pos ≤ entry.1)
    (hhi : ∀ entry ∈ entries, entry.1 < size)
    (hascending : (entries.map Prod.fst).Pairwise (· < ·)) : EntriesFrom size pos entries := by
  induction entries generalizing pos with
  | nil => exact hpos
  | cons entry entries ih =>
      rw [List.forall_mem_cons] at hlo hhi
      rw [List.map_cons, List.pairwise_cons] at hascending
      refine ⟨hlo.1, hhi.1, ih hhi.1 ?_ hhi.2 hascending.2⟩
      intro later hlater
      exact hascending.1 later.1 (List.mem_map_of_mem hlater)

theorem EigenSparseVector.entriesFrom (vec : EigenSparseVector) :
    EntriesFrom vec.size 0 vec.entries :=
  entriesFrom_of_ascending (Nat.zero_le _) (fun _ _ => Nat.zero_le _) vec.lt_size vec.ascending

theorem EntriesFrom.le_index {size pos : Nat} {entries : List (Nat × Float8)}
    (h : EntriesFrom size pos entries) : ∀ entry ∈ entries, pos ≤ entry.1 := by
  induction entries generalizing pos with
  | nil => exact fun _ hmem => nomatch hmem
  | cons entry entries ih =>
      have ⟨hlo, _, hrest⟩ := h
      rw [List.forall_mem_cons]
      refine ⟨hlo, fun later hlater => ?_⟩
      have hle := ih hrest later hlater
      omega

theorem EntriesFrom.mono {size pos pos' : Nat} {entries : List (Nat × Float8)}
    (h : EntriesFrom size pos' entries) (hle : pos ≤ pos') : EntriesFrom size pos entries := by
  cases entries with
  | nil => exact hle.trans h
  | cons entry entries => exact ⟨hle.trans h.1, h.2⟩

theorem length_fillFrom {size : Nat} {entries : List (Nat × Float8)} {pos : Nat}
    (behind : Float8 → Float8) (fill : Float8) (h : EntriesFrom size pos entries) :
    (fillFrom behind size fill pos entries).length = size - pos := by
  induction entries generalizing fill pos with
  | nil => rw [fillFrom, List.length_replicate]
  | cons entry entries ih =>
      have ⟨hlo, hhi, hrest⟩ := h
      rw [fillFrom, List.length_append, List.length_replicate, List.length_cons, ih _ hrest]
      omega

/-- A position without an entry is filled. -/
theorem fillFrom_of_lt {size : Nat} {entries : List (Nat × Float8)} {pos : Nat}
    (behind : Float8 → Float8) (fill : Float8) (h : EntriesFrom size (pos + 1) entries) :
    fillFrom behind size fill pos entries = fill :: fillFrom behind size fill (pos + 1) entries := by
  cases entries with
  | nil =>
      have hlt : pos + 1 ≤ size := h
      have hsub : size - pos = size - (pos + 1) + 1 := by omega
      rw [fillFrom, fillFrom, hsub, List.replicate_succ]
  | cons entry entries =>
      have ⟨hlo, _, _⟩ := h
      have hsub : entry.1 - pos = entry.1 - (pos + 1) + 1 := by omega
      rw [fillFrom, fillFrom, hsub, List.replicate_succ, List.cons_append]

/-- The rest of the entries, and the run that is left at the end. -/
theorem foldlM_bridgeRound {size : Nat} (hsize : size < 2147483648)
    {entries : List (Nat × Float8)} {state : BridgeState} {seen : List Float8}
    (h : BridgeAt state seen) (hentries : EntriesFrom size seen.length entries) :
    ∃ state', entries.foldlM bridgeRound state = .ok state' ∧
      BridgeAt state' (seen ++ fillFrom id size state.2.1 seen.length entries) := by
  induction entries generalizing state seen with
  | nil => exact ⟨state, rfl, h.grow _⟩
  | cons entry entries ih =>
      have ⟨hlo, hhi, hrest⟩ := hentries
      have hgrown := h.grow (entry.1 - seen.length)
      have hlength : (seen ++ List.replicate (entry.1 - seen.length) state.2.1).length = entry.1 := by
        rw [List.length_append, List.length_replicate]
        omega
      have ⟨state', hround, hvalue, hat⟩ := bridgeRound_spec hgrown (by omega) entry.2
      rw [hlength] at hround
      have hnext : (seen ++ List.replicate (entry.1 - seen.length) state.2.1 ++ [entry.2]).length =
          entry.1 + 1 := by
        rw [List.length_append, hlength, List.length_singleton]
      have ⟨state'', hfold, hat'⟩ := ih hat (by rw [hnext]; exact hrest)
      refine ⟨state'', ?_, ?_⟩
      · rw [List.foldlM_cons, hround, ok_bind, hfold]
      · rw [hnext, hvalue, List.append_assoc, List.append_assoc] at hat'
        exact hat'

/-- Zeros in front of the first entry. -/
theorem bridgeAt_zeros {count : Nat} (h : 0 < count) :
    BridgeAt (0, 0, makeSparseData) (List.replicate count 0) := by
  have hstart : BridgeAt (0, 0, makeSparseData) [0] :=
    ⟨Nat.one_pos, [], compressedAt_singleton 0⟩
  have hcount : List.replicate count (0 : Float8) = [0] ++ List.replicate (count - 1) 0 := by
    rw [List.singleton_append, ← List.replicate_succ]
    congr 1
    omega
  rw [hcount]
  exact hstart.grow (count - 1)

theorem bridgeFirst_spec {index : Nat} (value : Float8) (rest : List (Nat × Float8))
    (h : index < 2147483648) :
    ∃ state, bridgeFirst ((index, value) :: rest) = .ok state ∧ state.2.1 = value ∧
      BridgeAt state (List.replicate index 0 ++ [value]) := by
  by_cases hindex : index = 0
  · subst hindex
    exact ⟨(0, value, makeSparseData), rfl, rfl, Nat.one_pos, [], compressedAt_singleton value⟩
  · have hzeros := bridgeAt_zeros (Nat.pos_of_ne_zero hindex)
    have ⟨state, hround, hvalue, hat⟩ := bridgeRound_spec hzeros (by simpa using h) value
    refine ⟨state, ?_, hvalue, hat⟩
    rw [List.length_replicate] at hround
    rw [← hround]
    show (if index = 0 then _ else if value ≠ 0 then _ else _) = if value ≠ 0 then _ else _
    rw [if_neg hindex]
    dsimp only
    rw [Nat.cast_zero, sub_zero]

/-- What an Eigen vector is converted to: every gap repeats the value in front of it. -/
theorem sparseColumnVectorToLegacySparseVector_spec {vec : EigenSparseVector}
    (hsize : 0 < vec.size) :
    ∃ s, Packed s vec.held ∧
      sparseColumnVectorToLegacySparseVector vec = svecFromSparsedata s true := by
  have hlt := vec.size_lt
  have hentries := vec.entriesFrom
  have hloop : ∃ state state',
      bridgeFirst vec.entries = .ok state ∧
      vec.entries.tail.foldlM bridgeRound state = .ok state' ∧
      BridgeAt state' vec.held := by
    unfold EigenSparseVector.held
    cases hcases : vec.entries with
    | nil => exact ⟨_, _, rfl, rfl, bridgeAt_zeros hsize⟩
    | cons entry entries =>
        rw [hcases] at hentries
        have ⟨_, hhi, hrest⟩ := hentries
        have ⟨state, hfirst, hvalue, hat⟩ := bridgeFirst_spec entry.2 entries (hhi.trans hlt)
        have hlength : (List.replicate entry.1 (0 : Float8) ++ [entry.2]).length = entry.1 + 1 := by
          rw [List.length_append, List.length_replicate, List.length_singleton]
        rw [← hlength] at hrest
        have ⟨state', hfold, hat'⟩ := foldlM_bridgeRound hlt hat hrest
        refine ⟨state, state', hfirst, hfold, ?_⟩
        rw [hlength, hvalue, List.append_assoc] at hat'
        exact hat'
  have ⟨state, state', hfirst, hfold, hat⟩ := hloop
  have hlength : vec.held.length = vec.size := length_fillFrom id 0 hentries
  have ⟨_, runs, hcompressed⟩ := hat
  have ⟨s, hadd, hpacked⟩ := hcompressed.finish (by rw [hlength]; exact hlt)
  rw [hlength] at hadd hpacked
  refine ⟨_, hpacked, ?_⟩
  unfold sparseColumnVectorToLegacySparseVector
  rw [hfirst, ok_bind, hfold, ok_bind]
  dsimp only
  rw [hadd, ok_bind]

/-! ## Gaps -/

/-- Every value other than zero is followed by another entry at once, or is the last element. -/
def EigenSparseVector.NoGaps (vec : EigenSparseVector) : Prop :=
  ∀ entry ∈ vec.entries, entry.2 = 0 ∨ entry.1 + 1 = vec.size ∨
    entry.1 + 1 ∈ vec.entries.map Prod.fst

theorem replicate_eq_replicate_iff {count : Nat} {v w : Float8} :
    List.replicate count v = List.replicate count w ↔ v = w ∨ count = 0 := by
  by_cases h : count = 0
  · simp [h]
  · rw [List.replicate_right_inj h]
    simp [h]

theorem fillFrom_id_eq_iff {size : Nat} {entries : List (Nat × Float8)} {pos : Nat}
    {fill : Float8} (h : EntriesFrom size pos entries) :
    fillFrom id size fill pos entries = fillFrom (fun _ => 0) size 0 pos entries ↔
      (fill = 0 ∨ pos = size ∨ pos ∈ entries.map Prod.fst) ∧
      ∀ entry ∈ entries, entry.2 = 0 ∨ entry.1 + 1 = size ∨ entry.1 + 1 ∈ entries.map Prod.fst := by
  induction entries generalizing fill pos with
  | nil =>
      have hle : pos ≤ size := h
      have hempty : size - pos = 0 ↔ pos = size := by omega
      rw [fillFrom, fillFrom, replicate_eq_replicate_iff, hempty]
      simp
  | cons entry entries ih =>
      have ⟨hlo, hhi, hrest⟩ := h
      have hfirst : pos ∈ (entry :: entries).map Prod.fst ↔ entry.1 - pos = 0 := by
        rw [List.map_cons, List.mem_cons]
        constructor
        · intro hmem
          rcases hmem with heq | hmem
          · omega
          · have ⟨later, hlater, heq⟩ := List.mem_map.mp hmem
            have hle := hrest.le_index later hlater
            omega
        · intro hzero
          left
          omega
      have hlater : ∀ later : Nat × Float8, entry.1 ≤ later.1 →
          (later.1 + 1 ∈ (entry :: entries).map Prod.fst ↔
            later.1 + 1 ∈ entries.map Prod.fst) := by
        intro later hle
        rw [List.map_cons, List.mem_cons]
        constructor
        · intro hmem
          exact hmem.resolve_left (by omega)
        · exact .inr
      have hrests : (∀ later ∈ entries, later.2 = 0 ∨ later.1 + 1 = size ∨
            later.1 + 1 ∈ (entry :: entries).map Prod.fst) ↔
          ∀ later ∈ entries, later.2 = 0 ∨ later.1 + 1 = size ∨
            later.1 + 1 ∈ entries.map Prod.fst := by
        apply forall₂_congr
        intro later hmem
        have hle := hrest.le_index later hmem
        rw [hlater later (by omega)]
      rw [List.forall_mem_cons, hfirst, hlater entry (le_refl _), hrests, fillFrom, fillFrom,
        List.append_eq_append_iff_of_size_eq_left (by simp), replicate_eq_replicate_iff,
        List.cons.injEq, ih hrest]
      have hne : pos ≠ size := by omega
      have hidle : ∀ v : Float8, id v = v := fun _ => rfl
      simp only [hidle, hne, false_or, true_and]

theorem EigenSparseVector.held_eq_dense_iff (vec : EigenSparseVector) :
    vec.held = vec.dense ↔ vec.NoGaps := by
  unfold EigenSparseVector.held EigenSparseVector.dense EigenSparseVector.NoGaps
  rw [fillFrom_id_eq_iff vec.entriesFrom]
  simp

/-- An Eigen vector is converted to an svec of the same dense vector exactly when nothing is
missing behind a value other than zero. -/
theorem sparseColumnVectorToLegacySparseVector_iff {vec : EigenSparseVector}
    (hsize : 0 < vec.size) :
    (∃ svec, sparseColumnVectorToLegacySparseVector vec = .ok svec ∧
      (sdataFromSvec svec).dense = vec.dense) ↔
    vec.NoGaps ∧ packedSize vec.dense ≤ maxAllocSize := by
  have ⟨s, hpacked, hconvert⟩ := sparseColumnVectorToLegacySparseVector_spec hsize
  rw [← vec.held_eq_dense_iff, hconvert]
  by_cases hfits : packedSize vec.held ≤ maxAllocSize
  · have ⟨svec, hsvec, _, hdense⟩ := hpacked.svecFromSparsedata_ok hfits
    constructor
    · intro h
      have ⟨svec', hsvec', hdense'⟩ := h
      have heq : svec = svec' := Except.ok.inj (hsvec.symm.trans hsvec')
      have hheld : vec.held = vec.dense := by rw [← hdense, heq, hdense']
      exact ⟨hheld, hheld ▸ hfits⟩
    · intro h
      exact ⟨svec, hsvec, hdense.trans h.1⟩
  · have herror := hpacked.svecFromSparsedata_error (Nat.lt_of_not_le hfits)
    constructor
    · intro h
      have ⟨svec, hsvec, _⟩ := h
      cases herror.symm.trans hsvec
    · intro h
      exact absurd (h.1 ▸ h.2) hfits

/-! ## There and back -/

/-- The entries of the elements of `values` other than zero, from position `pos` on. -/
def storedEntries : Nat → List Float8 → List (Nat × Float8)
  | _, [] => []
  | pos, v :: values =>
      if float8Eq v 0 then storedEntries (pos + 1) values
      else (pos, v) :: storedEntries (pos + 1) values

theorem storedEntries_append (pos : Nat) (values values' : List Float8) :
    storedEntries pos (values ++ values') =
      storedEntries pos values ++ storedEntries (pos + values.length) values' := by
  induction values generalizing pos with
  | nil => rfl
  | cons v values ih =>
      have hpos : pos + (v :: values).length = pos + 1 + values.length := by
        rw [List.length_cons]
        omega
      rw [List.cons_append, storedEntries, storedEntries, ih, hpos]
      split
      · rfl
      · rw [List.cons_append]

theorem storedEntries_zeros {v : Float8} (hv : float8Eq v 0 = true) (pos count : Nat) :
    storedEntries pos (List.replicate count v) = [] := by
  induction count generalizing pos with
  | zero => rfl
  | succ count ih => rw [List.replicate_succ, storedEntries, if_pos hv, ih]

theorem entriesFrom_storedEntries (pos : Nat) (values : List Float8) :
    EntriesFrom (pos + values.length) pos (storedEntries pos values) := by
  induction values generalizing pos with
  | nil => exact Nat.le_refl pos
  | cons v values ih =>
      have hsize : pos + (v :: values).length = pos + 1 + values.length := by
        rw [List.length_cons]
        omega
      have htail := ih (pos + 1)
      rw [hsize, storedEntries]
      split
      · exact htail.mono (Nat.le_succ pos)
      · exact ⟨le_refl _, by omega, htail⟩

theorem EntriesFrom.lt_size {size pos : Nat} {entries : List (Nat × Float8)}
    (h : EntriesFrom size pos entries) : ∀ entry ∈ entries, entry.1 < size := by
  induction entries generalizing pos with
  | nil => exact fun _ hmem => nomatch hmem
  | cons entry entries ih =>
      rw [List.forall_mem_cons]
      exact ⟨h.2.1, ih h.2.2⟩

/-- The elements `seen` have been gone through. -/
structure EigenAt (size : Nat) (vec : EigenSparseVector) (seen : List Float8) : Prop where
  size_eq : vec.size = size
  entries_eq : vec.entries = storedEntries 0 seen

theorem EigenAt.insertBack {size : Nat} {vec : EigenSparseVector} {seen : List Float8}
    (h : EigenAt size vec seen) {v : Float8} (hv : float8Eq v 0 = false)
    (hlt : seen.length < size) :
    ∃ vec', vec.insertBack seen.length v = .ok vec' ∧ EigenAt size vec' (seen ++ [v]) := by
  have hsize := h.size_eq
  have hbehind : ∀ entry ∈ vec.entries, (entry.1 : Int) < seen.length := by
    intro entry hentry
    rw [h.entries_eq] at hentry
    have hindex := (entriesFrom_storedEntries 0 seen).lt_size entry hentry
    omega
  refine ⟨_, dif_pos ⟨by omega, by omega, hbehind⟩, hsize, ?_⟩
  show vec.entries ++ _ = _
  rw [h.entries_eq, storedEntries_append, Nat.zero_add, storedEntries, hv, Int.toNat_natCast]
  rfl

theorem EigenAt.insertRun {size : Nat} (hsize : size < 2147483648) {vec : EigenSparseVector}
    {seen : List Float8} (h : EigenAt size vec seen) {v : Float8} (hv : float8Eq v 0 = false)
    {count : Nat} (hle : seen.length + count ≤ size) :
    ∃ vec', insertRun v count seen.length vec = .ok ((seen.length + count : Nat), vec') ∧
      EigenAt size vec' (seen ++ List.replicate count v) := by
  induction count generalizing vec seen with
  | zero =>
      refine ⟨vec, rfl, ?_⟩
      rw [List.replicate_zero, List.append_nil]
      exact h
  | succ count ih =>
      have ⟨vec', hinsert, h'⟩ := h.insertBack hv (by omega)
      have hlength : (seen ++ [v]).length = seen.length + 1 := by
        rw [List.length_append, List.length_singleton]
      have hnext : toInt32 ((seen.length : Int) + 1) = (seen ++ [v]).length := by
        rw [hlength, toInt32_of_mem (by omega) (by omega)]
        omega
      have ⟨vec'', hrun, h''⟩ := ih h' (by omega)
      have hsum : (seen ++ [v]).length + count = seen.length + (count + 1) := by omega
      refine ⟨vec'', ?_, ?_⟩
      · rw [Svec.insertRun, hinsert, ok_bind, hnext, hrun, hsum]
      · rw [List.append_assoc, List.singleton_append, ← List.replicate_succ] at h''
        exact h''

theorem EigenAt.eigenRun {size : Nat} (hsize : size < 2147483648) {vec : EigenSparseVector}
    {seen : List Float8} (h : EigenAt size vec seen) (v : Float8) {count : Nat}
    (hle : seen.length + count ≤ size) :
    ∃ vec', eigenRun v count seen.length vec = .ok ((seen.length + count : Nat), vec') ∧
      EigenAt size vec' (seen ++ List.replicate count v) := by
  unfold Svec.eigenRun
  cases hv : float8Eq v 0 with
  | true =>
      refine ⟨vec, ?_, h.size_eq, ?_⟩
      · rw [if_pos rfl, toInt32_of_mem (by omega) (by omega)]
        rfl
      · rw [h.entries_eq, storedEntries_append, storedEntries_zeros hv, List.append_nil]
  | false =>
      rw [if_neg (by simp), Int.toNat_natCast]
      exact h.insertRun hsize hv hle

theorem eigenRuns_spec {sdata : SparseData} {size : Nat} (hsize : size < 2147483648)
    {runs : List Nat} {vals : List Float8} {i : Nat} {ix : IndexPtr} {vec : EigenSparseVector}
    {seen : List Float8} (hindex : IndexRuns ix runs) (hdrop : sdata.vals.drop i = vals)
    (hlength : runs.length = vals.length) (hle : seen.length + runs.sum ≤ size)
    (h : EigenAt size vec seen) :
    ∃ vec', eigenRuns sdata runs.length i ix seen.length vec = .ok vec' ∧
      EigenAt size vec' (seen ++ expand runs vals) := by
  induction runs generalizing vals i ix vec seen with
  | nil =>
      refine ⟨vec, rfl, ?_⟩
      rw [expand_nil, List.append_nil]
      exact h
  | cons n runs ih =>
      have ⟨v, vals', ptr, hvals, ⟨hrun, hv, hadvance⟩, hindex', hdrop', hlengths'⟩ :=
        hindex.next hdrop hlength
      subst hvals
      rw [List.sum_cons] at hle
      have ⟨vec', hround, h'⟩ := h.eigenRun hsize v (show seen.length + n ≤ size by omega)
      have hlength' : (seen ++ List.replicate n v).length = seen.length + n := by
        rw [List.length_append, List.length_replicate]
      have ⟨vec'', hrest, h''⟩ :=
        ih hindex' hdrop' hlengths' (by rw [hlength']; omega) h'
      refine ⟨vec'', ?_, ?_⟩
      · rw [List.length_cons, eigenRuns, hrun, ok_bind]
        dsimp only
        rw [hv, ok_bind, hround, ok_bind]
        dsimp only
        rw [hadvance, ok_bind, ← hlength', hrest]
      · rw [expand_cons, ← List.append_assoc]
        exact h''

/-- The elements other than zero are stored, in their order. -/
theorem legacySparseVectorToSparseColumnVector_spec {svec : SvecType}
    (h : Truthful (sdataFromSvec svec)) :
    ∃ vec, legacySparseVectorToSparseColumnVector svec = .ok vec ∧
      EigenAt (sdataFromSvec svec).dense.length vec (sdataFromSvec svec).dense := by
  have ⟨runs, hruns, htotal⟩ := h
  have hlength := h.length_dense
  have hmax := int32_mem (sdataFromSvec svec).totalValueCount
  have hstart : EigenAt (sdataFromSvec svec).dense.length
      (EigenSparseVector.zeros (sdataFromSvec svec).totalValueCount) [] := by
    refine ⟨?_, rfl⟩
    show (sdataFromSvec svec).totalValueCount.toInt.toNat = _
    omega
  have hsum : ([] : List Float8).length + runs.sum ≤ (sdataFromSvec svec).dense.length := by
    rw [List.length_nil]
    omega
  have ⟨vec, hvec, hat⟩ := eigenRuns_spec (by omega) hruns.index List.drop_zero
    (hruns.length_runs.trans hruns.length_vals.symm) hsum hstart
  refine ⟨vec, ?_, ?_⟩
  · unfold legacySparseVectorToSparseColumnVector
    dsimp only
    rw [← hruns.length_runs]
    exact hvec
  · rw [List.nil_append, ← hruns.dense_eq] at hat
    exact hat

/-! ## The round trip -/

theorem fillFrom_storedEntries {values : List Float8}
    (hzero : ∀ v ∈ values, float8Eq v 0 = true → v = 0) (pos : Nat) :
    fillFrom (fun _ => 0) (pos + values.length) 0 pos (storedEntries pos values) = values := by
  induction values generalizing pos with
  | nil => rw [storedEntries, fillFrom, List.length_nil, Nat.add_sub_cancel_left, List.replicate_zero]
  | cons v values ih =>
      have hsize : pos + (v :: values).length = pos + 1 + values.length := by
        rw [List.length_cons]
        omega
      rw [List.forall_mem_cons] at hzero
      rw [hsize, storedEntries]
      cases hv : float8Eq v 0 with
      | true =>
          rw [if_pos rfl, fillFrom_of_lt _ _ (entriesFrom_storedEntries (pos + 1) values),
            ih hzero.2, hzero.1 hv]
      | false =>
          rw [if_neg (by simp), fillFrom, Nat.sub_self, List.replicate_zero, List.nil_append,
            ih hzero.2]

/-- What stands behind a value other than zero is lost when it is zero. -/
theorem fillFrom_id_storedEntries_iff {values : List Float8}
    (hzero : ∀ v ∈ values, float8Eq v 0 = true → v = 0) (pos : Nat) (fill : Float8) :
    fillFrom id (pos + values.length) fill pos (storedEntries pos values) = values ↔
      (fill :: values).IsChain fun v w => w = 0 → v = 0 := by
  induction values generalizing pos fill with
  | nil =>
      rw [storedEntries, fillFrom, List.length_nil, Nat.add_sub_cancel_left, List.replicate_zero]
      simp
  | cons v values ih =>
      have hsize : pos + (v :: values).length = pos + 1 + values.length := by
        rw [List.length_cons]
        omega
      rw [List.forall_mem_cons] at hzero
      rw [hsize, storedEntries, List.isChain_cons_cons]
      cases hv : float8Eq v 0 with
      | true =>
          have hv0 := hzero.1 hv
          subst hv0
          rw [if_pos rfl, fillFrom_of_lt _ _ (entriesFrom_storedEntries (pos + 1) values),
            List.cons.injEq, ← ih hzero.2 (pos + 1) 0]
          constructor
          · intro h
            refine ⟨fun _ => h.1, ?_⟩
            rw [h.1] at h
            exact h.2
          · intro h
            have hfill := h.1 rfl
            rw [hfill]
            exact ⟨rfl, h.2⟩
      | false =>
          have hv0 : v ≠ 0 := by
            intro heq
            rw [heq] at hv
            exact absurd hv (by decide)
          rw [if_neg (by simp), fillFrom, Nat.sub_self, List.replicate_zero, List.nil_append,
            List.cons.injEq, ← ih hzero.2 (pos + 1) v]
          simp [hv0]

/-- The dense vector is kept on the way to Eigen when no zero is negative. -/
theorem EigenAt.dense_eq {vec : EigenSparseVector} {values : List Float8}
    (h : EigenAt values.length vec values) (hzero : ∀ v ∈ values, float8Eq v 0 = true → v = 0) :
    vec.dense = values := by
  unfold EigenSparseVector.dense
  have hfill := fillFrom_storedEntries hzero 0
  rw [Nat.zero_add] at hfill
  rw [h.size_eq, h.entries_eq, hfill]

theorem EigenAt.noGaps_iff {vec : EigenSparseVector} {values : List Float8}
    (h : EigenAt values.length vec values) (hzero : ∀ v ∈ values, float8Eq v 0 = true → v = 0) :
    vec.NoGaps ↔ values.IsChain fun v w => w = 0 → v = 0 := by
  have hfill := fillFrom_id_storedEntries_iff hzero 0 0
  rw [Nat.zero_add] at hfill
  rw [← vec.held_eq_dense_iff, h.dense_eq hzero, EigenSparseVector.held, h.size_eq, h.entries_eq,
    hfill]
  cases values with
  | nil => simp
  | cons v values => simp [List.isChain_cons_cons]

/-- Either way of converting keeps the dense vector exactly when no zero stands behind another
value and the runs fit into a datum. -/
theorem eigenBridge_iff (vec : EigenSparseVector) (hvec : 0 < vec.size) (svec : SvecType)
    (h : WellFormed (sdataFromSvec svec))
    (hzero : ∀ v ∈ (sdataFromSvec svec).dense, float8Eq v 0 = true → v = 0) :
    ((∃ svec', sparseColumnVectorToLegacySparseVector vec = .ok svec' ∧
        (sdataFromSvec svec').dense = vec.dense) ↔
      vec.NoGaps ∧ packedSize vec.dense ≤ maxAllocSize) ∧
    ((∃ vec' svec', legacySparseVectorToSparseColumnVector svec = .ok vec' ∧
        sparseColumnVectorToLegacySparseVector vec' = .ok svec' ∧
        (sdataFromSvec svec').dense = (sdataFromSvec svec).dense) ↔
      ((sdataFromSvec svec).dense.IsChain fun v w => w = 0 → v = 0) ∧
        packedSize (sdataFromSvec svec).dense ≤ maxAllocSize) := by
  refine ⟨sparseColumnVectorToLegacySparseVector_iff hvec, ?_⟩
  have ⟨vec', hvec', hat⟩ := legacySparseVectorToSparseColumnVector_spec h.truthful
  have hsize : 0 < vec'.size := by
    have hlength := h.truthful.length_dense
    have hone := h.one_le_total
    rw [hat.size_eq]
    omega
  have hiff := sparseColumnVectorToLegacySparseVector_iff hsize
  rw [hat.noGaps_iff hzero, hat.dense_eq hzero] at hiff
  rw [← hiff]
  constructor
  · intro h
    have ⟨vec'', svec', hvec'', hback⟩ := h
    have heq : vec' = vec'' := Except.ok.inj (hvec'.symm.trans hvec'')
    rw [heq]
    exact ⟨svec', hback⟩
  · intro h
    have ⟨svec', hback⟩ := h
    exact ⟨vec', svec', hvec', hback⟩

/-- Five at the first of two positions and nothing at the second. -/
def fiveGap : EigenSparseVector where
  size := 2
  entries := [(0, 0x4014000000000000)]
  ascending := by decide
  lt_size := by decide
  size_lt := by decide

/-- The svec `{1,2}:{0,5}` survives both conversions. -/
def zeroFives : SvecType :=
  { dimension := 3, uniqueValueCount := 2, totalValueCount := 3
    vals := [0, 0x4014000000000000], valsMaxlen := 16
    index := [255, 254], indexMaxlen := 2, indexCursor := 0
    vals_le := by decide, index_le := by decide, size_le := by decide }

theorem eigenBridge_zeroFives :
    ∃ vec svec', legacySparseVectorToSparseColumnVector zeroFives = .ok vec ∧
      sparseColumnVectorToLegacySparseVector vec = .ok svec' ∧
      (sdataFromSvec svec').dense = [0, 0x4014000000000000, 0x4014000000000000] := by
  have hdense : (sdataFromSvec zeroFives).dense =
      [0, 0x4014000000000000, 0x4014000000000000] := by decide
  have hwell : WellFormed (sdataFromSvec zeroFives) :=
    ⟨⟨[1, 2], .of_runLengths (by decide) rfl, by decide, by decide⟩, by decide⟩
  have hiff := (eigenBridge_iff fiveGap (by decide) zeroFives hwell (by
    rw [hdense]
    exact List.all_iff_forall_prop.mp (by decide))).2
  rw [hdense] at hiff
  exact hiff.mpr ⟨by decide, by decide⟩

/-- The gap behind the five becomes another five. -/
theorem eigenBridge_not_dense :
    ¬ ∀ vec : EigenSparseVector, 0 < vec.size →
      ∃ svec, sparseColumnVectorToLegacySparseVector vec = .ok svec ∧
        (sdataFromSvec svec).dense = vec.dense := by
  intro h
  have hiff := sparseColumnVectorToLegacySparseVector_iff (show 0 < fiveGap.size by decide)
  have hgaps := (hiff.mp (h fiveGap (by decide))).1
  have hfive := hgaps (0, 0x4014000000000000) (List.mem_singleton_self _)
  revert hfive
  decide

end Madlib.Svec
