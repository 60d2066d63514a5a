import Madlib.Svec.Concat
import Madlib.Svec.Equality

/-!
# The hash of an svec

`svec_hash` folds over the stored runs, the length and the value of each.  How a `double`
is converted to an `unsigned short` is a parameter; outside the range of the latter the
language leaves it open.
-/

namespace Madlib.Svec

open Madlib.Backend Madlib.Lib.MachineInt Madlib.Lib.RunLength CountCode

/-- `hash = c + (hash << 7) + (hash << 16) - hash` -/
def hashStep (hash : UInt64) (c : UInt16) : UInt64 :=
  c.toUInt64 + (hash <<< 7) + (hash <<< 16) - hash

/-- The remaining rounds of the loop over the runs. -/
def hashRounds (toUshort : Float8 → UInt16) (sdata : SparseData) :
    Nat → Nat → IndexPtr → UInt64 → Except Fault UInt64
  | 0, _, _, hash => .ok hash
  | rounds + 1, i, ix, hash => do
      let runLength ← compwordToInt8 ix
      let hash := hashStep hash (UInt16.ofInt runLength)
      let v ← valref sdata i
      let hash := hashStep hash (toUshort v)
      let ix ← advance ix
      hashRounds toUshort sdata rounds (i + 1) ix hash

def svecHash (toUshort : Float8 → UInt16) (svec : SvecType) : Except Fault Int32 := do
  let sdata := sdataFromSvec svec
  let hash ← hashRounds toUshort sdata sdata.uniqueValueCount 0 sdata.index.data 65599
  pure hash.toUInt32.toInt32

/-- The fold over a list of runs. -/
def hashRuns (toUshort : Float8 → UInt16) (runs : List Nat) (vals : List Float8)
    (hash : UInt64) : UInt64 :=
  (runs.zip vals).foldl (fun hash run =>
    hashStep (hashStep hash (UInt16.ofInt run.1)) (toUshort run.2)) hash

theorem hashRounds_eq {toUshort : Float8 → UInt16} {sdata : SparseData} {runs : List Nat}
    {vals : List Float8} {i : Nat} {ix : IndexPtr} (hindex : IndexRuns ix runs)
    (hdrop : sdata.vals.drop i = vals) (hlength : runs.length = vals.length) (hash : UInt64) :
    hashRounds toUshort sdata runs.length i ix hash = .ok (hashRuns toUshort runs vals hash) := by
  induction runs generalizing vals i ix hash with
  | nil => rfl
  | cons n runs ih =>
      have ⟨v, vals', ptr, hvals, ⟨hrun, hv, hadvance⟩, hindex', hdrop', hlength'⟩ :=
        hindex.next hdrop hlength
      subst hvals
      rw [List.length_cons, hashRounds, hrun, ok_bind]
      dsimp only
      rw [hv, ok_bind, hadvance, ok_bind, ih hindex' hdrop' hlength', hashRuns,
        hashRuns, List.zip_cons_cons, List.foldl_cons]

theorem svecHash_eq {toUshort : Float8 → UInt16} {svec : SvecType} {runs : List Nat}
    (h : HasRuns (sdataFromSvec svec) runs) :
    svecHash toUshort svec =
      .ok (hashRuns toUshort runs svec.vals 65599).toUInt32.toInt32 := by
  unfold svecHash
  dsimp only
  rw [← h.length_runs, hashRounds_eq h.index List.drop_zero
    (h.length_runs.trans h.length_vals.symm), ok_bind]
  rfl

/-! ## Equal svecs -/

/-- Two svecs that are equal and cut into the same runs have the same hash. -/
theorem svecHash_congr (toUshort : Float8 → UInt16) {svec1 svec2 : SvecType}
    (h1 : Proper (sdataFromSvec svec1)) (h2 : Proper (sdataFromSvec svec2))
    (heq : SparsedataEq (sdataFromSvec svec1) (sdataFromSvec svec2))
    (hruns : (sdataFromSvec svec1).runLengths = (sdataFromSvec svec2).runLengths) :
    ∃ hash, svecHash toUshort svec1 = .ok hash ∧ svecHash toUshort svec2 = .ok hash := by
  rw [sparsedataEq_iff h1 h2] at heq
  have ⟨runs, hruns1, hpositive, _⟩ := h1
  have ⟨runs2, hruns2, _⟩ := h2
  rw [hruns1.runLengths_eq, hruns2.runLengths_eq, Option.some.injEq] at hruns
  subst hruns
  rw [hruns1.dense_eq, hruns2.dense_eq] at heq
  have hvals : svec1.vals = svec2.vals :=
    expand_vals_inj hpositive (hruns1.length_runs.trans hruns1.length_vals.symm)
      (hruns2.length_runs.trans hruns2.length_vals.symm) heq
  refine ⟨_, svecHash_eq hruns1, ?_⟩
  rw [svecHash_eq hruns2, hvals]

/-- The array 3, 3 without an index. -/
def uncompressedThrees : SvecType :=
  tightSvec 2 2 [0x4008000000000000, 0x4008000000000000] [] (by decide)

theorem proper_compressedPair : Proper (sdataFromSvec compressedPair) :=
  ⟨[2], .of_runLengths (by decide) rfl, by decide, by decide⟩

theorem proper_uncompressedThrees : Proper (sdataFromSvec uncompressedThrees) :=
  ⟨[1, 1], .of_runLengths (by decide) rfl, by decide, by decide⟩

theorem svecHash_congr_compressed :
    ∃ hash, svecHash (fun _ => 3) compressedPair = .ok hash ∧
      svecHash (fun _ => 3) compressedPair = .ok hash :=
  svecHash_congr (fun _ => 3) proper_compressedPair proper_compressedPair
    ((sparsedataEq_iff proper_compressedPair proper_compressedPair).mpr rfl) rfl

/-- The svec `{2}:{3}` and the same array without an index have different hashes. -/
theorem svecHash_not_congr :
    SparsedataEq (sdataFromSvec compressedPair) (sdataFromSvec uncompressedThrees) ∧
      ∃ hash1 hash2, svecHash (fun _ => 3) compressedPair = .ok hash1 ∧
        svecHash (fun _ => 3) uncompressedThrees = .ok hash2 ∧ hash1 ≠ hash2 := by
  constructor
  · exact (sparsedataEq_iff proper_compressedPair proper_uncompressedThrees).mpr (by decide)
  · exact ⟨_, _, rfl, rfl, by decide⟩

end Madlib.Svec
