import Madlib.Sketch.Countmin

/-!
# Sketches of the dyadic levels

The transition value of the `cmsketch` aggregates keeps one sketch for every dyadic
level.  Inserting `x` inserts `x >> j` into the sketch of level `j`.  After a stream
of insertions every counter has the number of the stream's values that chose it.
-/

namespace Madlib.Sketch

open Madlib.Backend Madlib.Lib.MachineInt Madlib.Lib.Loop

abbrev Datum := UInt64

structure CmTransval where
  args : Fin 3 → Datum
  nargs : Int
  typOid : Nat
  outFuncOid : Nat
  sketches : Fin 64 → Countmin

def int8Oid : Nat := 20

/-- The catalog gives the output function of a type. -/
def cmsketchInitTransval (typeOutput : Nat → Nat) (typOid : Nat) : CmTransval :=
  { args := fun _ => 0
    nargs := 0
    typOid := typOid
    outFuncOid := typeOutput typOid
    sketches := fun _ _ _ => 0 }

/-- The loop over the levels, which halves the input on its way. -/
def insertLevels (md5 : Md5) (sketches : Fin 64 → Countmin) (input : Int64) :
    Except Fault ((Fin 64 → Countmin) × Int64) :=
  (List.finRange 64).foldlM (fun s j => do
    let (sketch, _) ← countminTransC md5 (s.1 j) (int64Bytes s.2.toInt)
    pure (Function.update s.1 j sketch, s.2 >>> 1)) (sketches, input)

def countminDyadicTransC (md5 : Md5) (transval : CmTransval) (input : Int64) :
    Except Fault CmTransval :=
  if transval.typOid ≠ int8Oid then
    .error (.elog "cmsketch can only compute ranges for int64")
  else do
    let (sketches, _) ← insertLevels md5 transval.sketches input
    pure { transval with sketches := sketches }

/-- The counters as they lie in memory. -/
def sketchBytes (sketches : Fin 64 → Countmin) : List UInt8 :=
  (List.ofFn sketches).flatMap fun sketch =>
    (List.ofFn sketch).flatMap fun row => (List.ofFn row).flatMap fun c => leBytes 8 c.toNat

/-! ## One insertion -/

theorem toInt_shiftRight_one (x : Int64) : (x >>> 1).toInt = x.toInt / 2 := by
  rw [← Int64.toInt_toBitVec, ← Int64.toInt_toBitVec, Int64.toBitVec_shiftRight]
  change (x.toBitVec.sshiftRight 1).toInt = _
  rw [BitVec.toInt_sshiftRight, Int.shiftRight_eq_div_pow]
  rfl

/-- The hash that chooses the columns of a value's ancestor at a level. -/
def levelHash (md5 : Md5) (j : Nat) (x : Int) : List UInt8 :=
  sketchMd5Bytea md5 (int64Bytes (x / 2 ^ j))

/-- The sketches with one more value, in the rounds of the loop that are done. -/
def addLevelsUpTo (md5 : Md5) (x : Int) (sketches : Fin 64 → Countmin) (n : Nat) :
    Fin 64 → Countmin := fun j =>
  if j.val < n then addHash (levelHash md5 j x) (sketches j) else sketches j

def addLevels (md5 : Md5) (x : Int) (sketches : Fin 64 → Countmin) : Fin 64 → Countmin :=
  fun j => addHash (levelHash md5 j x) (sketches j)

theorem addLevelsUpTo_succ (md5 : Md5) (x : Int) (sketches : Fin 64 → Countmin) (j : Fin 64) :
    Function.update (addLevelsUpTo md5 x sketches j) j
        (addHash (levelHash md5 j x) (sketches j)) =
      addLevelsUpTo md5 x sketches (j + 1) := by
  funext j'
  unfold addLevelsUpTo
  by_cases hj : j' = j
  · subst hj
    simp
  · have hlt : j'.val < j.val + 1 ↔ j'.val < j.val := by
      have hne : j'.val ≠ j.val := fun h => hj (Fin.ext h)
      omega
    simp [hj, hlt]

theorem addLevelsUpTo_zero (md5 : Md5) (x : Int) (sketches : Fin 64 → Countmin) :
    addLevelsUpTo md5 x sketches 0 = sketches := by
  funext j
  simp [addLevelsUpTo]

theorem addLevelsUpTo_self (md5 : Md5) (x : Int) (sketches : Fin 64 → Countmin) (j : Fin 64) :
    addLevelsUpTo md5 x sketches j j = sketches j :=
  if_neg (by omega)

theorem addLevelsUpTo_all (md5 : Md5) (x : Int) (sketches : Fin 64 → Countmin) :
    addLevelsUpTo md5 x sketches 64 = addLevels md5 x sketches := by
  funext j
  exact if_pos j.isLt

/-- The input of round `j + 1` is half of that of round `j`. -/
theorem shift_step {x y : Int64} {j : Nat} (h : y.toInt = x.toInt / 2 ^ j) :
    (y >>> 1).toInt = x.toInt / 2 ^ (j + 1) := by
  rw [toInt_shiftRight_one, h, pow_succ, Int.ediv_ediv_of_nonneg (Int.pow_nonneg (by omega))]

/-- A completed loop chose counters below the maximum on every level. -/
theorem insertLevels_ok {md5 : Md5} {sketches : Fin 64 → Countmin} {input : Int64}
    {out : (Fin 64 → Countmin) × Int64} (h : insertLevels md5 sketches input = .ok out) :
    out.1 = addLevels md5 input.toInt sketches ∧
      ∀ j i, sketches j i (column (levelHash md5 j input.toInt) i) ≠ int64Max := by
  have hrun := foldlM_finRange (fun n (s : (Fin 64 → Countmin) × Int64) =>
    s.1 = addLevelsUpTo md5 input.toInt sketches n ∧ s.2.toInt = input.toInt / 2 ^ n ∧
      ∀ j : Fin 64, j.val < n →
        ∀ i, sketches j i (column (levelHash md5 j input.toInt) i) ≠ int64Max) h
    ⟨(addLevelsUpTo_zero md5 input.toInt sketches).symm, by simp, by simp⟩ ?_
  · rw [addLevelsUpTo_all] at hrun
    exact ⟨hrun.1, fun j => hrun.2.2 j j.isLt⟩
  · intro j s s' ⟨hsketches, hinput, hmax⟩ hbody
    have ⟨c, hc, hs'⟩ := bind_eq_ok.mp hbody
    have ⟨hadd, hbelow⟩ := countminTransC_ok hc
    rw [hsketches, addLevelsUpTo_self, hinput] at hadd hbelow
    cases hs'
    refine ⟨?_, shift_step hinput, fun j' hj' => ?_⟩
    · rw [hadd, hsketches]
      exact addLevelsUpTo_succ md5 input.toInt sketches j
    · by_cases heq : j' = j
      · rw [heq]
        exact hbelow
      · exact hmax j' (by omega)

theorem insertLevels_total (md5 : Md5) {sketches : Fin 64 → Countmin} (input : Int64)
    (h : ∀ j i k, sketches j i k ≠ int64Max) :
    ∃ out, insertLevels md5 sketches input = .ok out := by
  have hrun : ∃ out, insertLevels md5 sketches input = .ok out ∧
      out.1 = addLevelsUpTo md5 input.toInt sketches 64 ∧ out.2.toInt = input.toInt / 2 ^ 64 := by
    apply foldlM_finRange_ok (fun n (s : (Fin 64 → Countmin) × Int64) =>
      s.1 = addLevelsUpTo md5 input.toInt sketches n ∧ s.2.toInt = input.toInt / 2 ^ n)
    · exact ⟨(addLevelsUpTo_zero md5 input.toInt sketches).symm, by simp⟩
    · intro j s ⟨hsketches, hinput⟩
      have hlevel : s.1 j = sketches j := by rw [hsketches, addLevelsUpTo_self]
      have ⟨c, hc⟩ := countminTransC_total md5 (int64Bytes s.2.toInt)
        (show ∀ i k, s.1 j i k ≠ int64Max by rw [hlevel]; exact h j)
      have hadd := (countminTransC_ok hc).1
      refine ⟨(Function.update s.1 j c.1, s.2 >>> 1), ?_, ?_, shift_step hinput⟩
      · rw [hc]
        rfl
      · rw [hadd, hlevel, hsketches, hinput]
        exact addLevelsUpTo_succ md5 input.toInt sketches j
  have ⟨out, hout, _⟩ := hrun
  exact ⟨out, hout⟩

theorem countminDyadicTransC_ok {md5 : Md5} {transval out : CmTransval} {input : Int64}
    (h : countminDyadicTransC md5 transval input = .ok out) :
    out = { transval with sketches := addLevels md5 input.toInt transval.sketches } ∧
      ∀ j i, transval.sketches j i (column (levelHash md5 j input.toInt) i) ≠ int64Max := by
  unfold countminDyadicTransC at h
  by_cases htype : transval.typOid ≠ int8Oid
  · rw [if_pos htype] at h
    cases h
  · rw [if_neg htype] at h
    have ⟨s, hs, hout⟩ := bind_eq_ok.mp h
    have ⟨hadd, hmax⟩ := insertLevels_ok hs
    cases hout
    rw [hadd]
    exact ⟨rfl, hmax⟩

theorem countminDyadicTransC_total (md5 : Md5) {transval : CmTransval} (input : Int64)
    (htype : transval.typOid = int8Oid) (h : ∀ j i k, transval.sketches j i k ≠ int64Max) :
    ∃ out, countminDyadicTransC md5 transval input = .ok out := by
  have ⟨s, hs⟩ := insertLevels_total md5 input h
  refine ⟨{ transval with sketches := s.1 }, ?_⟩
  unfold countminDyadicTransC
  rw [if_neg (not_not.mpr htype), hs]
  rfl

/-! ## Streams -/

/-- How many values of a stream choose a counter. -/
def chosenCount (md5 : Md5) (stream : List Int64) (j : Fin 64) (i : Fin 8) (k : Fin 1024) : Nat :=
  stream.countP fun x => column (levelHash md5 j x.toInt) i = k

theorem chosenCount_cons (md5 : Md5) (x : Int64) (stream : List Int64) (j : Fin 64) (i : Fin 8)
    (k : Fin 1024) :
    chosenCount md5 (x :: stream) j i k =
      chosenCount md5 stream j i k + if column (levelHash md5 j x.toInt) i = k then 1 else 0 := by
  unfold chosenCount
  rw [List.countP_cons]
  simp

/-- The counters of a stream inserted after `sketches` was built. -/
structure Counted (md5 : Md5) (before : Fin 64 → Countmin) (stream : List Int64)
    (after : Fin 64 → Countmin) : Prop where
  toNat_eq : ∀ j i k, (after j i k).toNat = (before j i k).toNat + chosenCount md5 stream j i k
  below : ∀ j i k, (after j i k).toNat ≤ int64Max.toNat

theorem addLevels_toNat {md5 : Md5} {sketches : Fin 64 → Countmin} {x : Int}
    (hbelow : ∀ j i k, (sketches j i k).toNat ≤ int64Max.toNat)
    (hmax : ∀ j i, sketches j i (column (levelHash md5 j x) i) ≠ int64Max) (j : Fin 64)
    (i : Fin 8) (k : Fin 1024) :
    (addLevels md5 x sketches j i k).toNat =
        (sketches j i k).toNat + (if column (levelHash md5 j x) i = k then 1 else 0) ∧
      (addLevels md5 x sketches j i k).toNat ≤ int64Max.toNat := by
  have hle := hbelow j i k
  have hval : int64Max.toNat = 9223372036854775807 := rfl
  unfold addLevels addHash
  by_cases hk : column (levelHash md5 j x) i = k
  · have hne : (sketches j i k).toNat ≠ int64Max.toNat := by
      intro heq
      rw [← hk] at heq
      exact hmax j i (UInt64.toNat_inj.mp heq)
    rw [if_pos hk, if_pos hk, UInt64.toNat_add]
    have hone : (1 : UInt64).toNat = 1 := rfl
    omega
  · rw [if_neg hk, if_neg hk]
    exact ⟨rfl, hle⟩

/-- The run of a stream: every counter has grown by the values that chose it. -/
theorem counted_of_run {md5 : Md5} {stream : List Int64} {transval out : CmTransval}
    (h : stream.foldlM (countminDyadicTransC md5) transval = .ok out)
    (hbelow : ∀ j i k, (transval.sketches j i k).toNat ≤ int64Max.toNat) :
    Counted md5 transval.sketches stream out.sketches ∧
      out = { transval with sketches := out.sketches } := by
  induction stream generalizing transval with
  | nil =>
      cases h
      exact ⟨⟨fun _ _ _ => rfl, hbelow⟩, rfl⟩
  | cons x stream ih =>
      rw [List.foldlM_cons] at h
      have ⟨next, hnext, hrest⟩ := bind_eq_ok.mp h
      have ⟨heq, hmax⟩ := countminDyadicTransC_ok hnext
      have hstep := addLevels_toNat hbelow hmax
      subst heq
      have ⟨hcounted, hout⟩ := ih hrest (fun j i k => (hstep j i k).2)
      refine ⟨⟨fun j i k => ?_, hcounted.below⟩, hout⟩
      rw [hcounted.toNat_eq, (hstep j i k).1, chosenCount_cons]
      omega

/-- A stream shorter than the largest count is inserted. -/
theorem run_total (md5 : Md5) {stream : List Int64} {transval : CmTransval}
    (htype : transval.typOid = int8Oid)
    (h : ∀ j i k, (transval.sketches j i k).toNat + stream.length ≤ int64Max.toNat) :
    ∃ out, stream.foldlM (countminDyadicTransC md5) transval = .ok out := by
  induction stream generalizing transval with
  | nil => exact ⟨transval, rfl⟩
  | cons x stream ih =>
      have hlt : ∀ j i k, (transval.sketches j i k).toNat < int64Max.toNat := by
        intro j i k
        have hle := h j i k
        rw [List.length_cons] at hle
        omega
      have ⟨next, hnext⟩ := countminDyadicTransC_total md5 x htype
        (fun j i k heq => by have hne := hlt j i k; rw [heq] at hne; omega)
      have ⟨heq, hmax⟩ := countminDyadicTransC_ok hnext
      have hstep := addLevels_toNat (fun j i k => Nat.le_of_lt (hlt j i k)) hmax
      have hrest : ∃ out, stream.foldlM (countminDyadicTransC md5) next = .ok out := by
        apply ih
        · rw [heq]
          exact htype
        rw [heq]
        intro j i k
        have hle := h j i k
        have hgrow := (hstep j i k).1
        rw [List.length_cons] at hle
        split at hgrow <;> dsimp only <;> omega
      have ⟨out, hout⟩ := hrest
      refine ⟨out, ?_⟩
      rw [List.foldlM_cons, hnext]
      exact hout

end Madlib.Sketch
