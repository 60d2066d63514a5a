import Madlib.Sketch.DyadicSketch

/-!
# Merging the states of two aggregates

The state of an aggregate is the empty blob until its first value, and a transition
value from then on.  `__cmsketch_merge` puts a fresh transition value in the place of
an empty blob, but adds up the counters behind a pointer it took before that.
-/

namespace Madlib.Sketch

open Madlib.Backend Madlib.Lib.Loop

/-- The `bytea` state of an aggregate; `none` is the empty one. -/
abbrev Blob := Option CmTransval

/-- What a transition function learns from the aggregate's call: the declared type of the
values, and the arguments after the value, which may be NULL. -/
structure AggCall where
  elementType : Nat
  extraArgs : List (Option Datum)

/-- `transval->args` from argument number `i` of the call on. -/
def storeArgs : Nat → List (Option Datum) → (Fin 3 → Datum) → Except Fault (Fin 3 → Datum)
  | _, [], args => .ok args
  | i, none :: _, _ => .error (.elog s!"NULL parameter {i} passed to __cmsketch_int8_trans")
  | i, some d :: rest, args =>
      storeArgs (i + 1) rest fun a => if a.val + 2 = i then d else args a

def cmsketchCheckTransval (typeOutput : Nat → Nat) (call : AggCall) (initargs : Bool) :
    Blob → Except Fault CmTransval
  | some transval => .ok transval
  | none =>
      let transval := cmsketchInitTransval typeOutput call.elementType
      if initargs then
        if 3 < call.extraArgs.length then
          .error (.elog
            "no more than 3 additional arguments should be passed to __cmsketch_int8_trans")
        else do
          let args ← storeArgs 2 call.extraArgs transval.args
          pure { transval with args := args, nargs := call.extraArgs.length }
      else .ok { transval with nargs := -1 }

/-- The transition function, called with the aggregate's next value. -/
def cmsketchInt8Trans (md5 : Md5) (typeOutput : Nat → Nat) (call : AggCall) (transblob : Blob) :
    Option Int64 → Except Fault Blob
  | none => .ok transblob
  | some input => do
      let transval ← cmsketchCheckTransval typeOutput call true transblob
      let transval ← countminDyadicTransC md5 transval input
      pure (some transval)

/-- `sketches2[i][j][k]`, where `sketches2` points into the given blob. -/
def readCell (sketches2 : Blob) (i : Fin 64) (j : Fin 8) (k : Fin 1024) : Except Fault UInt64 :=
  match sketches2 with
  | none => .error .outOfBounds
  | some transval => .ok (transval.sketches i j k)

def addCells (sketches2 : Blob) (newsketches : Fin 64 → Countmin) :
    Except Fault (Fin 64 → Countmin) :=
  updateEach (fun i => updateEach fun j => updateEach fun k count => do
    let x ← readCell sketches2 i j k
    pure (count + x)) newsketches

/-- The arguments of the other input are taken over by a state without its own. -/
def transferArgs (newtrans transval2 : CmTransval) : Except Fault CmTransval :=
  if newtrans.nargs = -1 then
    if 3 < transval2.nargs then .error .outOfBounds
    else
      .ok { newtrans with
        nargs := transval2.nargs
        args := fun i => if (i.val : Int) < transval2.nargs then transval2.args i
          else newtrans.args i }
  else .ok newtrans

/-- The two inputs, the empty one replaced. -/
def mergeInputs (typeOutput : Nat → Nat) : Blob → Blob → Option (CmTransval × CmTransval)
  | none, none => none
  | none, some transval2 =>
      some (cmsketchInitTransval typeOutput transval2.typOid, transval2)
  | some transval1, none =>
      some (transval1, cmsketchInitTransval typeOutput transval1.typOid)
  | some transval1, some transval2 => some (transval1, transval2)

def cmsketchMerge (typeOutput : Nat → Nat) (counterblob1 counterblob2 : Blob) :
    Except Fault Blob :=
  let sketches2 := counterblob2
  match mergeInputs typeOutput counterblob1 counterblob2 with
  | none => .ok counterblob1
  | some (transval1, transval2) => do
      let newsketches ← addCells sketches2 transval1.sketches
      let newtrans ← transferArgs { transval1 with sketches := newsketches } transval2
      pure (some newtrans)

/-- The counters a state stands for. -/
def counters : Blob → Fin 64 → Countmin
  | none => fun _ _ _ => 0
  | some transval => transval.sketches

/-- The state of an aggregate over a stream of values. -/
def cmsketchState (md5 : Md5) (typeOutput : Nat → Nat) (call : AggCall) (stream : List Int64) :
    Except Fault Blob :=
  stream.foldlM (fun blob x => cmsketchInt8Trans md5 typeOutput call blob (some x)) none

/-! ## States -/

/-- What holds of the transition values of aggregates: the arguments fit into their array. -/
def ArgsFit : Blob → Prop
  | none => True
  | some transval => transval.nargs ≤ 3

theorem cmsketchCheckTransval_ok {typeOutput : Nat → Nat} {call : AggCall} {blob : Blob}
    {transval : CmTransval} (h : cmsketchCheckTransval typeOutput call true blob = .ok transval)
    (hfit : ArgsFit blob) :
    transval.sketches = counters blob ∧ transval.nargs ≤ 3 := by
  cases blob with
  | some t =>
      cases h
      exact ⟨rfl, hfit⟩
  | none =>
      simp only [cmsketchCheckTransval, if_true] at h
      by_cases hlen : 3 < call.extraArgs.length
      · rw [if_pos hlen] at h
        cases h
      · rw [if_neg hlen] at h
        have ⟨args, _, hout⟩ := bind_eq_ok.mp h
        cases hout
        exact ⟨rfl, by dsimp only; omega⟩

/-- One transition adds the value to the counters and leaves an initialised state. -/
theorem cmsketchInt8Trans_ok {md5 : Md5} {typeOutput : Nat → Nat} {call : AggCall}
    {blob out : Blob} {x : Int64}
    (h : cmsketchInt8Trans md5 typeOutput call blob (some x) = .ok out) (hfit : ArgsFit blob) :
    counters out = addLevels md5 x.toInt (counters blob) ∧
      (∀ j i, counters blob j i (column (levelHash md5 j x.toInt) i) ≠ int64Max) ∧
      ArgsFit out ∧ out.isSome := by
  have ⟨transval, hcheck, hrest⟩ := bind_eq_ok.mp h
  have ⟨next, hnext, hout⟩ := bind_eq_ok.mp hrest
  have ⟨hsketches, hnargs⟩ := cmsketchCheckTransval_ok hcheck hfit
  have ⟨heq, hmax⟩ := countminDyadicTransC_ok hnext
  cases hout
  rw [hsketches] at heq hmax
  subst heq
  exact ⟨rfl, hmax, hnargs, rfl⟩

theorem state_run {md5 : Md5} {typeOutput : Nat → Nat} {call : AggCall} {stream : List Int64}
    {blob out : Blob}
    (h : stream.foldlM (fun blob x => cmsketchInt8Trans md5 typeOutput call blob (some x)) blob =
      .ok out)
    (hbelow : ∀ j i k, (counters blob j i k).toNat ≤ int64Max.toNat) (hfit : ArgsFit blob) :
    Counted md5 (counters blob) stream (counters out) ∧ ArgsFit out ∧
      out.isSome = (blob.isSome || !stream.isEmpty) := by
  induction stream generalizing blob with
  | nil =>
      cases h
      exact ⟨⟨fun _ _ _ => rfl, hbelow⟩, hfit, by simp⟩
  | cons x stream ih =>
      rw [List.foldlM_cons] at h
      have ⟨next, hnext, hrest⟩ := bind_eq_ok.mp h
      have ⟨heq, hmax, hfit', hsome⟩ := cmsketchInt8Trans_ok hnext hfit
      have hstep := addLevels_toNat hbelow hmax
      rw [← heq] at hstep
      have ⟨hcounted, hargs, hout⟩ := ih hrest (fun j i k => (hstep j i k).2) hfit'
      refine ⟨⟨fun j i k => ?_, hcounted.below⟩, hargs, by rw [hout, hsome]; simp⟩
      rw [hcounted.toNat_eq, (hstep j i k).1, chosenCount_cons]
      omega

/-- The state of a stream is empty exactly if the stream is, and counts it. -/
theorem cmsketchState_spec {md5 : Md5} {typeOutput : Nat → Nat} {call : AggCall}
    {stream : List Int64} {blob : Blob}
    (h : cmsketchState md5 typeOutput call stream = .ok blob) :
    (∀ j i k, (counters blob j i k).toNat = chosenCount md5 stream j i k) ∧
      (∀ j i k, (counters blob j i k).toNat ≤ int64Max.toNat) ∧ ArgsFit blob ∧
      (blob = none ↔ stream = []) := by
  have ⟨hcounted, hfit, hsome⟩ := state_run h (fun _ _ _ => Nat.zero_le _) trivial
  refine ⟨fun j i k => ?_, hcounted.below, hfit, ?_⟩
  · rw [hcounted.toNat_eq]
    exact Nat.zero_add _
  · cases blob with
    | none => simpa using hsome
    | some transval => simpa using hsome

/-- A state with values goes on as the insertions into its transition value. -/
theorem state_some (md5 : Md5) (typeOutput : Nat → Nat) (call : AggCall) (stream : List Int64)
    (transval : CmTransval) :
    stream.foldlM (fun blob x => cmsketchInt8Trans md5 typeOutput call blob (some x))
        (some transval) =
      stream.foldlM (countminDyadicTransC md5) transval >>= fun t => pure (some t) := by
  induction stream generalizing transval with
  | nil => rfl
  | cons x stream ih =>
      rw [List.foldlM_cons, List.foldlM_cons]
      change (countminDyadicTransC md5 transval x >>= fun t => pure (some t)) >>= _ = _
      cases countminDyadicTransC md5 transval x with
      | error e => rfl
      | ok next => exact ih next

theorem cmsketchState_total (md5 : Md5) (typeOutput : Nat → Nat) {stream : List Int64}
    (h : stream.length < 2 ^ 63) :
    ∃ blob, cmsketchState md5 typeOutput ⟨int8Oid, []⟩ stream = .ok blob := by
  cases stream with
  | nil => exact ⟨none, rfl⟩
  | cons x stream =>
      have hrun : ∃ out, (x :: stream).foldlM (countminDyadicTransC md5)
          (cmsketchInitTransval typeOutput int8Oid) = .ok out := by
        apply run_total md5 rfl
        intro j i k
        change 0 + (x :: stream).length ≤ int64Max.toNat
        have hval : int64Max.toNat = 9223372036854775807 := rfl
        omega
      have ⟨out, hout⟩ := hrun
      have hstate := state_some md5 typeOutput ⟨int8Oid, []⟩ (x :: stream)
        (cmsketchInitTransval typeOutput int8Oid)
      rw [hout] at hstate
      exact ⟨some out, hstate⟩

/-! ## One merge -/

theorem addCells_some (transval : CmTransval) (newsketches : Fin 64 → Countmin) :
    addCells (some transval) newsketches =
      .ok fun i j k => newsketches i j k + transval.sketches i j k := by
  apply updateEach_ok
  intro i
  apply updateEach_ok
  intro j
  apply updateEach_ok
  intro k
  rfl

/-- The pointer into an empty blob points behind it. -/
theorem addCells_none (newsketches : Fin 64 → Countmin) :
    addCells none newsketches = .error .outOfBounds := by
  apply updateEach_error
  apply updateEach_error
  apply updateEach_error
  rfl

theorem transferArgs_ok (newtrans : CmTransval) {transval2 : CmTransval}
    (h : transval2.nargs ≤ 3) :
    ∃ out, transferArgs newtrans transval2 = .ok out ∧ out.sketches = newtrans.sketches ∧
      (newtrans.nargs ≤ 3 → out.nargs ≤ 3) := by
  unfold transferArgs
  by_cases hnone : newtrans.nargs = -1
  · rw [if_pos hnone, if_neg (by omega)]
    exact ⟨_, rfl, rfl, fun _ => h⟩
  · rw [if_neg hnone]
    exact ⟨newtrans, rfl, rfl, id⟩

/-- A merge adds the counters, unless only its second input is empty. -/
theorem cmsketchMerge_ok (typeOutput : Nat → Nat) {blob1 blob2 : Blob}
    (hfit1 : ArgsFit blob1) (hfit2 : ArgsFit blob2) (h : blob2 = none → blob1 = none) :
    ∃ out, cmsketchMerge typeOutput blob1 blob2 = .ok out ∧
      (∀ j i k, counters out j i k = counters blob1 j i k + counters blob2 j i k) ∧
      ArgsFit out ∧ (out = none ↔ blob2 = none) := by
  cases blob2 with
  | none =>
      rw [h rfl]
      exact ⟨none, rfl, fun _ _ _ => rfl, trivial, Iff.rfl⟩
  | some transval2 =>
      have hmerge : ∀ transval1 : CmTransval, transval1.nargs ≤ 3 →
          ∃ out, (do
              let newsketches ← addCells (some transval2) transval1.sketches
              let newtrans ← transferArgs { transval1 with sketches := newsketches } transval2
              pure (some newtrans)) = (.ok out : Except Fault Blob) ∧
            (∀ j i k, counters out j i k =
              transval1.sketches j i k + transval2.sketches j i k) ∧
            ArgsFit out ∧ (out = none ↔ some transval2 = none) := by
        intro transval1 hnargs
        rw [addCells_some, ok_bind]
        have ⟨newtrans, hnew, hsketches, hargs⟩ := transferArgs_ok { transval1 with
          sketches := fun i j k => transval1.sketches i j k + transval2.sketches i j k } hfit2
        refine ⟨some newtrans, ?_, fun j i k => ?_, hargs hnargs, by simp⟩
        · rw [hnew]
          rfl
        · exact congrFun (congrFun (congrFun hsketches j) i) k
      cases blob1 with
      | none =>
          exact hmerge (cmsketchInitTransval typeOutput transval2.typOid)
            (show (0 : Int) ≤ 3 by decide)
      | some transval1 => exact hmerge transval1 hfit1

/-- The counters of an empty second input are read behind its end. -/
theorem cmsketchMerge_none (typeOutput : Nat → Nat) (transval1 : CmTransval) :
    cmsketchMerge typeOutput (some transval1) none = .error .outOfBounds := by
  unfold cmsketchMerge mergeInputs
  dsimp only
  rw [addCells_none]
  rfl

theorem cmsketchMerge_isOk_iff (typeOutput : Nat → Nat) {blob1 blob2 : Blob}
    (hfit1 : ArgsFit blob1) (hfit2 : ArgsFit blob2) :
    (∃ out, cmsketchMerge typeOutput blob1 blob2 = .ok out) ↔ (blob2 = none → blob1 = none) := by
  constructor
  · intro ⟨out, hout⟩ hnone
    cases blob1 with
    | none => rfl
    | some transval1 =>
        rw [hnone, cmsketchMerge_none] at hout
        cases hout
  · intro h
    have ⟨out, hout, _⟩ := cmsketchMerge_ok typeOutput hfit1 hfit2 h
    exact ⟨out, hout⟩

/-! ## The laws of merging -/

/-- The merge has, in every cell, the sum of the two streams' counters. -/
def MergeCounts (md5 : Md5) (typeOutput : Nat → Nat) (s t : List Int64) (blob1 blob2 : Blob) :
    Prop :=
  ∃ out, cmsketchMerge typeOutput blob1 blob2 = .ok out ∧
    ∀ j i k, (counters out j i k).toNat = chosenCount md5 s j i k + chosenCount md5 t j i k

def MergeComm (typeOutput : Nat → Nat) (blob1 blob2 : Blob) : Prop :=
  ∃ out out', cmsketchMerge typeOutput blob1 blob2 = .ok out ∧
    cmsketchMerge typeOutput blob2 blob1 = .ok out' ∧ counters out = counters out'

def MergeAssoc (typeOutput : Nat → Nat) (blob1 blob2 blob3 : Blob) : Prop :=
  ∃ left right out out', cmsketchMerge typeOutput blob1 blob2 = .ok left ∧
    cmsketchMerge typeOutput left blob3 = .ok out ∧
    cmsketchMerge typeOutput blob2 blob3 = .ok right ∧
    cmsketchMerge typeOutput blob1 right = .ok out' ∧ counters out = counters out'

theorem mergeComm_iff (typeOutput : Nat → Nat) {blob1 blob2 : Blob} (hfit1 : ArgsFit blob1)
    (hfit2 : ArgsFit blob2) :
    MergeComm typeOutput blob1 blob2 ↔ (blob1 = none ↔ blob2 = none) := by
  constructor
  · intro ⟨out, out', hout, hout', _⟩
    have hright := (cmsketchMerge_isOk_iff typeOutput hfit1 hfit2).mp ⟨out, hout⟩
    have hleft := (cmsketchMerge_isOk_iff typeOutput hfit2 hfit1).mp ⟨out', hout'⟩
    exact ⟨hleft, hright⟩
  · intro h
    have ⟨out, hout, hsum, _⟩ := cmsketchMerge_ok typeOutput hfit1 hfit2 h.mpr
    have ⟨out', hout', hsum', _⟩ := cmsketchMerge_ok typeOutput hfit2 hfit1 h.mp
    refine ⟨out, out', hout, hout', ?_⟩
    funext j i k
    rw [hsum, hsum', UInt64.add_comm]

theorem mergeAssoc_iff (typeOutput : Nat → Nat) {blob1 blob2 blob3 : Blob}
    (hfit1 : ArgsFit blob1) (hfit2 : ArgsFit blob2) (hfit3 : ArgsFit blob3) :
    MergeAssoc typeOutput blob1 blob2 blob3 ↔
      (blob2 = none → blob1 = none) ∧ (blob3 = none → blob2 = none) := by
  constructor
  · intro ⟨left, right, out, out', hleft, _, hright, _, _⟩
    exact ⟨(cmsketchMerge_isOk_iff typeOutput hfit1 hfit2).mp ⟨left, hleft⟩,
      (cmsketchMerge_isOk_iff typeOutput hfit2 hfit3).mp ⟨right, hright⟩⟩
  · intro ⟨h12, h23⟩
    have ⟨left, hleft, hsum, hfit, hnone⟩ := cmsketchMerge_ok typeOutput hfit1 hfit2 h12
    have ⟨right, hright, hsum', hfit', hnone'⟩ := cmsketchMerge_ok typeOutput hfit2 hfit3 h23
    have ⟨out, hout, hsumout, _⟩ := cmsketchMerge_ok typeOutput hfit hfit3
      (fun h => hnone.mpr (h23 h))
    have ⟨out', hout', hsumout', _⟩ := cmsketchMerge_ok typeOutput hfit1 hfit'
      (fun h => h12 (h23 (hnone'.mp h)))
    refine ⟨left, right, out, out', hleft, hout, hright, hout', ?_⟩
    funext j i k
    rw [hsumout, hsum, hsumout', hsum', UInt64.add_assoc]

theorem mergeCounts_iff {md5 : Md5} {typeOutput : Nat → Nat} {call : AggCall}
    {s t : List Int64} {blob1 blob2 : Blob} (hs : cmsketchState md5 typeOutput call s = .ok blob1)
    (ht : cmsketchState md5 typeOutput call t = .ok blob2) :
    MergeCounts md5 typeOutput s t blob1 blob2 ↔ (blob2 = none → blob1 = none) := by
  have ⟨hcount1, hmax1, hfit1, _⟩ := cmsketchState_spec hs
  have ⟨hcount2, hmax2, hfit2, _⟩ := cmsketchState_spec ht
  constructor
  · intro ⟨out, hout, _⟩
    exact (cmsketchMerge_isOk_iff typeOutput hfit1 hfit2).mp ⟨out, hout⟩
  · intro h
    have ⟨out, hout, hsum, _⟩ := cmsketchMerge_ok typeOutput hfit1 hfit2 h
    refine ⟨out, hout, fun j i k => ?_⟩
    have hle1 := hmax1 j i k
    have hle2 := hmax2 j i k
    have hval : int64Max.toNat = 9223372036854775807 := rfl
    rw [hsum, UInt64.toNat_add, ← hcount1, ← hcount2]
    omega

/-- Merging adds up the counters unless a state with values is merged with an empty one
after it. -/
theorem cmsketchMerge_laws_iff (md5 : Md5) (typeOutput : Nat → Nat) (call : AggCall)
    (s t u : List Int64) (blob1 blob2 blob3 : Blob)
    (hs : cmsketchState md5 typeOutput call s = .ok blob1)
    (ht : cmsketchState md5 typeOutput call t = .ok blob2)
    (hu : cmsketchState md5 typeOutput call u = .ok blob3) :
    (MergeCounts md5 typeOutput s t blob1 blob2 ↔ (t = [] → s = [])) ∧
      (MergeComm typeOutput blob1 blob2 ↔ (s = [] ↔ t = [])) ∧
      (MergeAssoc typeOutput blob1 blob2 blob3 ↔ (t = [] → s = []) ∧ (u = [] → t = [])) := by
  have ⟨_, _, hfit1, hempty1⟩ := cmsketchState_spec hs
  have ⟨_, _, hfit2, hempty2⟩ := cmsketchState_spec ht
  have ⟨_, _, hfit3, hempty3⟩ := cmsketchState_spec hu
  rw [mergeCounts_iff hs ht, mergeComm_iff typeOutput hfit1 hfit2,
    mergeAssoc_iff typeOutput hfit1 hfit2 hfit3, hempty1, hempty2, hempty3]
  exact ⟨Iff.rfl, Iff.rfl, Iff.rfl⟩

theorem cmsketchMerge_laws_three : ∃ blob1 blob2 blob3,
    MergeCounts (fun _ _ => 0) (fun _ => 0) [1] [2] blob1 blob2 ∧
      MergeComm (fun _ => 0) blob1 blob2 ∧ MergeAssoc (fun _ => 0) blob1 blob2 blob3 := by
  have htotal : ∀ x : Int64,
      ∃ blob, cmsketchState (fun _ _ => 0) (fun _ => 0) ⟨int8Oid, []⟩ [x] = .ok blob :=
    fun x => cmsketchState_total _ _ (show 1 < 2 ^ 63 by decide)
  have ⟨blob1, h1⟩ := htotal 1
  have ⟨blob2, h2⟩ := htotal 2
  have ⟨blob3, h3⟩ := htotal 3
  have ⟨hcounts, hcomm, hassoc⟩ := cmsketchMerge_laws_iff (fun _ _ => 0) (fun _ => 0)
    ⟨int8Oid, []⟩ [1] [2] [3] blob1 blob2 blob3 h1 h2 h3
  exact ⟨blob1, blob2, blob3, hcounts.mpr (by simp), hcomm.mpr (by simp), hassoc.mpr (by simp)⟩

/-- The state of one value merged with the state of no value reads past the latter. -/
theorem cmsketchMerge_empty_right : ∃ blob,
    cmsketchState (fun _ _ => 0) (fun _ => 0) ⟨int8Oid, []⟩ [1] = .ok blob ∧
      cmsketchState (fun _ _ => 0) (fun _ => 0) ⟨int8Oid, []⟩ [] = .ok none ∧
      cmsketchMerge (fun _ => 0) blob none = .error .outOfBounds ∧
      ¬ MergeCounts (fun _ _ => 0) (fun _ => 0) [1] [] blob none := by
  have hlen : ([1] : List Int64).length < 2 ^ 63 := by decide
  have ⟨blob, h⟩ := cmsketchState_total (fun _ _ => 0) (fun _ => 0) hlen
  have ⟨_, _, _, hempty⟩ := cmsketchState_spec h
  cases blob with
  | none => exact absurd (hempty.mp rfl) (by simp)
  | some transval =>
      have hfault := cmsketchMerge_none (fun _ => 0) transval
      refine ⟨some transval, h, rfl, hfault, ?_⟩
      intro ⟨out, hout, _⟩
      rw [hfault] at hout
      cases hout

end Madlib.Sketch
