import Madlib.Lib.Loop
import Madlib.Svec.SparseData

/-!
# Element-wise operations on run-length data

`op_sdata_by_sdata` walks two independently cut run lists with one cursor each.
It computes one value for every stretch both cursors agree on and holds a run
back until a different value follows it.  The invariant ties the cursors to what
is left of the two dense arrays, and the output with the held-back run to what
has been combined so far.
-/

namespace Madlib.Svec

open Madlib.Backend Madlib.Lib Madlib.Lib.MachineInt Madlib.Lib.RunLength CountCode

/-- `enum operation_t` -/
inductive Operation where
  | subtract
  | add
  | multiply
  | divide
  deriving DecidableEq, Repr

/-! ## The loop -/

/-- One operand's cursor: the run it stands on, the index pointer there, and the
positions where that run starts and where the next one does (`left_lst` and
`left_nxt` for the left operand). -/
structure Cursor where
  i : Nat
  ptr : IndexPtr
  lst : Int
  nxt : Int

/-- The locals of `op_sdata_by_sdata` that live across rounds. -/
structure OpState where
  left : Cursor
  right : Cursor
  nextpos : Int
  lastpos : Int
  totRunLength : Int
  lastNewValue : Float8
  sdata : SparseData

def checkSdataDimensions (left right : SparseData) : Except Fault Unit :=
  if left.totalValueCount ≠ right.totalValueCount then
    .error (.ereport .invalidParameterValue "dimensions of vectors must be the same")
  else .ok ()

/-- Hold `newValue` back, and write out the run held back before if it differs. -/
def holdBack (st : OpState) (newValue : Float8) : Except Fault OpState := do
  let st := if st.totRunLength = -1 then
      { st with lastNewValue := newValue, totRunLength := 0 } else st
  let st ← if newValue ≠ st.lastNewValue then do
      let sdata ← addRunToSdata st.lastNewValue st.totRunLength st.sdata
      pure { st with sdata, totRunLength := 0, lastNewValue := newValue }
    else pure st
  return { st with totRunLength := toInt32 (st.totRunLength + (st.nextpos - st.lastpos)) }

/-- Move a cursor past its run: `i++`, `left_lst=left_nxt`, `liptr+=..`. -/
def Cursor.moveOn (c : Cursor) : Except Fault Cursor := do
  return { c with i := c.i + 1, lst := c.nxt, ptr := ← advance c.ptr }

/-- Read the run under a cursor: `left_nxt=left_run_length+left_lst`. -/
def Cursor.loadRun (c : Cursor) : Except Fault Cursor := do
  let runLength := toInt32 (← compwordToInt8 c.ptr)
  return { c with nxt := toInt32 (runLength + c.lst) }

/-- Move past the runs that end at `nextpos`. -/
def moveCursors (st : OpState) : Except Fault OpState := do
  if st.left.nxt = st.right.nxt then
    return { st with left := ← st.left.moveOn, right := ← st.right.moveOn }
  else if st.nextpos = st.left.nxt then
    return { st with left := ← st.left.moveOn }
  else if st.nextpos = st.right.nxt then
    return { st with right := ← st.right.moveOn }
  else return st

def loadRuns (st : OpState) : Except Fault OpState := do
  let left ← st.left.loadRun
  let right ← st.right.loadRun
  return { st with left, right, lastpos := st.nextpos, nextpos := min left.nxt right.nxt }

/-- One round; the loop is left with the last value, the length of the run still
held back and the runs written out. -/
def opRound (f : Float8 → Float8 → Float8) (left right : SparseData) (st : OpState) :
    Except Fault (Loop.Step OpState (Float8 × Int × SparseData)) := do
  let newValue := f (← valref left st.left.i) (← valref right st.right.i)
  let st ← holdBack st newValue
  if st.left.nxt = st.right.nxt ∧ st.left.nxt = left.totalValueCount.toInt then
    return .done (newValue, st.totRunLength, st.sdata)
  else
    return .next (← loadRuns (← moveCursors st))

/-- The locals as `op_sdata_by_sdata` initialises them; `lastNewValue` is set in
the first round, before it is read. -/
def opInit (left right : Cursor) : OpState :=
  { left, right, nextpos := min left.nxt right.nxt, lastpos := 0, totRunLength := -1,
    lastNewValue := 0, sdata := makeSparseData }

def firstCursor (s : SparseData) : Cursor := { i := 0, ptr := s.index.data, lst := 0, nxt := 0 }

/-- What precedes the loop. -/
def opStart (left right : SparseData) : Except Fault OpState := do
  let l ← (firstCursor left).loadRun
  let r ← (firstCursor right).loadRun
  checkSdataDimensions left right
  return opInit l r

/-- The last run is added behind the loop. -/
def opFinish (out : Float8 × Int × SparseData) : Except Fault SparseData :=
  let (newValue, totRunLength, sdata) := out
  if totRunLength ≠ 0 then addRunToSdata newValue totRunLength sdata else .ok sdata

/-- `op_sdata_by_sdata` with the float8 arithmetic `arith`, for at most `fuel`
rounds; `none` when the loop is still running. -/
def opSdataBySdata (fuel : Nat) (arith : Operation → Float8 → Float8 → Float8)
    (operation : Operation) (left right : SparseData) : Option (Except Fault SparseData) :=
  match opStart left right with
  | .error e => some (.error e)
  | .ok st =>
      (Loop.run (opRound (arith operation) left right) fuel st).map fun out => out >>= opFinish

/-! ## The invariant -/

/-- The cursor stands on the run `n` of the value `v`, the run the position `pos`
lies in; `runs` and `vals` follow it. -/
structure CursorAt (s : SparseData) (c : Cursor) (pos : Int)
    (n : Nat) (runs : List Nat) (v : Float8) (vals : List Float8) : Prop where
  index : IndexRuns c.ptr (n :: runs)
  drop_vals : s.vals.drop c.i = v :: vals
  length_eq : runs.length = vals.length
  positive : ∀ m ∈ n :: runs, 0 < m
  nxt_eq : c.nxt = c.lst + n
  total_eq : c.nxt + (runs.sum : Nat) = s.totalValueCount.toInt
  lst_nonneg : 0 ≤ c.lst
  lst_le : c.lst ≤ pos
  lt_nxt : pos < c.nxt

/-- What is left of a dense array from the position on, `nxt` being the end of the
run of `v` it lies in. -/
def restFrom (nxt pos : Int) (runs : List Nat) (v : Float8) (vals : List Float8) : List Float8 :=
  List.replicate (nxt - pos).toNat v ++ expand runs vals

/-- At `pos` the cursor has `rest` of the dense array still before it. -/
def Ahead (s : SparseData) (c : Cursor) (pos : Int) (rest : List Float8) : Prop :=
  ∃ n runs v vals, CursorAt s c pos n runs v vals ∧ rest = restFrom c.nxt pos runs v vals

/-- The runs written out and the run held back make up the list `combined`. -/
structure OutputAt (sdata : SparseData) (tot : Int) (last : Float8) (runs : List Nat)
    (combined : List Float8) : Prop where
  hasRuns : HasRuns sdata runs
  index_eq : sdata.index.data = some (rleBytes runs)
  positive : ∀ n ∈ runs, 0 < n
  total_eq : sdata.totalValueCount.toInt = (runs.sum : Nat)
  combined_eq : expand runs sdata.vals ++ List.replicate tot.toNat last = combined
  held : (tot = -1 ∧ runs = []) ∨ (0 < tot ∧ (sdata.vals ++ [last]).IsChain (· ≠ ·))

/-- The maximal runs of `values` and no others are stored, as `append_to_rle_index` does. -/
structure Packed (s : SparseData) (values : List Float8) : Prop where
  hasRuns : HasRuns s (runLens values)
  wellFormed : WellFormed s
  dense_eq : s.dense = values
  isChain : s.vals.IsChain (· ≠ ·)
  index_eq : s.index.data = some (rleBytes (runLens values))

/-- What the loop has established whenever a round begins. -/
structure OpInv (f : Float8 → Float8 → Float8) (left right : SparseData) (st : OpState) :
    Prop where
  nextpos_eq : st.nextpos = min st.left.nxt st.right.nxt
  progress : ∃ restL restR outRuns combined,
    Ahead left st.left st.lastpos restL ∧ Ahead right st.right st.lastpos restR ∧
    OutputAt st.sdata st.totRunLength st.lastNewValue outRuns combined ∧
    (outRuns.sum : Int) + max 0 st.totRunLength = st.lastpos ∧
    combined ++ List.zipWith f restL restR = List.zipWith f left.dense right.dense

/-! ## The cursors -/

section Cursor

variable {s : SparseData} {c : Cursor} {pos : Int} {n : Nat} {runs : List Nat} {v : Float8}
  {vals : List Float8}

theorem CursorAt.value (h : CursorAt s c pos n runs v vals) : valref s c.i = .ok v := by
  have hget : s.vals[c.i]? = some v := by
    have hhead := congrArg List.head? h.drop_vals
    simpa [List.head?_drop] using hhead
  simp [valref, hget]

theorem CursorAt.nxt_le (h : CursorAt s c pos n runs v vals) :
    c.nxt ≤ s.totalValueCount.toInt := by
  have htotal := h.total_eq
  omega

theorem CursorAt.loadRun_eq (h : CursorAt s c pos n runs v vals) : c.loadRun = .ok c := by
  have hle := h.nxt_le
  have hmax := (int32_mem s.totalValueCount).2
  have hnxt := h.nxt_eq
  have hlst := h.lst_nonneg
  have hrun : toInt32 n = n := toInt32_of_mem (by omega) (by omega)
  have hend : toInt32 (n + c.lst) = c.nxt := by
    rw [toInt32_of_mem (by omega) (by omega)]
    omega
  simp [Cursor.loadRun, h.index.read.1, bind, Except.bind, pure, Except.pure, hrun, hend]

/-- The cursor stays on its run while the position moves on inside it. -/
theorem CursorAt.stay (h : CursorAt s c pos n runs v vals) (pos' : Int) (hle : pos ≤ pos')
    (hlt : pos' < c.nxt) : CursorAt s c pos' n runs v vals :=
  { h with lst_le := h.lst_le.trans hle, lt_nxt := hlt }

/-- Short of the end there is a next run, and the cursor moves onto it. -/
theorem CursorAt.step (h : CursorAt s c pos n runs v vals)
    (hlt : c.nxt < s.totalValueCount.toInt) :
    ∃ c', (c.moveOn >>= Cursor.loadRun) = .ok c' ∧
      Ahead s c' c.nxt (restFrom c.nxt c.nxt runs v vals) := by
  have htotal := h.total_eq
  obtain ⟨ptr', hadvance, hindex⟩ := h.index.read.2
  cases runs with
  | nil =>
      simp at htotal
      omega
  | cons n' runs' =>
      obtain ⟨v', vals', rfl⟩ := List.exists_of_length_succ vals h.length_eq.symm
      have hn' := h.positive n' (by simp)
      have hlst := h.lst_nonneg
      have hnxt := h.nxt_eq
      have hcur : CursorAt s { i := c.i + 1, ptr := ptr', lst := c.nxt, nxt := c.nxt + n' } c.nxt
          n' runs' v' vals' :=
        { index := hindex
          drop_vals := by rw [← List.drop_drop, h.drop_vals]; rfl
          length_eq := by simpa using h.length_eq
          positive := fun m hm => h.positive m (List.mem_cons_of_mem n hm)
          nxt_eq := rfl
          total_eq := by simp at htotal ⊢; omega
          lst_nonneg := by simp; omega
          lst_le := le_refl c.nxt
          lt_nxt := by simp; omega }
      have hload := hcur.loadRun_eq
      refine ⟨_, ?_, n', runs', v', vals', hcur, ?_⟩
      · simpa [Cursor.moveOn, Cursor.loadRun, hadvance, bind, Except.bind, pure, Except.pure]
          using hload
      · simp [restFrom]

/-- Going on to `pos'`, a cursor is moved exactly when its run ends there. -/
theorem CursorAt.goTo (h : CursorAt s c pos n runs v vals) (pos' : Int) (hle : pos ≤ pos')
    (hle' : pos' ≤ c.nxt) (hlt : pos' < s.totalValueCount.toInt) :
    ∃ c', ((if pos' = c.nxt then c.moveOn else .ok c) >>= Cursor.loadRun) = .ok c' ∧
      Ahead s c' pos' (restFrom c.nxt pos' runs v vals) := by
  split
  · rename_i heq
    subst heq
    exact h.step hlt
  · have hstay := h.stay pos' hle (by omega)
    exact ⟨c, hstay.loadRun_eq, n, runs, v, vals, hstay, rfl⟩

end Cursor

/-- The three branches that move cursors move each one whose run ends at `nextpos`. -/
theorem moveCursors_eq (st : OpState) {left right : Cursor}
    (hnext : st.nextpos = min st.left.nxt st.right.nxt)
    (hleft : ((if st.nextpos = st.left.nxt then st.left.moveOn else .ok st.left) >>=
      Cursor.loadRun) = .ok left)
    (hright : ((if st.nextpos = st.right.nxt then st.right.moveOn else .ok st.right) >>=
      Cursor.loadRun) = .ok right) :
    (moveCursors st >>= loadRuns) = .ok
      { st with left, right, lastpos := st.nextpos, nextpos := min left.nxt right.nxt } := by
  rcases lt_trichotomy st.left.nxt st.right.nxt with hlt | heq | hgt
  · have hl : st.nextpos = st.left.nxt := by omega
    have hr : ¬ st.nextpos = st.right.nxt := by omega
    rw [if_pos hl] at hleft
    rw [if_neg hr] at hright
    cases hmove : st.left.moveOn with
    | error e => simp [hmove, bind, Except.bind] at hleft
    | ok c =>
        simp only [hmove, bind, Except.bind] at hleft hright
        simp [moveCursors, loadRuns, hlt.ne, hl, hmove, hleft, hright, bind, Except.bind, pure,
          Except.pure]
  · have hl : st.nextpos = st.left.nxt := by omega
    have hr : st.nextpos = st.right.nxt := by omega
    rw [if_pos hl] at hleft
    rw [if_pos hr] at hright
    cases hmove : st.left.moveOn with
    | error e => simp [hmove, bind, Except.bind] at hleft
    | ok c =>
        cases hmove' : st.right.moveOn with
        | error e => simp [hmove', bind, Except.bind] at hright
        | ok d =>
            simp only [hmove, hmove', bind, Except.bind] at hleft hright
            simp [moveCursors, loadRuns, heq, hmove, hmove', hleft, hright, bind, Except.bind,
              pure, Except.pure]
  · have hl : ¬ st.nextpos = st.left.nxt := by omega
    have hr : st.nextpos = st.right.nxt := by omega
    rw [if_neg hl] at hleft
    rw [if_pos hr] at hright
    cases hmove : st.right.moveOn with
    | error e => simp [hmove, bind, Except.bind] at hright
    | ok c =>
        simp only [hmove, bind, Except.bind] at hleft hright
        simp [moveCursors, loadRuns, hgt.ne, hgt.ne', hr, hmove, hleft, hright, bind, Except.bind,
          pure, Except.pure]

/-! ## One round -/

/-- The value held back is repeated. -/
theorem OutputAt.grow {sdata : SparseData} {tot : Int} {last : Float8} {runs : List Nat}
    {combined : List Float8} (h : OutputAt sdata tot last runs combined) (htot : 0 < tot)
    {len : Int} (hlen : 0 ≤ len) :
    OutputAt sdata (tot + len) last runs (combined ++ List.replicate len.toNat last) := by
  have hchain : (sdata.vals ++ [last]).IsChain (· ≠ ·) := by
    rcases h.held with ⟨hnone, _⟩ | ⟨_, hchain⟩
    · omega
    · exact hchain
  have hsum : (tot + len).toNat = tot.toNat + len.toNat := by omega
  exact { h with
    combined_eq := by rw [hsum, List.replicate_add, ← List.append_assoc, h.combined_eq]
    held := .inr ⟨by omega, hchain⟩ }

/-- The run held back is written out, and the runs are then the maximal ones. -/
theorem OutputAt.writeOut {sdata : SparseData} {tot : Int} {last : Float8} {runs : List Nat}
    {combined : List Float8} (h : OutputAt sdata tot last runs combined) (htot : 0 < tot)
    (hbound : (runs.sum : Int) + tot < 2147483648) :
    ∃ s, addRunToSdata last tot sdata = .ok s ∧ Packed s combined ∧
      runLens combined = runs ++ [tot.toNat] ∧ s.vals = sdata.vals ++ [last] := by
  have hindex : sdata.index.data ≠ none := by simp [h.index_eq]
  have ⟨s, hadd, hruns, hvals, _, htotal⟩ :=
    addRunToSdata_hasRuns last tot h.hasRuns hindex htot.le (by omega)
  have hlength : runs.length = sdata.vals.length :=
    h.hasRuns.length_runs.trans h.hasRuns.length_vals.symm
  have hpositive : ∀ n ∈ runs ++ [tot.toNat], 0 < n := by
    intro n hn
    rcases List.mem_append.mp hn with hn | hn
    · exact h.positive n hn
    · have hlast : n = tot.toNat := by simpa using hn
      omega
  have hsum : s.totalValueCount.toInt = ((runs ++ [tot.toNat]).sum : Nat) := by
    rw [htotal, h.total_eq, toInt32_of_mem (by omega) (by omega)]
    simp
    omega
  have hdense : s.dense = combined := by
    rw [hruns.dense_eq, hvals, expand_append hlength, expand_singleton, h.combined_eq]
  have hchain : s.vals.IsChain (· ≠ ·) := by
    rcases h.held with ⟨hnone, _⟩ | ⟨_, hchain⟩
    · omega
    · rwa [hvals]
  have hlens : runLens combined = runs ++ [tot.toNat] := by
    rw [← hdense, hruns.dense_eq]
    exact runLens_expand hpositive (hruns.length_runs.trans hruns.length_vals.symm) hchain
  have hone : 1 ≤ s.totalValueCount.toInt := by
    rw [hsum, List.sum_append, List.sum_singleton]
    omega
  have hbytes := addRunToSdata_rleBytes h.index_eq htot.le (by omega) hadd
  exact ⟨s, hadd,
    { hasRuns := hlens ▸ hruns
      wellFormed := ⟨⟨_, hruns, hpositive, hsum⟩, hone⟩
      dense_eq := hdense
      isChain := hchain
      index_eq := hlens ▸ hbytes }, hlens, hvals⟩

/-- The run held back is written out, and another value held back. -/
theorem OutputAt.change {sdata : SparseData} {tot : Int} {last : Float8} {runs : List Nat}
    {combined : List Float8} (h : OutputAt sdata tot last runs combined) (htot : 0 < tot)
    {new : Float8} (hnew : last ≠ new) {len : Int} (hlen : 0 < len)
    (hbound : (runs.sum : Int) + tot < 2147483648) :
    ∃ s, addRunToSdata last tot sdata = .ok s ∧
      OutputAt s len new (runs ++ [tot.toNat]) (combined ++ List.replicate len.toNat new) := by
  have ⟨s, hadd, hpacked, hlens, hvals⟩ := h.writeOut htot hbound
  have ⟨runs', hruns', hpositive, htotal⟩ := hpacked.wellFormed.exists_runs
  have hchain := hpacked.isChain
  rw [hruns'.unique hpacked.hasRuns, hlens] at hpositive htotal
  refine ⟨s, hadd, hlens ▸ hpacked.hasRuns, hlens ▸ hpacked.index_eq, hpositive, htotal, ?_,
    .inr ⟨hlen, ?_⟩⟩
  · rw [← hlens, ← hpacked.hasRuns.dense_eq, hpacked.dense_eq]
  · rw [hvals] at hchain ⊢
    exact isChain_append_pair hchain hnew

/-- Holding a value back adds the stretch from `lastpos` to `nextpos` to the output. -/
theorem holdBack_spec {st : OpState} {runs : List Nat} {combined : List Float8}
    (h : OutputAt st.sdata st.totRunLength st.lastNewValue runs combined)
    (hlt : st.lastpos < st.nextpos)
    (hbound : (runs.sum : Int) + max 0 st.totRunLength + (st.nextpos - st.lastpos) <
      2147483648)
    (newValue : Float8) :
    ∃ sdata tot runs', holdBack st newValue =
        .ok { st with sdata, totRunLength := tot, lastNewValue := newValue } ∧
      OutputAt sdata tot newValue runs'
        (combined ++ List.replicate (st.nextpos - st.lastpos).toNat newValue) ∧ 0 < tot ∧
      (runs'.sum : Int) + tot = runs.sum + max 0 st.totRunLength + (st.nextpos - st.lastpos) := by
  have hstretch : 0 < st.nextpos - st.lastpos := by omega
  have hwrap : toInt32 (st.nextpos - st.lastpos) = st.nextpos - st.lastpos :=
    toInt32_of_mem (by omega) (by omega)
  rcases h.held with ⟨htot, rfl⟩ | ⟨htot, hchain⟩
  · -- the first round: nothing is held back yet
    have hvals : st.sdata.vals = [] := by
      have hlength := h.hasRuns.length_vals
      rw [← h.hasRuns.length_runs] at hlength
      simpa using hlength
    have hcombined : combined = [] := by
      rw [← h.combined_eq, htot]
      simp
    refine ⟨st.sdata, st.nextpos - st.lastpos, [], ?_, ?_, hstretch, by simp [htot]⟩
    · simp [holdBack, htot, bind, Except.bind, pure, Except.pure, hwrap]
    · exact { hasRuns := h.hasRuns, index_eq := h.index_eq, positive := by simp
              total_eq := h.total_eq, combined_eq := by simp [hcombined]
              held := .inr ⟨hstretch, by simp [hvals]⟩ }
  · have hfirst : st.totRunLength ≠ -1 := by omega
    by_cases hnew : newValue = st.lastNewValue
    · -- the value repeats: the run held back grows
      have htot' : toInt32 (st.totRunLength + (st.nextpos - st.lastpos)) =
          st.totRunLength + (st.nextpos - st.lastpos) :=
        toInt32_of_mem (by omega) (by omega)
      refine ⟨st.sdata, st.totRunLength + (st.nextpos - st.lastpos), runs, ?_,
        hnew ▸ h.grow htot hstretch.le, by omega, by omega⟩
      simp [holdBack, hfirst, hnew, bind, Except.bind, pure, Except.pure, htot']
    · -- a new value: the run held back is written out
      have ⟨sdata, hadd, hout⟩ := h.change htot (Ne.symm hnew) hstretch (by omega)
      refine ⟨sdata, st.nextpos - st.lastpos, runs ++ [st.totRunLength.toNat], ?_, hout, hstretch,
        by simp; omega⟩
      simp [holdBack, hfirst, hnew, hadd, bind, Except.bind, pure, Except.pure, hwrap]

/-- The stretch up to `nextpos` is combined into one value. -/
theorem zipWith_restFrom (f : Float8 → Float8 → Float8) {nxt nxt' pos : Int} (pos' : Int)
    (runs runs' : List Nat) (v w : Float8) (vals vals' : List Float8)
    (hle : pos' ≤ nxt) (hle' : pos' ≤ nxt') (hpos : pos ≤ pos') :
    List.zipWith f (restFrom nxt pos runs v vals) (restFrom nxt' pos runs' w vals') =
      List.replicate (pos' - pos).toNat (f v w) ++
        List.zipWith f (restFrom nxt pos' runs v vals) (restFrom nxt' pos' runs' w vals') := by
  have hsub : (nxt - pos).toNat - (pos' - pos).toNat = (nxt - pos').toNat := by omega
  have hsub' : (nxt' - pos).toNat - (pos' - pos).toNat = (nxt' - pos').toNat := by omega
  have hsplit := zipWith_runs f v w (expand runs vals) (expand runs' vals')
    (show (pos' - pos).toNat ≤ (nxt - pos).toNat by omega)
    (show (pos' - pos).toNat ≤ (nxt' - pos).toNat by omega)
  rwa [hsub, hsub'] at hsplit

section Round

variable {f : Float8 → Float8 → Float8} {left right : SparseData} {st held : OpState}
  {v w : Float8}

/-- At the end of both operands the loop is left. -/
theorem opRound_done (hv : valref left st.left.i = .ok v) (hw : valref right st.right.i = .ok w)
    (hhold : holdBack st (f v w) = .ok held)
    (hend : held.left.nxt = held.right.nxt ∧ held.left.nxt = left.totalValueCount.toInt) :
    opRound f left right st = .ok (.done (f v w, held.totRunLength, held.sdata)) := by
  simp only [opRound, hv, hw, hhold, ok_bind]
  rw [if_pos hend]
  rfl

theorem opRound_next (hv : valref left st.left.i = .ok v) (hw : valref right st.right.i = .ok w)
    (hhold : holdBack st (f v w) = .ok held)
    (hend : ¬ (held.left.nxt = held.right.nxt ∧ held.left.nxt = left.totalValueCount.toInt))
    {st' : OpState} (hmove : (moveCursors held >>= loadRuns) = .ok st') :
    opRound f left right st = .ok (.next st') := by
  have ⟨moved, hmoved, hload⟩ := bind_eq_ok.mp hmove
  simp only [opRound, hv, hw, hhold, ok_bind]
  rw [if_neg hend, hmoved, ok_bind, hload]
  rfl

end Round

/-- At the end nothing is left of an operand. -/
theorem CursorAt.restFrom_end {s : SparseData} {c : Cursor} {pos : Int} {n : Nat}
    {runs : List Nat} {v : Float8} {vals : List Float8} (h : CursorAt s c pos n runs v vals)
    (hend : c.nxt = s.totalValueCount.toInt) : restFrom c.nxt c.nxt runs v vals = [] := by
  have htotal := h.total_eq
  have hle := length_le_sum (fun m hm => h.positive m (List.mem_cons_of_mem n hm))
  have hruns : runs = [] := by
    apply List.length_eq_zero_iff.mp
    omega
  simp [restFrom, hruns]

/-- What the loop hands to the code behind it. -/
def OpDone (f : Float8 → Float8 → Float8) (left right : SparseData)
    (out : Float8 × Int × SparseData) : Prop :=
  ∃ outRuns, OutputAt out.2.2 out.2.1 out.1 outRuns (List.zipWith f left.dense right.dense) ∧
    0 < out.2.1 ∧ (outRuns.sum : Int) + out.2.1 = left.totalValueCount.toInt

theorem opRound_spec {f : Float8 → Float8 → Float8} {left right : SparseData} {st : OpState}
    (htotal : left.totalValueCount = right.totalValueCount) (h : OpInv f left right st) :
    (∃ st', opRound f left right st = .ok (.next st') ∧ OpInv f left right st' ∧
      (left.totalValueCount.toInt - st'.lastpos).toNat <
        (left.totalValueCount.toInt - st.lastpos).toNat) ∨
    (∃ out, opRound f left right st = .ok (.done out) ∧ OpDone f left right out) := by
  obtain ⟨_, _, outRuns, combined, ⟨n, runs, v, vals, hl, rfl⟩, ⟨m, runs', w, vals', hr, rfl⟩,
    hout, hsum, hcombined⟩ := h.progress
  have hnext := h.nextpos_eq
  have hll := hl.lt_nxt
  have hrl := hr.lt_nxt
  have hlle := hl.nxt_le
  have hrle := hr.nxt_le
  rw [← htotal] at hrle
  have hmax := (int32_mem left.totalValueCount).2
  obtain ⟨sdata, tot, outRuns', hhold, hout', htot, hsum'⟩ :=
    holdBack_spec hout (by omega) (by omega) (f v w)
  rw [zipWith_restFrom f st.nextpos runs runs' v w vals vals' (by omega) (by omega) (by omega),
    ← List.append_assoc] at hcombined
  by_cases hend : st.left.nxt = st.right.nxt ∧ st.left.nxt = left.totalValueCount.toInt
  · refine .inr ⟨(f v w, tot, sdata), ?_, outRuns', ?_, htot, ?_⟩
    · exact opRound_done hl.value hr.value hhold hend
    · have hpos : st.nextpos = st.left.nxt := by omega
      have hempty : restFrom st.left.nxt st.nextpos runs v vals = [] := by
        rw [hpos]
        exact hl.restFrom_end hend.2
      rw [hempty, List.zipWith_nil_left, List.append_nil] at hcombined
      rw [← hcombined]
      exact hout'
    · show (outRuns'.sum : Int) + tot = left.totalValueCount.toInt
      omega
  · have hshort : st.nextpos < left.totalValueCount.toInt := by
      rcases not_and_or.mp hend with hne | hne <;> omega
    obtain ⟨l', hmovel, haheadl⟩ := hl.goTo st.nextpos (by omega) (by omega) hshort
    obtain ⟨r', hmover, haheadr⟩ := hr.goTo st.nextpos (by omega) (by omega)
      (by rw [← htotal]; exact hshort)
    have hmove := moveCursors_eq ⟨st.left, st.right, st.nextpos, st.lastpos, tot, f v w, sdata⟩
      hnext hmovel hmover
    refine .inl ⟨⟨l', r', min l'.nxt r'.nxt, st.nextpos, tot, f v w, sdata⟩, ?_,
      ⟨rfl, _, _, outRuns', _, haheadl, haheadr, hout', ?_, hcombined⟩, ?_⟩
    · exact opRound_next hl.value hr.value hhold hend hmove
    · show (outRuns'.sum : Int) + max 0 tot = st.nextpos
      omega
    · show (left.totalValueCount.toInt - st.nextpos).toNat <
        (left.totalValueCount.toInt - st.lastpos).toNat
      omega

/-! ## The whole call -/

/-- A well-formed operand has a first run, and the cursor that reads it has the
whole dense array before it. -/
theorem WellFormed.firstCursor {s : SparseData} (h : WellFormed s) :
    ∃ c, (firstCursor s).loadRun = .ok c ∧ Ahead s c 0 s.dense := by
  obtain ⟨runs, hruns, hpositive, htotal⟩ := h.exists_runs
  have hone := h.one_le_total
  have hlength : runs.length = s.vals.length := hruns.length_runs.trans hruns.length_vals.symm
  cases runs with
  | nil =>
      simp at htotal
      omega
  | cons n runs' =>
      obtain ⟨v, vals, hvals⟩ := List.exists_of_length_succ s.vals hlength.symm
      have hn := hpositive n (by simp)
      have hcur : CursorAt s ⟨0, s.index.data, 0, n⟩ 0 n runs' v vals :=
        { index := hruns.index
          drop_vals := hvals
          length_eq := by simpa [hvals] using hlength
          positive := hpositive
          nxt_eq := by simp
          total_eq := by
            simp at htotal ⊢
            omega
          lst_nonneg := le_refl 0
          lst_le := le_refl 0
          lt_nxt := by
            simp
            omega }
      refine ⟨_, hcur.loadRun_eq, n, runs', v, vals, hcur, ?_⟩
      rw [hruns.dense_eq, hvals, expand_cons]
      simp [restFrom]

theorem outputAt_makeSparseData (last : Float8) : OutputAt makeSparseData (-1) last [] [] where
  hasRuns := hasRuns_makeSparseData
  index_eq := rfl
  positive := by simp
  total_eq := rfl
  combined_eq := by simp
  held := .inl ⟨rfl, rfl⟩

theorem opStart_spec {left right : SparseData} (hl : WellFormed left) (hr : WellFormed right)
    (htotal : left.totalValueCount = right.totalValueCount) (f : Float8 → Float8 → Float8) :
    ∃ st, opStart left right = .ok st ∧ OpInv f left right st := by
  obtain ⟨l, hloadl, haheadl⟩ := hl.firstCursor
  obtain ⟨r, hloadr, haheadr⟩ := hr.firstCursor
  refine ⟨opInit l r, ?_, rfl, _, _, [], [], haheadl, haheadr, outputAt_makeSparseData 0, ?_, rfl⟩
  · simp [opStart, hloadl, hloadr, checkSdataDimensions, htotal, bind, Except.bind, pure,
      Except.pure]
  · simp [opInit]

/-- The run held back is written out behind the loop. -/
theorem opFinish_spec {f : Float8 → Float8 → Float8} {left right : SparseData}
    {out : Float8 × Int × SparseData} (h : OpDone f left right out) :
    ∃ s, opFinish out = .ok s ∧ Packed s (List.zipWith f left.dense right.dense) := by
  have ⟨newValue, tot, sdata⟩ := out
  have ⟨outRuns, hout, htot, hsum⟩ := h
  simp only at hout htot hsum
  have hmax := (int32_mem left.totalValueCount).2
  have ⟨s, hadd, hpacked, _⟩ := hout.writeOut htot (by omega)
  refine ⟨s, ?_, hpacked⟩
  simp [opFinish, htot.ne', hadd]

/-- Operands of equal size are combined position by position. -/
theorem opSdataBySdata_packed (arith : Operation → Float8 → Float8 → Float8)
    (operation : Operation) {left right : SparseData} (hl : WellFormed left)
    (hr : WellFormed right) (htotal : left.totalValueCount = right.totalValueCount) :
    ∃ s bound, (∀ fuel, bound ≤ fuel →
        opSdataBySdata fuel arith operation left right = some (.ok s)) ∧
      Packed s (List.zipWith (arith operation) left.dense right.dense) := by
  have ⟨st, hstart, hinv⟩ := opStart_spec hl hr htotal (arith operation)
  have ⟨out, hdone, bound, hret⟩ := Loop.returns_of_invariant
    (OpInv (arith operation) left right)
    (fun st => (left.totalValueCount.toInt - st.lastpos).toNat)
    (OpDone (arith operation) left right) (fun _ h => opRound_spec htotal h) hinv
  have ⟨s, hfinish, hpacked⟩ := opFinish_spec hdone
  refine ⟨s, bound, fun fuel hfuel => ?_, hpacked⟩
  simp [opSdataBySdata, hstart, hret fuel hfuel, hfinish, bind, Except.bind]

/-- Operands of different sizes raise the dimension error. -/
theorem opSdataBySdata_mismatch (arith : Operation → Float8 → Float8 → Float8)
    (operation : Operation) {left right : SparseData} (hl : WellFormed left)
    (hr : WellFormed right) (htotal : left.totalValueCount ≠ right.totalValueCount) (fuel : Nat) :
    opSdataBySdata fuel arith operation left right =
      some (.error (.ereport .invalidParameterValue "dimensions of vectors must be the same")) := by
  have ⟨l, hloadl, _⟩ := hl.firstCursor
  have ⟨r, hloadr, _⟩ := hr.firstCursor
  simp [opSdataBySdata, opStart, hloadl, hloadr, checkSdataDimensions, htotal, bind, Except.bind]

end Madlib.Svec
