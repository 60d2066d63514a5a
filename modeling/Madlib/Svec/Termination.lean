import Mathlib
import Madlib.Svec.Operators

/-!
# Leaving the loop

The loop of `op_sdata_by_sdata` has no bound of its own.  It is left when both cursors end a run
at `total_value_count`, and before that a cursor has to find a run and a value for every position.
It is left exactly when the runs of both operands come to the declared size; an array without
elements has no run to come to it.
-/

namespace Madlib.Svec

open Madlib.Backend Madlib.Lib Madlib.Lib.MachineInt CountCode

/-! ## Reading an index -/

/-- The run lengths read from one pointer on, up to another. -/
inductive ReadsRuns : IndexPtr → List Int → IndexPtr → Prop
  | nil (ptr : IndexPtr) : ReadsRuns ptr [] ptr
  | cons {ptr ptr' last : IndexPtr} {n : Int} {runs : List Int} :
      compwordToInt8 ptr = .ok n → advance ptr = .ok ptr' → ReadsRuns ptr' runs last →
        ReadsRuns ptr (n :: runs) last

/-- One run or more, and no more than there are values, come to the declared size. -/
def ReachesTotal (s : SparseData) : Prop :=
  ∃ (runs : List Nat) (last : IndexPtr),
    ReadsRuns s.index.data (runs.map fun n : Nat => (n : Int)) last ∧ runs ≠ [] ∧
      runs.length ≤ s.vals.length ∧ s.totalValueCount.toInt = (runs.sum : Nat)

/-- The positions the runs end at are in the range of an `int`. -/
def PositionsFit (s : SparseData) : Prop :=
  ∀ (runs : List Int) (last : IndexPtr), ReadsRuns s.index.data runs last →
    runs.length ≤ s.vals.length → (∀ n ∈ runs, 0 ≤ n) ∧ runs.sum < 2147483648

/-- The call comes back. -/
def Leaves (arith : Arith) (operation : Operation) (left right : SparseData) : Prop :=
  ∃ s bound, ∀ fuel, bound ≤ fuel →
    opSdataBySdata fuel arith operation left right = some (.ok s)

theorem advance_of_read {ptr : IndexPtr} {n : Int} (h : compwordToInt8 ptr = .ok n) :
    ∃ ptr', advance ptr = .ok ptr' := by
  match ptr, h with
  | none, _ => exact ⟨none, rfl⟩
  | some [], h => cases h
  | some (b :: word), _ => exact ⟨_, rfl⟩

theorem ReadsRuns.concat {ptr last last' : IndexPtr} {runs : List Int} {n : Int}
    (h : ReadsRuns ptr runs last) (hread : compwordToInt8 last = .ok n)
    (hadvance : advance last = .ok last') : ReadsRuns ptr (runs ++ [n]) last' := by
  induction h with
  | nil ptr => exact .cons hread hadvance (.nil last')
  | cons hfirst hnext _ ih => exact .cons hfirst hnext (ih hread hadvance)

/-! ## Operands that reach their size -/

/-- The cursor stands on a run of length `n`, and the runs up to the declared size follow. -/
structure Reading (s : SparseData) (c : Cursor) (n : Nat) (runs : List Nat) : Prop where
  reads : ∃ last, ReadsRuns c.ptr ((n :: runs).map fun n : Nat => (n : Int)) last
  room : c.i + runs.length < s.vals.length
  nxt_eq : c.nxt = c.lst + n
  lst_nonneg : 0 ≤ c.lst
  total_eq : c.nxt + (runs.sum : Nat) = s.totalValueCount.toInt

section Reading

variable {s : SparseData} {c : Cursor} {n : Nat} {runs : List Nat}

theorem Reading.value (h : Reading s c n runs) : ∃ v, valref s c.i = .ok v := by
  have hroom := h.room
  have hlt : c.i < s.vals.length := by omega
  refine ⟨s.vals[c.i], ?_⟩
  unfold valref
  rw [List.getElem?_eq_getElem hlt]

theorem Reading.nxt_le (h : Reading s c n runs) : c.nxt ≤ s.totalValueCount.toInt := by
  have htotal := h.total_eq
  omega

theorem Reading.loadRun_eq (h : Reading s c n runs) : c.loadRun = .ok c := by
  have ⟨last, hreads⟩ := h.reads
  have hle := h.nxt_le
  have hmax := (int32_mem s.totalValueCount).2
  have hnxt := h.nxt_eq
  have hlst := h.lst_nonneg
  have hrun : toInt32 n = n := toInt32_of_mem (by omega) (by omega)
  have hend : toInt32 (n + c.lst) = c.nxt := by
    rw [toInt32_of_mem (by omega) (by omega)]
    omega
  cases hreads with
  | cons hread _ _ =>
      unfold Cursor.loadRun
      rw [hread, ok_bind]
      dsimp only
      rw [hrun, hend]
      rfl

/-- Going on to a position short of the end, a cursor is moved exactly when its run ends there. -/
theorem Reading.goTo (h : Reading s c n runs) {pos : Int} (hle : pos ≤ c.nxt)
    (hlt : pos < s.totalValueCount.toInt) :
    ∃ c' n' runs', ((if pos = c.nxt then c.moveOn else .ok c) >>= Cursor.loadRun) = .ok c' ∧
      Reading s c' n' runs' ∧ pos ≤ c'.nxt ∧ c'.i = if pos = c.nxt then c.i + 1 else c.i := by
  by_cases hend : pos = c.nxt
  · rw [if_pos hend, if_pos hend]
    have htotal := h.total_eq
    cases runs with
    | nil =>
        rw [List.sum_nil] at htotal
        omega
    | cons n' runs' =>
        have ⟨last, hreads⟩ := h.reads
        cases hreads with
        | @cons _ ptr' _ _ _ _ hadvance hrest =>
            have hroom := h.room
            have hnxt := h.nxt_eq
            have hlst := h.lst_nonneg
            rw [List.length_cons] at hroom
            rw [List.sum_cons] at htotal
            have hnext : Reading s ⟨c.i + 1, ptr', c.nxt, c.nxt + n'⟩ n' runs' :=
              { reads := ⟨last, hrest⟩
                room := by dsimp only; omega
                nxt_eq := rfl
                lst_nonneg := by dsimp only; omega
                total_eq := by dsimp only; omega }
            refine ⟨_, n', runs', ?_, hnext, by dsimp only; omega, rfl⟩
            rw [← hnext.loadRun_eq, Cursor.moveOn, hadvance]
            rfl
  · rw [if_neg hend, if_neg hend, ok_bind]
    exact ⟨c, n, runs, h.loadRun_eq, h, hle, rfl⟩

end Reading

/-- Whenever a round begins, both operands have their runs before them and the output can be
added to. -/
structure OpReady (left right : SparseData) (st : OpState) : Prop where
  left_reading : ∃ n runs, Reading left st.left n runs
  right_reading : ∃ n runs, Reading right st.right n runs
  nextpos_eq : st.nextpos = min st.left.nxt st.right.nxt
  lastpos_nonneg : 0 ≤ st.lastpos
  lastpos_le : st.lastpos ≤ st.nextpos
  held : st.totRunLength = -1 ∨ 0 ≤ st.totRunLength
  held_le : st.totRunLength ≤ st.lastpos
  index_ne : st.sdata.index.data ≠ none

/-- What the code behind the loop relies on. -/
def OpLeft (out : Float8 × Int × SparseData) : Prop :=
  0 ≤ out.2.1 ∧ out.2.1 < 2147483648 ∧ out.2.2.index.data ≠ none

theorem addRunToSdata_returns (v : Float8) {runLen : Int} {s : SparseData}
    (hindex : s.index.data ≠ none) (hlo : 0 ≤ runLen) (hhi : runLen < 2147483648) :
    ∃ s', addRunToSdata v runLen s = .ok s' ∧ s'.index.data ≠ none := by
  have ⟨bytes, hbytes⟩ := Option.ne_none_iff_exists'.mp hindex
  have ⟨s', hadd, _, hindex', _⟩ :=
    addRunToSdata_eq v hbytes (rleIndexBytes_eq hlo (show runLen < 9223372036854775808 by omega))
  refine ⟨s', hadd, ?_⟩
  rw [hindex']
  exact Option.some_ne_none _

theorem holdBack_returns {st : OpState} (hindex : st.sdata.index.data ≠ none)
    (hheld : st.totRunLength = -1 ∨ 0 ≤ st.totRunLength) (hle : st.totRunLength ≤ st.lastpos)
    (hlast : 0 ≤ st.lastpos) (hnext : st.lastpos ≤ st.nextpos) (hmax : st.nextpos < 2147483648)
    (newValue : Float8) :
    ∃ sdata tot, holdBack st newValue =
        .ok { st with sdata, totRunLength := tot, lastNewValue := newValue } ∧
      0 ≤ tot ∧ tot ≤ st.nextpos ∧ sdata.index.data ≠ none := by
  have hwrap (tot : Int) (h0 : 0 ≤ tot) (hle : tot ≤ st.lastpos) :
      toInt32 (tot + (st.nextpos - st.lastpos)) = tot + (st.nextpos - st.lastpos) :=
    toInt32_of_mem (by omega) (by omega)
  rcases hheld with hfirst | hheld
  · refine ⟨st.sdata, 0 + (st.nextpos - st.lastpos), ?_, by omega, by omega, hindex⟩
    rw [← hwrap 0 (le_refl 0) hlast]
    simp [holdBack, hfirst, bind, Except.bind, pure, Except.pure]
  · have hstarted : st.totRunLength ≠ -1 := by omega
    by_cases hnew : newValue = st.lastNewValue
    · refine ⟨st.sdata, st.totRunLength + (st.nextpos - st.lastpos), ?_, by omega, by omega, hindex⟩
      rw [← hwrap st.totRunLength hheld hle]
      simp [holdBack, hstarted, hnew, bind, Except.bind, pure, Except.pure]
    · obtain ⟨sdata, hadd, hindex'⟩ :=
        addRunToSdata_returns st.lastNewValue hindex hheld (show st.totRunLength < 2147483648 by omega)
      refine ⟨sdata, 0 + (st.nextpos - st.lastpos), ?_, by omega, by omega, hindex'⟩
      rw [← hwrap 0 (le_refl 0) hlast]
      simp [holdBack, hstarted, hnew, hadd, bind, Except.bind, pure, Except.pure]

/-- The values the two cursors have still before them. -/
def valuesLeft (left right : SparseData) (st : OpState) : Nat :=
  (left.vals.length - st.left.i) + (right.vals.length - st.right.i)

theorem opRound_returns {f : Float8 → Float8 → Float8} {left right : SparseData} {st : OpState}
    (htotal : left.totalValueCount = right.totalValueCount) (h : OpReady left right st) :
    (∃ st', opRound f left right st = .ok (.next st') ∧ OpReady left right st' ∧
      valuesLeft left right st' < valuesLeft left right st) ∨
    (∃ out, opRound f left right st = .ok (.done out) ∧ OpLeft out) := by
  have ⟨n, runs, hl⟩ := h.left_reading
  have ⟨m, runs', hr⟩ := h.right_reading
  have ⟨v, hv⟩ := hl.value
  have ⟨w, hw⟩ := hr.value
  have hnext := h.nextpos_eq
  have hlast := h.lastpos_le
  have hlle := hl.nxt_le
  have hrle := hr.nxt_le
  rw [← htotal] at hrle
  have hmax := (int32_mem left.totalValueCount).2
  have ⟨sdata, tot, hhold, htot, htotle, hindex⟩ :=
    holdBack_returns h.index_ne h.held h.held_le h.lastpos_nonneg hlast
      (show st.nextpos < 2147483648 by omega) (f v w)
  by_cases hend : st.left.nxt = st.right.nxt ∧ st.left.nxt = left.totalValueCount.toInt
  · refine .inr ⟨(f v w, tot, sdata), opRound_done hv hw hhold hend, htot, ?_, hindex⟩
    dsimp only
    omega
  · -- the cursors that are moved have a run left, as the total is still ahead
    have hshort : st.nextpos < left.totalValueCount.toInt := by
      rcases not_and_or.mp hend with hne | hne <;> omega
    have ⟨l', nl, runsl, hmovel, hreadl, hposl, hil⟩ :=
      hl.goTo (show st.nextpos ≤ st.left.nxt by omega) hshort
    have ⟨r', nr, runsr, hmover, hreadr, hposr, hir⟩ :=
      hr.goTo (show st.nextpos ≤ st.right.nxt by omega) (htotal ▸ hshort)
    have hmove := moveCursors_eq ⟨st.left, st.right, st.nextpos, st.lastpos, tot, f v w, sdata⟩
      hnext hmovel hmover
    refine .inl ⟨_, opRound_next hv hw hhold hend hmove, ?_, ?_⟩
    · have hnonneg := h.lastpos_nonneg
      exact
        { left_reading := ⟨nl, runsl, hreadl⟩
          right_reading := ⟨nr, runsr, hreadr⟩
          nextpos_eq := rfl
          lastpos_nonneg := by dsimp only; omega
          lastpos_le := by dsimp only; omega
          held := .inr htot
          held_le := htotle
          index_ne := hindex }
    · have hrooml := hl.room
      have hroomr := hr.room
      show (left.vals.length - l'.i) + (right.vals.length - r'.i) <
        (left.vals.length - st.left.i) + (right.vals.length - st.right.i)
      rw [hil, hir]
      split_ifs <;> omega

theorem ReachesTotal.firstCursor {s : SparseData} (h : ReachesTotal s) :
    ∃ c n runs, (firstCursor s).loadRun = .ok c ∧ Reading s c n runs := by
  have ⟨runs, last, hreads, hne, hroom, htotal⟩ := h
  cases runs with
  | nil => exact absurd rfl hne
  | cons n runs =>
      rw [List.length_cons] at hroom
      rw [List.sum_cons] at htotal
      have hcur : Reading s ⟨0, s.index.data, 0, n⟩ n runs :=
        { reads := ⟨last, hreads⟩
          room := by dsimp only; omega
          nxt_eq := by dsimp only; omega
          lst_nonneg := le_refl 0
          total_eq := by dsimp only; omega }
      exact ⟨_, n, runs, hcur.loadRun_eq, hcur⟩

theorem opStart_returns {left right : SparseData} (hl : ReachesTotal left)
    (hr : ReachesTotal right) (htotal : left.totalValueCount = right.totalValueCount) :
    ∃ st, opStart left right = .ok st ∧ OpReady left right st := by
  have ⟨l, n, runs, hloadl, hreadl⟩ := hl.firstCursor
  have ⟨r, m, runs', hloadr, hreadr⟩ := hr.firstCursor
  have hnxtl := hreadl.nxt_eq
  have hnxtr := hreadr.nxt_eq
  have hlstl := hreadl.lst_nonneg
  have hlstr := hreadr.lst_nonneg
  refine ⟨opInit l r, ?_, ?_⟩
  · simp [opStart, hloadl, hloadr, checkSdataDimensions, htotal, bind, Except.bind, pure,
      Except.pure]
  · exact
      { left_reading := ⟨n, runs, hreadl⟩
        right_reading := ⟨m, runs', hreadr⟩
        nextpos_eq := rfl
        lastpos_nonneg := le_refl 0
        lastpos_le := by dsimp only [opInit]; omega
        held := .inl rfl
        held_le := by dsimp only [opInit]; omega
        index_ne := Option.some_ne_none _ }

theorem opFinish_returns {out : Float8 × Int × SparseData} (h : OpLeft out) :
    ∃ s, opFinish out = .ok s := by
  have ⟨newValue, tot, sdata⟩ := out
  have ⟨htot, hlt, hindex⟩ := h
  unfold opFinish
  by_cases hzero : tot = 0
  · exact ⟨sdata, if_neg (not_not.mpr hzero)⟩
  · have ⟨s, hadd, _⟩ := addRunToSdata_returns newValue hindex htot hlt
    exact ⟨s, (if_pos hzero).trans hadd⟩

theorem leaves_of_reachesTotal {arith : Arith} {operation : Operation} {left right : SparseData}
    (htotal : left.totalValueCount = right.totalValueCount) (hl : ReachesTotal left)
    (hr : ReachesTotal right) : Leaves arith operation left right := by
  have ⟨st, hstart, hready⟩ := opStart_returns hl hr htotal
  have ⟨out, hleft, bound, hret⟩ := Loop.returns_of_invariant (OpReady left right)
    (valuesLeft left right) OpLeft (fun _ h => opRound_returns (f := arith operation) htotal h) hready
  have ⟨s, hfinish⟩ := opFinish_returns hleft
  refine ⟨s, bound, fun fuel hfuel => ?_⟩
  simp [opSdataBySdata, hstart, hret fuel hfuel, hfinish, bind, Except.bind]

/-! ## Loops that are left -/

/-- The cursor has read the runs in front of it; its run is still to be read. -/
def Stands (s : SparseData) (c : Cursor) : Prop :=
  ∃ runs : List Int, runs.length = c.i ∧ ReadsRuns s.index.data runs c.ptr ∧
    c.lst = toInt32 runs.sum

/-- The cursor has read its run. -/
def Loaded (s : SparseData) (c : Cursor) : Prop :=
  Stands s c ∧ ∃ n, compwordToInt8 c.ptr = .ok n ∧ c.nxt = toInt32 (n + c.lst)

theorem stands_firstCursor (s : SparseData) : Stands s (firstCursor s) :=
  ⟨[], rfl, .nil _, rfl⟩

theorem Stands.loadRun {s : SparseData} {c c' : Cursor} (h : Stands s c)
    (hload : c.loadRun = .ok c') : Loaded s c' := by
  unfold Cursor.loadRun at hload
  have ⟨n, hread, hload⟩ := bind_eq_ok.mp hload
  cases hload
  exact ⟨h, n, hread, toInt32_toInt32_add n c.lst⟩

theorem Loaded.moveOn {s : SparseData} {c c' : Cursor} (h : Loaded s c)
    (hmove : c.moveOn = .ok c') : Stands s c' := by
  have ⟨⟨runs, hlength, hreads, hlst⟩, n, hread, hnxt⟩ := h
  unfold Cursor.moveOn at hmove
  have ⟨ptr', hadvance, hmove⟩ := bind_eq_ok.mp hmove
  cases hmove
  refine ⟨runs ++ [n], ?_, hreads.concat hread hadvance, ?_⟩
  · rw [List.length_append, hlength]
    rfl
  · dsimp only
    rw [hnxt, hlst, Int.add_comm n, toInt32_toInt32_add, List.sum_append, List.sum_singleton]

/-- A cursor that reads a value at the declared size has come to it. -/
theorem Loaded.reachesTotal {s : SparseData} {c : Cursor} {v : Float8} (h : Loaded s c)
    (hfit : PositionsFit s) (hvalue : valref s c.i = .ok v)
    (hend : c.nxt = s.totalValueCount.toInt) : ReachesTotal s := by
  have ⟨⟨runs, hlength, hreads, hlst⟩, n, hread, hnxt⟩ := h
  have ⟨ptr', hadvance⟩ := advance_of_read hread
  have hlt : c.i < s.vals.length := by
    by_contra hge
    unfold valref at hvalue
    rw [List.getElem?_eq_none (Nat.le_of_not_lt hge)] at hvalue
    cases hvalue
  have hroom : (runs ++ [n]).length ≤ s.vals.length := by
    rw [List.length_append, List.length_singleton]
    omega
  have hall := hreads.concat hread hadvance
  have ⟨hnonneg, hsum⟩ := hfit _ _ hall hroom
  have htotal : s.totalValueCount.toInt = toInt32 (runs ++ [n]).sum := by
    rw [← hend, hnxt, hlst, Int.add_comm n, toInt32_toInt32_add, List.sum_append,
      List.sum_singleton]
  have hne : runs ++ [n] ≠ [] := by simp
  generalize runs ++ [n] = all at hroom hall hnonneg hsum htotal hne
  lift all to List Nat using hnonneg
  have hcast : (((all.sum : Nat) : Int)) = (all.map fun n : Nat => (n : Int)).sum :=
    map_list_sum (Nat.castAddMonoidHom Int) all
  refine ⟨all, ptr', hall, ?_, by rwa [List.length_map] at hroom, ?_⟩
  · rintro rfl
    exact hne rfl
  · rw [htotal, hcast, toInt32_of_mem (by omega) hsum]

theorem holdBack_cursors {st st' : OpState} {newValue : Float8}
    (h : holdBack st newValue = .ok st') : st'.left = st.left ∧ st'.right = st.right := by
  unfold holdBack at h
  dsimp only at h
  split_ifs at h
  · exact absurd rfl (by assumption)
  · cases h
    exact ⟨rfl, rfl⟩
  · have ⟨sdata, _, h⟩ := bind_eq_ok.mp h
    cases h
    exact ⟨rfl, rfl⟩
  · cases h
    exact ⟨rfl, rfl⟩

/-- A cursor is moved or stays. -/
theorem moveCursors_cases {st st' : OpState} (h : moveCursors st = .ok st') :
    (st.left.moveOn = .ok st'.left ∨ st'.left = st.left) ∧
    (st.right.moveOn = .ok st'.right ∨ st'.right = st.right) := by
  unfold moveCursors at h
  split_ifs at h
  · have ⟨l, hl, h⟩ := bind_eq_ok.mp h
    have ⟨r, hr, h⟩ := bind_eq_ok.mp h
    cases h
    exact ⟨.inl hl, .inl hr⟩
  · have ⟨l, hl, h⟩ := bind_eq_ok.mp h
    cases h
    exact ⟨.inl hl, .inr rfl⟩
  · have ⟨r, hr, h⟩ := bind_eq_ok.mp h
    cases h
    exact ⟨.inr rfl, .inl hr⟩
  · cases h
    exact ⟨.inr rfl, .inr rfl⟩

theorem loadRuns_ok {st st' : OpState} (h : loadRuns st = .ok st') :
    st.left.loadRun = .ok st'.left ∧ st.right.loadRun = .ok st'.right := by
  unfold loadRuns at h
  have ⟨l, hl, h⟩ := bind_eq_ok.mp h
  have ⟨r, hr, h⟩ := bind_eq_ok.mp h
  cases h
  exact ⟨hl, hr⟩

/-- Everything a round can do to the cursors. -/
theorem opRound_ok {f : Float8 → Float8 → Float8} {left right : SparseData} {st : OpState}
    {step : Loop.Step OpState (Float8 × Int × SparseData)}
    (h : opRound f left right st = .ok step) :
    ∃ v w held, valref left st.left.i = .ok v ∧ valref right st.right.i = .ok w ∧
      holdBack st (f v w) = .ok held ∧
      ((held.left.nxt = held.right.nxt ∧ held.left.nxt = left.totalValueCount.toInt ∧
          step = .done (f v w, held.totRunLength, held.sdata)) ∨
        ∃ moved st', moveCursors held = .ok moved ∧ loadRuns moved = .ok st' ∧ step = .next st') := by
  unfold opRound at h
  have ⟨v, hv, h⟩ := bind_eq_ok.mp h
  have ⟨w, hw, h⟩ := bind_eq_ok.mp h
  have ⟨held, hhold, h⟩ := bind_eq_ok.mp h
  refine ⟨v, w, held, hv, hw, hhold, ?_⟩
  split at h
  · rename_i hend
    cases h
    exact .inl ⟨hend.1, hend.2, rfl⟩
  · have ⟨moved, hmoved, h⟩ := bind_eq_ok.mp h
    have ⟨st', hload, h⟩ := bind_eq_ok.mp h
    cases h
    exact .inr ⟨moved, st', hmoved, hload, rfl⟩

/-- Both cursors have read their runs whenever a round begins. -/
def BothLoaded (left right : SparseData) (st : OpState) : Prop :=
  Loaded left st.left ∧ Loaded right st.right

/-- A cursor that is loaded is so again when the round is over. -/
theorem Loaded.next {s : SparseData} {c moved c' : Cursor} (h : Loaded s c)
    (hmove : c.moveOn = .ok moved ∨ moved = c) (hload : moved.loadRun = .ok c') :
    Loaded s c' := by
  rcases hmove with hmove | rfl
  · exact (h.moveOn hmove).loadRun hload
  · exact h.1.loadRun hload

theorem bothLoaded_opRound {f : Float8 → Float8 → Float8} {left right : SparseData}
    {st st' : OpState} (h : BothLoaded left right st)
    (hround : opRound f left right st = .ok (.next st')) : BothLoaded left right st' := by
  have ⟨v, w, held, _, _, hhold, hstep⟩ := opRound_ok hround
  have ⟨hkeepl, hkeepr⟩ := holdBack_cursors hhold
  rcases hstep with ⟨_, _, hdone⟩ | ⟨moved, st₂, hmoved, hload, hnext⟩
  · cases hdone
  · cases hnext
    have ⟨hmovel, hmover⟩ := moveCursors_cases hmoved
    have ⟨hloadl, hloadr⟩ := loadRuns_ok hload
    rw [hkeepl] at hmovel
    rw [hkeepr] at hmover
    exact ⟨h.1.next hmovel hloadl, h.2.next hmover hloadr⟩

theorem opStart_ok {left right : SparseData} {st : OpState} (h : opStart left right = .ok st) :
    BothLoaded left right st := by
  unfold opStart at h
  have ⟨l, hl, h⟩ := bind_eq_ok.mp h
  have ⟨r, hr, h⟩ := bind_eq_ok.mp h
  have ⟨_, _, h⟩ := bind_eq_ok.mp h
  cases h
  exact ⟨(stands_firstCursor left).loadRun hl, (stands_firstCursor right).loadRun hr⟩

theorem reachesTotal_of_leaves {arith : Arith} {operation : Operation} {left right : SparseData}
    (htotal : left.totalValueCount = right.totalValueCount) (hfitl : PositionsFit left)
    (hfitr : PositionsFit right) (h : Leaves arith operation left right) :
    ReachesTotal left ∧ ReachesTotal right := by
  have ⟨s, bound, hret⟩ := h
  have hrun := hret bound (le_refl bound)
  unfold opSdataBySdata at hrun
  cases hstart : opStart left right with
  | error e =>
      rw [hstart] at hrun
      cases hrun
  | ok st =>
      rw [hstart] at hrun
      have ⟨out, hloop, hfinish⟩ := Option.map_eq_some_iff.mp hrun
      have ⟨result, hout, _⟩ := bind_eq_ok.mp hfinish
      rw [hout] at hloop
      have ⟨last, hloaded, hdone⟩ := Loop.exists_done (BothLoaded left right)
        (fun _ _ h hround => bothLoaded_opRound h hround) hloop (opStart_ok hstart)
      have ⟨v, w, held, hv, hw, hhold, hstep⟩ := opRound_ok hdone
      have ⟨hkeepl, hkeepr⟩ := holdBack_cursors hhold
      rcases hstep with ⟨hmeet, hend, _⟩ | ⟨_, _, _, _, hnext⟩
      · have hendr : held.right.nxt = right.totalValueCount.toInt := by
          rw [← hmeet, hend, htotal]
        rw [hkeepl] at hend
        rw [hkeepr] at hendr
        exact ⟨hloaded.1.reachesTotal hfitl hv hend, hloaded.2.reachesTotal hfitr hw hendr⟩
      · cases hnext

/-! ## Truthful operands -/

theorem readsRuns_of_indexRuns {ptr : IndexPtr} {runs : List Nat} (h : IndexRuns ptr runs) :
    ∃ last, ReadsRuns ptr (runs.map fun n : Nat => (n : Int)) last := by
  induction runs generalizing ptr with
  | nil => exact ⟨ptr, .nil ptr⟩
  | cons n runs ih =>
      have ⟨hread, ptr', hadvance, hrest⟩ := h.read
      have ⟨last, hreads⟩ := ih hrest
      exact ⟨last, .cons hread hadvance hreads⟩

/-- No more runs than an index holds are the first of them. -/
theorem ReadsRuns.eq_take {ptr last : IndexPtr} {reads : List Int} {runs : List Nat}
    (h : ReadsRuns ptr reads last) (hruns : IndexRuns ptr runs)
    (hle : reads.length ≤ runs.length) :
    reads = (runs.take reads.length).map fun n : Nat => (n : Int) := by
  induction h generalizing runs with
  | nil ptr => rfl
  | @cons ptr ptr' last n reads hread hadvance _ ih =>
      cases runs with
      | nil => cases hle
      | cons m runs =>
          have ⟨hread', ptr'', hadvance', hrest⟩ := hruns.read
          have hn : n = m := Except.ok.inj (hread.symm.trans hread')
          have hptr : ptr' = ptr'' := Except.ok.inj (hadvance.symm.trans hadvance')
          rw [List.length_cons, List.take_succ_cons, List.map_cons, hn]
          congr 1
          exact ih (hptr ▸ hrest) (Nat.le_of_succ_le_succ hle)

theorem Truthful.positionsFit {s : SparseData} (h : Truthful s) : PositionsFit s := by
  have ⟨runs, hruns, htotal⟩ := h
  intro reads last hreads hroom
  have hle : reads.length ≤ runs.length := by
    rw [hruns.length_runs, ← hruns.length_vals]
    exact hroom
  have htake := hreads.eq_take hruns.index hle
  have hmax := (int32_mem s.totalValueCount).2
  have hprefix := List.sum_take_add_sum_drop runs reads.length
  have hcast : ((((runs.take reads.length).sum : Nat) : Int)) =
      ((runs.take reads.length).map fun n : Nat => (n : Int)).sum :=
    map_list_sum (Nat.castAddMonoidHom Int) _
  rw [← htake] at hcast
  constructor
  · intro n hn
    rw [htake] at hn
    have ⟨m, _, hm⟩ := List.mem_map.mp hn
    rw [← hm]
    exact Int.natCast_nonneg m
  · omega

/-- A truthful array comes to its size unless it has no runs. -/
theorem Truthful.reachesTotal_iff {s : SparseData} (h : Truthful s) :
    ReachesTotal s ↔ s.uniqueValueCount ≠ 0 := by
  have ⟨runs, hruns, htotal⟩ := h
  constructor
  · intro hreach hzero
    have ⟨reads, _, _, hne, hroom, _⟩ := hreach
    rw [hruns.length_vals, hzero] at hroom
    exact hne (List.length_eq_zero_iff.mp (Nat.le_zero.mp hroom))
  · intro hne
    have ⟨last, hreads⟩ := readsRuns_of_indexRuns hruns.index
    refine ⟨runs, last, hreads, ?_, ?_, htotal⟩
    · rintro rfl
      exact hne hruns.length_runs.symm
    · rw [hruns.length_runs, hruns.length_vals]

/-- On truthful operands the loop is left unless one of them is empty. -/
theorem Truthful.leaves_iff {arith : Arith} {operation : Operation} {left right : SparseData}
    (hl : Truthful left) (hr : Truthful right)
    (htotal : left.totalValueCount = right.totalValueCount) :
    Leaves arith operation left right ↔ left.uniqueValueCount ≠ 0 ∧ right.uniqueValueCount ≠ 0 := by
  rw [← hl.reachesTotal_iff, ← hr.reachesTotal_iff]
  constructor
  · exact reachesTotal_of_leaves htotal hl.positionsFit hr.positionsFit
  · exact fun h => leaves_of_reachesTotal htotal h.1 h.2

/-! ## What the module can build -/

/-- The arrays that come from the constructors, as the operators are given them. -/
inductive Built (int8ArrayIn : List Char → Except String (PgArray Int64))
    (float8ArrayIn : List Char → Except String (PgArray Float8)) : SparseData → Prop
  | input {str : List Char} {svec : SvecType} :
      svecIn int8ArrayIn float8ArrayIn str = .ok svec →
        Built int8ArrayIn float8ArrayIn (sdataFromSvec svec)
  | concat {left right svec : SvecType} :
      Built int8ArrayIn float8ArrayIn (sdataFromSvec left) →
      Built int8ArrayIn float8ArrayIn (sdataFromSvec right) →
      svecConcat (some left) (some right) = .ok (some svec) →
        Built int8ArrayIn float8ArrayIn (sdataFromSvec svec)
  | concatReplicate {multiplier : Int32} {rep svec : SvecType} :
      Built int8ArrayIn float8ArrayIn (sdataFromSvec rep) →
      svecConcatReplicate multiplier rep = .ok svec →
        Built int8ArrayIn float8ArrayIn (sdataFromSvec svec)
  | append {base svec : SvecType} {newele : Option Float8} {count : Option Int64} :
      Built int8ArrayIn float8ArrayIn (sdataFromSvec base) →
      svecAppend (some base) newele count = .ok svec →
        Built int8ArrayIn float8ArrayIn (sdataFromSvec svec)
  | appendFirst {svec : SvecType} {newele : Option Float8} {count : Option Int64} :
      svecAppend none newele count = .ok svec →
        Built int8ArrayIn float8ArrayIn (sdataFromSvec svec)
  | castFloat8arr {array : ArrayType} {svec : SvecType} :
      svecCastFloat8arr array = .ok svec → Built int8ArrayIn float8ArrayIn (sdataFromSvec svec)
  | castScalar {value : Float8} {svec : SvecType} :
      svecMakeScalar value = .ok svec → Built int8ArrayIn float8ArrayIn (sdataFromSvec svec)
  | uncompressed {array : ArrayType} {sdata : SparseData} :
      sdataUncompressedFromFloat8arr array = .ok sdata → Built int8ArrayIn float8ArrayIn sdata

theorem emptyArray_dims_pos : ∀ n ∈ ([] : List Nat), 0 < n := fun _ hn => absurd hn List.not_mem_nil

theorem emptyArray_bitmap_le : ∀ bitmap, (none : Option (List UInt8)) = some bitmap →
    arrayGetNItems [] ≤ 8 * bitmap.length := by
  intro bitmap h
  cases h

theorem emptyArray_length_data :
    ([] : List Float8).length = (presentElements (arrayGetNItems []) none).count true := rfl

theorem emptyArray_size_le :
    16 + 8 * ([] : List Nat).length + 8 * ([] : List Float8).length ≤ maxAllocSize := by decide

/-- `'{}'::float8[]` -/
def emptyArray : ArrayType :=
  { elemtype := float8Oid, dims := [], nullbitmap := none, data := []
    dims_pos := emptyArray_dims_pos
    dims_le := Nat.zero_le _
    bitmap_le := emptyArray_bitmap_le
    length_data := emptyArray_length_data
    size_le := emptyArray_size_le }

end Madlib.Svec
