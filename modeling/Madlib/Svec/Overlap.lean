import Madlib.Lib.Loop
import Madlib.Svec.Pivot

/-!
# Containment and equality up to zeros

`sparsedata_contains` and `sparsedata_eq_zero_is_equal` walk over both arrays at once, up to
the end of the shorter one, and compare every run with the runs of the other array that
overlap it.
-/

namespace Madlib.Svec

open Madlib.Backend Madlib.Lib Madlib.Lib.MachineInt Madlib.Lib.RunLength CountCode

/-- The run that was read last, which is -1 at first, the pointer behind it and the elements
read up to its end. -/
structure RunCursor where
  i : Int
  ix : IndexPtr
  read : Int

def RunCursor.start (sdata : SparseData) : RunCursor :=
  { i := -1, ix := sdata.index.data, read := 0 }

def RunCursor.next (c : RunCursor) : Except Fault RunCursor := do
  let n ← compwordToInt8 c.ix
  let ix ← advance c.ix
  pure { i := c.i + 1, ix, read := toInt32 (c.read + toInt32 n) }

/-- `vals[i]` -/
def RunCursor.value (sdata : SparseData) (c : RunCursor) : Except Fault Float8 :=
  if c.i < 0 then .error .outOfBounds else valref sdata c.i.toNat

/-- The cursor that is behind moves on, or both do. -/
def nextRuns (c : RunCursor × RunCursor) : Except Fault (RunCursor × RunCursor) :=
  if c.1.read < c.2.read then do
    let left ← c.1.next
    pure (left, c.2)
  else if c.1.read > c.2.read then do
    let right ← c.2.next
    pure (c.1, right)
  else do
    let left ← c.1.next
    let right ← c.2.next
    pure (left, right)

/-- One round of the loop; two overlapping runs end it with `false` when `refuses` says so. -/
def overlapRound (refuses : Float8 → Float8 → Bool) (left right : SparseData) (minimum : Int)
    (c : RunCursor × RunCursor) :
    Except Fault (Loop.Step (RunCursor × RunCursor) Bool) :=
  if c.1.read < minimum ∨ c.2.read < minimum then do
    let c ← nextRuns c
    let v ← c.1.value left
    let w ← c.2.value right
    if refuses v w then pure (.done false) else pure (.next c)
  else .ok (.done true)

def overlapLoop (fuel : Nat) (refuses : Float8 → Float8 → Bool) (left right : SparseData) :
    Option (Except Fault Bool) :=
  Loop.run
    (overlapRound refuses left right (min left.totalValueCount.toInt right.totalValueCount.toInt))
    fuel (RunCursor.start left, RunCursor.start right)

/-- `x != 0.0` -/
def nonzero (x : Float8) : Bool := !float8Eq x 0

/-- Two values that are neither equal nor zero. -/
def eqZeroRefuses (v w : Float8) : Bool := v ≠ w && nonzero v && nonzero w

def sparsedataEqZeroIsEqual (fuel : Nat) (left right : SparseData) : Option (Except Fault Bool) :=
  overlapLoop fuel eqZeroRefuses left right

/-- A value on the right that is neither zero nor that on the left. -/
def containsRefuses (v w : Float8) : Bool := v ≠ w && nonzero w

/-- The longer right array whose last run is not zero. -/
def lastRefuses (left right : SparseData) : Except Fault Bool :=
  if right.totalValueCount.toInt > left.totalValueCount.toInt then do
    let w ← valref right (right.uniqueValueCount - 1)
    pure (nonzero w)
  else pure false

def sparsedataContains (fuel : Nat) (left right : SparseData) : Option (Except Fault Bool) :=
  match lastRefuses left right with
  | .error e => some (.error e)
  | .ok true => some (.ok false)
  | .ok false => overlapLoop fuel containsRefuses left right

def svecEqNonZero (fuel : Nat) (svec1 svec2 : SvecType) : Option (Except Fault Bool) :=
  sparsedataEqZeroIsEqual fuel (sdataFromSvec svec1) (sdataFromSvec svec2)

def svecContains (fuel : Nat) (svec1 svec2 : SvecType) : Option (Except Fault Bool) :=
  sparsedataContains fuel (sdataFromSvec svec1) (sdataFromSvec svec2)

/-! ## One cursor -/

/-- From position `pos`, in the current run or at its end, `rest` of the array is left. -/
structure RunsAhead (s : SparseData) (c : RunCursor) (pos : Int) (rest : List Float8) : Prop where
  exists_runs : ∃ runs vals, IndexRuns c.ix runs ∧ s.vals.drop (c.i + 1).toNat = vals ∧
    runs.length = vals.length ∧ (∀ n ∈ runs, 0 < n) ∧
    c.read + (runs.sum : Nat) = s.totalValueCount.toInt ∧
    (pos = c.read ∧ rest = expand runs vals ∨
      pos < c.read ∧ ∃ v, c.value s = .ok v ∧
        rest = List.replicate (c.read - pos).toNat v ++ expand runs vals)
  i_ge : -1 ≤ c.i
  pos_nonneg : 0 ≤ pos

/-- The position is where the elements left end at the end of the array. -/
theorem RunsAhead.length {s : SparseData} {c : RunCursor} {pos : Int} {rest : List Float8}
    (h : RunsAhead s c pos rest) : pos + (rest.length : Int) = s.totalValueCount.toInt := by
  have ⟨runs, vals, _, _, hlength, _, htotal, hpos⟩ := h.exists_runs
  have hexpand := length_expand hlength
  rcases hpos with ⟨heq, hrest⟩ | ⟨hlt, v, _, hrest⟩
  · rw [hrest, hexpand]
    omega
  · rw [hrest, List.length_append, List.length_replicate, hexpand]
    omega

/-- Inside a run the cursor has its value. -/
theorem RunsAhead.inside {s : SparseData} {c : RunCursor} {pos : Int} {rest : List Float8}
    (h : RunsAhead s c pos rest) (hlt : pos < c.read) :
    ∃ v tail, c.value s = .ok v ∧ rest = List.replicate (c.read - pos).toNat v ++ tail ∧
      ∀ pos', pos < pos' → pos' ≤ c.read →
        RunsAhead s c pos' (List.replicate (c.read - pos').toNat v ++ tail) := by
  have ⟨runs, vals, hindex, hdrop, hlength, hpositive, htotal, hpos⟩ := h.exists_runs
  rcases hpos with ⟨heq, _⟩ | ⟨_, v, hv, hrest⟩
  · omega
  · refine ⟨v, expand runs vals, hv, hrest, fun pos' hlo hhi => ?_⟩
    refine ⟨⟨runs, vals, hindex, hdrop, hlength, hpositive, htotal, ?_⟩, h.i_ge, ?_⟩
    · rcases hhi.lt_or_eq with hlt' | heq
      · exact .inr ⟨hlt', v, hv, rfl⟩
      · left
        refine ⟨heq, ?_⟩
        rw [heq, Int.sub_self]
        rfl
    · exact h.pos_nonneg.trans hlo.le

/-- At the end of a run that is not the last one the cursor moves on to the next. -/
theorem RunsAhead.next {s : SparseData} {c : RunCursor} {rest : List Float8}
    (h : RunsAhead s c c.read rest) (hlt : c.read < s.totalValueCount.toInt) :
    ∃ c', c.next = .ok c' ∧ RunsAhead s c' c.read rest ∧ c.read < c'.read := by
  have ⟨runs, vals, hindex, hdrop, hlength, hpositive, htotal, hpos⟩ := h.exists_runs
  have hi := h.i_ge
  have hread := h.pos_nonneg
  rcases hpos with ⟨_, hrest⟩ | ⟨hself, _⟩
  · cases runs with
    | nil =>
        rw [List.sum_nil] at htotal
        omega
    | cons n runs =>
        have ⟨v, vals', ptr, hvals, ⟨hrun, hv, hadvance⟩, hindex', hdrop', hlength'⟩ :=
          hindex.next hdrop hlength
        subst hvals
        have hn := hpositive n List.mem_cons_self
        have hmax := (int32_mem s.totalValueCount).2
        rw [List.sum_cons, Nat.cast_add] at htotal
        have hwrap : toInt32 (c.read + toInt32 n) = c.read + n := by
          rw [toInt32_of_mem (show -2147483648 ≤ (n : Int) by omega) (by omega),
            toInt32_of_mem (by omega) (by omega)]
        refine ⟨{ i := c.i + 1, ix := ptr, read := c.read + n }, ?_, ⟨⟨runs, vals', hindex', ?_,
          hlength', fun m hm => hpositive m (List.mem_cons_of_mem n hm), ?_, ?_⟩,
          ?_, hread⟩, ?_⟩
        · unfold RunCursor.next
          rw [hrun, ok_bind, hadvance, ok_bind, hwrap]
          rfl
        · have hnext : (c.i + 1 + 1).toNat = (c.i + 1).toNat + 1 := by omega
          rw [hnext]
          exact hdrop'
        · dsimp only
          omega
        · right
          refine ⟨by dsimp only; omega, v, ?_, ?_⟩
          · unfold RunCursor.value
            rw [if_neg (by dsimp only; omega)]
            exact hv
          · have hcount : (c.read + n - c.read).toNat = n := by omega
            rw [hrest, expand_cons, hcount]
        · dsimp only
          omega
        · dsimp only
          omega
  · omega

theorem runsAhead_start {s : SparseData} (h : Proper s) :
    RunsAhead s (RunCursor.start s) 0 s.dense := by
  have ⟨runs, hruns, hpositive, htotal⟩ := h
  refine ⟨⟨runs, s.vals, hruns.index, rfl, hruns.length_runs.trans hruns.length_vals.symm,
    hpositive, ?_, .inl ⟨rfl, hruns.dense_eq⟩⟩, le_refl _, le_refl _⟩
  rw [htotal]
  exact Int.zero_add _

/-! ## Both cursors -/

/-- No pair of the common prefix is refused. -/
def Agree (refuses : Float8 → Float8 → Bool) (xs ys : List Float8) : Prop :=
  ∀ b ∈ List.zipWith refuses xs ys, b = false

instance (refuses : Float8 → Float8 → Bool) (xs ys : List Float8) :
    Decidable (Agree refuses xs ys) := by
  unfold Agree
  infer_instance

theorem agree_runs (refuses : Float8 → Float8 → Bool) {m a b : Nat} (v w : Float8)
    (xs ys : List Float8) (hm : 0 < m) (ha : m ≤ a) (hb : m ≤ b) :
    Agree refuses (List.replicate a v ++ xs) (List.replicate b w ++ ys) ↔
      refuses v w = false ∧
        Agree refuses (List.replicate (a - m) v ++ xs) (List.replicate (b - m) w ++ ys) := by
  unfold Agree
  rw [zipWith_runs refuses v w xs ys ha hb]
  simp only [List.mem_append, List.mem_replicate, or_imp, forall_and]
  have hrun : (∀ x, m ≠ 0 ∧ x = refuses v w → x = false) ↔ refuses v w = false := by
    constructor
    · intro h
      exact h _ ⟨hm.ne', rfl⟩
    · intro h x hx
      rw [hx.2, h]
  rw [hrun]

theorem agree_nil {refuses : Float8 → Float8 → Bool} {xs ys : List Float8}
    (h : xs = [] ∨ ys = []) : Agree refuses xs ys := by
  unfold Agree
  rcases h with rfl | rfl
  · simp
  · simp

/-- Both cursors are ahead of a common position, and the arrays agree if what is left of them
does. -/
def Walking (refuses : Float8 → Float8 → Bool) (left right : SparseData) (agree : Prop)
    (c : RunCursor × RunCursor) : Prop :=
  ∃ lrest rrest, RunsAhead left c.1 (min c.1.read c.2.read) lrest ∧
    RunsAhead right c.2 (min c.1.read c.2.read) rrest ∧ (agree ↔ Agree refuses lrest rrest)

/-- Short of both ends both cursors come to stand inside a run. -/
theorem nextRuns_spec {left right : SparseData} {c : RunCursor × RunCursor} {pos : Int}
    {lrest rrest : List Float8} (hl : RunsAhead left c.1 pos lrest)
    (hr : RunsAhead right c.2 pos rrest) (hpos : pos = min c.1.read c.2.read)
    (hleft : pos < left.totalValueCount.toInt) (hright : pos < right.totalValueCount.toInt) :
    ∃ c', nextRuns c = .ok c' ∧ RunsAhead left c'.1 pos lrest ∧ RunsAhead right c'.2 pos rrest ∧
      pos < c'.1.read ∧ pos < c'.2.read ∧ c.1.read ≤ c'.1.read ∧ c.2.read ≤ c'.2.read := by
  unfold nextRuns
  by_cases hlt : c.1.read < c.2.read
  · have hat : pos = c.1.read := by omega
    subst hat
    have ⟨c', hnext, hl', hlt'⟩ := hl.next hleft
    rw [if_pos hlt, hnext, ok_bind]
    exact ⟨_, rfl, hl', hr, hlt', hlt, hlt'.le, le_refl _⟩
  · by_cases hgt : c.1.read > c.2.read
    · have hat : pos = c.2.read := by omega
      subst hat
      have ⟨c', hnext, hr', hlt'⟩ := hr.next hright
      rw [if_neg hlt, if_pos hgt, hnext, ok_bind]
      exact ⟨_, rfl, hl, hr', hgt, hlt', le_refl _, hlt'.le⟩
    · have hat : pos = c.1.read := by omega
      have hsame : c.1.read = c.2.read := by omega
      subst hat
      have ⟨cl, hnextl, hl', hltl⟩ := hl.next hleft
      rw [hsame] at hr hright
      have ⟨cr, hnextr, hr', hltr⟩ := hr.next hright
      rw [if_neg hlt, if_neg hgt, hnextl, ok_bind, hnextr, ok_bind]
      rw [← hsame] at hr' hltr
      exact ⟨_, rfl, hl', hr', hltl, hltr, hltl.le, hsame ▸ hltr.le⟩

theorem overlapRound_spec {refuses : Float8 → Float8 → Bool} {left right : SparseData}
    {agree : Prop} {minimum : Int} {c : RunCursor × RunCursor}
    (hminimum : minimum = min left.totalValueCount.toInt right.totalValueCount.toInt)
    (h : Walking refuses left right agree c) :
    (∃ c', overlapRound refuses left right minimum c = .ok (.next c') ∧
      Walking refuses left right agree c' ∧
      (minimum - min c'.1.read c'.2.read).toNat < (minimum - min c.1.read c.2.read).toNat) ∨
    (∃ b, overlapRound refuses left right minimum c = .ok (.done b) ∧ (b = true ↔ agree)) := by
  have ⟨lrest, rrest, hl, hr, hagree⟩ := h
  unfold overlapRound
  by_cases hmore : c.1.read < minimum ∨ c.2.read < minimum
  · have ⟨c', hnext, hl', hr', hltl, hltr, hlel, hler⟩ :=
      nextRuns_spec hl hr rfl (by omega) (by omega)
    have ⟨v, ltail, hv, hlrest, hlater⟩ := hl'.inside hltl
    have ⟨w, rtail, hw, hrrest, hrater⟩ := hr'.inside hltr
    rw [if_pos hmore, hnext, ok_bind, hv, ok_bind, hw, ok_bind]
    -- the runs overlap from the old position to the new one
    have hruns := agree_runs refuses v w ltail rtail
      (m := (min c'.1.read c'.2.read - min c.1.read c.2.read).toNat)
      (a := (c'.1.read - min c.1.read c.2.read).toNat)
      (b := (c'.2.read - min c.1.read c.2.read).toNat) (by omega) (by omega) (by omega)
    have hsubl : (c'.1.read - min c.1.read c.2.read).toNat -
        (min c'.1.read c'.2.read - min c.1.read c.2.read).toNat =
        (c'.1.read - min c'.1.read c'.2.read).toNat := by omega
    have hsubr : (c'.2.read - min c.1.read c.2.read).toNat -
        (min c'.1.read c'.2.read - min c.1.read c.2.read).toNat =
        (c'.2.read - min c'.1.read c'.2.read).toNat := by omega
    rw [hsubl, hsubr] at hruns
    rw [hlrest, hrrest, hruns] at hagree
    by_cases hrefuse : refuses v w = true
    · right
      refine ⟨false, by rw [if_pos hrefuse]; rfl, ?_⟩
      rw [hagree, hrefuse]
      simp
    · left
      have hfalse : refuses v w = false := Bool.eq_false_iff.mpr hrefuse
      refine ⟨c', by rw [if_neg hrefuse]; rfl, ⟨_, _, hlater _ (by omega) (by omega),
        hrater _ (by omega) (by omega), ?_⟩, by omega⟩
      rw [hagree, hfalse]
      simp
  · right
    refine ⟨true, by rw [if_neg hmore], ?_⟩
    have hlen := hl.length
    have hlen' := hr.length
    have hend : lrest = [] ∨ rrest = [] := by
      rw [← List.length_eq_zero_iff, ← List.length_eq_zero_iff]
      omega
    exact iff_of_true rfl (hagree.mpr (agree_nil hend))

/-- Whatever the runs are, the loop tells whether the common prefixes agree, and it reads inside
both arrays only. -/
theorem overlapLoop_spec (refuses : Float8 → Float8 → Bool) {left right : SparseData}
    (hl : Proper left) (hr : Proper right) {fuel : Nat}
    (hfuel : (min left.totalValueCount.toInt right.totalValueCount.toInt).toNat < fuel) :
    overlapLoop fuel refuses left right =
      some (.ok (decide (Agree refuses left.dense right.dense))) := by
  have hstart : Walking refuses left right (Agree refuses left.dense right.dense)
      (RunCursor.start left, RunCursor.start right) :=
    ⟨left.dense, right.dense, runsAhead_start hl, runsAhead_start hr, Iff.rfl⟩
  have ⟨b, hb, hrun⟩ := Loop.run_of_invariant
    (Walking refuses left right (Agree refuses left.dense right.dense))
    (fun c => (min left.totalValueCount.toInt right.totalValueCount.toInt -
      min c.1.read c.2.read).toNat)
    (fun b => b = true ↔ Agree refuses left.dense right.dense)
    (fun _ h => overlapRound_spec rfl h) hstart
  have hdecide : b = decide (Agree refuses left.dense right.dense) := by
    rw [← Bool.coe_iff_coe, hb, decide_eq_true_iff]
  unfold overlapLoop
  rw [hrun fuel (by simpa [RunCursor.start] using hfuel), hdecide]

theorem agree_iff {refuses : Float8 → Float8 → Bool} {xs ys : List Float8} :
    Agree refuses xs ys ↔
      ∀ (p : Nat) (v w : Float8), xs[p]? = some v → ys[p]? = some w → refuses v w = false := by
  unfold Agree
  constructor
  · intro h p v w hv hw
    apply h
    apply List.mem_of_getElem? (i := p)
    rw [List.getElem?_zipWith, hv, hw]
  · intro h b hb
    have ⟨p, hp⟩ := List.mem_iff_getElem?.mp hb
    have ⟨v, w, hv, hw, hvw⟩ := List.getElem?_zipWith_eq_some.mp hp
    rw [← hvw]
    exact h p v w hv hw

/-! ## Equality up to zeros -/

/-- From some number of rounds on the call returns `b`. -/
def Answers (call : Nat → Option (Except Fault Bool)) (b : Bool) : Prop :=
  ∃ bound, ∀ fuel, bound ≤ fuel → call fuel = some (.ok b)

theorem Answers.unique {call : Nat → Option (Except Fault Bool)} {b b' : Bool}
    (h : Answers call b) (h' : Answers call b') : b = b' := by
  have ⟨bound, hb⟩ := h
  have ⟨bound', hb'⟩ := h'
  have heq := (hb (max bound bound') (by omega)).symm.trans (hb' (max bound bound') (by omega))
  simpa using heq

/-- Wherever both vectors have an element, these are the same or one of them is zero. -/
def EqualUpToZeros (xs ys : List Float8) : Prop :=
  ∀ (p : Nat) (v w : Float8), xs[p]? = some v → ys[p]? = some w →
    v = w ∨ nonzero v = false ∨ nonzero w = false

theorem agree_eqZeroRefuses {xs ys : List Float8} :
    Agree eqZeroRefuses xs ys ↔ EqualUpToZeros xs ys := by
  rw [agree_iff]
  unfold EqualUpToZeros eqZeroRefuses
  have hpoint : ∀ v w : Float8,
      (decide (v ≠ w) && nonzero v && nonzero w) = false ↔
        v = w ∨ nonzero v = false ∨ nonzero w = false := by
    intro v w
    simp only [Bool.and_eq_false_iff, decide_eq_false_iff_not, not_not, or_assoc]
  simp only [hpoint]

theorem EqualUpToZeros.symm {xs ys : List Float8} (h : EqualUpToZeros xs ys) :
    EqualUpToZeros ys xs := by
  intro p w v hw hv
  rcases h p v w hv hw with heq | hzero | hzero
  · exact .inl heq.symm
  · exact .inr (.inr hzero)
  · exact .inr (.inl hzero)

theorem svecEqNonZero_spec {u v : SvecType} (hu : Proper (sdataFromSvec u))
    (hv : Proper (sdataFromSvec v)) :
    ∃ b, Answers (fun fuel => svecEqNonZero fuel u v) b ∧
      (b = true ↔ EqualUpToZeros (sdataFromSvec u).dense (sdataFromSvec v).dense) := by
  refine ⟨_, ⟨_, fun fuel hfuel => overlapLoop_spec eqZeroRefuses hu hv (Nat.lt_of_succ_le hfuel)⟩,
    ?_⟩
  rw [decide_eq_true_iff, agree_eqZeroRefuses]

/-- `svec_eq_non_zero` compares the common prefixes up to zeros; it is symmetric, and how the
vectors are cut into runs does not matter. -/
theorem svecEqNonZero_decides :
    (∀ u v : SvecType, Proper (sdataFromSvec u) → Proper (sdataFromSvec v) →
      ∃ b, Answers (fun fuel => svecEqNonZero fuel u v) b ∧
        Answers (fun fuel => svecEqNonZero fuel v u) b ∧
        (b = true ↔ EqualUpToZeros (sdataFromSvec u).dense (sdataFromSvec v).dense)) ∧
    ∀ u u' v v' : SvecType, Proper (sdataFromSvec u) → Proper (sdataFromSvec u') →
      Proper (sdataFromSvec v) → Proper (sdataFromSvec v') →
      (sdataFromSvec u).dense = (sdataFromSvec u').dense →
      (sdataFromSvec v).dense = (sdataFromSvec v').dense →
      ∀ b, Answers (fun fuel => svecEqNonZero fuel u v) b ↔
        Answers (fun fuel => svecEqNonZero fuel u' v') b := by
  constructor
  · intro u v hu hv
    have ⟨b, hb, hiff⟩ := svecEqNonZero_spec hu hv
    have ⟨b', hb', hiff'⟩ := svecEqNonZero_spec hv hu
    have hsame : b = b' := by
      rw [← Bool.coe_iff_coe, hiff, hiff']
      exact ⟨EqualUpToZeros.symm, EqualUpToZeros.symm⟩
    exact ⟨b, hb, hsame ▸ hb', hiff⟩
  · intro u u' v v' hu hu' hv hv' hudense hvdense b
    have ⟨c, hc, hiff⟩ := svecEqNonZero_spec hu hv
    have ⟨c', hc', hiff'⟩ := svecEqNonZero_spec hu' hv'
    have hsame : c = c' := by rw [← Bool.coe_iff_coe, hiff, hiff', hudense, hvdense]
    constructor
    · intro h
      rw [h.unique hc, hsame]
      exact hc'
    · intro h
      rw [h.unique hc', ← hsame]
      exact hc

/-- Runs of two and one against runs of one and two, with a zero on either side. -/
theorem svecEqNonZero_decides_three :
    Answers (fun fuel => svecEqNonZero fuel (tightSvec 3 3 [5, 0] [254, 255] (by decide))
      (tightSvec 3 3 [5, 0] [255, 254] (by decide))) true := by
  have hleft : Proper (sdataFromSvec (tightSvec 3 3 [5, 0] [254, 255] (by decide))) :=
    ⟨[2, 1], .of_runLengths (by decide) rfl, by decide, by decide⟩
  have hright : Proper (sdataFromSvec (tightSvec 3 3 [5, 0] [255, 254] (by decide))) :=
    ⟨[1, 2], .of_runLengths (by decide) rfl, by decide, by decide⟩
  have ⟨b, hb, _, hiff⟩ := svecEqNonZero_decides.1 _ _ hleft hright
  have htrue : b = true := hiff.mpr (agree_eqZeroRefuses.mp (by decide))
  exact htrue ▸ hb

/-! ## Containment -/

/-- Every non-zero element on the right is matched. -/
def ContainsNonzero (xs ys : List Float8) : Prop :=
  ∀ (p : Nat) (w : Float8), ys[p]? = some w → nonzero w = true → xs[p]? = some w

/-- Every non-zero element on the right that is inside the left vector is matched. -/
def MatchesPrefix (xs ys : List Float8) : Prop :=
  ∀ (p : Nat) (v w : Float8), xs[p]? = some v → ys[p]? = some w → nonzero w = true → v = w

/-- The right vector is zero beyond the end of the left one. -/
def ZeroBeyond (xs ys : List Float8) : Prop :=
  ∀ (p : Nat) (w : Float8), xs.length ≤ p → ys[p]? = some w → nonzero w = false

/-- The last element is not zero. -/
def LastNonzero (ys : List Float8) : Prop := ∃ w, ys.getLast? = some w ∧ nonzero w = true

theorem agree_containsRefuses {xs ys : List Float8} :
    Agree containsRefuses xs ys ↔ MatchesPrefix xs ys := by
  rw [agree_iff]
  unfold MatchesPrefix containsRefuses
  have hpoint : ∀ v w : Float8,
      (decide (v ≠ w) && nonzero w) = false ↔ (nonzero w = true → v = w) := by
    intro v w
    rw [Bool.and_eq_false_iff, decide_eq_false_iff_not, not_not]
    cases nonzero w <;> simp
  simp only [hpoint]

theorem containsNonzero_iff {xs ys : List Float8} :
    ContainsNonzero xs ys ↔ MatchesPrefix xs ys ∧ ZeroBeyond xs ys := by
  constructor
  · intro h
    constructor
    · intro p v w hv hw hnonzero
      have hx := h p w hw hnonzero
      rw [hv] at hx
      exact Option.some.inj hx
    · intro p w hp hw
      by_contra hnonzero
      have hx := h p w hw (by simpa using hnonzero)
      rw [List.getElem?_eq_none hp] at hx
      cases hx
  · intro h p w hw hnonzero
    by_cases hp : xs.length ≤ p
    · rw [h.2 p w hp hw] at hnonzero
      cases hnonzero
    · have hx : xs[p]? = some (xs.get ⟨p, by omega⟩) := List.getElem?_eq_getElem (by omega)
      rw [hx, h.1 p _ w hx hw hnonzero]

theorem zeroBeyond_of_le {xs ys : List Float8} (h : ys.length ≤ xs.length) : ZeroBeyond xs ys := by
  intro p w hp hw
  rw [List.getElem?_eq_none (h.trans hp)] at hw
  cases hw

/-- A longer vector with a non-zero last element is not zero beyond the shorter one. -/
theorem not_zeroBeyond_of_last {xs ys : List Float8} (h : xs.length < ys.length)
    (hlast : LastNonzero ys) : ¬ ZeroBeyond xs ys := by
  intro hzero
  have ⟨w, hw, hnonzero⟩ := hlast
  rw [List.getLast?_eq_getElem?] at hw
  rw [hzero (ys.length - 1) w (by omega) hw] at hnonzero
  cases hnonzero

/-- The value of the last run is the last element. -/
theorem lastRefuses_spec {left right : SparseData} (hl : Proper left) (hr : Proper right) :
    ∃ b, lastRefuses left right = .ok b ∧
      (b = true ↔ left.dense.length < right.dense.length ∧ LastNonzero right.dense) := by
  have hleft := hl.truthful.length_dense
  have hright := hr.truthful.length_dense
  have ⟨runs, hruns, hpositive, htotal⟩ := hr
  unfold lastRefuses
  by_cases hlonger : right.totalValueCount.toInt > left.totalValueCount.toInt
  · have hne : runs ≠ [] := by
      rintro rfl
      rw [List.sum_nil] at htotal
      omega
    have hlen := hruns.length_runs.trans hruns.length_vals.symm
    have hvals : right.vals ≠ [] := by
      intro hnil
      rw [hnil] at hlen
      exact hne (List.length_eq_zero_iff.mp hlen)
    have hread : valref right (right.uniqueValueCount - 1) = .ok (right.vals.getLast hvals) := by
      unfold valref
      rw [← hruns.length_vals, ← List.getLast?_eq_getElem?, List.getLast?_eq_getLast_of_ne_nil hvals]
    have hlast : right.dense.getLast? = some (right.vals.getLast hvals) := by
      have hpos := hpositive _ (List.getLast_mem hne)
      rw [hruns.dense_eq]
      conv_lhs => rw [← List.dropLast_append_getLast hne, ← List.dropLast_append_getLast hvals]
      rw [expand_append (by simp [hlen]), expand_singleton, List.getLast?_append,
        List.getLast?_replicate, if_neg hpos.ne']
      rfl
    rw [if_pos hlonger, hread, ok_bind]
    refine ⟨_, rfl, ?_⟩
    unfold LastNonzero
    rw [hlast]
    constructor
    · intro h
      exact ⟨by omega, _, rfl, h⟩
    · rintro ⟨_, w, hw, hnonzero⟩
      rw [Option.some.inj hw]
      exact hnonzero
  · rw [if_neg hlonger]
    refine ⟨false, rfl, ?_⟩
    simp only [Bool.false_eq_true, false_iff, not_and]
    intro hlt
    omega

/-- What the code decides: beyond the end of the left vector it looks at the last element only. -/
theorem svecContains_spec {u v : SvecType} (hu : Proper (sdataFromSvec u))
    (hv : Proper (sdataFromSvec v)) :
    ∃ b, Answers (fun fuel => svecContains fuel u v) b ∧
      (b = true ↔ MatchesPrefix (sdataFromSvec u).dense (sdataFromSvec v).dense ∧
        ¬ ((sdataFromSvec u).dense.length < (sdataFromSvec v).dense.length ∧
          LastNonzero (sdataFromSvec v).dense)) := by
  have ⟨b, hb, hiff⟩ := lastRefuses_spec hu hv
  unfold svecContains sparsedataContains
  rw [hb]
  cases b with
  | true =>
      refine ⟨false, ⟨0, fun _ _ => rfl⟩, ?_⟩
      have hrefused := hiff.mp rfl
      simp [hrefused]
  | false =>
      refine ⟨_, ⟨_, fun fuel hfuel =>
        overlapLoop_spec containsRefuses hu hv (Nat.lt_of_succ_le hfuel)⟩, ?_⟩
      have hkept : ¬ _ := mt hiff.mpr Bool.false_ne_true
      rw [decide_eq_true_iff, agree_containsRefuses]
      exact ⟨fun h => ⟨h, hkept⟩, fun h => h.1⟩

/-- The call tells whether every non-zero element of `v` is matched in `u`. -/
def DecidesContainment (u v : SvecType) : Prop :=
  ∃ b, Answers (fun fuel => svecContains fuel u v) b ∧
    (b = true ↔ ContainsNonzero (sdataFromSvec u).dense (sdataFromSvec v).dense)

/-- No non-zero element of the right vector is left between the end of the left one and a last
element that is zero, unless the vectors differ before. -/
def NothingHidden (xs ys : List Float8) : Prop :=
  ys.length ≤ xs.length ∨ LastNonzero ys ∨ ¬ MatchesPrefix xs ys ∨ ZeroBeyond xs ys

/-- What the code decides is containment where nothing is hidden. -/
theorem nothingHidden_iff {xs ys : List Float8} :
    (MatchesPrefix xs ys ∧ ¬ (xs.length < ys.length ∧ LastNonzero ys) ↔ ContainsNonzero xs ys) ↔
      NothingHidden xs ys := by
  have hshort : ys.length ≤ xs.length → ZeroBeyond xs ys := zeroBeyond_of_le
  have hlong : xs.length < ys.length → LastNonzero ys → ¬ ZeroBeyond xs ys :=
    not_zeroBeyond_of_last
  rw [containsNonzero_iff]
  unfold NothingHidden
  rw [← not_le] at *
  tauto

theorem ContainsNonzero.trans {xs ys zs : List Float8} (h : ContainsNonzero xs ys)
    (h' : ContainsNonzero ys zs) : ContainsNonzero xs zs := by
  intro p w hw hnonzero
  exact h p w (h' p w hw hnonzero) hnonzero

theorem DecidesContainment.answers_true {u v : SvecType} (h : DecidesContainment u v) :
    Answers (fun fuel => svecContains fuel u v) true ↔
      ContainsNonzero (sdataFromSvec u).dense (sdataFromSvec v).dense := by
  have ⟨b, hb, hiff⟩ := h
  rw [← hiff]
  constructor
  · intro htrue
    exact hb.unique htrue
  · intro htrue
    exact htrue ▸ hb

theorem decidesContainment_iff {u v : SvecType} (hu : Proper (sdataFromSvec u))
    (hv : Proper (sdataFromSvec v)) :
    DecidesContainment u v ↔ NothingHidden (sdataFromSvec u).dense (sdataFromSvec v).dense := by
  have ⟨b, hb, hiff⟩ := svecContains_spec hu hv
  have hdecides : DecidesContainment u v ↔
      (b = true ↔ ContainsNonzero (sdataFromSvec u).dense (sdataFromSvec v).dense) := by
    constructor
    · rintro ⟨b', hb', hiff'⟩
      rw [hb.unique hb']
      exact hiff'
    · intro h
      exact ⟨b, hb, h⟩
  rw [hdecides, hiff]
  exact nothingHidden_iff

/-- `svec_contains` decides containment exactly where no element is hidden; on such vectors
containment is transitive. -/
theorem svecContains_decides_iff {u v w : SvecType} (hu : Proper (sdataFromSvec u))
    (hv : Proper (sdataFromSvec v)) (hw : Proper (sdataFromSvec w)) :
    (DecidesContainment u v ↔
      NothingHidden (sdataFromSvec u).dense (sdataFromSvec v).dense) ∧
    (NothingHidden (sdataFromSvec u).dense (sdataFromSvec v).dense →
      NothingHidden (sdataFromSvec v).dense (sdataFromSvec w).dense →
      NothingHidden (sdataFromSvec u).dense (sdataFromSvec w).dense →
      Answers (fun fuel => svecContains fuel u v) true →
      Answers (fun fuel => svecContains fuel v w) true →
      Answers (fun fuel => svecContains fuel u w) true) := by
  constructor
  · exact decidesContainment_iff hu hv
  · intro huv hvw huw hfirst hsecond
    have hcontains := ((decidesContainment_iff hu hv).mpr huv).answers_true.mp hfirst
    have hcontains' := ((decidesContainment_iff hv hw).mpr hvw).answers_true.mp hsecond
    exact ((decidesContainment_iff hu hw).mpr huw).answers_true.mpr (hcontains.trans hcontains')

/-- A last zero hides the 7 in front of it, which is not in the vector of one element. -/
theorem svecContains_hidden :
    Answers (fun fuel => svecContains fuel (tightSvec (-1) 1 [0] [255] (by decide))
      (tightSvec 3 3 [0, 7, 0] [255, 255, 255] (by decide))) true ∧
    ¬ DecidesContainment (tightSvec (-1) 1 [0] [255] (by decide))
      (tightSvec 3 3 [0, 7, 0] [255, 255, 255] (by decide)) := by
  have hleft : Proper (sdataFromSvec (tightSvec (-1) 1 [0] [255] (by decide))) :=
    ⟨[1], .of_runLengths (by decide) rfl, by decide, by decide⟩
  have hright : Proper (sdataFromSvec (tightSvec 3 3 [0, 7, 0] [255, 255, 255] (by decide))) :=
    ⟨[1, 1, 1], .of_runLengths (by decide) rfl, by decide, by decide⟩
  have hanswer : Answers (fun fuel => svecContains fuel (tightSvec (-1) 1 [0] [255] (by decide))
      (tightSvec 3 3 [0, 7, 0] [255, 255, 255] (by decide))) true := by
    refine ⟨2, fun fuel hfuel => ?_⟩
    exact overlapLoop_spec containsRefuses hleft hright hfuel
  refine ⟨hanswer, fun h => ?_⟩
  have hcontains := h.answers_true.mp hanswer 1 7 rfl rfl
  cases hcontains

/-- Vectors of one length hide nothing. -/
theorem svecContains_decides_three :
    DecidesContainment (tightSvec 3 3 [5, 0] [254, 255] (by decide))
      (tightSvec 3 3 [5, 0] [255, 254] (by decide)) := by
  have hleft : Proper (sdataFromSvec (tightSvec 3 3 [5, 0] [254, 255] (by decide))) :=
    ⟨[2, 1], .of_runLengths (by decide) rfl, by decide, by decide⟩
  have hright : Proper (sdataFromSvec (tightSvec 3 3 [5, 0] [255, 254] (by decide))) :=
    ⟨[1, 2], .of_runLengths (by decide) rfl, by decide, by decide⟩
  exact (svecContains_decides_iff hleft hright hright).1.mpr (.inl (by decide))

end Madlib.Svec
