import Madlib.Lib.Loop
import Madlib.Svec.SparseVector

/-!
# Equality

`sparsedata_eq` compares every run of the left SparseData with the runs of the right one
that overlap it.  The right cursor never moves beyond the left run, so what is left of the
two arrays behind a left run starts at the same position.
-/

namespace Madlib.Svec

open Madlib.Backend Madlib.Lib Madlib.Lib.MachineInt Madlib.Lib.RunLength CountCode

/-- The right cursor: the run it stands on, the index pointer there and where the run starts. -/
structure RightCursor where
  rvid : Nat
  rix : IndexPtr
  rread : Int

def RightCursor.moveOn (right : SparseData) (c : RightCursor) (rread : Int) :
    Except Fault RightCursor :=
  if c.rvid < right.uniqueValueCount then do
    let rix ← advance c.rix
    pure { rvid := c.rvid + 1, rix, rread }
  else pure { c with rread }

/-- One round of the inner loop; `none` is `return false`. -/
def eqRound (left right : SparseData) (i : Nat) (read : Int) (c : RightCursor) :
    Except Fault (Loop.Step RightCursor (Option RightCursor)) := do
  let v ← valref left i
  let w ← valref right c.rvid
  if v ≠ w then pure (.done none)
  else do
    let rrunLength ← compwordToInt8 c.rix
    let rread := toInt32 (c.rread + toInt32 rrunLength)
    if read < rread then pure (.done (some c))
    else do
      let c ← c.moveOn right rread
      if rread = read then pure (.done (some c)) else pure (.next c)

/-- The remaining rounds of the loop over the left runs. -/
def eqRounds (fuel : Nat) (left right : SparseData) :
    Nat → Nat → IndexPtr → Int → RightCursor → Option (Except Fault Bool)
  | 0, _, _, _, _ => some (.ok true)
  | rounds + 1, i, ix, read, c =>
      match compwordToInt8 ix with
      | .error e => some (.error e)
      | .ok runLength =>
          let read := toInt32 (read + runLength)
          match Loop.run (eqRound left right i read) fuel c with
          | none => none
          | some (.error e) => some (.error e)
          | some (.ok none) => some (.ok false)
          | some (.ok (some c)) =>
              match advance ix with
              | .error e => some (.error e)
              | .ok ix => eqRounds fuel left right rounds (i + 1) ix read c

/-- `sparsedata_eq`, for at most `fuel` rounds of the inner loop at a time. -/
def sparsedataEq (fuel : Nat) (left right : SparseData) : Option (Except Fault Bool) :=
  if left.totalValueCount ≠ right.totalValueCount then some (.ok false)
  else
    eqRounds fuel left right left.uniqueValueCount 0 left.index.data 0
      { rvid := 0, rix := right.index.data, rread := 0 }

def svecEq (fuel : Nat) (svec1 svec2 : SvecType) : Option (Except Fault Bool) :=
  sparsedataEq fuel (sdataFromSvec svec1) (sdataFromSvec svec2)

/-! ## The right cursor -/

/-- At `pos`, in the run of the cursor or at its start, `rest` of the right array is left. -/
structure RightAt (right : SparseData) (c : RightCursor) (pos : Int) (runs : List Nat)
    (vals rest : List Float8) : Prop where
  index : IndexRuns c.rix runs
  drop_vals : right.vals.drop c.rvid = vals
  length_eq : runs.length = vals.length
  length_vals : right.vals.length = right.uniqueValueCount
  positive : ∀ n ∈ runs, 0 < n
  total_eq : c.rread + (runs.sum : Nat) = right.totalValueCount.toInt
  nonneg : 0 ≤ c.rread
  le_pos : c.rread ≤ pos
  pos_in : pos = c.rread ∨ pos < c.rread + runs.headD 0
  rest_eq : rest = (expand runs vals).drop (pos - c.rread).toNat

/-- Short of the end the cursor stands on a run. -/
theorem RightAt.exists_run {right : SparseData} {c : RightCursor} {pos : Int} {runs : List Nat}
    {vals rest : List Float8} (h : RightAt right c pos runs vals rest)
    (hlt : pos < right.totalValueCount.toInt) :
    ∃ r runs' w vals', runs = r :: runs' ∧ vals = w :: vals' ∧ pos < c.rread + r ∧
      rest = List.replicate (c.rread + r - pos).toNat w ++ expand runs' vals' := by
  have htotal := h.total_eq
  have hpos := h.pos_in
  have hle := h.le_pos
  cases runs with
  | nil =>
      simp at htotal hpos
      omega
  | cons r runs' =>
      have ⟨w, vals', hvals⟩ := List.exists_of_length_succ vals h.length_eq.symm
      have hr := h.positive r List.mem_cons_self
      rw [List.headD_cons] at hpos
      refine ⟨r, runs', w, vals', rfl, hvals, by omega, ?_⟩
      have hsub : r - (pos - c.rread).toNat = (c.rread + r - pos).toNat := by omega
      rw [h.rest_eq, hvals, expand_cons, drop_replicate_append _ _ (by omega), hsub]

/-- The first run is behind the cursor that is moved on. -/
theorem RightAt.moveOn {right : SparseData} {c : RightCursor} {pos : Int} {r : Nat}
    {runs : List Nat} {w : Float8} {vals rest : List Float8}
    (h : RightAt right c pos (r :: runs) (w :: vals) rest) :
    ∃ c', c.moveOn right (c.rread + r) = .ok c' ∧ c'.rread = c.rread + r ∧
      RightAt right c' (c.rread + r) runs vals (expand runs vals) := by
  have ⟨ptr, hadvance, hindex⟩ := h.index.read.2
  have hin : c.rvid < right.uniqueValueCount := by
    have hlen := congrArg List.length h.drop_vals
    rw [List.length_drop, h.length_vals, List.length_cons] at hlen
    omega
  have htotal := h.total_eq
  have hnonneg := h.nonneg
  refine ⟨{ rvid := c.rvid + 1, rix := ptr, rread := c.rread + r }, ?_, rfl, ?_⟩
  · unfold RightCursor.moveOn
    rw [if_pos hin, hadvance]
    rfl
  · exact
      { index := hindex
        drop_vals := (valref_of_drop h.drop_vals).2
        length_eq := by simpa using h.length_eq
        length_vals := h.length_vals
        positive := fun n hn => h.positive n (List.mem_cons_of_mem r hn)
        total_eq := by
          rw [← htotal, List.sum_cons, Nat.cast_add]
          dsimp only
          omega
        nonneg := by dsimp only; omega
        le_pos := le_refl _
        pos_in := .inl rfl
        rest_eq := by simp }

/-! ## The inner loop -/

/-- Inside a left run of `v` that ends at `read`, the arrays are equal if what is left of
them is. -/
def Comparing (right : SparseData) (v : Float8) (leftRest : List Float8) (equal : Prop)
    (start read : Int) (c : RightCursor) : Prop :=
  ∃ pos runs vals rest, RightAt right c pos runs vals rest ∧ start ≤ pos ∧ pos < read ∧
    (equal ↔ List.replicate (read - pos).toNat v ++ leftRest = rest)

/-- Behind the left run the comparison has failed or goes on with what is left. -/
def Compared (right : SparseData) (leftRest : List Float8) (equal : Prop) (read : Int) :
    Option RightCursor → Prop
  | none => ¬ equal
  | some c => ∃ runs vals rest, RightAt right c read runs vals rest ∧ (equal ↔ leftRest = rest)

theorem eqRound_spec {left right : SparseData} {i : Nat} {v : Float8} {leftRest : List Float8}
    {equal : Prop} {start read : Int} {c : RightCursor} (hv : valref left i = .ok v)
    (hread : read ≤ right.totalValueCount.toInt)
    (h : Comparing right v leftRest equal start read c) :
    (∃ c', eqRound left right i read c = .ok (.next c') ∧
      Comparing right v leftRest equal start read c' ∧
      (right.totalValueCount.toInt - c'.rread).toNat <
        (right.totalValueCount.toInt - c.rread).toNat) ∨
    (∃ r, eqRound left right i read c = .ok (.done r) ∧
      Compared right leftRest equal read r) := by
  have ⟨pos, runs, vals, rest, hat, hstart, hpos, hequal⟩ := h
  have ⟨r, runs', w, vals', hruns, hvals, hin, hrest⟩ := hat.exists_run (by omega)
  subst hruns hvals
  have hw := (valref_of_drop hat.drop_vals).1
  have hr := hat.positive r List.mem_cons_self
  have hsum := hat.total_eq
  rw [List.sum_cons, Nat.cast_add] at hsum
  have hle := hat.le_pos
  have hnonneg := hat.nonneg
  have hmax := (int32_mem right.totalValueCount).2
  have hwrap : toInt32 (c.rread + toInt32 r) = c.rread + r := by
    rw [toInt32_of_mem (show -2147483648 ≤ (r : Int) by omega) (by omega),
      toInt32_of_mem (by omega) (by omega)]
  rw [hrest] at hequal
  unfold eqRound
  rw [hv, ok_bind, hw, ok_bind]
  by_cases hvw : v = w
  · subst hvw
    rw [if_neg (not_not.mpr rfl), hat.index.read.1, ok_bind]
    dsimp only
    rw [hwrap]
    by_cases hover : read < c.rread + r
    · -- the right run goes on behind the left one
      right
      have hshared := replicate_append_eq_iff v v leftRest (expand runs' vals')
        (show 0 < (read - pos).toNat by omega) (le_refl _)
        (show (read - pos).toNat ≤ (c.rread + r - pos).toNat by omega)
      have hsub : (c.rread + r - pos).toNat - (read - pos).toNat = (c.rread + r - read).toNat := by
        omega
      have hdrop : r - (read - c.rread).toNat = (c.rread + r - read).toNat := by omega
      refine ⟨some c, by rw [if_pos hover]; rfl, r :: runs', v :: vals',
        List.replicate (c.rread + r - read).toNat v ++ expand runs' vals',
        { hat with
          le_pos := by omega
          pos_in := .inr (by rw [List.headD_cons]; omega)
          rest_eq := by
            rw [expand_cons, drop_replicate_append _ _ (by omega), hdrop] }, ?_⟩
      rw [hequal, hshared, hsub, Nat.sub_self]
      simp
    · rw [if_neg hover]
      have ⟨c', hmove, hrread, hat'⟩ := hat.moveOn
      rw [hmove, ok_bind]
      have hshared := replicate_append_eq_iff v v leftRest (expand runs' vals')
        (show 0 < (c.rread + r - pos).toNat by omega)
        (show (c.rread + r - pos).toNat ≤ (read - pos).toNat by omega) (le_refl _)
      have hsub : (read - pos).toNat - (c.rread + r - pos).toNat =
          (read - (c.rread + r)).toNat := by omega
      rw [hsub, Nat.sub_self] at hshared
      rw [hshared] at hequal
      simp only [true_and, List.replicate_zero, List.nil_append] at hequal
      by_cases hend : c.rread + r = read
      · right
        rw [← hend] at hequal ⊢
        refine ⟨some c', by rw [if_pos rfl]; rfl, runs', vals', _, hat', ?_⟩
        simpa using hequal
      · left
        refine ⟨c', by rw [if_neg hend]; rfl, ⟨c.rread + r, runs', vals', _, hat', by omega,
          by omega, hequal⟩, ?_⟩
        rw [hrread]
        omega
  · right
    refine ⟨none, by rw [if_pos hvw]; rfl, ?_⟩
    rw [Compared, hequal, replicate_append_eq_iff v w _ _ Nat.one_pos (by omega) (by omega)]
    exact fun h => hvw h.1

/-! ## The outer loop -/

/-- At the end nothing is left of the right array. -/
theorem RightAt.rest_nil {right : SparseData} {c : RightCursor} {pos : Int} {runs : List Nat}
    {vals rest : List Float8} (h : RightAt right c pos runs vals rest)
    (hend : pos = right.totalValueCount.toInt) : rest = [] := by
  have htotal := h.total_eq
  rw [h.rest_eq, List.drop_eq_nil_iff, length_expand h.length_eq]
  omega

theorem eqRounds_spec {left right : SparseData} {equal : Prop} [Decidable equal] {fuel : Nat}
    (hfuel : right.totalValueCount.toInt.toNat < fuel) {runs : List Nat} {vals : List Float8}
    {i : Nat} {ix : IndexPtr} {read : Int} {c : RightCursor} {rruns : List Nat}
    {rvals rest : List Float8} (hindex : IndexRuns ix runs) (hdrop : left.vals.drop i = vals)
    (hlength : runs.length = vals.length) (hpositive : ∀ n ∈ runs, 0 < n)
    (htotal : read + (runs.sum : Nat) = right.totalValueCount.toInt)
    (hat : RightAt right c read rruns rvals rest) (hequal : equal ↔ expand runs vals = rest) :
    eqRounds fuel left right runs.length i ix read c = some (.ok (decide equal)) := by
  induction runs generalizing vals i ix read c rruns rvals rest with
  | nil =>
      rw [List.sum_nil] at htotal
      have hnil := hat.rest_nil (by omega)
      rw [hnil, expand_nil] at hequal
      simp [eqRounds, hequal]
  | cons n runs ih =>
      have ⟨v, vals', ptr, hvals, ⟨hrun, hv, hadvance⟩, hindex', hdrop', hlength'⟩ :=
        hindex.next hdrop hlength
      subst hvals
      have hn := hpositive n List.mem_cons_self
      have hmax := (int32_mem right.totalValueCount).2
      have hle := hat.le_pos
      have hnonneg := hat.nonneg
      rw [List.sum_cons, Nat.cast_add] at htotal
      have hread : toInt32 (read + n) = read + n := toInt32_of_mem (by omega) (by omega)
      have hstart : Comparing right v (expand runs vals') equal read (read + n) c := by
        have hrep : (read + n - read).toNat = n := by omega
        refine ⟨read, rruns, rvals, rest, hat, le_refl _, by omega, ?_⟩
        rw [hrep, ← expand_cons]
        exact hequal
      have ⟨r, hr, hloop⟩ := Loop.run_of_invariant
        (Comparing right v (expand runs vals') equal read (read + n))
        (fun c => (right.totalValueCount.toInt - c.rread).toNat)
        (Compared right (expand runs vals') equal (read + n))
        (fun _ h => eqRound_spec hv (by omega) h) hstart
      rw [List.length_cons, eqRounds, hrun]
      dsimp only
      rw [hread, hloop fuel (by omega)]
      cases r with
      | none => simp [show ¬ equal from hr]
      | some c' =>
          have ⟨rruns', rvals', rest', hat', hequal'⟩ := hr
          dsimp only
          rw [hadvance]
          exact ih hindex' hdrop' hlength'
            (fun m hm => hpositive m (List.mem_cons_of_mem n hm)) (by omega) hat' hequal'

/-- Dense equality is decided, whatever the runs of the two arrays are. -/
theorem sparsedataEq_spec {left right : SparseData} (hl : Proper left) (hr : Proper right)
    {fuel : Nat} (hfuel : right.totalValueCount.toInt.toNat < fuel) :
    sparsedataEq fuel left right = some (.ok (decide (left.dense = right.dense))) := by
  have ⟨lruns, hlruns, hlpositive, hltotal⟩ := hl
  have ⟨rruns, hrruns, hrpositive, hrtotal⟩ := hr
  unfold sparsedataEq
  by_cases htotal : left.totalValueCount = right.totalValueCount
  · rw [if_neg (not_not.mpr htotal), ← hlruns.length_runs]
    have hstart : RightAt right ⟨0, right.index.data, 0⟩ 0 rruns right.vals right.dense :=
      { index := hrruns.index
        drop_vals := rfl
        length_eq := hrruns.length_runs.trans hrruns.length_vals.symm
        length_vals := hrruns.length_vals
        positive := hrpositive
        total_eq := by rw [hrtotal]; dsimp only; omega
        nonneg := le_refl _
        le_pos := le_refl _
        pos_in := .inl rfl
        rest_eq := by rw [hrruns.dense_eq]; rfl }
    apply eqRounds_spec hfuel hlruns.index (List.drop_zero)
      (hlruns.length_runs.trans hlruns.length_vals.symm) hlpositive _ hstart
    · rw [hlruns.dense_eq]
    · rw [← htotal, hltotal]
      omega
  · have hne : left.dense ≠ right.dense := by
      intro heq
      have hlen := hl.truthful.length_dense
      rw [heq, hr.truthful.length_dense] at hlen
      exact htotal (Int32.toInt_inj.mp hlen.symm)
    rw [if_pos htotal]
    simp [hne]

/-! ## The relation that is decided -/

/-- The call returns true. -/
def SparsedataEq (left right : SparseData) : Prop :=
  ∃ bound, ∀ fuel, bound ≤ fuel → sparsedataEq fuel left right = some (.ok true)

theorem sparsedataEq_iff {left right : SparseData} (hl : Proper left) (hr : Proper right) :
    SparsedataEq left right ↔ left.dense = right.dense := by
  constructor
  · intro h
    have ⟨bound, hbound⟩ := h
    have htrue := hbound (max bound (right.totalValueCount.toInt.toNat + 1)) (by omega)
    rw [sparsedataEq_spec hl hr (by omega)] at htrue
    simpa using htrue
  · intro h
    refine ⟨right.totalValueCount.toInt.toNat + 1, fun fuel hfuel => ?_⟩
    rw [sparsedataEq_spec hl hr (by omega), decide_eq_true h]

/-- Every call returns, having read inside both operands, whether the arrays they stand for
are equal; how these are cut into runs does not matter. -/
theorem sparsedataEq_decides_dense :
    (∀ left right, Proper left → Proper right →
      ∃ bound, ∀ fuel, bound ≤ fuel →
        sparsedataEq fuel left right = some (.ok (decide (left.dense = right.dense)))) ∧
    Equivalence (fun left right : {s : SparseData // Proper s} => SparsedataEq left right) ∧
    (∀ left left' right right', Proper left → Proper left' → Proper right → Proper right' →
      left.dense = left'.dense → right.dense = right'.dense →
      (SparsedataEq left right ↔ SparsedataEq left' right')) := by
  refine ⟨fun left right hl hr => ?_, ⟨fun s => ?_, fun {s t} h => ?_, fun {s t u} h h' => ?_⟩,
    fun left left' right right' hl hl' hr hr' hdense hdense' => ?_⟩
  · exact ⟨right.totalValueCount.toInt.toNat + 1, fun fuel hfuel =>
      sparsedataEq_spec hl hr (by omega)⟩
  · exact (sparsedataEq_iff s.2 s.2).mpr rfl
  · exact (sparsedataEq_iff t.2 s.2).mpr ((sparsedataEq_iff s.2 t.2).mp h).symm
  · exact (sparsedataEq_iff s.2 u.2).mpr
      (((sparsedataEq_iff s.2 t.2).mp h).trans ((sparsedataEq_iff t.2 u.2).mp h'))
  · rw [sparsedataEq_iff hl hr, sparsedataEq_iff hl' hr', hdense, hdense']

/-- Runs of two and one against an array without an index. -/
theorem sparsedataEq_decides_dense_three :
    ∃ bound, ∀ fuel, bound ≤ fuel →
      sparsedataEq fuel (makeInplaceSparseData [5, 7] (some [254, 255]) 2 3)
        (makeInplaceSparseData [5, 5, 7] none 3 3) = some (.ok true) := by
  have hleft : Proper (makeInplaceSparseData [5, 7] (some [254, 255]) 2 3) :=
    ⟨[2, 1], .of_runLengths (by decide) rfl, by decide, by decide⟩
  have hright : Proper (makeInplaceSparseData [5, 5, 7] none 3 3) :=
    ⟨[1, 1, 1], .of_runLengths (by decide) rfl, by decide, by decide⟩
  have hdense : (makeInplaceSparseData [5, 7] (some [254, 255]) 2 3).dense =
      (makeInplaceSparseData [5, 5, 7] none 3 3).dense := by decide
  have ⟨bound, h⟩ := sparsedataEq_decides_dense.1 _ _ hleft hright
  refine ⟨bound, fun fuel hfuel => ?_⟩
  rw [h fuel hfuel, decide_eq_true hdense]

end Madlib.Svec
