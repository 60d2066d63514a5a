import Madlib.Regress.Logistic

/-!
# Averages of the incremental-gradient method

Two states are merged by weighting their coefficients with their numbers of rows.  A state without
rows leaves the other as it is.
-/

namespace Madlib.Regress

open Madlib.Backend Madlib.Dbal Madlib.Lib.MachineInt Madlib.Lib.Segments

/-! ## Two states with rows -/

section Merged

variable {α : Type} [Field α]

/-- What two states with `n` and `m` rows are merged into. -/
def igdMerged (w : Nat) (n m : α) (stateLeft stateRight : List α) : List α :=
  stateLeft.mapIdx fun k a =>
    if k < 2 then a
    else if k < 2 + w then (n * a + m * stateRight.getD k 0) / (n + m)
    else a + stateRight.getD k 0

variable {w : Nat} {n m : α} {l r : List α}

theorem getElem?_igdMerged (k : Nat) :
    (igdMerged w n m l r)[k]? = l[k]?.map fun a =>
      if k < 2 then a
      else if k < 2 + w then (n * a + m * r.getD k 0) / (n + m) else a + r.getD k 0 :=
  List.getElem?_mapIdx

theorem length_igdMerged : (igdMerged w n m l r).length = l.length := List.length_mapIdx

/-- An element of the merged state. -/
theorem getD_igdMerged {n m : α} {k : Nat} (hk : k < l.length) :
    (igdMerged w n m l r).getD k 0 =
      if k < 2 then l.getD k 0
      else if k < 2 + w then (n * l.getD k 0 + m * r.getD k 0) / (n + m)
      else l.getD k 0 + r.getD k 0 := by
  rw [List.getD_eq_getElem?_getD, getElem?_igdMerged, List.getElem?_eq_getElem hk,
    List.getD_eq_getElem _ _ hk]
  rfl

theorem igdMerged_holds {n m : Nat}
    (hl : logRegrIGDLayout.Holds w (logRegrIGDLength w) l)
    (hleft : l[2 + w]? = some (n : α)) (hright : r[2 + w]? = some (m : α)) :
    logRegrIGDLayout.Holds w (logRegrIGDLength w) (igdMerged w (n : α) (m : α) l r) ∧
      (igdMerged w (n : α) (m : α) l r)[2 + w]? = some ((n + m : Nat) : α) := by
  constructor
  · constructor
    · rw [length_igdMerged, hl.length_eq]
    · rw [getElem?_igdMerged, hl.width_eq]
      rfl
  · rw [getElem?_igdMerged, hleft, List.getD_eq_getElem?_getD, hright]
    simp only [Option.map_some, Option.getD_some]
    rw [if_neg (by omega), if_neg (by omega), Nat.cast_add]

/-- Three states with rows can be merged from either side. -/
theorem igdMerged_assoc {n m k : α} (hnm : n + m ≠ 0) (hmk : m + k ≠ 0)
    {s t u : List α} (hlength : s.length = t.length) :
    igdMerged w (n + m) k (igdMerged w n m s t) u = igdMerged w n (m + k) s (igdMerged w m k t u) := by
  apply List.ext_getElem?
  intro i
  rw [getElem?_igdMerged, getElem?_igdMerged, getElem?_igdMerged, Option.map_map]
  by_cases hi : i < s.length
  · rw [List.getElem?_eq_getElem hi, getD_igdMerged (hlength ▸ hi)]
    simp only [Option.map_some, Function.comp_apply, Option.some.injEq]
    split_ifs
    · rfl
    · rw [mul_div_cancel₀ _ hnm, mul_div_cancel₀ _ hmk, add_assoc, add_assoc]
    · exact add_assoc _ _ _
  · rw [List.getElem?_eq_none (Nat.le_of_not_lt hi)]
    rfl

/-- The coefficients of both states are averaged. -/
theorem zipWith_coef (hl : 2 + w ≤ l.length) (hr : 2 + w ≤ r.length) {k : Nat} (hlo : 2 ≤ k)
    (hhi : k < 2 + w) :
    (List.zipWith (fun a b => n / (n + m) * a + m / (n + m) * b) ((l.drop 2).take w)
      ((r.drop 2).take w)).getD (k - 2) 0 =
      (n * l.getD k 0 + m * r.getD k 0) / (n + m) := by
  have hleft : ((l.drop 2).take w)[k - 2]? = some (l.getD k 0) := by
    rw [getElem?_mapElements, if_pos (by omega), Nat.add_sub_cancel' hlo,
      List.getElem?_eq_getElem (by omega), List.getD_eq_getElem _ _ (by omega)]
  have hright : ((r.drop 2).take w)[k - 2]? = some (r.getD k 0) := by
    rw [getElem?_mapElements, if_pos (by omega), Nat.add_sub_cancel' hlo,
      List.getElem?_eq_getElem (by omega), List.getD_eq_getElem _ _ (by omega)]
  rw [List.getD_eq_getElem?_getD, List.getElem?_zipWith, hleft, hright]
  simp only [Option.getD_some]
  rw [add_div, mul_div_right_comm, mul_div_right_comm]

variable [LinearOrder α] [IsStrictOrderedRing α] [FloorRing α]

theorem logRegrIGDPlusEq_ok (hfits : logRegrIGDLayout.Fits w (logRegrIGDLength w)) {i j : Nat}
    (hl : logRegrIGDLayout.Holds w (logRegrIGDLength w) l)
    (hr : logRegrIGDLayout.Holds w (logRegrIGDLength w) r)
    (hleft : l[2 + w]? = some (i : α)) (hright : r[2 + w]? = some (j : α)) :
    logRegrIGDPlusEq w w l r = .ok (igdMerged w (i : α) (j : α) l r) := by
  have hmax : maxAllocSize = 1073741823 := rfl
  have halloc := hfits.allocates
  obtain ⟨hllen, hlwidth⟩ := hl
  obtain ⟨hrlen, _⟩ := hr
  unfold logRegrIGDLength at hllen hrlen halloc
  obtain ⟨ll, hll⟩ : ∃ a, r[3 + w * w + w]? = some a := ⟨_, List.getElem?_eq_getElem (by omega)⟩
  have hcoef : ((l.drop 2).take w).length = ((r.drop 2).take w).length := by
    simp only [List.length_take, List.length_drop]
    omega
  unfold logRegrIGDPlusEq
  rw [elementAt_eq_ok (i := 0) hlwidth, ok_bind, if_neg (by simp [hllen, hrlen])]
  simp (disch := omega) only [intIndex_of_lt]
  rw [elementAt_eq_ok hleft, ok_bind, elementAt_eq_ok hright, ok_bind, Nat.floor_natCast,
    mapAt_ok (by omega), ok_bind, mapAt_ok (by omega), ok_bind, eigenAssert_true hcoef, ok_bind,
    mapAssign_ok (by simp only [List.length_zipWith, List.length_take, List.length_drop]; omega),
    ok_bind, mapAt_ok (by omega), ok_bind,
    mapPlusEq_ok (by rw [length_plusEq, List.length_mapIdx]; omega), ok_bind, elementAt_eq_ok hll,
    ok_bind]
  simp only [plusEq_plusEq]
  have hterms : ∀ k, scalarTerm (2 + w) (j : α) k +
      vectorTerm (3 + w) ((r.drop (3 + w)).take (w * w)) k + scalarTerm (3 + w * w + w) ll k =
      mapTerm r (2 + w) (1 + w * w + 1) k := by
    intro k
    rw [vectorTerm_map, scalarTerm_elementAt hright, scalarTerm_elementAt hll,
      mapTerm_add (by omega), mapTerm_add (by omega)]
  simp only [hterms]
  refine congrArg Except.ok (List.ext_getElem? ?_)
  intro k
  rw [getElem?_plusEq, getElem?_igdMerged, List.getElem?_mapIdx, Option.map_map]
  by_cases hk : k < l.length
  · rw [List.getElem?_eq_getElem hk]
    simp only [Option.map_some, Function.comp_apply, Option.some.injEq, List.length_zipWith,
      List.length_take, List.length_drop]
    unfold mapTerm
    rcases Nat.lt_or_ge k 2 with hlt | hge
    · rw [if_neg (by omega), if_neg (by omega), if_pos hlt, add_zero]
    rcases Nat.lt_or_ge k (2 + w) with hcoefs | hrest
    · rw [if_pos (by omega), if_neg (by omega), if_neg (by omega), if_pos hcoefs, add_zero,
        zipWith_coef (by omega) (by omega) hge hcoefs, List.getD_eq_getElem _ _ hk]
    · rw [if_neg (by omega), if_pos (by omega), if_neg (by omega), if_neg (by omega)]
  · rw [List.getElem?_eq_none (Nat.le_of_not_lt hk)]
    rfl

end Merged

/-! ## States of segments -/

section States

variable {α : Type} [Field α] [LinearOrder α] [FloorRing α]

/-- The number of rows of a state of width `w`. -/
def rowsIn (w : Nat) (state : List α) : Nat := ⌊state.getD (2 + w) 0⌋₊

/-- A state of width `w` with a number of rows, or the initial state. -/
def IsSegment (w : Nat) (state : List α) : Prop :=
  state = List.replicate 4 0 ∨
    logRegrIGDLayout.Holds w (logRegrIGDLength w) state ∧ ∃ n : Nat, state[2 + w]? = some (n : α)

/-- `logregr_igd_step_merge_states` -/
def logregrIGDMergeStates : List α → List α → Except Fault (List α) :=
  logRegrIGDLayout.mergeStates logRegrIGDPlusEq

/-- What two states are merged into. -/
def igdMerge (w : Nat) (l r : List α) : List α :=
  if rowsIn w l = 0 then r
  else if rowsIn w r = 0 then l
  else igdMerged w (rowsIn w l : α) (rowsIn w r : α) l r

variable {w : Nat} {l r s t : List α}

theorem igdMerge_left (h : rowsIn w l = 0) : igdMerge w l r = r := if_pos h

theorem igdMerge_right (hl : rowsIn w l ≠ 0) (hr : rowsIn w r = 0) : igdMerge w l r = l := by
  unfold igdMerge
  rw [if_neg hl, if_pos hr]

theorem igdMerge_rows (hl : rowsIn w l ≠ 0) (hr : rowsIn w r ≠ 0) :
    igdMerge w l r = igdMerged w (rowsIn w l : α) (rowsIn w r : α) l r := by
  unfold igdMerge
  rw [if_neg hl, if_neg hr]

variable [IsStrictOrderedRing α]

theorem rowsIn_eq {n : Nat} (h : s[2 + w]? = some (n : α)) : rowsIn w s = n := by
  unfold rowsIn
  rw [List.getD_eq_getElem?_getD, h, Option.getD_some, Nat.floor_natCast]

theorem rowsIn_initial : rowsIn w (List.replicate 4 (0 : α)) = 0 := by
  unfold rowsIn
  rw [List.getD_eq_getElem?_getD, List.getElem?_replicate]
  split_ifs
  · exact Nat.floor_zero
  · exact Nat.floor_zero

/-- A state with rows has all the elements of its layout. -/
theorem IsSegment.holds (h : IsSegment w s) (hrows : rowsIn w s ≠ 0) :
    logRegrIGDLayout.Holds w (logRegrIGDLength w) s ∧ s[2 + w]? = some (rowsIn w s : α) := by
  rcases h with hinitial | ⟨hholds, n, hn⟩
  · rw [hinitial] at hrows
    exact absurd rowsIn_initial hrows
  · rw [rowsIn_eq hn]
    exact ⟨hholds, hn⟩

theorem IsSegment.construct (hfits : logRegrIGDLayout.Fits w (logRegrIGDLength w))
    (h : IsSegment w s) : ∃ v, logRegrIGDLayout.construct s = .ok v ∧
      s[logRegrIGDLayout.numRows v]? = some (rowsIn w s : α) := by
  rcases h with hinitial | ⟨hholds, n, hn⟩
  · have hempty := logRegrIGDLayout_empty (α := α)
    refine ⟨0, ?_, ?_⟩
    · rw [hinitial]
      exact hempty.construct
    · rw [hinitial, rowsIn_initial, Nat.cast_zero]
      exact hempty.numRows
  · have hindex : logRegrIGDLayout.numRows w = 2 + w :=
      intIndex_of_lt (by have hlt := hfits.width_lt; omega)
    refine ⟨w, hfits.construct hholds, ?_⟩
    rw [hindex, rowsIn_eq hn, hn]

theorem logregrIGDMergeStates_ok (hfits : logRegrIGDLayout.Fits w (logRegrIGDLength w))
    (hl : IsSegment w l) (hr : IsSegment w r) :
    logregrIGDMergeStates l r = .ok (igdMerge w l r) := by
  obtain ⟨v, hv, hrowsLeft⟩ := hl.construct hfits
  obtain ⟨v', hv', hrowsRight⟩ := hr.construct hfits
  unfold logregrIGDMergeStates Layout.mergeStates
  rw [hv, ok_bind, hv', ok_bind, elementAt_eq_ok hrowsLeft, ok_bind, elementAt_eq_ok hrowsRight,
    ok_bind, Nat.floor_natCast]
  by_cases hzero : rowsIn w l = 0
  · rw [igdMerge_left hzero, if_pos (by rw [hzero, Nat.cast_zero])]
    rfl
  rw [if_neg (Nat.cast_ne_zero.mpr hzero)]
  by_cases hzero' : rowsIn w r = 0
  · rw [igdMerge_right hzero hzero', if_pos hzero']
    rfl
  · obtain ⟨hholds, hn⟩ := hl.holds hzero
    obtain ⟨hholds', hn'⟩ := hr.holds hzero'
    have hw : v = w := Except.ok.inj (hv.symm.trans (hfits.construct hholds))
    have hw' : v' = w := Except.ok.inj (hv'.symm.trans (hfits.construct hholds'))
    rw [if_neg hzero', igdMerge_rows hzero hzero', hw, hw',
      logRegrIGDPlusEq_ok hfits hholds hholds' hn hn']

theorem rowsIn_igdMerge (hl : IsSegment w l) (hr : IsSegment w r) :
    IsSegment w (igdMerge w l r) ∧ rowsIn w (igdMerge w l r) = rowsIn w l + rowsIn w r := by
  by_cases hzero : rowsIn w l = 0
  · rw [igdMerge_left hzero, hzero, zero_add]
    exact ⟨hr, rfl⟩
  by_cases hzero' : rowsIn w r = 0
  · rw [igdMerge_right hzero hzero', hzero', add_zero]
    exact ⟨hl, rfl⟩
  · obtain ⟨hholds, hn⟩ := hl.holds hzero
    obtain ⟨_, hn'⟩ := hr.holds hzero'
    obtain ⟨hmerged, hrows⟩ := igdMerged_holds hholds hn hn'
    rw [igdMerge_rows hzero hzero']
    exact ⟨.inr ⟨hmerged, _, hrows⟩, rowsIn_eq hrows⟩

theorem igdMerge_assoc {u : List α} (hs : IsSegment w s) (ht : IsSegment w t)
    (hu : IsSegment w u) : igdMerge w (igdMerge w s t) u = igdMerge w s (igdMerge w t u) := by
  have hst := (rowsIn_igdMerge hs ht).2
  have htu := (rowsIn_igdMerge ht hu).2
  by_cases hzeroS : rowsIn w s = 0
  · rw [igdMerge_left hzeroS, igdMerge_left hzeroS]
  by_cases hzeroT : rowsIn w t = 0
  · rw [igdMerge_right hzeroS hzeroT, igdMerge_left hzeroT]
  by_cases hzeroU : rowsIn w u = 0
  · rw [igdMerge_right hzeroT hzeroU, igdMerge_right (by omega) hzeroU]
  · have hlength : s.length = t.length :=
      (hs.holds hzeroS).1.length_eq.trans (ht.holds hzeroT).1.length_eq.symm
    have hnm : (rowsIn w s : α) + rowsIn w t ≠ 0 := by
      rw [← Nat.cast_add, Nat.cast_ne_zero]
      omega
    have hmk : (rowsIn w t : α) + rowsIn w u ≠ 0 := by
      rw [← Nat.cast_add, Nat.cast_ne_zero]
      omega
    calc igdMerge w (igdMerge w s t) u
        = igdMerged w (rowsIn w (igdMerge w s t) : α) (rowsIn w u : α) (igdMerge w s t) u :=
          igdMerge_rows (by omega) hzeroU
      _ = igdMerged w (rowsIn w s : α) (rowsIn w (igdMerge w t u) : α) s (igdMerge w t u) := by
          rw [hst, htu, igdMerge_rows hzeroS hzeroT, igdMerge_rows hzeroT hzeroU, Nat.cast_add,
            Nat.cast_add]
          exact igdMerged_assoc hnm hmk hlength
      _ = igdMerge w s (igdMerge w t u) := (igdMerge_rows hzeroS (by omega)).symm

end States

/-! ## One segment -/

section Pass

variable {α : Type} [Field α] {w : Nat} {storage storage' : List α}

theorem logRegrIGDReset_eq_ok (hfits : logRegrIGDLayout.Fits w (logRegrIGDLength w))
    (hlen : storage.length = logRegrIGDLength w)
    (h : logRegrIGDReset storage w = .ok storage') :
    storage'.length = storage.length ∧ storage'[0]? = storage[0]? ∧
      storage'[1]? = some igdStepsize ∧ storage'[2 + w]? = some 0 := by
  have hmax : maxAllocSize = 1073741823 := rfl
  have halloc := hfits.allocates
  unfold logRegrIGDLength at hlen halloc
  unfold logRegrIGDReset at h
  simp (disch := omega) only [intIndex_of_lt] at h
  rw [fillZero_ok (by simp only [List.length_set]; omega), ok_bind, pure_eq_ok] at h
  cases h
  simp only [set_eq_mapIdx, List.mapIdx_mapIdx, List.length_mapIdx, List.getElem?_mapIdx]
  refine ⟨trivial, ?_, ?_, ?_⟩
  · rw [List.getElem?_eq_getElem (show 0 < storage.length by omega)]
    simp only [Option.map_some, Function.comp_apply]
    split_ifs <;> first | rfl | contradiction | omega
  · rw [List.getElem?_eq_getElem (show 1 < storage.length by omega)]
    simp only [Option.map_some, Function.comp_apply]
    split_ifs <;> first | rfl | contradiction | omega
  · rw [List.getElem?_eq_getElem (show 2 + w < storage.length by omega)]
    simp only [Option.map_some, Function.comp_apply]
    split_ifs <;> rfl

/-- The step size of the states of an iteration -/
def stepsizeOf (previous : Option (List α)) : α := bif previous.isSome then igdStepsize else 0

variable [LinearOrder α] [FloorRing α] {sigma logOnePlusExp : α → α}

/-- A row counts itself and leaves the width and the step size. -/
theorem logregrIGDAddRow_eq_ok (hfits : logRegrIGDLayout.Fits w (logRegrIGDLength w))
    {previous : Option (List α)} {y : α} {x : List α}
    (h : logregrIGDAddRow sigma logOnePlusExp previous storage w y x = .ok storage') :
    storage'.length = storage.length ∧ storage'[0]? = storage[0]? ∧ storage'[1]? = storage[1]? ∧
      storage'[2 + w]? = storage[2 + w]?.map (· + 1) := by
  have hmax : maxAllocSize = 1073741823 := rfl
  have halloc := hfits.allocates
  have hx := length_of_logregrIGDAddRow h
  unfold logRegrIGDLength at halloc
  unfold logregrIGDAddRow at h
  simp (disch := omega) only [intIndex_of_lt] at h
  obtain ⟨coef, _, h⟩ := bind_eq_ok.mp h
  obtain ⟨xc, _, h⟩ := bind_eq_ok.mp h
  obtain ⟨stepsize, _, h⟩ := bind_eq_ok.mp h
  obtain ⟨updated, hupdated, h⟩ := bind_eq_ok.mp h
  obtain ⟨_, hupdated⟩ := mapPlusEq_eq_ok hupdated
  have hcoefs : ∀ a, vectorTerm 2 (x.map fun b => a * b) (2 + w) = 0 := by
    intro a
    exact vectorTerm_ge (by rw [List.length_map]; omega)
  cases previous with
  | none =>
      cases h
      rw [hupdated]
      simp (disch := omega) only [length_plusEq, getElem?_plusEq, scalarTerm_self, scalarTerm_ne,
        vectorTerm_lt, hcoefs, add_zero, Option.map_id', true_and]
  | some previousState =>
      obtain ⟨previousWidth, _, h⟩ := bind_eq_ok.mp h
      obtain ⟨previousCoef, _, h⟩ := bind_eq_ok.mp h
      obtain ⟨previousXc, _, h⟩ := bind_eq_ok.mp h
      obtain ⟨crossed, hcrossed, h⟩ := bind_eq_ok.mp h
      obtain ⟨_, hcrossed⟩ := mapPlusEq_eq_ok hcrossed
      cases h
      rw [hcrossed, hupdated]
      simp (disch := omega) only [length_plusEq, getElem?_plusEq, scalarTerm_self, scalarTerm_ne,
        vectorTerm_lt, crossTerm, lowerTerm_lt, hcoefs, add_zero, Option.map_id', true_and]

/-- A state of an iteration that has `n` rows. -/
def HasRows (w : Nat) (previous : Option (List α)) (n : Nat) (state : List α) : Prop :=
  logRegrIGDLayout.Holds w (logRegrIGDLength w) state ∧ state[2 + w]? = some (n : α) ∧
    state[1]? = some (stepsizeOf previous)

theorem HasRows.addRow (hfits : logRegrIGDLayout.Fits w (logRegrIGDLength w))
    {previous : Option (List α)} {n : Nat} (h : HasRows w previous n storage) {y : α} {x : List α}
    (hrow : logregrIGDAddRow sigma logOnePlusExp previous storage w y x = .ok storage') :
    HasRows w previous (n + 1) storage' := by
  obtain ⟨⟨hlength, hwidth⟩, hn, hstepsize⟩ := h
  obtain ⟨hlength', hwidth', hstepsize', hn'⟩ := logregrIGDAddRow_eq_ok hfits hrow
  refine ⟨⟨hlength'.trans hlength, hwidth'.trans hwidth⟩, ?_, hstepsize'.trans hstepsize⟩
  rw [hn', hn, Option.map_some, Nat.cast_succ]

/-- What the first row makes of the initial state has no rows yet. -/
theorem hasRows_first {previous : Option (List α)}
    (hfits : logRegrIGDLayout.Fits w (logRegrIGDLength w))
    (hprevious : ∀ state, previous = some state →
      logRegrIGDLayout.Holds w (logRegrIGDLength w) state)
    (h : logRegrIGDLayout.initializeFrom logRegrIGDReset previous w = .ok (storage, w)) :
    HasRows w previous 0 storage := by
  have hinitial := hfits.holds_initial (α := α)
  have hlength : logRegrIGDLength w = 4 + w * w + w := rfl
  obtain ⟨_, fresh, hfresh, hnone, hsome⟩ := Layout.initializeFrom_eq_ok h
  rw [hfits.initializeState rfl] at hfresh
  cases hfresh
  cases previous with
  | none =>
      cases hnone rfl
      refine ⟨hinitial, ?_, ?_⟩
      · rw [List.getElem?_set_ne (by simp [logRegrIGDLayout]; omega), List.getElem?_replicate,
          if_pos (by omega), Nat.cast_zero]
      · rw [List.getElem?_set_ne (by simp [logRegrIGDLayout]), List.getElem?_replicate,
          if_pos (by omega)]
        rfl
  | some state =>
      have hstate := hprevious state rfl
      obtain ⟨_, _, _, hreset⟩ := hsome state rfl
      rw [List.length_set, List.length_replicate, ← hstate.length_eq, List.take_length,
        Nat.mod_eq_of_lt hfits.width_lt] at hreset
      obtain ⟨hlength', hwidth', hstepsize', hn'⟩ :=
        logRegrIGDReset_eq_ok hfits hstate.length_eq hreset
      refine ⟨⟨hlength'.trans hstate.length_eq, hwidth'.trans hstate.width_eq⟩, ?_, hstepsize'⟩
      rw [hn', Nat.cast_zero]

variable [IsStrictOrderedRing α]

theorem HasRows.foldlM (hfits : logRegrIGDLayout.Fits w (logRegrIGDLength w))
    {previous : Option (List α)} {rows : List (Bool × List α)}
    (hrows : ∀ row ∈ rows, row.2.length = w) {n : Nat} {state state' : List α} (hn : n ≠ 0)
    (h : HasRows w previous n state)
    (hrun : rows.foldlM ((logregrIGD sigma logOnePlusExp).aggregate previous).transition state =
      .ok state') : HasRows w previous (n + rows.length) state' := by
  induction rows generalizing n state with
  | nil =>
      cases hrun
      exact h
  | cons row rows ih =>
      rw [List.foldlM_cons] at hrun
      obtain ⟨next, hstep, hrest⟩ := bind_eq_ok.mp hrun
      have hindex : logRegrIGDLayout.numRows w = 2 + w :=
        intIndex_of_lt (by have hlt := hfits.width_lt; omega)
      have hnumRows : state[logRegrIGDLayout.numRows w]? = some (n : α) := by
        rw [hindex]
        exact h.2.1
      have hstart : ∀ first, logRegrIGDLayout.start state first = .ok (state, w) := by
        intro first
        unfold Layout.start
        rw [hfits.construct h.1, ok_bind, elementAt_eq_ok hnumRows, ok_bind,
          if_neg (Nat.cast_ne_zero.mpr hn)]
        rfl
      unfold IterationMethod.aggregate at hstep
      simp only [logregrIGD, hstart, ok_bind] at hstep
      have hnext := h.addRow hfits hstep
      have hlast := ih (fun row' hrow' => hrows row' (List.mem_cons_of_mem row hrow'))
        (Nat.succ_ne_zero n) hnext hrest
      rwa [List.length_cons, Nat.add_comm rows.length 1, ← Nat.add_assoc]

/-- The state of a segment of an iteration that started from a state of the rows' width -/
theorem hasRows_pass {previous : Option (List α)}
    (hprevious : ∀ state, previous = some state →
      logRegrIGDLayout.Holds w (logRegrIGDLength w) state)
    {rows : List (Bool × List α)} (hrows : ∀ row ∈ rows, row.2.length = w) (hne : rows ≠ [])
    {state : List α}
    (hrun : ((logregrIGD sigma logOnePlusExp).aggregate previous).pass rows = .ok state) :
    HasRows w previous rows.length state := by
  cases rows with
  | nil => exact absurd rfl hne
  | cons row rows =>
      obtain rfl : row.2.length = w := hrows row List.mem_cons_self
      unfold Aggregate.pass at hrun
      rw [List.foldlM_cons] at hrun
      obtain ⟨next, hstep, hrest⟩ := bind_eq_ok.mp hrun
      obtain ⟨hfits, storage, hfirst, hadd⟩ := logregrIGD_guards.first hstep
      have hnext := (hasRows_first hfits hprevious hfirst).addRow hfits hadd
      have hlast := HasRows.foldlM hfits
        (fun row' hrow' => hrows row' (List.mem_cons_of_mem row hrow')) (Nat.succ_ne_zero 0)
        hnext hrest
      rwa [List.length_cons, Nat.add_comm rows.length 1]

end Pass

/-! ## Any number of states -/

section Trees

variable {α : Type} [Field α] [LinearOrder α] [FloorRing α] {w : Nat} {l r s : List α}

/-- What a state with rows has at an index. -/
def contribution (w : Nat) (state : List α) (k : Nat) : α :=
  if rowsIn w state = 0 then 0 else state.getD k 0

/-- The step size of a state with rows. -/
def stepsizeIn (w : Nat) (state : List α) : Option α :=
  if rowsIn w state = 0 then none else state[1]?

/-- A state has the weighted coefficients, the numbers of rows and the sums of other states, and
the step size of the first of them that has rows. -/
structure Averages (w : Nat) (states : List (List α)) (state : List α) : Prop where
  isSegment : IsSegment w state
  rows : rowsIn w state = (states.map (rowsIn w)).sum
  coef : ∀ k, 2 ≤ k → k < 2 + w → (rowsIn w state : α) * state.getD k 0 =
    (states.map fun s => (rowsIn w s : α) * s.getD k 0).sum
  sums : ∀ k, 2 + w < k → k < logRegrIGDLength w → contribution w state k =
    (states.map fun s => contribution w s k).sum
  stepsize : stepsizeIn w state = states.findSome? (stepsizeIn w)

theorem averages_singleton (h : IsSegment w s) : Averages w [s] s := by
  constructor
  · exact h
  · simp
  · simp
  · simp
  · simp

variable [IsStrictOrderedRing α]

theorem coef_igdMerge (hl : IsSegment w l) (hr : IsSegment w r) {k : Nat} (hlo : 2 ≤ k)
    (hhi : k < 2 + w) :
    (rowsIn w (igdMerge w l r) : α) * (igdMerge w l r).getD k 0 =
      rowsIn w l * l.getD k 0 + rowsIn w r * r.getD k 0 := by
  have hrows := (rowsIn_igdMerge hl hr).2
  by_cases hzero : rowsIn w l = 0
  · rw [igdMerge_left hzero, hzero, Nat.cast_zero, zero_mul, zero_add]
  by_cases hzero' : rowsIn w r = 0
  · rw [igdMerge_right hzero hzero', hzero', Nat.cast_zero, zero_mul, add_zero]
  · have hlength : l.length = logRegrIGDLength w := (hl.holds hzero).1.length_eq
    have htotal : (rowsIn w l : α) + rowsIn w r ≠ 0 := by
      rw [← Nat.cast_add, Nat.cast_ne_zero]
      omega
    unfold logRegrIGDLength at hlength
    rw [hrows, igdMerge_rows hzero hzero', getD_igdMerged (by omega), if_neg (by omega), if_pos hhi,
      Nat.cast_add, mul_div_cancel₀ _ htotal]

theorem contribution_igdMerge (hl : IsSegment w l) (hr : IsSegment w r) {k : Nat}
    (hlo : 2 + w < k) (hhi : k < logRegrIGDLength w) :
    contribution w (igdMerge w l r) k = contribution w l k + contribution w r k := by
  have hrows := (rowsIn_igdMerge hl hr).2
  unfold contribution
  by_cases hzero : rowsIn w l = 0
  · rw [igdMerge_left hzero, if_pos hzero, zero_add]
  by_cases hzero' : rowsIn w r = 0
  · rw [igdMerge_right hzero hzero', if_pos hzero', add_zero]
  · have hlength : l.length = logRegrIGDLength w := (hl.holds hzero).1.length_eq
    rw [if_neg (by omega), if_neg hzero, if_neg hzero', igdMerge_rows hzero hzero',
      getD_igdMerged (by omega), if_neg (by omega), if_neg (by omega)]

theorem stepsizeIn_igdMerge (hl : IsSegment w l) (hr : IsSegment w r) :
    stepsizeIn w (igdMerge w l r) = (stepsizeIn w l).or (stepsizeIn w r) := by
  have hrows := (rowsIn_igdMerge hl hr).2
  unfold stepsizeIn
  by_cases hzero : rowsIn w l = 0
  · rw [igdMerge_left hzero, if_pos hzero, Option.none_or]
  by_cases hzero' : rowsIn w r = 0
  · rw [igdMerge_right hzero hzero', if_pos hzero', Option.or_none]
  · have hlength : l.length = logRegrIGDLength w := (hl.holds hzero).1.length_eq
    unfold logRegrIGDLength at hlength
    rw [if_neg (by omega), if_neg hzero, igdMerge_rows hzero hzero', getElem?_igdMerged,
      List.getElem?_eq_getElem (by omega)]
    rfl

theorem Averages.append {states states' : List (List α)} (h : Averages w states l)
    (h' : Averages w states' r) : Averages w (states ++ states') (igdMerge w l r) := by
  have hl := h.isSegment
  have hr := h'.isSegment
  constructor
  · exact (rowsIn_igdMerge hl hr).1
  · rw [(rowsIn_igdMerge hl hr).2, List.map_append, List.sum_append, h.rows, h'.rows]
  · intro k hlo hhi
    rw [coef_igdMerge hl hr hlo hhi, List.map_append, List.sum_append, h.coef k hlo hhi,
      h'.coef k hlo hhi]
  · intro k hlo hhi
    rw [contribution_igdMerge hl hr hlo hhi, List.map_append, List.sum_append, h.sums k hlo hhi,
      h'.sums k hlo hhi]
  · rw [stepsizeIn_igdMerge hl hr, h.stepsize, h'.stepsize, List.findSome?_append]

/-- In whichever order states are merged, they are averaged. -/
theorem igdMergeTree_averages (hfits : logRegrIGDLayout.Fits w (logRegrIGDLength w))
    {tree : MergeTree (List α)} (hleaves : ∀ s ∈ tree.leaves, IsSegment w s) :
    ∃ state, tree.eval logregrIGDMergeStates = .ok state ∧ Averages w tree.leaves state := by
  apply MergeTree.eval_ok (fun s hs => averages_singleton hs) _ hleaves
  intro states l states' r h h'
  exact ⟨_, logregrIGDMergeStates_ok hfits h.isSegment h'.isSegment, h.append h'⟩

/-- What is averaged, read off the merged state. -/
theorem Averages.getElem? {states : List (List α)} (h : Averages w states s)
    (hrows : (states.map (rowsIn w)).sum ≠ 0) :
    logRegrIGDLayout.Holds w (logRegrIGDLength w) s ∧
      s[2 + w]? = some ((states.map (rowsIn w)).sum : α) ∧
      (∀ k, 2 ≤ k → k < 2 + w → s[k]? = some ((states.map fun t =>
        (rowsIn w t : α) * t.getD k 0).sum / ((states.map (rowsIn w)).sum : Nat))) ∧
      (∀ k, 2 + w < k → k < logRegrIGDLength w →
        s[k]? = some (states.map fun t => contribution w t k).sum) ∧
      s[1]? = states.findSome? (stepsizeIn w) := by
  rw [← h.rows] at hrows ⊢
  obtain ⟨hholds, hn⟩ := h.isSegment.holds hrows
  have hlength : s.length = logRegrIGDLength w := hholds.length_eq
  have hlen : logRegrIGDLength w = 4 + w * w + w := rfl
  refine ⟨hholds, hn, ?_, ?_, ?_⟩
  · intro k hlo hhi
    have hk : k < s.length := by omega
    rw [← h.coef k hlo hhi, mul_div_cancel_left₀ _ (Nat.cast_ne_zero.mpr hrows),
      List.getD_eq_getElem _ _ hk, List.getElem?_eq_getElem hk]
  · intro k hlo hhi
    have hk : k < s.length := by omega
    rw [← h.sums k hlo hhi, contribution, if_neg hrows, List.getD_eq_getElem _ _ hk,
      List.getElem?_eq_getElem hk]
  · rw [← h.stepsize, stepsizeIn, if_neg hrows]

/-- Merged the other way round, two states with rows differ in the step size only. -/
theorem getElem?_igdMerge_comm (hl : IsSegment w l) (hr : IsSegment w r) (hneL : rowsIn w l ≠ 0)
    (hneR : rowsIn w r ≠ 0) {k : Nat} (hk : k ≠ 1) :
    (igdMerge w l r)[k]? = (igdMerge w r l)[k]? := by
  obtain ⟨hholds, _⟩ := hl.holds hneL
  obtain ⟨hholds', _⟩ := hr.holds hneR
  rw [igdMerge_rows hneL hneR, igdMerge_rows hneR hneL, getElem?_igdMerged, getElem?_igdMerged]
  by_cases hlt : k < logRegrIGDLength w
  · have hkl : k < l.length := by rw [hholds.length_eq]; exact hlt
    have hkr : k < r.length := by rw [hholds'.length_eq]; exact hlt
    rw [List.getElem?_eq_getElem hkl, List.getElem?_eq_getElem hkr, List.getD_eq_getElem _ _ hkl,
      List.getD_eq_getElem _ _ hkr]
    simp only [Option.map_some, Option.some.injEq]
    split_ifs with hfirst hcoef
    · obtain rfl : k = 0 := by omega
      have hwidth : l[0]? = r[0]? := hholds.width_eq.trans hholds'.width_eq.symm
      rw [List.getElem?_eq_getElem hkl, List.getElem?_eq_getElem hkr] at hwidth
      exact Option.some.inj hwidth
    · rw [add_comm (_ * _), add_comm (rowsIn w l : α)]
    · exact add_comm _ _
  · rw [List.getElem?_eq_none (by rw [hholds.length_eq]; omega),
      List.getElem?_eq_none (by rw [hholds'.length_eq]; omega)]
    rfl

theorem igdMerge_comm (hl : IsSegment w l) (hr : IsSegment w r) (hneL : rowsIn w l ≠ 0)
    (hneR : rowsIn w r ≠ 0) (hstepsize : l[1]? = r[1]?) : igdMerge w l r = igdMerge w r l := by
  apply List.ext_getElem?
  intro k
  by_cases hk : k = 1
  · rw [hk, igdMerge_rows hneL hneR, igdMerge_rows hneR hneL, getElem?_igdMerged,
      getElem?_igdMerged, hstepsize]
    rfl
  · exact getElem?_igdMerge_comm hl hr hneL hneR hk

/-- Merging averages the states by their numbers of rows; it is associative, and commutative but
for the step size, which all states of an iteration have in common. -/
theorem logregr_igd_merge_averages (halloc : 8 * logRegrIGDLength w + 40 ≤ maxAllocSize)
    (tree : MergeTree (List α)) (hleaves : ∀ s ∈ tree.leaves, IsSegment w s) :
    (∃ state, tree.eval logregrIGDMergeStates = .ok state ∧ IsSegment w state ∧
      rowsIn w state = (tree.leaves.map (rowsIn w)).sum ∧
      (rowsIn w state ≠ 0 →
        logRegrIGDLayout.Holds w (logRegrIGDLength w) state ∧
        state[2 + w]? = some ((tree.leaves.map (rowsIn w)).sum : α) ∧
        (∀ k, 2 ≤ k → k < 2 + w → state[k]? = some ((tree.leaves.map fun t =>
          (rowsIn w t : α) * t.getD k 0).sum / ((tree.leaves.map (rowsIn w)).sum : Nat))) ∧
        (∀ k, 2 + w < k → k < logRegrIGDLength w →
          state[k]? = some (tree.leaves.map fun t => contribution w t k).sum) ∧
        state[1]? = tree.leaves.findSome? (stepsizeIn w))) ∧
    (∀ s t : List α, IsSegment w s → IsSegment w t →
      (rowsIn w s = 0 → logregrIGDMergeStates s t = .ok t) ∧
      (rowsIn w s ≠ 0 → rowsIn w t = 0 → logregrIGDMergeStates s t = .ok s) ∧
      (rowsIn w s ≠ 0 → rowsIn w t ≠ 0 → ∃ st ts, logregrIGDMergeStates s t = .ok st ∧
        logregrIGDMergeStates t s = .ok ts ∧ (∀ k, k ≠ 1 → st[k]? = ts[k]?) ∧
        (s[1]? = t[1]? → st = ts))) ∧
    (∀ s t u : List α, IsSegment w s → IsSegment w t → IsSegment w u →
      (logregrIGDMergeStates s t >>= fun st => logregrIGDMergeStates st u) =
        logregrIGDMergeStates t u >>= fun tu => logregrIGDMergeStates s tu) ∧
    ∀ (sigma logOnePlusExp : α → α) (previous : Option (List α)) (rows : List (Bool × List α))
      (state : List α), (∀ state, previous = some state →
        logRegrIGDLayout.Holds w (logRegrIGDLength w) state) →
      (∀ row ∈ rows, row.2.length = w) → rows ≠ [] →
      ((logregrIGD sigma logOnePlusExp).aggregate previous).pass rows = .ok state →
      IsSegment w state ∧ rowsIn w state = rows.length ∧
        state[1]? = some (stepsizeOf previous) := by
  have hfits := logRegrIGDLayout_fits halloc
  constructor
  · obtain ⟨state, hrun, haverages⟩ := igdMergeTree_averages hfits hleaves
    refine ⟨state, hrun, haverages.isSegment, haverages.rows, ?_⟩
    intro hrows
    rw [haverages.rows] at hrows
    exact haverages.getElem? hrows
  constructor
  · intro s t hs ht
    rw [logregrIGDMergeStates_ok hfits hs ht, logregrIGDMergeStates_ok hfits ht hs]
    refine ⟨?_, ?_, ?_⟩
    · intro hzero
      rw [igdMerge_left hzero]
    · intro hne hzero
      rw [igdMerge_right hne hzero]
    · intro hne hne'
      exact ⟨_, _, rfl, rfl, fun k hk => getElem?_igdMerge_comm hs ht hne hne' hk,
        igdMerge_comm hs ht hne hne'⟩
  constructor
  · intro s t u hs ht hu
    have hst := (rowsIn_igdMerge hs ht).1
    have htu := (rowsIn_igdMerge ht hu).1
    rw [logregrIGDMergeStates_ok hfits hs ht, logregrIGDMergeStates_ok hfits ht hu, ok_bind, ok_bind,
      logregrIGDMergeStates_ok hfits hst hu, logregrIGDMergeStates_ok hfits hs htu,
      igdMerge_assoc hs ht hu]
  · intro sigma logOnePlusExp previous rows state hprevious hrows hne hrun
    obtain ⟨hholds, hn, hstepsize⟩ := hasRows_pass hprevious hrows hne hrun
    exact ⟨.inr ⟨hholds, _, hn⟩, rowsIn_eq hn, hstepsize⟩

end Trees

/-- A state with two rows, the initial state and a state with one row. -/
def threeStates : MergeTree (List ℚ) :=
  .node (.leaf [1, 0, 4, 2, 5, 6]) (.node (.leaf [0, 0, 0, 0]) (.leaf [1, 0, 7, 1, 8, 9]))

theorem logregr_igd_merge_threeStates :
    ∃ state, threeStates.eval logregrIGDMergeStates = .ok state ∧ IsSegment 1 state ∧
      rowsIn 1 state = (threeStates.leaves.map (rowsIn 1)).sum := by
  have hleaves : ∀ s ∈ threeStates.leaves, IsSegment 1 s := by
    intro s hs
    simp only [threeStates, MergeTree.leaves, List.mem_append, List.mem_singleton] at hs
    rcases hs with rfl | rfl | rfl
    · exact .inr ⟨⟨rfl, by norm_num [logRegrIGDLayout]⟩, 2, by norm_num⟩
    · exact .inl rfl
    · exact .inr ⟨⟨rfl, by norm_num [logRegrIGDLayout]⟩, 1, by norm_num⟩
  obtain ⟨state, hrun, hsegment, hrows, _⟩ :=
    (logregr_igd_merge_averages (by decide) threeStates hleaves).1
  exact ⟨state, hrun, hsegment, hrows⟩

end Madlib.Regress
