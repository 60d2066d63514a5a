import Madlib.Dbal
import Madlib.Lib.Extended
import Madlib.Stats.RankSums

/-!
# The Wilcoxon signed-rank test

Values arrive in ascending order of their absolute value.  A value is a tie with the last one if it
is within its precision of an upper bound that the values so far have set.  The default precision
has the sign of the value: a negative value lowers the bound and is itself compared with a higher
one, so it is only found to be a tie behind a positive value.
-/

namespace Madlib.Stats

open Madlib.Backend Madlib.Dbal Madlib.Lib Madlib.Lib.Midrank Madlib.Lib.Extended

attribute [local instance] neZero_two

structure WSRTestTransitionState extends RankState where
  lastAbs : Extended ℚ
  lastAbsUpperBound : Extended ℚ
  reduceVariance : ℚ

def wsrNotOrdered : Fault :=
  thrown ("Must be used as an ordered aggregate, in ascending order of the absolute value of the " ++
    "first argument.")

/-- Index 0 refers to the positive values and index 1 to the negative values. -/
def signSample (value : Extended ℚ) : Fin 2 := if lessThan (.finite 0) value then 0 else 1

def wsrPrecision (ε : MachineEpsilon ℚ) (value : Extended ℚ) :
    Option (Extended ℚ) → Extended ℚ
  | none => value.scale ε.times
  | some precision => precision

/-- What the last statement assigns to `lastAbsUpperBound`. -/
def raiseBound (bound reached : Extended ℚ) : Extended ℚ :=
  if bound.lessThan reached then reached else bound

/-- The statements behind the comparison with the last value. -/
def wsrAdd (state : WSRTestTransitionState) (value precision : Extended ℚ) :
    WSRTestTransitionState :=
  let absValue := value.abs
  { state.toRankState.addRank (signSample value) with
    lastAbs := absValue
    lastAbsUpperBound := raiseBound state.lastAbsUpperBound (absValue.add precision)
    reduceVariance := state.reduceVariance }

def wsrTestTransition (ε : MachineEpsilon ℚ) (state : WSRTestTransitionState) (value : Extended ℚ)
    (precisionArg : Option (Extended ℚ)) : Except Fault WSRTestTransitionState :=
  let precision := wsrPrecision ε value precisionArg
  if value = .finite 0 then .ok state
  else if 0 < sumOfTwo state.num then
    if value.abs.lessThan state.lastAbs then .error wsrNotOrdered
    else if (value.abs.sub precision).atMost state.lastAbsUpperBound then
      let t := sumOfTwo state.numTies
      .ok (wsrAdd { state with
        toRankState := state.correctTies
        reduceVariance := state.reduceVariance + 1 / 16 * t * (t + 1) } value precision)
    else .ok (wsrAdd { state with toRankState := state.clearTies } value precision)
  else .ok (wsrAdd state value precision)

/-- `INITCOND` -/
def wsrTestInit : WSRTestTransitionState :=
  { RankState.zero with lastAbs := .finite 0, lastAbsUpperBound := .finite 0, reduceVariance := 0 }

/-- The state the final function is given if no precision is. -/
def wsrTest (ε : MachineEpsilon ℚ) (values : List (Extended ℚ)) :
    Except Fault WSRTestTransitionState :=
  values.foldlM (fun state value => wsrTestTransition ε state value none) wsrTestInit

/-! ## Values -/

def absKeys (values : List (Extended ℚ)) : Multiset (Extended ℚ) := values.map Extended.abs

/-- The absolute values of the positive and of the negative values. -/
def signedKeys (values : List (Extended ℚ)) (i : Fin 2) : Multiset (Extended ℚ) :=
  if i = 0 then (values.filter fun v => lessThan (.finite 0) v).map Extended.abs
  else (values.filter fun v => lessThan v (.finite 0)).map Extended.abs

/-- Each value is positive or negative. -/
def NonZero (values : List (Extended ℚ)) : Prop :=
  ∀ v ∈ values, lessThan (.finite 0) v ∨ lessThan v (.finite 0)

def AscendingAbs (values : List (Extended ℚ)) : Prop := (values.map Extended.abs).Pairwise (· ≤ ·)

/-- Distinct absolute values differ by more than a relative 4 machine epsilons. -/
def AbsSeparated (ε : MachineEpsilon ℚ) (values : List (Extended ℚ)) : Prop :=
  ∀ u ∈ values, ∀ v ∈ values, u.abs ≠ v.abs →
    lessThan ((u.abs.max v.abs).scale (4 * ε.epsilon * ·)) (u.abs.sub v.abs).abs

instance (values : List (Extended ℚ)) : Decidable (NonZero values) :=
  inferInstanceAs (Decidable (∀ v ∈ values, _))

instance (values : List (Extended ℚ)) : Decidable (AscendingAbs values) :=
  inferInstanceAs (Decidable (List.Pairwise _ _))

instance (ε : MachineEpsilon ℚ) (values : List (Extended ℚ)) : Decidable (AbsSeparated ε values) :=
  inferInstanceAs (Decidable (∀ u ∈ values, ∀ v ∈ values, _))

/-- The three sums of a state are those of the midranks and of the groups of ties. -/
structure MidrankSums (values : List (Extended ℚ)) (s : WSRTestTransitionState) : Prop where
  rankSum : ∀ i, s.rankSum i = ((signedKeys values i).map (midrank (absKeys values))).sum
  reduceVariance : s.reduceVariance = tieSum (absKeys values)

/-- The sums are right in whatever order ties arrive. -/
def SumsMidranks (ε : MachineEpsilon ℚ) (values : List (Extended ℚ)) : Prop :=
  ∃ s, wsrTest ε values = .ok s ∧ MidrankSums values s ∧
    ∀ values', values'.Perm values → AscendingAbs values' →
      ∃ s', wsrTest ε values' = .ok s' ∧ s'.rankSum = s.rankSum ∧
        s'.reduceVariance = s.reduceVariance

/-! ## The upper bound -/

/-- There is a positive value with this absolute value. -/
def positiveAmong (values : List (Extended ℚ)) (key : Extended ℚ) : Bool :=
  values.any fun u => u.abs = key ∧ lessThan (.finite 0) u

/-- The bound the values of a group leave. -/
def upperBoundOf (ε : MachineEpsilon ℚ) (positive : Bool) : Extended ℚ → Extended ℚ
  | .finite m =>
      if positive then .finite (m + ε.times m) else .finite (max 0 (m - ε.times m))
  | _ => if positive then .infinite false else .finite 0

/-- The values in front let the code find a tie. -/
def TieFound (ε : MachineEpsilon ℚ) (positive : Bool) : Extended ℚ → Prop
  | .finite x => 0 < x ∨ ε.times x = 0 ∨ positive
  | .infinite negative => negative ∧ positive
  | .nan => False

/-- Every tie is found. -/
def AllFound (ε : MachineEpsilon ℚ) (values : List (Extended ℚ)) : Prop :=
  ∀ pre v post, values = pre ++ v :: post → v.abs ∈ pre.map Extended.abs →
    TieFound ε (positiveAmong pre v.abs) v

variable {ε : MachineEpsilon ℚ}

theorem ne_zero_of_signed {x : ℚ}
    (h : lessThan (.finite 0) (.finite x) ∨ lessThan (.finite x) (.finite 0)) : x ≠ 0 := by
  simp only [lessThan_finite] at h
  exact h.elim ne_of_gt ne_of_lt

/-- A NaN is neither positive nor negative. -/
theorem not_signed_nan :
    ¬(lessThan (.finite 0) (Extended.nan : Extended ℚ) ∨ lessThan .nan (.finite (0 : ℚ))) := by
  simp [lessThan, not_nan_lt]

/-- A value with its precision added is positive or negative and sets or keeps the bound. -/
theorem precision_cases {x : ℚ} (hx : x ≠ 0) :
    (0 < x ∧ (Extended.finite x).scale ε.times = .finite (ε.times |x|) ∧
        lessThan (.finite 0) (.finite x)) ∨
      (x < 0 ∧ (Extended.finite x).scale ε.times = .finite (-ε.times |x|) ∧
        ¬lessThan (.finite 0) (.finite x)) := by
  rcases lt_or_gt_of_ne hx with hneg | hpos
  · right
    refine ⟨hneg, ?_, ?_⟩
    · rw [abs_of_neg hneg, ε.times_neg, neg_neg]
      rfl
    · rw [lessThan_finite]
      exact hneg.not_gt
  · left
    refine ⟨hpos, ?_, lessThan_finite.mpr hpos⟩
    rw [abs_of_pos hpos]
    rfl

/-- A group leaves the same bound whatever the order of its values. -/
theorem raiseBound_tie {v : Extended ℚ} (positive : Bool)
    (hv : lessThan (.finite 0) v ∨ lessThan v (.finite 0)) :
    raiseBound (upperBoundOf ε positive v.abs) (v.abs.add (v.scale ε.times)) =
      upperBoundOf ε (positive || lessThan (.finite 0) v) v.abs := by
  cases v with
  | finite x =>
      have hx := ne_zero_of_signed hv
      have htimes := ε.times_nonneg |x| (abs_nonneg x)
      have habs := abs_pos.mpr hx
      rcases precision_cases (ε := ε) hx with ⟨-, hscale, hsign⟩ | ⟨-, hscale, hsign⟩
      · rw [hscale]
        cases positive
        · have hle : max 0 (|x| - ε.times |x|) ≤ |x| + ε.times |x| :=
            max_le (by linarith) (by linarith)
          have hcases := hle.lt_or_eq
          simp only [upperBoundOf, Extended.abs, Extended.add, raiseBound, lessThan_finite, hsign,
            decide_true, Bool.or_true, if_true, Bool.false_eq_true, if_false]
          rcases hcases with hlt | heq
          · rw [if_pos hlt]
          · rw [heq, if_neg (lt_irrefl _)]
        · simp [upperBoundOf, Extended.abs, Extended.add, raiseBound]
      · rw [hscale]
        cases positive
        · simp [upperBoundOf, Extended.abs, Extended.add, raiseBound, hsign, ← sub_eq_add_neg]
        · have hnot : ¬|x| + ε.times |x| < |x| - ε.times |x| := by linarith
          simp [upperBoundOf, Extended.abs, Extended.add, raiseBound, ← sub_eq_add_neg, hnot]
  | infinite negative =>
      cases negative <;> cases positive <;>
        simp [upperBoundOf, Extended.abs, Extended.add, raiseBound, scale, lessThan]
  | nan => exact absurd hv not_signed_nan

/-- The first value of a group raises the bound of those before. -/
theorem raiseBound_new {x w : ℚ} (hx : x ≠ 0) (hw : 0 ≤ w) (hlt : w < |x| - ε.times |x|) :
    raiseBound (.finite w) ((Extended.finite x).abs.add ((Extended.finite x).scale ε.times)) =
      upperBoundOf ε (lessThan (.finite 0) (.finite x)) (Extended.finite x).abs := by
  have htimes := ε.times_nonneg |x| (abs_nonneg x)
  rcases precision_cases (ε := ε) hx with ⟨-, hscale, hsign⟩ | ⟨-, hscale, hsign⟩
  · have hless : w < |x| + ε.times |x| := by linarith
    rw [hscale]
    simp [upperBoundOf, Extended.abs, Extended.add, raiseBound, hsign, hless]
  · have hmax : max 0 (|x| - ε.times |x|) = |x| - ε.times |x| := max_eq_right (by linarith)
    rw [hscale]
    simp [upperBoundOf, Extended.abs, Extended.add, raiseBound, hsign, ← sub_eq_add_neg, hlt, hmax]

/-- A value over the bound is not found to be a tie, whatever its sign. -/
theorem not_atMost_of_bound_lt {x w : ℚ} (hx : x ≠ 0) (hlt : w < |x| - ε.times |x|) :
    ¬((Extended.finite x).abs.sub ((Extended.finite x).scale ε.times)).atMost (.finite w) := by
  have htimes := ε.times_nonneg |x| (abs_nonneg x)
  rcases precision_cases (ε := ε) hx with ⟨-, hscale, -⟩ | ⟨-, hscale, -⟩
  · rw [hscale, Extended.abs, finite_sub, atMost_finite]
    exact not_le.mpr hlt
  · rw [hscale, Extended.abs, finite_sub, atMost_finite]
    linarith

/-- The initial bound is 0. -/
theorem raiseBound_first {v : Extended ℚ}
    (hv : lessThan (.finite 0) v ∨ lessThan v (.finite 0)) :
    raiseBound (.finite 0) (v.abs.add (v.scale ε.times)) =
      upperBoundOf ε (lessThan (.finite 0) v) v.abs := by
  cases v with
  | finite x =>
      have hx := ne_zero_of_signed hv
      have htimes := ε.times_nonneg |x| (abs_nonneg x)
      have habs := abs_pos.mpr hx
      rcases precision_cases (ε := ε) hx with ⟨-, hscale, hsign⟩ | ⟨-, hscale, hsign⟩
      · have hless : 0 < |x| + ε.times |x| := by linarith
        rw [hscale]
        simp [upperBoundOf, Extended.abs, Extended.add, raiseBound, hsign, hless]
      · rw [hscale]
        simp only [upperBoundOf, Extended.abs, Extended.add, raiseBound, lessThan_finite, hsign,
          decide_false, Bool.false_eq_true, if_false, ← sub_eq_add_neg]
        split_ifs with hless
        · rw [max_eq_right hless.le]
        · rw [max_eq_left (not_lt.mp hless)]
  | infinite negative =>
      cases negative <;> simp [upperBoundOf, Extended.abs, Extended.add, raiseBound, scale, lessThan]
  | nan => exact absurd hv not_signed_nan

/-- When the code finds a value to be a tie with the group it belongs to. -/
theorem atMost_upperBoundOf {v : Extended ℚ} (positive : Bool)
    (hv : lessThan (.finite 0) v ∨ lessThan v (.finite 0)) :
    (v.abs.sub (v.scale ε.times)).atMost (upperBoundOf ε positive v.abs) ↔
      TieFound ε positive v := by
  cases v with
  | finite x =>
      have hx := ne_zero_of_signed hv
      have htimes := ε.times_nonneg |x| (abs_nonneg x)
      have habs := abs_pos.mpr hx
      have hmax : |x| - ε.times |x| ≤ max 0 (|x| - ε.times |x|) := le_max_right _ _
      rcases precision_cases (ε := ε) hx with ⟨hpos, hscale, -⟩ | ⟨hneg, hscale, -⟩
      · have hfound : (finite (|x| - ε.times |x|)).atMost (upperBoundOf ε positive (finite |x|)) := by
          cases positive
          · exact atMost_finite.mpr hmax
          · exact atMost_finite.mpr (by linarith)
        rw [hscale, Extended.abs, finite_sub]
        exact iff_of_true hfound (.inl hpos)
      · have hzero : ε.times x = 0 ↔ ε.times |x| = 0 := by
          rw [abs_of_neg hneg, ε.times_neg, neg_eq_zero]
        rw [hscale]
        simp only [TieFound, hzero, hneg.not_gt, false_or, Extended.abs, finite_sub, sub_neg_eq_add]
        cases positive
        · simp only [upperBoundOf, Bool.false_eq_true, if_false, or_false, atMost_finite]
          constructor
          · intro hle
            rcases le_max_iff.mp hle with hnot | hle
            · linarith
            · linarith
          · intro h
            rw [h] at hmax ⊢
            linarith
        · simp [upperBoundOf]
  | infinite negative =>
      cases negative <;> cases positive <;>
        simp [upperBoundOf, Extended.abs, Extended.sub, Extended.neg, Extended.add, scale, TieFound,
          atMost]
  | nan => exact absurd hv not_signed_nan

/-- A larger absolute value is out of reach of the bound. -/
theorem bound_lt_of_separated {u v : Extended ℚ} (positive : Bool)
    (hu : lessThan (.finite 0) u ∨ lessThan u (.finite 0))
    (hv : lessThan (.finite 0) v ∨ lessThan v (.finite 0)) (hlt : u.abs < v.abs)
    (h : lessThan ((u.abs.max v.abs).scale (4 * ε.epsilon * ·)) (u.abs.sub v.abs).abs) :
    ∃ x w, v = .finite x ∧ upperBoundOf ε positive u.abs = .finite w ∧ 0 ≤ w ∧
      w < |x| - ε.times |x| := by
  rcases u with y | negative | _
  · rcases v with x | negative | _
    · have hpos := abs_pos.mpr (ne_zero_of_signed hu)
      have hless : |y| < |x| := finite_lt_finite.mp hlt
      have hmax : (Extended.finite |y|).max (.finite |x|) = .finite |x| :=
        if_pos (lessThan_finite.mpr hless)
      have hfar : 4 * ε.epsilon * |x| < |x| - |y| := by
        simp only [Extended.abs, hmax, scale, finite_sub, lessThan_finite] at h
        rwa [abs_sub_comm, abs_of_pos (sub_pos.mpr hless)] at h
      have hy := ε.times_le |y| hpos
      have hx := ε.times_le |x| (hpos.trans hless)
      have hnonneg := ε.times_nonneg |y| hpos.le
      have hscaled : 2 * ε.epsilon * |y| ≤ 2 * ε.epsilon * |x| :=
        mul_le_mul_of_nonneg_left hless.le (mul_nonneg zero_le_two ε.epsilon_pos.le)
      cases positive
      · exact ⟨x, _, rfl, rfl, le_max_left _ _, max_lt (by linarith) (by linarith)⟩
      · exact ⟨x, _, rfl, rfl, by linarith, by linarith⟩
    · have hmax := max_posInf |y|
      simp only [Extended.abs, hmax, scale] at h
      exact absurd h (not_lessThan_self _)
    · exact absurd hv not_signed_nan
  · rcases v with x | negative' | _
    · exact absurd hlt finite_lt_posInf.not_gt
    · exact absurd hlt (lt_irrefl _)
    · exact absurd hv not_signed_nan
  · exact absurd hu not_signed_nan

/-! ## Values behind others -/

variable {values : List (Extended ℚ)} {v last : Extended ℚ}

theorem absKeys_snoc (values : List (Extended ℚ)) (v : Extended ℚ) :
    absKeys (values ++ [v]) = v.abs ::ₘ absKeys values := by
  unfold absKeys
  rw [List.map_append, List.map_singleton, ← Multiset.coe_add, add_comm]
  rfl

theorem signedKeys_snoc (hv : lessThan (.finite 0) v ∨ lessThan v (.finite 0)) :
    signedKeys (values ++ [v]) = insertKey (signedKeys values) (signSample v) v.abs := by
  have hnot : lessThan (.finite 0) v → ¬lessThan v (.finite 0) := fun h h' => h.1.not_gt h'.1
  ext1 i
  unfold insertKey signSample signedKeys
  rw [List.filter_append, List.filter_append, List.map_append, List.map_append]
  by_cases hpos : lessThan (.finite 0) v
  · have hneg := hnot hpos
    fin_cases i
    · simp [hpos, ← Multiset.cons_coe, ← Multiset.coe_add, Multiset.add_comm]
    · simp [hpos, hneg]
  · have hneg := hv.resolve_left hpos
    fin_cases i
    · simp [hpos]
    · simp [hpos, hneg, ← Multiset.cons_coe, ← Multiset.coe_add, Multiset.add_comm]

theorem positiveAmong_snoc (key : Extended ℚ) : positiveAmong (values ++ [v]) key =
    (positiveAmong values key || decide (v.abs = key ∧ lessThan (.finite 0) v)) := by
  unfold positiveAmong
  rw [List.any_append, List.any_cons, List.any_nil, Bool.or_false]

theorem positiveAmong_eq_false (h : ∀ u ∈ values, u.abs ≠ last) :
    positiveAmong values last = false := by
  unfold positiveAmong
  rw [List.any_eq_false]
  intro u hu hboth
  exact h u hu (of_decide_eq_true hboth).1

theorem allFound_snoc : AllFound ε (values ++ [v]) ↔ AllFound ε values ∧
    (v.abs ∈ values.map Extended.abs → TieFound ε (positiveAmong values v.abs) v) := by
  constructor
  · intro h
    refine ⟨?_, fun hmem => h values v [] rfl hmem⟩
    intro pre u post hsplit hmem
    exact h pre u (post ++ [v]) (by rw [hsplit, List.append_assoc, List.cons_append]) hmem
  · rintro ⟨hvalues, hlast⟩ pre u post hsplit hmem
    rcases List.eq_nil_or_concat post with hnil | ⟨rest, w, hpost⟩
    · rw [hnil] at hsplit
      obtain ⟨hpre, hu⟩ := List.append_inj' hsplit rfl
      cases hu
      subst hpre
      exact hlast hmem
    · rw [hpost, List.concat_eq_append, ← List.cons_append, ← List.append_assoc] at hsplit
      exact hvalues pre u rest (List.append_inj' hsplit rfl).1 hmem

/-! ## Steps -/

/-- What a state says of the values it has seen.  Once a tie is not found the sum over the groups
is too small. -/
structure WsrSeen (ε : MachineEpsilon ℚ) (values : List (Extended ℚ)) (last : Extended ℚ)
    (s : WSRTestTransitionState) : Prop where
  num : 0 < sumOfTwo s.num
  lastAbs : s.lastAbs = last
  bound : s.lastAbsUpperBound = upperBoundOf ε (positiveAmong values last) last
  mem : last ∈ values.map Extended.abs
  le : ∀ u ∈ values, u.abs ≤ last
  ties_nonneg : 0 ≤ sumOfTwo s.numTies
  ties_le : sumOfTwo s.numTies ≤ (absKeys values).count last
  right : AllFound ε values →
    Ranked (signedKeys values) last s.toRankState ∧ s.reduceVariance = tieSum (absKeys values)
  wrong : ¬AllFound ε values → s.reduceVariance < tieSum (absKeys values)

theorem together_signedKeys (h : NonZero values) : together (signedKeys values) = absKeys values := by
  induction values using List.reverseRecOn with
  | nil => rfl
  | append_singleton values v ih =>
      have hvalues : NonZero values := fun u hu => h u (List.mem_append_left _ hu)
      have hv := h v (List.mem_append_right _ (List.mem_singleton.mpr rfl))
      rw [signedKeys_snoc hv, together_insertKey, ih hvalues, absKeys_snoc]

theorem mem_absKeys {key : Extended ℚ} : key ∈ absKeys values ↔ key ∈ values.map Extended.abs :=
  Multiset.mem_coe

theorem le_together_signedKeys (hnonzero : NonZero values) (h : ∀ u ∈ values, u.abs ≤ v.abs) :
    ∀ key ∈ together (signedKeys values), key ≤ v.abs := by
  rw [together_signedKeys hnonzero]
  intro key hkey
  obtain ⟨u, hu, rfl⟩ := List.mem_map.mp (mem_absKeys.mp hkey)
  exact h u hu

/-- What holds behind the comparison holds behind the step. -/
theorem wsrSeen_add {state : WSRTestTransitionState} {precision : Extended ℚ}
    (hnonzero : NonZero (values ++ [v])) (hle : ∀ u ∈ values, u.abs ≤ v.abs)
    (hnum : 0 ≤ sumOfTwo state.num)
    (hbound : raiseBound state.lastAbsUpperBound (v.abs.add precision) =
      upperBoundOf ε (positiveAmong (values ++ [v]) v.abs) v.abs)
    (hnonneg : 0 ≤ sumOfTwo state.numTies)
    (hties : sumOfTwo state.numTies ≤ (absKeys values).count v.abs)
    (hright : AllFound ε (values ++ [v]) →
      Awaits (signedKeys values) v.abs state.toRankState ∧
        state.reduceVariance = tieSum (v.abs ::ₘ absKeys values))
    (hwrong : ¬AllFound ε (values ++ [v]) →
      state.reduceVariance < tieSum (v.abs ::ₘ absKeys values)) :
    WsrSeen ε (values ++ [v]) v.abs (wsrAdd state v precision) where
  num := by
    have hsum := sumOfTwo_addRank state.toRankState (signSample v)
    exact lt_of_lt_of_eq (by linarith) hsum.symm
  lastAbs := rfl
  bound := hbound
  mem := List.mem_map_of_mem (List.mem_append_right _ (List.mem_singleton.mpr rfl))
  le u hu := by
    rcases List.mem_append.mp hu with hu | hu
    · exact hle u hu
    · rw [List.mem_singleton.mp hu]
  ties_nonneg := by
    have hsum := sumOfTwo_addRank_numTies state.toRankState (signSample v)
    exact le_of_le_of_eq (by linarith) hsum.symm
  ties_le := by
    have hsum := sumOfTwo_addRank_numTies state.toRankState (signSample v)
    rw [absKeys_snoc, Multiset.count_cons_self]
    push_cast
    exact le_of_eq_of_le hsum (by linarith)
  right hfound := by
    have hv := hnonzero v (List.mem_append_right _ (List.mem_singleton.mpr rfl))
    have hvalues : NonZero values := fun u hu => hnonzero u (List.mem_append_left _ hu)
    obtain ⟨hawaits, hvariance⟩ := hright hfound
    rw [signedKeys_snoc hv, absKeys_snoc]
    exact ⟨hawaits.addRank (le_together_signedKeys hvalues hle) _, hvariance⟩
  wrong hnot := by
    rw [absKeys_snoc]
    exact hwrong hnot

section Steps

variable {s : WSRTestTransitionState}

theorem WsrSeen.reduceVariance_le (h : WsrSeen ε values last s) :
    s.reduceVariance ≤ tieSum (absKeys values) := by
  by_cases hall : AllFound ε values
  · exact (h.right hall).2.le
  · exact (h.wrong hall).le

/-- A value of the last group. -/
theorem WsrSeen.tie (h : WsrSeen ε values last s) (hnonzero : NonZero (values ++ [v]))
    (hlast : v.abs = last) :
    ∃ t, wsrTestTransition ε s v none = .ok t ∧ WsrSeen ε (values ++ [v]) v.abs t := by
  subst hlast
  have hv := hnonzero v (List.mem_append_right _ (List.mem_singleton.mpr rfl))
  have hvalues : NonZero values := fun u hu => hnonzero u (List.mem_append_left _ hu)
  have hne : v ≠ .finite 0 := by
    rintro rfl
    simp at hv
  have hbound : raiseBound s.lastAbsUpperBound (v.abs.add (v.scale ε.times)) =
      upperBoundOf ε (positiveAmong (values ++ [v]) v.abs) v.abs := by
    rw [h.bound, raiseBound_tie _ hv, positiveAmong_snoc]
    simp
  have hcount : 1 ≤ (absKeys values).count v.abs :=
    Multiset.one_le_count_iff_mem.mpr (mem_absKeys.mpr h.mem)
  have hcast : (1 : ℚ) ≤ (absKeys values).count v.abs := by exact_mod_cast hcount
  have hgrow := tieSum_cons v.abs (absKeys values)
  unfold wsrTestTransition wsrPrecision
  rw [if_neg hne, if_pos h.num, h.lastAbs, if_neg (not_lessThan_self _)]
  by_cases hfound : TieFound ε (positiveAmong values v.abs) v
  · have hatMost := (atMost_upperBoundOf _ hv).mpr hfound
    rw [← h.bound] at hatMost
    rw [if_pos hatMost]
    refine ⟨_, rfl, wsrSeen_add hnonzero h.le h.num.le hbound h.ties_nonneg h.ties_le ?_ ?_⟩
    · intro hall
      obtain ⟨hranked, hvariance⟩ := h.right (allFound_snoc.mp hall).1
      have hties := sumOfTwo_count hranked.numTies
      rw [together_signedKeys hvalues] at hties
      refine ⟨hranked.correctTies (le_together_signedKeys hvalues h.le), ?_⟩
      rw [hgrow, hties, hvariance]
    · intro hnot
      have hbefore : ¬AllFound ε values := fun hall => hnot (allFound_snoc.mpr ⟨hall, fun _ => hfound⟩)
      have hless := h.wrong hbefore
      have hsquare : sumOfTwo s.numTies * (sumOfTwo s.numTies + 1) ≤
          (absKeys values).count v.abs * ((absKeys values).count v.abs + 1) := by
        have hnonneg := h.ties_nonneg
        have hties := h.ties_le
        gcongr
      rw [hgrow]
      show s.reduceVariance + 1 / 16 * sumOfTwo s.numTies * (sumOfTwo s.numTies + 1) < _
      linarith
  · have hatMost := (atMost_upperBoundOf _ hv).not.mpr hfound
    rw [← h.bound] at hatMost
    rw [if_neg hatMost]
    refine ⟨_, rfl, wsrSeen_add hnonzero h.le h.num.le hbound ?_ ?_ ?_ ?_⟩
    · exact le_of_eq (add_zero 0).symm
    · exact le_trans (le_of_eq (add_zero 0)) (zero_le_one.trans hcast)
    · intro hall
      exact absurd ((allFound_snoc.mp hall).2 h.mem) hfound
    · intro _
      have hle := h.reduceVariance_le
      have hsquare : (0 : ℚ) <
          (absKeys values).count v.abs * ((absKeys values).count v.abs + 1) := by positivity
      rw [hgrow]
      show s.reduceVariance < _
      linarith

/-- The first value of another group. -/
theorem WsrSeen.next (h : WsrSeen ε values last s) (hnonzero : NonZero (values ++ [v]))
    (hseparated : AbsSeparated ε (values ++ [v])) (hlt : last < v.abs) :
    ∃ t, wsrTestTransition ε s v none = .ok t ∧ WsrSeen ε (values ++ [v]) v.abs t := by
  have hv := hnonzero v (List.mem_append_right _ (List.mem_singleton.mpr rfl))
  have hvalues : NonZero values := fun u hu => hnonzero u (List.mem_append_left _ hu)
  have hbefore : ∀ u ∈ values, u.abs < v.abs := fun u hu => (h.le u hu).trans_lt hlt
  obtain ⟨u, hu, hulast⟩ := List.mem_map.mp h.mem
  have hfar := hseparated u (List.mem_append_left _ hu) v
    (List.mem_append_right _ (List.mem_singleton.mpr rfl)) (hbefore u hu).ne
  obtain ⟨x, w, rfl, hw, hnonneg, hless⟩ := bound_lt_of_separated (positiveAmong values last)
    (hvalues u hu) hv (hbefore u hu) hfar
  rw [hulast, ← h.bound] at hw
  have hx := ne_zero_of_signed hv
  have hne : (Extended.finite x) ≠ .finite 0 := by simpa using hx
  have hnotless : ¬lessThan (Extended.finite x).abs s.lastAbs := by
    rw [h.lastAbs]
    exact fun h' => hlt.not_gt h'.1
  have hnotfound := not_atMost_of_bound_lt hx hless
  rw [← hw] at hnotfound
  have hnot : (Extended.finite x).abs ∉ values.map Extended.abs := by
    intro hmem
    obtain ⟨u', hu', heq⟩ := List.mem_map.mp hmem
    exact (hbefore u' hu').ne heq
  have hsame := tieSum_cons_of_notMem (mem_absKeys.not.mpr hnot)
  have hbound : raiseBound s.lastAbsUpperBound
      ((Extended.finite x).abs.add ((Extended.finite x).scale ε.times)) =
      upperBoundOf ε (positiveAmong (values ++ [.finite x]) (Extended.finite x).abs)
        (Extended.finite x).abs := by
    rw [hw, raiseBound_new hx hnonneg hless, positiveAmong_snoc,
      positiveAmong_eq_false fun u hu => (hbefore u hu).ne]
    simp
  unfold wsrTestTransition wsrPrecision
  rw [if_neg hne, if_pos h.num, if_neg hnotless, if_neg hnotfound]
  refine ⟨_, rfl, wsrSeen_add hnonzero (fun u hu => (hbefore u hu).le) h.num.le hbound ?_ ?_ ?_ ?_⟩
  · exact le_of_eq (add_zero 0).symm
  · exact le_trans (le_of_eq (add_zero 0)) (Nat.cast_nonneg _)
  · intro hall
    obtain ⟨hranked, hvariance⟩ := h.right (allFound_snoc.mp hall).1
    refine ⟨hranked.clearTies ?_, ?_⟩
    · rw [together_signedKeys hvalues]
      intro key hkey
      obtain ⟨u', hu', rfl⟩ := List.mem_map.mp (mem_absKeys.mp hkey)
      exact hbefore u' hu'
    · rw [hsame]
      exact hvariance
  · intro hnotall
    rw [hsame]
    apply h.wrong
    intro hall
    exact hnotall (allFound_snoc.mpr ⟨hall, fun hmem => absurd hmem hnot⟩)

theorem wsrSeen_first (hnonzero : NonZero [v]) :
    ∃ t, wsrTestTransition ε wsrTestInit v none = .ok t ∧ WsrSeen ε [v] v.abs t := by
  have hv := hnonzero v (List.mem_singleton.mpr rfl)
  have hne : v ≠ .finite 0 := by
    rintro rfl
    simp at hv
  have hnum : ¬0 < sumOfTwo wsrTestInit.num := by
    simp [sumOfTwo, wsrTestInit, RankState.zero]
  have hbound : raiseBound wsrTestInit.lastAbsUpperBound (v.abs.add (v.scale ε.times)) =
      upperBoundOf ε (positiveAmong ([] ++ [v]) v.abs) v.abs := by
    rw [positiveAmong_snoc]
    simpa [positiveAmong, wsrTestInit] using raiseBound_first (ε := ε) hv
  have htie : tieSum (v.abs ::ₘ absKeys []) = 0 := by
    rw [tieSum_cons]
    simp [absKeys, tieSum_zero]
  have hzero := ranked_zero v.abs
  have hawaits : Awaits (signedKeys []) v.abs RankState.zero :=
    ⟨fun i => by simp [signedKeys, RankState.zero], fun i => by simp [signedKeys, RankState.zero],
      fun i => by simp [signedKeys, RankState.zero]⟩
  have hall : ∀ u ∈ ([] : List (Extended ℚ)), u.abs ≤ v.abs := by simp
  unfold wsrTestTransition wsrPrecision
  rw [if_neg hne, if_neg hnum]
  refine ⟨_, rfl, wsrSeen_add hnonzero hall ?_ hbound ?_ ?_ ?_ ?_⟩
  · exact le_of_eq (add_zero 0).symm
  · exact le_of_eq (add_zero 0).symm
  · exact le_trans (le_of_eq (add_zero 0)) (Nat.cast_nonneg _)
  · intro _
    exact ⟨hawaits, htie.symm⟩
  · intro hnot
    refine absurd ?_ hnot
    intro pre u post hsplit hmem
    rcases pre with _ | ⟨w, pre⟩
    · simp at hmem
    · simp at hsplit

end Steps

/-! ## Runs -/

/-- Values in ascending order are accepted. -/
theorem wsrTest_seen (hvalues : values ≠ []) (hnonzero : NonZero values)
    (hascending : AscendingAbs values) (hseparated : AbsSeparated ε values) :
    ∃ s last, wsrTest ε values = .ok s ∧ WsrSeen ε values last s := by
  induction values using List.reverseRecOn with
  | nil => exact absurd rfl hvalues
  | append_singleton values v ih =>
      by_cases hnil : values = []
      · subst hnil
        obtain ⟨s, hstep, hseen⟩ := wsrSeen_first (ε := ε) hnonzero
        refine ⟨s, v.abs, ?_, hseen⟩
        rw [wsrTest, List.nil_append, List.foldlM_cons, hstep]
        rfl
      have hpairs : AscendingAbs values ∧ ∀ u ∈ values, u.abs ≤ v.abs := by
        unfold AscendingAbs at hascending ⊢
        rw [List.map_append, List.pairwise_append] at hascending
        exact ⟨hascending.1, fun u hu =>
          hascending.2.2 u.abs (List.mem_map_of_mem hu) v.abs (List.mem_singleton.mpr rfl)⟩
      obtain ⟨s, last, hrun, hseen⟩ := ih hnil (fun u hu => hnonzero u (List.mem_append_left _ hu))
        hpairs.1 (fun u hu w hw =>
          hseparated u (List.mem_append_left _ hu) w (List.mem_append_left _ hw))
      have hlast : last ≤ v.abs := by
        obtain ⟨u, hu, rfl⟩ := List.mem_map.mp hseen.mem
        exact hpairs.2 u hu
      have hstep : ∃ t, wsrTestTransition ε s v none = .ok t ∧
          WsrSeen ε (values ++ [v]) v.abs t := by
        rcases hlast.lt_or_eq with hlt | heq
        · exact hseen.next hnonzero hseparated hlt
        · exact hseen.tie hnonzero heq.symm
      obtain ⟨t, ht, hseen'⟩ := hstep
      refine ⟨t, v.abs, ?_, hseen'⟩
      unfold wsrTest at hrun ⊢
      rw [List.foldlM_append, hrun, ok_bind, List.foldlM_cons, ht]
      rfl

/-- The sums are those of the midranks exactly if every tie is found. -/
theorem wsrTest_midrankSums (hnonzero : NonZero values) (hascending : AscendingAbs values)
    (hseparated : AbsSeparated ε values) :
    ∃ s, wsrTest ε values = .ok s ∧ (MidrankSums values s ↔ AllFound ε values) := by
  by_cases hnil : values = []
  · subst hnil
    refine ⟨wsrTestInit, rfl, iff_of_true ⟨?_, ?_⟩ ?_⟩
    · intro i
      simp [wsrTestInit, RankState.zero, signedKeys]
    · exact tieSum_zero.symm
    · intro pre v post hsplit
      simp at hsplit
  obtain ⟨s, last, hrun, hseen⟩ := wsrTest_seen hnil hnonzero hascending hseparated
  refine ⟨s, hrun, ?_, ?_⟩
  · intro hsums
    by_contra hnot
    exact (hseen.wrong hnot).ne hsums.reduceVariance
  · intro hall
    obtain ⟨hranked, hvariance⟩ := hseen.right hall
    refine ⟨fun i => ?_, hvariance⟩
    rw [hranked.rankSum i, together_signedKeys hnonzero]

/-! ## The order of ties -/

theorem signedKeys_perm {values' : List (Extended ℚ)} (h : values'.Perm values) :
    signedKeys values' = signedKeys values := by
  ext1 i
  unfold signedKeys
  split_ifs
  · exact Multiset.coe_eq_coe.mpr ((h.filter _).map _)
  · exact Multiset.coe_eq_coe.mpr ((h.filter _).map _)

theorem absKeys_perm {values' : List (Extended ℚ)} (h : values'.Perm values) :
    absKeys values' = absKeys values :=
  Multiset.coe_eq_coe.mpr (h.map _)

/-- The sums are right in every order exactly if every tie is found in every order. -/
theorem sumsMidranks_iff_allFound (hnonzero : NonZero values) (hascending : AscendingAbs values)
    (hseparated : AbsSeparated ε values) :
    SumsMidranks ε values ↔
      ∀ values', values'.Perm values → AscendingAbs values' → AllFound ε values' := by
  have hrun : ∀ values', values'.Perm values → AscendingAbs values' →
      ∃ s, wsrTest ε values' = .ok s ∧ (MidrankSums values' s ↔ AllFound ε values') :=
    fun values' hperm hascending' =>
      wsrTest_midrankSums (fun v hv => hnonzero v (hperm.subset hv)) hascending' fun u hu v hv =>
        hseparated u (hperm.subset hu) v (hperm.subset hv)
  constructor
  · rintro ⟨s, -, hsums, hevery⟩ values' hperm hascending'
    obtain ⟨t, ht, hiff⟩ := hrun values' hperm hascending'
    obtain ⟨s', hs', hrank, hvariance⟩ := hevery values' hperm hascending'
    rw [hs'] at ht
    cases ht
    apply hiff.mp
    refine ⟨fun i => ?_, ?_⟩
    · rw [hrank, hsums.rankSum i, signedKeys_perm hperm, absKeys_perm hperm]
    · rw [hvariance, hsums.reduceVariance, absKeys_perm hperm]
  · intro hall
    obtain ⟨s, hs, hiff⟩ := hrun values (List.Perm.refl values) hascending
    have hsums := hiff.mpr (hall values (List.Perm.refl values) hascending)
    refine ⟨s, hs, hsums, ?_⟩
    intro values' hperm hascending'
    obtain ⟨t, ht, hiff'⟩ := hrun values' hperm hascending'
    have hsums' := hiff'.mpr (hall values' hperm hascending')
    refine ⟨t, ht, ?_, ?_⟩
    · ext1 i
      rw [hsums'.rankSum i, hsums.rankSum i, signedKeys_perm hperm, absKeys_perm hperm]
    · rw [hsums'.reduceVariance, hsums.reduceVariance, absKeys_perm hperm]

/-- No tie of two negative values, and none of infinities. -/
structure TiesDiffer (ε : MachineEpsilon ℚ) (values : List (Extended ℚ)) : Prop where
  negative : ∀ x < 0, ε.times x ≠ 0 → values.count (.finite x) ≤ 1
  infinite : (∃ negative, Extended.infinite negative ∈ values) → values.length ≤ 1

theorem TiesDiffer.perm {values' : List (Extended ℚ)} (h : TiesDiffer ε values)
    (hperm : values'.Perm values) : TiesDiffer ε values' where
  negative x hx htimes := by
    rw [hperm.count_eq]
    exact h.negative x hx htimes
  infinite := by
    rintro ⟨negative, hmem⟩
    rw [hperm.length_eq]
    exact h.infinite ⟨negative, hperm.subset hmem⟩

theorem TiesDiffer.allFound (h : TiesDiffer ε values) (hnonzero : NonZero values) :
    AllFound ε values := by
  rintro pre v post rfl hmem
  obtain ⟨u, hu, habs⟩ := List.mem_map.mp hmem
  have hv := hnonzero v (by simp)
  cases v with
  | finite x =>
      rcases lt_or_gt_of_ne (ne_zero_of_signed hv) with hneg | hpos
      · by_cases htimes : ε.times x = 0
        · exact .inr (.inl htimes)
        · right
          right
          have hcount := h.negative x hneg htimes
          rw [List.count_append, List.count_cons_self] at hcount
          have hnotmem : Extended.finite x ∉ pre :=
            List.count_eq_zero.mp (by omega)
          have hsame : u.abs = .finite |x| := habs
          rcases u with y | negative | _
          · rw [Extended.abs, Extended.finite.injEq, abs_eq_abs] at hsame
            rcases hsame with rfl | rfl
            · exact absurd hu hnotmem
            · have hpos : lessThan (.finite 0) (Extended.finite (-x)) :=
                lessThan_finite.mpr (neg_pos.mpr hneg)
              unfold positiveAmong
              rw [List.any_eq_true]
              exact ⟨_, hu, decide_eq_true ⟨habs, hpos⟩⟩
          · cases hsame
          · cases hsame
      · exact .inl hpos
  | infinite negative =>
      have hlength := h.infinite ⟨negative, by simp⟩
      have hpos := List.length_pos_of_mem hu
      rw [List.length_append, List.length_cons] at hlength
      omega
  | nan => exact absurd hv not_signed_nan

/-- Of equal absolute values the negative one comes first. -/
def NegativeFirst (u v : Extended ℚ) : Prop := u.abs ≤ v.abs ∧ (u.abs = v.abs → u ≤ v)

theorem negativeFirst_iff {u v : Extended ℚ} :
    NegativeFirst u v ↔ toLex (u.abs, u) ≤ toLex (v.abs, v) := by
  rw [Prod.Lex.toLex_le_toLex']
  rfl

instance : DecidableRel NegativeFirst := fun _ _ => inferInstanceAs (Decidable (_ ∧ _))

instance : Std.Total NegativeFirst where
  total u v := by
    simp only [negativeFirst_iff]
    exact le_total _ _

instance : IsTrans (Extended ℚ) NegativeFirst where
  trans u v w := by
    simp only [negativeFirst_iff]
    exact le_trans

/-- Sorted so, nothing positive is in front of a negative tie. -/
theorem positiveAmong_negativeFirst {pre post : List (Extended ℚ)}
    (h : (pre ++ v :: post).Pairwise NegativeFirst) (hv : lessThan v (.finite 0)) :
    positiveAmong pre v.abs = false := by
  unfold positiveAmong
  rw [List.any_eq_false]
  intro u hu hboth
  have ⟨habs, hpos⟩ := of_decide_eq_true hboth
  have hle := ((List.pairwise_append.mp h).2.2 u hu v List.mem_cons_self).2 habs
  exact (hpos.1.trans_le hle).not_gt hv.1

/-- Two places of a value that occurs twice. -/
theorem exists_split_of_two_le_count (h : 2 ≤ values.count v) :
    ∃ pre post, values = pre ++ v :: post ∧ v ∈ pre := by
  have hsub : [v, v].Sublist values := List.replicate_sublist_iff.mpr h
  obtain ⟨first, second, rfl, hfirst, hsecond⟩ := List.cons_sublist_iff.mp hsub
  obtain ⟨middle, post, rfl⟩ := List.append_of_mem (List.singleton_sublist.mp hsecond)
  exact ⟨first ++ middle, post, by rw [List.append_assoc], List.mem_append_left _ hfirst⟩

/-- Separated values are all infinite if one is. -/
theorem abs_eq_of_infinite {negative : Bool} (hnonzero : NonZero values)
    (hseparated : AbsSeparated ε values) (hmem : Extended.infinite negative ∈ values) :
    ∀ u ∈ values, u.abs = .infinite false := by
  intro u hu
  by_contra hne
  have hfar := hseparated u hu _ hmem hne
  rcases u with x | negative' | _
  · have hmax := max_posInf |x|
    simp only [Extended.abs, hmax, scale] at hfar
    exact not_lessThan_self _ hfar
  · exact hne rfl
  · exact absurd (hnonzero _ hu) not_signed_nan

/-- The order with negative values first finds no tie of two negative values. -/
theorem TiesDiffer.of_allFound (hnonzero : NonZero values) (hseparated : AbsSeparated ε values)
    (h : ∀ values', values'.Perm values → AscendingAbs values' → AllFound ε values') :
    TiesDiffer ε values := by
  let sorted := values.insertionSort NegativeFirst
  have hperm : sorted.Perm values := List.perm_insertionSort NegativeFirst values
  have hpairwise : sorted.Pairwise NegativeFirst := List.pairwise_insertionSort NegativeFirst values
  have hascending : AscendingAbs sorted := by
    unfold AscendingAbs
    rw [List.pairwise_map]
    exact hpairwise.imp fun hle => hle.1
  have hall := h sorted hperm hascending
  constructor
  · intro x hx htimes
    by_contra hcount
    rw [← hperm.count_eq] at hcount
    obtain ⟨pre, post, hsplit, hmem⟩ := exists_split_of_two_le_count (Nat.lt_of_not_le hcount)
    have hfound := hall pre _ post hsplit (List.mem_map_of_mem hmem)
    rw [hsplit] at hpairwise
    rw [positiveAmong_negativeFirst hpairwise (lessThan_finite.mpr hx)] at hfound
    rcases hfound with hpos | hzero | hfalse
    · exact hx.not_gt hpos
    · exact htimes hzero
    · cases hfalse
  · rintro ⟨negative, hmem⟩
    have hinfinite := abs_eq_of_infinite hnonzero hseparated hmem
    rw [← hperm.length_eq]
    rcases hsorted : sorted with _ | ⟨u, _ | ⟨v, rest⟩⟩
    · exact Nat.zero_le 1
    · exact le_refl 1
    · have hu := hinfinite u (hperm.subset (by rw [hsorted]; simp))
      have hv := hinfinite v (hperm.subset (by rw [hsorted]; simp))
      have hfound := hall [u] v rest hsorted (by simp [hu, hv])
      rw [hsorted] at hpairwise
      rcases v with x | (_ | _) | _
      · cases hv
      · exact absurd hfound.1 Bool.false_ne_true
      · have hsplit : ([u] ++ Extended.infinite true :: rest).Pairwise NegativeFirst := hpairwise
        have hfalse := positiveAmong_negativeFirst hsplit ⟨negInf_lt_finite, nofun⟩
        rw [TieFound, hfalse] at hfound
        exact absurd hfound.2 Bool.false_ne_true
      · cases hv

/-- The sums are those of the midranks in one order if every tie is found, and in every order if no
two negative values are tied. -/
theorem wsrTest_sumsMidranks_iff (ε : MachineEpsilon ℚ) (values : List (Extended ℚ))
    (hnonzero : NonZero values) (hascending : AscendingAbs values)
    (hseparated : AbsSeparated ε values) :
    (SumsMidranks ε values ↔ TiesDiffer ε values) ∧
      ((∃ s, wsrTest ε values = .ok s ∧ MidrankSums values s) ↔ AllFound ε values) := by
  constructor
  · rw [sumsMidranks_iff_allFound hnonzero hascending hseparated]
    constructor
    · exact TiesDiffer.of_allFound hnonzero hseparated
    · intro h values' hperm _
      exact (h.perm hperm).allFound fun v hv => hnonzero v (hperm.subset hv)
  · obtain ⟨s, hs, hiff⟩ := wsrTest_midrankSums hnonzero hascending hseparated
    constructor
    · rintro ⟨t, ht, hsums⟩
      rw [hs] at ht
      cases ht
      exact hiff.mp hsums
    · intro hall
      exact ⟨s, hs, hiff.mpr hall⟩

/-- A positive and a negative value are tied in both orders. -/
theorem wsrTest_sumsMidranks_iff_two :
    SumsMidranks exactEpsilon [.finite 1, .finite (-1), .finite 3] := by
  have hdiffer : TiesDiffer exactEpsilon [.finite 1, .finite (-1), .finite 3] := by
    constructor
    · intro x _ _
      exact List.nodup_iff_count_le_one.mp (by decide +kernel) _
    · rintro ⟨negative, hmem⟩
      simp at hmem
  exact (wsrTest_sumsMidranks_iff exactEpsilon _ (by decide +kernel) (by decide +kernel)
    (by decide +kernel)).1.mpr hdiffer

/-- Two equal negative values are not found to be a tie. -/
theorem wsrTest_negative_tie : ¬∀ values, NonZero values → AscendingAbs values →
    AbsSeparated exactEpsilon values → SumsMidranks exactEpsilon values := by
  intro h
  have hnonzero : NonZero [.finite (-1), .finite (-1)] := by decide +kernel
  have hascending : AscendingAbs [.finite (-1), .finite (-1)] := by decide +kernel
  have hseparated : AbsSeparated exactEpsilon [.finite (-1), .finite (-1)] := by decide +kernel
  have hall := (sumsMidranks_iff_allFound hnonzero hascending hseparated).mp
    (h _ hnonzero hascending hseparated) _ (List.Perm.refl _) hascending
  have hfound := hall [.finite (-1)] (.finite (-1)) [] rfl (by simp)
  have hnone : positiveAmong [.finite (-1)] (Extended.finite (-1)).abs = false := by decide +kernel
  rw [TieFound, hnone] at hfound
  norm_num [exactEpsilon] at hfound

end Madlib.Stats
