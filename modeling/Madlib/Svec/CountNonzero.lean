import Madlib.Svec.Count
import Madlib.Svec.WholeNumbers

/-!
# Counting over a table

The aggregate `svec_count_nonzero` starts from the scalar 0, passes over the svecs with
`svec_count` and merges states with `svec_plus`.  A state shows the svecs it has seen but for
those of one element that is not counted at the beginning: behind them it looks like the first
state again.
-/

namespace Madlib.Svec

open Madlib.Backend Madlib.Lib Madlib.Lib.MachineInt Madlib.Lib.RunLength Madlib.Lib.Segments
open CountCode
open Madlib.AssocRules (one HoldsRuns)

/-- The aggregate `svec_count_nonzero`, from an initial state `{1}:{0.}`. -/
def svecCountNonzero (ops : Arith) (bytestore : List UInt8) (init : SvecType) :
    TimedAggregate Fault SvecType SvecType where
  init
  transition fuel state svec := svecCount fuel ops bytestore state svec
  merge fuel state1 state2 := svecPlus fuel ops state1 state2

/-! ## Tallies -/

def SvecType.elements (svec : SvecType) : List Float8 := (sdataFromSvec svec).dense

/-- The number of svecs whose element at this place is counted. -/
def tally (svecs : Multiset SvecType) (i : Nat) : Nat :=
  svecs.countP fun svec => isCounted (svec.elements.getD i 0) = true

def tallies (n : Nat) (svecs : Multiset SvecType) : List Float8 :=
  (List.range n).map fun i => wholeFloat (tally svecs i)

/-- Whole numbers are added without rounding. -/
def AddsWhole (ops : Arith) : Prop :=
  ∀ a b : Nat, a + b < 2 ^ 53 → ops .add (wholeFloat a) (wholeFloat b) = wholeFloat (a + b)

/-- The tallies are doubles. -/
def Countable (svecs : Multiset SvecType) : Prop := ∀ i, tally svecs i < 2 ^ 53

theorem length_tallies (n : Nat) (svecs : Multiset SvecType) : (tallies n svecs).length = n := by
  rw [tallies, List.length_map, List.length_range]

theorem getElem_tallies {n : Nat} {svecs : Multiset SvecType} {i : Nat}
    (h : i < (tallies n svecs).length) : (tallies n svecs)[i] = wholeFloat (tally svecs i) := by
  simp [tallies]

theorem tally_add (svecs svecs' : Multiset SvecType) (i : Nat) :
    tally (svecs + svecs') i = tally svecs i + tally svecs' i :=
  Multiset.countP_add _ svecs svecs'

theorem Countable.mono {svecs svecs' : Multiset SvecType} (h : Countable svecs')
    (hle : svecs ≤ svecs') : Countable svecs :=
  fun i => (Multiset.countP_le_of_le _ hle).trans_lt (h i)

theorem tallies_zero (n : Nat) : tallies n 0 = List.replicate n 0 := by
  have hzero : (fun i => wholeFloat (tally 0 i)) = fun _ => 0 := by
    funext i
    rw [tally, Multiset.countP_zero]
    rfl
  rw [tallies, hzero, List.map_const', List.length_range]

theorem tallies_one (svecs : Multiset SvecType) : tallies 1 svecs = [wholeFloat (tally svecs 0)] :=
  rfl

theorem tallies_add {ops : Arith} (hadd : AddsWhole ops) (n : Nat)
    {svecs svecs' : Multiset SvecType} (hcount : Countable (svecs + svecs')) :
    List.zipWith (ops .add) (tallies n svecs) (tallies n svecs') = tallies n (svecs + svecs') := by
  unfold tallies
  rw [List.zipWith_map, List.zipWith_self]
  apply List.map_congr_left
  intro i _
  have hsum := hcount i
  rw [tally_add] at hsum
  rw [hadd _ _ hsum, tally_add]

theorem clamp_eq (v : Float8) : clamp v = wholeFloat (if isCounted v then 1 else 0) := by
  unfold clamp
  split_ifs <;> rfl

/-- Capped elements are the tallies of one svec. -/
theorem map_clamp (svec : SvecType) :
    svec.elements.map clamp = tallies svec.elements.length {svec} := by
  apply List.ext_getElem
  · rw [List.length_map, length_tallies]
  · intro i hi _
    rw [List.length_map] at hi
    have htally : tally {svec} i = if isCounted svec.elements[i] then 1 else 0 := by
      rw [tally, ← Multiset.cons_zero, Multiset.countP_cons, Multiset.countP_zero, Nat.zero_add,
        List.getD_eq_getElem _ _ hi]
    have hclamp : clamp svec.elements[i] = wholeFloat (tally {svec} i) := by
      rw [htally]
      exact clamp_eq _
    rw [List.getElem_map, getElem_tallies, hclamp]

/-- A count that is not 0 does not look like the first state. -/
theorem float8Eq_wholeFloat {k : Nat} (hk : k ≠ 0) (hlt : k < 2 ^ 53) :
    float8Eq (wholeFloat k) 0 = false := by
  have hne : wholeFloat k ≠ 0 := by
    intro hzero
    have hback := wholeOf_wholeFloat hlt
    rw [hzero] at hback
    exact hk (Option.some.inj hback).symm
  have hmagnitude : (wholeFloat k ||| 0) &&& 0x7FFFFFFFFFFFFFFF ≠ 0 := by
    intro hzero
    have ⟨hexponent, _⟩ := wholeBits_fields hk hlt
    have ⟨hlog, _, _⟩ := log2_bounds hk hlt
    have hbits := congrArg UInt64.toNat hzero
    rw [UInt64.or_zero, toNat_magnitude, toNat_wholeFloat hk hlt, UInt64.toNat_zero] at hbits
    omega
  unfold float8Eq
  rw [beq_false_of_ne hne, beq_false_of_ne hmagnitude]
  exact Bool.and_false _

/-! ## The state behind some svecs -/

/-- One element that is not counted. -/
def blank (svec : SvecType) : Bool :=
  svec.elements.length == 1 && !isCounted (svec.elements.getD 0 0)

/-- The state does not show the svecs of one element that is not counted at the beginning. -/
def strip (svecs : List SvecType) : List SvecType := svecs.dropWhile blank

def stateValues (svecs : List SvecType) : List Float8 :=
  match strip svecs with
  | [] => [0]
  | svec :: rest => tallies svec.elements.length ((svec :: rest : List SvecType) : Multiset SvecType)

def SameDim (n : Nat) (svecs : List SvecType) : Prop :=
  ∀ svec ∈ svecs, svec.elements.length = n

/-- The svecs that the state shows have one size, and the state is allocated. -/
def Stateful (svecs : List SvecType) : Prop :=
  (∃ n, SameDim n (strip svecs)) ∧ Allocates (stateValues svecs)

theorem strip_append (svecs : List SvecType) (svec : SvecType) :
    strip (svecs ++ [svec]) =
      if strip svecs = [] then strip [svec] else strip svecs ++ [svec] := by
  unfold strip
  rw [List.dropWhile_append]
  simp only [List.isEmpty_iff]

theorem stateValues_eq {svecs : List SvecType} {n : Nat} (hne : strip svecs ≠ [])
    (hdim : SameDim n (strip svecs)) : stateValues svecs = tallies n (strip svecs : List SvecType) := by
  unfold stateValues
  cases hstrip : strip svecs with
  | nil => exact absurd hstrip hne
  | cons svec rest =>
      rw [hstrip] at hdim
      dsimp only
      rw [hdim svec List.mem_cons_self]

theorem strip_cons_not_blank {svecs rest : List SvecType} {svec : SvecType}
    (h : strip svecs = svec :: rest) : blank svec = false := by
  have hdrop : svecs.dropWhile blank = svec :: rest := h
  have hne : svecs.dropWhile blank ≠ [] := by
    rw [hdrop]
    exact List.cons_ne_nil svec rest
  have hhead := List.head_dropWhile_not blank hne
  simpa only [hdrop, List.head_cons] using hhead

/-- A count of an svec that is not blank is not 0. -/
theorem countBase_tallies {svecs : List SvecType} {n : Nat} (values : List Float8)
    (hne : strip svecs ≠ []) (hdim : SameDim n (strip svecs)) (hcount : Countable svecs) :
    countBase (tallies n (strip svecs : List SvecType)) values =
      tallies n (strip svecs : List SvecType) := by
  by_cases hn : n = 1
  · have ⟨svec, rest, hstrip⟩ := List.exists_cons_of_ne_nil hne
    have hblank := strip_cons_not_blank hstrip
    have hcounted : isCounted (svec.elements.getD 0 0) = true := by
      have hlength := hdim svec (hstrip ▸ List.mem_cons_self)
      unfold blank at hblank
      rw [hlength, hn] at hblank
      simpa using hblank
    have htally : tally (strip svecs : List SvecType) 0 ≠ 0 := by
      rw [hstrip, tally, ← Multiset.cons_coe, Multiset.countP_cons, if_pos hcounted]
      omega
    have hlt := hcount.mono (Multiset.coe_le.mpr (List.dropWhile_sublist blank).subperm) 0
    have hfloat := float8Eq_wholeFloat htally hlt
    rw [hn, tallies_one]
    unfold countBase
    dsimp only
    rw [hfloat]
    rfl
  · refine countBase_vector values ?_
    rw [length_tallies]
    exact hn

theorem blank_iff (svec : SvecType) :
    blank svec = true ↔ svec.elements.length = 1 ∧ isCounted (svec.elements.getD 0 0) = false := by
  unfold blank
  rw [Bool.and_eq_true, beq_iff_eq, Bool.not_eq_true']

theorem tallies_blank {svec : SvecType} (h : blank svec = true) :
    tallies svec.elements.length {svec} = [0] := by
  have ⟨hlength, hcounted⟩ := (blank_iff svec).mp h
  have htally : tally {svec} 0 = 0 := by
    rw [tally, ← Multiset.cons_zero, Multiset.countP_cons, hcounted]
    rfl
  rw [hlength, tallies_one, htally]
  rfl

section Concat

variable {svecs : List SvecType} {n : Nat} (hdim : SameDim n (strip svecs))
include hdim

theorem countBase_stateValues (values : List Float8)
    (hnil : strip svecs = [] → n = values.length) (hcount : Countable svecs) :
    countBase (stateValues svecs) values = tallies n (strip svecs : List SvecType) := by
  by_cases hne : strip svecs = []
  · have hvalues : stateValues svecs = [0] := by
      unfold stateValues
      rw [hne]
    have hzero : ((strip svecs : List SvecType) : Multiset SvecType) = 0 := by
      rw [hne]
      rfl
    have hlooks : float8Eq 0 0 = true := rfl
    rw [hvalues, hzero, tallies_zero, hnil hne]
    unfold countBase
    dsimp only
    rw [if_pos hlooks]
  · rw [stateValues_eq hne hdim]
    exact countBase_tallies values hne hdim hcount

variable (svec : SvecType)

/-- The next svec has to have the size of those that the state shows. -/
theorem sameDim_concat_iff (hnil : strip svecs = [] → n = svec.elements.length) :
    (∃ m, SameDim m (strip (svecs ++ [svec]))) ↔ svec.elements.length = n := by
  rw [strip_append]
  constructor
  · intro ⟨m, hm⟩
    by_cases hne : strip svecs = []
    · exact (hnil hne).symm
    · rw [if_neg hne] at hm
      have ⟨first, rest, hstrip⟩ := List.exists_cons_of_ne_nil hne
      have hfirst : first ∈ strip svecs := hstrip ▸ List.mem_cons_self
      rw [← hdim first hfirst, hm first (List.mem_append_left _ hfirst)]
      exact hm svec List.mem_concat_self
  · intro hlength
    refine ⟨n, fun x hx => ?_⟩
    by_cases hne : strip svecs = []
    · rw [if_pos hne] at hx
      have hmem := (List.dropWhile_sublist blank).subset hx
      rw [List.mem_singleton.mp hmem, hlength]
    · rw [if_neg hne, List.mem_append, List.mem_singleton] at hx
      cases hx with
      | inl hx => exact hdim x hx
      | inr hx => rw [hx, hlength]

theorem stateValues_concat (hlength : svec.elements.length = n) :
    stateValues (svecs ++ [svec]) = tallies n ((strip svecs : Multiset SvecType) + {svec}) := by
  by_cases hne : strip svecs = []
  · have hsum : ((strip svecs : List SvecType) : Multiset SvecType) + {svec} = {svec} := by
      rw [hne]
      exact zero_add _
    have hstrip : strip (svecs ++ [svec]) = strip [svec] := by
      rw [strip_append, if_pos hne]
    rw [hsum, ← hlength]
    unfold stateValues
    rw [hstrip]
    cases hblank : blank svec with
    | true =>
        rw [tallies_blank hblank, strip, List.dropWhile_cons_of_pos hblank]
        rfl
    | false =>
        rw [strip, List.dropWhile_cons_of_neg (by rw [hblank]; exact Bool.false_ne_true)]
        rfl
  · have hstrip : strip (svecs ++ [svec]) = strip svecs ++ [svec] := by
      rw [strip_append, if_neg hne]
    have hsame : SameDim n (strip (svecs ++ [svec])) := by
      intro x hx
      rw [hstrip, List.mem_append, List.mem_singleton] at hx
      cases hx with
      | inl hx => exact hdim x hx
      | inr hx => rw [hx, hlength]
    have hne' : strip (svecs ++ [svec]) ≠ [] := by
      rw [hstrip]
      exact List.concat_ne_nil svec (strip svecs)
    rw [stateValues_eq hne' hsame, hstrip]
    rfl

end Concat

theorem strip_le (svecs : List SvecType) :
    (strip svecs : Multiset SvecType) ≤ (svecs : Multiset SvecType) :=
  Multiset.coe_le.mpr (List.dropWhile_sublist blank).subperm

/-- One step. -/
theorem svecCount_yields {ops : Arith} (bytestore : List UInt8) {state svec : SvecType}
    {svecs : List SvecType} (hadd : AddsWhole ops) (hstate : HoldsRuns state (stateValues svecs))
    (h : WellFormed (sdataFromSvec svec)) (hcount : Countable (svecs ++ [svec] : List SvecType))
    (hseen : Stateful svecs) :
    Yields (fun e => e.isRaised = true) (fun fuel => svecCount fuel ops bytestore state svec)
      (Stateful (svecs ++ [svec])) (HoldsRuns · (stateValues (svecs ++ [svec]))) := by
  have hsize : ∃ n, SameDim n (strip svecs) ∧ (strip svecs = [] → n = svec.elements.length) := by
    have ⟨n, hdim⟩ := hseen.1
    by_cases hne : strip svecs = []
    · refine ⟨svec.elements.length, fun x hx => ?_, fun _ => rfl⟩
      rw [hne] at hx
      cases hx
    · exact ⟨n, hdim, fun hnil => absurd hnil hne⟩
  have ⟨n, hdim, hnil⟩ := hsize
  have hconcat := sameDim_concat_iff hdim svec hnil
  have hsum : Countable ((strip svecs : Multiset SvecType) + {svec}) :=
    hcount.mono (Multiset.add_le_add_right (strip_le svecs))
  have hbase := countBase_stateValues hdim svec.elements hnil
    (hcount.mono (Multiset.coe_le.mpr (List.sublist_append_left svecs [svec]).subperm))
  by_cases hlength : svec.elements.length = n
  · have hmakes := svecCount_makes ops bytestore hstate h (by
      show (countBase (stateValues svecs) svec.elements).length = svec.elements.length
      rw [hbase, length_tallies, hlength])
    have hvalues : List.zipWith (ops .add) (countBase (stateValues svecs) svec.elements)
        (svec.elements.map clamp) = stateValues (svecs ++ [svec]) := by
      rw [hbase, map_clamp, hlength, tallies_add hadd n hsum, stateValues_concat hdim svec hlength]
    refine Yields.imp hmakes ?_ fun s hs => hvalues ▸ hs
    show Allocates (List.zipWith (ops .add) (countBase (stateValues svecs) svec.elements)
      (svec.elements.map clamp)) ↔ _
    rw [hvalues, Stateful, and_iff_right (hconcat.mpr hlength)]
  · refine ⟨fun hall => absurd (hconcat.mp hall.1) hlength, fun _ => ?_⟩
    refine svecCount_mismatch ops bytestore hstate h ?_
    show (countBase (stateValues svecs) svec.elements).length ≠ svec.elements.length
    rw [hbase, length_tallies]
    exact Ne.symm hlength

/-! ## Svecs of one size -/

/-- The state behind svecs of one size; the scalar 0 stands for none. -/
def planValues (n : Nat) (svecs : Multiset SvecType) : List Float8 :=
  if Multiset.card svecs = 0 then [0] else tallies n svecs

theorem planValues_zero (n : Nat) : planValues n 0 = [0] := rfl

theorem planValues_of_ne {svecs : Multiset SvecType} (n : Nat) (h : svecs ≠ 0) :
    planValues n svecs = tallies n svecs :=
  if_neg (mt Multiset.card_eq_zero.mp h)

theorem planValues_one (svecs : Multiset SvecType) : planValues 1 svecs = tallies 1 svecs := by
  by_cases hzero : svecs = 0
  · rw [hzero, planValues_zero, tallies_zero]
    rfl
  · exact planValues_of_ne 1 hzero

theorem tally_strip (svecs : List SvecType) :
    tally (strip svecs : List SvecType) 0 = tally svecs 0 := by
  have hblank : tally (svecs.takeWhile blank : List SvecType) 0 = 0 := by
    rw [tally, Multiset.countP_eq_zero]
    intro svec hsvec
    have hcounted := ((blank_iff svec).mp (List.mem_takeWhile_imp hsvec)).2
    rw [hcounted]
    exact Bool.false_ne_true
  calc tally (strip svecs : List SvecType) 0 =
        tally (svecs.takeWhile blank : List SvecType) 0 + tally (strip svecs : List SvecType) 0 := by
        rw [hblank, Nat.zero_add]
    _ = tally (svecs.takeWhile blank ++ strip svecs : List SvecType) 0 := by
        rw [← Multiset.coe_add, tally_add]
    _ = tally svecs 0 := by rw [strip, List.takeWhile_append_dropWhile]

theorem strip_eq_self {svecs : List SvecType} {n : Nat} (hdim : SameDim n svecs) (hn : n ≠ 1) :
    strip svecs = svecs := by
  cases svecs with
  | nil => rfl
  | cons svec rest =>
      have hblank : ¬ blank svec = true := by
        rw [blank_iff, hdim svec List.mem_cons_self]
        exact fun h => hn h.1
      exact List.dropWhile_cons_of_neg hblank

theorem SameDim.strip {svecs : List SvecType} {n : Nat} (hdim : SameDim n svecs) :
    SameDim n (strip svecs) :=
  fun svec hsvec => hdim svec ((List.dropWhile_sublist blank).subset hsvec)

theorem stateValues_sameDim {svecs : List SvecType} {n : Nat} (hdim : SameDim n svecs) :
    stateValues svecs = planValues n svecs := by
  by_cases hn : n = 1
  · subst hn
    rw [planValues_one, tallies_one, ← tally_strip]
    by_cases hne : strip svecs = []
    · unfold stateValues
      rw [hne]
      rfl
    · rw [stateValues_eq hne hdim.strip, tallies_one]
  · cases hsvecs : svecs with
    | nil => rfl
    | cons svec rest =>
        have hne : strip svecs ≠ [] := by
          rw [strip_eq_self hdim hn, hsvecs]
          exact List.cons_ne_nil svec rest
        have hcons : ((svec :: rest : List SvecType) : Multiset SvecType) ≠ 0 := by
          rw [← Multiset.cons_coe]
          exact Multiset.cons_ne_zero
        rw [← hsvecs, stateValues_eq hne hdim.strip, strip_eq_self hdim hn, hsvecs,
          planValues_of_ne n hcons]

theorem add_zero_tallies {ops : Arith} (hadd : AddsWhole ops) {svecs : Multiset SvecType}
    (hcount : Countable svecs) (n : Nat) :
    ∀ v ∈ tallies n svecs, ops .add 0 v = v ∧ ops .add v 0 = v := by
  intro v hv
  have ⟨i, _, hi⟩ := List.mem_map.mp hv
  have hzero : (0 : Float8) = wholeFloat 0 := rfl
  have hlt := hcount i
  rw [← hi, hzero, hadd 0 _ (by omega), hadd _ 0 (by omega), Nat.zero_add, Nat.add_zero]
  exact ⟨rfl, rfl⟩

/-- Merging adds the tallies, whether a state has seen svecs or not. -/
theorem svecPlus_planValues {ops : Arith} {state1 state2 : SvecType} {n : Nat}
    {left right : Multiset SvecType} (hadd : AddsWhole ops)
    (h1 : HoldsRuns state1 (planValues n left)) (h2 : HoldsRuns state2 (planValues n right))
    (hcount : Countable (left + right)) :
    Makes (fun fuel => svecPlus fuel ops state1 state2) (planValues n (left + right)) := by
  by_cases hn : n = 1
  · subst hn
    rw [planValues_one, tallies_one] at h1 h2 ⊢
    have hsum := hcount 0
    rw [tally_add] at hsum ⊢
    rw [← hadd _ _ hsum]
    exact svecPlus_scalars ops h1 h2
  · have hlength : ∀ svecs, (tallies n svecs).length ≠ 1 := by
      intro svecs
      rw [length_tallies]
      exact hn
    by_cases hl : left = 0
    · rw [hl, planValues_zero] at h1
      rw [hl, zero_add] at hcount ⊢
      by_cases hr : right = 0
      · have hzero : ops .add 0 0 = 0 := hadd 0 0 (by omega)
        rw [hr, planValues_zero] at h2 ⊢
        rw [← hzero]
        exact svecPlus_scalars ops h1 h2
      · rw [planValues_of_ne n hr] at h2 ⊢
        exact svecPlus_left ops h1 h2 (hlength right) fun v hv =>
          (add_zero_tallies hadd hcount n v hv).1
    · rw [planValues_of_ne n hl] at h1
      by_cases hr : right = 0
      · rw [hr, planValues_zero] at h2
        rw [hr, add_zero] at hcount ⊢
        rw [planValues_of_ne n hl]
        exact svecPlus_right ops h1 h2 (hlength left) fun v hv =>
          (add_zero_tallies hadd hcount n v hv).2
      · have hsum : left + right ≠ 0 := fun hzero => hl (add_eq_zero.mp hzero).1
        rw [planValues_of_ne n hr] at h2
        rw [planValues_of_ne n hsum, ← tallies_add hadd n hcount]
        exact svecPlus_vectors ops h1 h2 (by rw [length_tallies, length_tallies]) (hlength left)

/-! ## The aggregate -/

/-- The sizes that the states of a pass show stay the same. -/
theorem stateful_prefixes_iff (segment : List SvecType) :
    (∀ seen, seen <+: segment → Stateful seen) ↔
      (∃ n, SameDim n (strip segment)) ∧
        ∀ seen, seen <+: segment → Allocates (stateValues seen) := by
  constructor
  · intro hall
    exact ⟨(hall segment List.prefix_rfl).1, fun seen hseen => (hall seen hseen).2⟩
  · intro ⟨⟨n, hdim⟩, hfits⟩ seen hseen
    refine ⟨⟨n, fun svec hsvec => hdim svec ?_⟩, hfits seen hseen⟩
    have ⟨rest, hrest⟩ := hseen
    have hne : ¬ (seen.dropWhile blank).isEmpty = true := by
      rw [List.isEmpty_iff]
      exact List.ne_nil_of_mem hsvec
    rw [← hrest, strip, List.dropWhile_append, if_neg hne]
    exact List.mem_append_left _ hsvec

/-- Svecs of one size are counted in any plan, and a segment of svecs of different sizes
raises an error. -/
structure CountMeets (agg : TimedAggregate Fault SvecType SvecType) (plan : Plan SvecType) :
    Prop where
  counted : ∀ n, plan.rows ≠ 0 → (∀ svec ∈ plan.rows, svec.elements.length = n) →
    ∃ result, Settles (fun fuel => agg.run fuel plan) (.ok result) ∧
      result.elements = tallies n plan.rows
  refused : ∀ segment ∈ plan.segments, (¬ ∃ n, SameDim n segment) →
    ∃ e, Settles (fun fuel => agg.passFrom fuel agg.init segment) (.error e) ∧ e.isRaised = true

/-- Every state over svecs of one size is allocated, and no segment begins with svecs of one
element that is not counted, followed by svecs of one other size. -/
structure CountCondition (plan : Plan SvecType) : Prop where
  allocated : ∀ n, plan.rows ≠ 0 → (∀ svec ∈ plan.rows, svec.elements.length = n) →
    plan.Throughout fun svecs => Allocates (planValues n svecs)
  shown : ∀ segment ∈ plan.segments, (¬ ∃ n, SameDim n segment) →
    (∃ n, SameDim n (strip segment)) →
      ∃ seen, seen <+: segment ∧ ¬ Allocates (stateValues seen)

section Runs

variable {ops : Arith} {bytestore : List UInt8} {init : SvecType} {plan : Plan SvecType}
  (hinit : HoldsRuns init [0]) (hadd : AddsWhole ops)
  (hwell : ∀ svec ∈ plan.rows, WellFormed (sdataFromSvec svec)) (hcount : Countable plan.rows)
include hinit hadd hwell hcount

/-- One segment. -/
theorem passFrom_yields {segment : List SvecType} (hsegment : segment ∈ plan.segments) :
    Yields (fun e => e.isRaised = true)
      (fun fuel => (svecCountNonzero ops bytestore init).passFrom fuel init segment)
      (∀ seen, seen <+: segment → Stateful seen) (HoldsRuns · (stateValues segment)) := by
  have hrows := Plan.segment_le hsegment
  have hnil : Stateful [] := ⟨⟨0, fun _ h => absurd h List.not_mem_nil⟩, packedSize_singleton_le 0⟩
  refine @Yields.pass _ _ _ (svecCountNonzero ops bytestore init) _ Stateful
    (fun seen state => HoldsRuns state (stateValues seen)) init segment hnil hinit ?_
  intro seen state svec hseen hstateful hstate
  have hsub := hseen.sublist
  have hmem : svec ∈ plan.rows :=
    Multiset.mem_of_le hrows (hsub.subset List.mem_concat_self)
  exact svecCount_yields bytestore hadd hstate (hwell svec hmem)
    (hcount.mono ((Multiset.coe_le.mpr hsub.subperm).trans hrows)) hstateful

theorem run_yields {n : Nat} (hdim : ∀ svec ∈ plan.rows, svec.elements.length = n) :
    Yields (fun e => e.isRaised = true)
      (fun fuel => (svecCountNonzero ops bytestore init).run fuel plan)
      (plan.Throughout fun svecs => Allocates (planValues n svecs))
      (HoldsRuns · (planValues n plan.rows)) := by
  refine @Yields.run _ _ _ (svecCountNonzero ops bytestore init) _
    (fun svecs => Allocates (planValues n svecs))
    (fun svecs state => HoldsRuns state (planValues n svecs)) plan ?_ ?_
  · intro segment hsegment
    have hsame : SameDim n segment := fun svec hsvec =>
      hdim svec (Plan.mem_rows.mpr ⟨segment, hsegment, hsvec⟩)
    have hpass := @passFrom_yields ops bytestore init plan hinit hadd hwell hcount _ hsegment
    refine hpass.imp ?_ fun state hstate => stateValues_sameDim hsame ▸ hstate
    rw [stateful_prefixes_iff, and_iff_right ⟨n, hsame.strip⟩]
    refine forall₂_congr fun seen hseen => ?_
    rw [stateValues_sameDim fun svec hsvec => hsame svec (hseen.subset hsvec)]
  · intro left right state1 state2 hle h1 h2
    exact svecPlus_planValues hadd h1 h2 (hcount.mono hle)

/-- The aggregate counts, and refuses svecs of different sizes, exactly under this condition. -/
theorem svecCountNonzero_meets_iff :
    CountMeets (svecCountNonzero ops bytestore init) plan ↔ CountCondition plan := by
  have hpass : ∀ segment ∈ plan.segments, Yields (fun e => e.isRaised = true)
      (fun fuel => (svecCountNonzero ops bytestore init).passFrom fuel init segment)
      (∀ seen, seen <+: segment → Stateful seen) (HoldsRuns · (stateValues segment)) :=
    fun segment hsegment =>
      @passFrom_yields ops bytestore init plan hinit hadd hwell hcount segment hsegment
  constructor
  · intro hmeets
    constructor
    · intro n hne hdim
      have hrun := @run_yields ops bytestore init plan hinit hadd hwell hcount n hdim
      have ⟨result, hresult, _⟩ := hmeets.counted n hne hdim
      by_contra hfits
      have ⟨e, he, _⟩ := hrun.2 hfits
      cases hresult.unique he
    · intro segment hsegment hmixed hshown
      have ⟨e, he, _⟩ := hmeets.refused segment hsegment hmixed
      by_contra hfits
      have hall : ∀ seen, seen <+: segment → Stateful seen := by
        rw [stateful_prefixes_iff]
        refine ⟨hshown, fun seen hseen => ?_⟩
        by_contra hlarge
        exact hfits ⟨seen, hseen, hlarge⟩
      have ⟨result, hresult, _⟩ := (hpass segment hsegment).1 hall
      cases hresult.unique he
  · intro hcondition
    constructor
    · intro n hne hdim
      have hrun := @run_yields ops bytestore init plan hinit hadd hwell hcount n hdim
      have ⟨result, hresult, hholds⟩ := hrun.1 (hcondition.allocated n hne hdim)
      rw [planValues_of_ne n hne] at hholds
      exact ⟨result, hresult, hholds.packed.dense_eq⟩
    · intro segment hsegment hmixed
      refine (hpass segment hsegment).2 ?_
      rw [stateful_prefixes_iff]
      intro ⟨hshown, hfits⟩
      have ⟨seen, hseen, hlarge⟩ := hcondition.shown segment hsegment hmixed hshown
      exact hlarge (hfits seen hseen)

end Runs

theorem addsWhole_wholeOp : AddsWhole fun _ => wholeOp (· + ·) :=
  fun _ _ hlt => wholeOp_wholeFloat (· + ·) (by omega) (by omega)

theorem countable_of_card {svecs : Multiset SvecType} (h : Multiset.card svecs < 2 ^ 53) :
    Countable svecs :=
  fun _ => (Multiset.countP_le_card _ svecs).trans_lt h

theorem allocates_of_length {values : List Float8} (hne : values ≠ [])
    (hsize : values.length ≤ 1000) : Allocates values := by
  have hle := packedSize_le_length hne (by omega)
  unfold Allocates maxAllocSize
  omega

theorem allocates_planValues {n : Nat} (hpositive : 0 < n) (hsize : n ≤ 1000)
    (svecs : Multiset SvecType) : Allocates (planValues n svecs) := by
  by_cases hzero : svecs = 0
  · rw [hzero, planValues_zero]
    exact packedSize_singleton_le 0
  · rw [planValues_of_ne n hzero]
    have hlength := length_tallies n svecs
    exact allocates_of_length (List.ne_nil_of_length_pos (by omega)) (by omega)

/-- `{1,2}:{0,5}`. -/
def zeroAndFives : SvecType :=
  tightSvec 3 3 [0, wholeFloat 5] (int8ToCompword 1 ++ int8ToCompword 2) (by decide)

theorem wellFormed_zeroAndFives : WellFormed (sdataFromSvec zeroAndFives) :=
  ⟨⟨[1, 2], HasRuns.of_runLengths (by decide) rfl, by decide, by decide⟩, by decide⟩

theorem svecCountNonzero_meets_three : ∃ init result, HoldsRuns init [0] ∧
    Settles (fun fuel => (svecCountNonzero (fun _ => wholeOp (· + ·)) [] init).run fuel
      (.merged (.segment [twosOne, zeroAndFives]) (.merged (.segment []) (.segment [zeroAndFives]))))
      (.ok result) ∧ result.elements = [wholeFloat 1, wholeFloat 3, wholeFloat 3] := by
  let plan : Plan SvecType :=
    .merged (.segment [twosOne, zeroAndFives]) (.merged (.segment []) (.segment [zeroAndFives]))
  have hrows : plan.rows = {twosOne, zeroAndFives, zeroAndFives} := rfl
  have hmem : ∀ svec ∈ plan.rows, svec = twosOne ∨ svec = zeroAndFives := by
    intro svec hsvec
    rw [hrows] at hsvec
    simpa using hsvec
  have hwell : ∀ svec ∈ plan.rows, WellFormed (sdataFromSvec svec) := by
    intro svec hsvec
    rcases hmem svec hsvec with rfl | rfl
    · exact wellFormed_twosOne
    · exact wellFormed_zeroAndFives
  have hdim : ∀ svec ∈ plan.rows, svec.elements.length = 3 := by
    intro svec hsvec
    rcases hmem svec hsvec with rfl | rfl <;> decide
  have hne : plan.rows ≠ 0 := by
    rw [hrows]
    exact Multiset.cons_ne_zero
  have hcondition : CountCondition plan := by
    constructor
    · intro n _ hsame
      have hthree : n = 3 := by
        rw [← hsame twosOne (by simp [hrows]), hdim twosOne (by simp [hrows])]
      subst hthree
      exact Plan.throughout_of_forall (allocates_planValues (by decide) (by decide)) plan
    · intro segment hsegment hmixed
      exact absurd ⟨3, fun svec hsvec =>
        hdim svec (Plan.mem_rows.mpr ⟨segment, hsegment, hsvec⟩)⟩ hmixed
  obtain ⟨init, _, hinit⟩ := svecMakeScalar_holdsRuns 0
  have hmeets := (@svecCountNonzero_meets_iff _ [] init plan hinit addsWhole_wholeOp hwell
    (countable_of_card (by decide))).mpr hcondition
  obtain ⟨result, hresult, helements⟩ := hmeets.counted 3 hne hdim
  refine ⟨init, result, hinit, hresult, ?_⟩
  rw [helements]
  decide

/-- `{1}:{0}` and `{3}:{5}`. -/
def scalarZero : SvecType := tightSvec (-1) 1 [0] (int8ToCompword 1) (by decide)

def threeFives : SvecType := tightSvec 3 3 [wholeFloat 5] (int8ToCompword 3) (by decide)

/-- Behind a scalar 0, an svec of another size is accepted. -/
theorem svecCountNonzero_not_refused :
    ¬ ∀ (ops : Arith) (init : SvecType) (plan : Plan SvecType), HoldsRuns init [0] →
      AddsWhole ops → (∀ svec ∈ plan.rows, WellFormed (sdataFromSvec svec)) →
      Countable plan.rows → CountMeets (svecCountNonzero ops [] init) plan := by
  intro h
  let plan : Plan SvecType := .segment [scalarZero, threeFives]
  have hwell : ∀ svec ∈ plan.rows, WellFormed (sdataFromSvec svec) := by
    intro svec hsvec
    have hcases : svec = scalarZero ∨ svec = threeFives := by
      simpa [plan, Plan.rows] using hsvec
    rcases hcases with rfl | rfl
    · exact ⟨⟨[1], HasRuns.of_runLengths (by decide) rfl, by decide, by decide⟩, by decide⟩
    · exact ⟨⟨[3], HasRuns.of_runLengths (by decide) rfl, by decide, by decide⟩, by decide⟩
  have hcount : Countable plan.rows := countable_of_card (by decide)
  obtain ⟨init, _, hinit⟩ := svecMakeScalar_holdsRuns 0
  have hmixed : ¬ ∃ n, SameDim n [scalarZero, threeFives] := by
    rintro ⟨n, hn⟩
    have hone : scalarZero.elements.length = n := hn scalarZero (by simp)
    have hthree : threeFives.elements.length = n := hn threeFives (by simp)
    exact absurd (hone.trans hthree.symm) (by decide)
  have hshown : strip [scalarZero, threeFives] = [threeFives] := by decide
  have hfits : ∀ seen, seen <+: [scalarZero, threeFives] → Allocates (stateValues seen) := by
    intro seen hseen
    have hvalues : stateValues seen ≠ [] ∧ (stateValues seen).length ≤ 1000 := by
      have hcases : seen = [] ∨ seen = [scalarZero] ∨ seen = [scalarZero, threeFives] := by
        simpa [List.inits] using (List.mem_inits seen _).mpr hseen
      rcases hcases with rfl | rfl | rfl <;> decide
    exact allocates_of_length hvalues.1 hvalues.2
  have hmeets := h _ init plan hinit addsWhole_wholeOp hwell hcount
  obtain ⟨e, he, _⟩ := hmeets.refused [scalarZero, threeFives] (List.mem_singleton.mpr rfl) hmixed
  have hpass := @passFrom_yields _ [] init plan hinit addsWhole_wholeOp hwell hcount
    [scalarZero, threeFives] (List.mem_singleton.mpr rfl)
  obtain ⟨result, hresult, _⟩ := hpass.1 (by
    rw [stateful_prefixes_iff, hshown]
    exact ⟨⟨3, fun svec hsvec => by rw [List.mem_singleton.mp hsvec]; decide⟩, hfits⟩)
  cases hresult.unique he

end Madlib.Svec
