import Madlib.Svec.Median
import Madlib.Lib.OrderStatistic

/-!
# Selecting by rank

A pivot splits the part of the lists between two borders into what is not greater and what is
greater than it.  The weights of the entries say how many elements each stands for; the loop of
`partition_select` keeps the element of rank `k` between the borders, and every round brings them
closer.
-/

namespace Madlib.Svec

open Madlib.Backend Madlib.Lib Madlib.Lib.MachineInt CountCode

/-! ## Ordinary float8s -/

theorem toNat_magnitude (v : Float8) :
    (v &&& 0x7FFFFFFFFFFFFFFF).toNat = v.toNat % 9223372036854775808 := by
  rw [UInt64.toNat_and]
  exact Nat.and_two_pow_sub_one_eq_mod v.toNat 63

/-- Float8s that are no NaNs are equal if their keys are. -/
theorem float8Eq_iff {v w : Float8} (hv : isNaN v = false) (hw : isNaN w = false) :
    float8Eq v w = true ↔ float8Key v = float8Key w := by
  have hvmag := toNat_magnitude v
  have hwmag := toNat_magnitude w
  have hzero : ((v ||| w) &&& 0x7FFFFFFFFFFFFFFF) = 0 ↔
      v.toNat % 9223372036854775808 = 0 ∧ w.toNat % 9223372036854775808 = 0 := by
    rw [← UInt64.toNat_inj, toNat_magnitude, UInt64.toNat_or, ← Nat.and_two_pow_sub_one_eq_mod _ 63,
      Nat.and_or_distrib_right, Nat.and_two_pow_sub_one_eq_mod _ 63,
      Nat.and_two_pow_sub_one_eq_mod _ 63]
    exact Nat.or_eq_zero_iff
  have hsame : v = w ↔ v.toNat = w.toNat := UInt64.toNat_inj.symm
  have hvlt := v.toNat_lt
  have hwlt := w.toNat_lt
  have hvneg : v < 0x8000000000000000 ↔ v.toNat < 9223372036854775808 := UInt64.lt_iff_toNat_lt
  have hwneg : w < 0x8000000000000000 ↔ w.toNat < 9223372036854775808 := UInt64.lt_iff_toNat_lt
  unfold float8Eq float8Key
  rw [hv, hw, hvmag, hwmag]
  simp only [Bool.not_false, Bool.true_and, Bool.or_eq_true, beq_iff_eq, hzero, hsame, hvneg, hwneg]
  split_ifs <;> omega

theorem comparFloat8_le_iff {v w : Float8} (hv : isNaN v = false) (hw : isNaN w = false) :
    comparFloat8 v w ≤ 0 ↔ float8Key v ≤ float8Key w := by
  have heq := float8Eq_iff hv hw
  have hlt : float8Lt v w = true ↔ float8Key v < float8Key w := by
    unfold float8Lt
    rw [hv, hw]
    simp
  unfold comparFloat8
  split_ifs with hless hsame
  · have hkey := hlt.mp hless
    omega
  · have hkey := heq.mp hsame
    omega
  · have hkey : ¬ float8Key v = float8Key w := fun h => hsame (heq.mpr h)
    have hkey' : ¬ float8Key v < float8Key w := fun h => hless (hlt.mpr h)
    omega

section Partition

variable {β : Type}

/-- The key an entry is ordered by. -/
def entryKey (entry : Float8 × β) : Int := float8Key entry.1

def Ordinary (lists : List (Float8 × β)) : Prop := ∀ entry ∈ lists, isNaN entry.1 = false

/-! ## Swapping -/

theorem entryAt_append (before : List (Float8 × β)) (x : Float8 × β) (after : List (Float8 × β)) :
    entryAt (before ++ x :: after) before.length = .ok x := by
  unfold entryAt
  rw [if_neg (by omega), Int.toNat_natCast, List.getElem?_append_right (le_refl _), Nat.sub_self]
  rfl

theorem swapn_self (before : List (Float8 × β)) (x : Float8 × β) (after : List (Float8 × β)) :
    swapn (before ++ x :: after) before.length before.length = .ok (before ++ x :: after) := by
  unfold swapn
  rw [entryAt_append, ok_bind, ok_bind, Int.toNat_natCast]
  simp

theorem swapn_apart (before mid after : List (Float8 × β)) (x y : Float8 × β) :
    swapn (before ++ x :: (mid ++ y :: after)) before.length
        ((before.length : Int) + mid.length + 1) =
      .ok (before ++ y :: (mid ++ x :: after)) ∧
    swapn (before ++ x :: (mid ++ y :: after)) ((before.length : Int) + mid.length + 1)
        before.length = .ok (before ++ y :: (mid ++ x :: after)) := by
  have hsplit : before ++ x :: (mid ++ y :: after) = (before ++ x :: mid) ++ y :: after := by simp
  have hindex : (before.length : Int) + mid.length + 1 = ((before ++ x :: mid).length : Nat) := by
    rw [List.length_append, List.length_cons]
    push_cast
    omega
  have hlow := entryAt_append before x (mid ++ y :: after)
  have hhigh : entryAt (before ++ x :: (mid ++ y :: after))
      ((before.length : Int) + mid.length + 1) = .ok y := by
    rw [hsplit, hindex]
    exact entryAt_append _ y after
  have htoNat : ((before.length : Int) + mid.length + 1).toNat =
      before.length + (mid.length + 1) := by omega
  have hset : ∀ z : Float8 × β, (before ++ z :: (mid ++ y :: after)).set
      (before.length + (mid.length + 1)) x = before ++ z :: (mid ++ x :: after) := by
    intro z
    simp
  unfold swapn
  constructor
  · rw [hlow, ok_bind, hhigh, ok_bind, htoNat, Int.toNat_natCast]
    simp
  · rw [hlow, hhigh, ok_bind, ok_bind, htoNat, Int.toNat_natCast, hset x]
    simp

/-! ## One pivot -/

/-- What is not greater than the pivot, what is greater, and what the loop has not looked at. -/
structure Split (pivot : Float8 × β) (low high : List (Float8 × β)) : Prop where
  low_le : ∀ x ∈ low, entryKey x ≤ entryKey pivot
  high_gt : ∀ x ∈ high, entryKey pivot < entryKey x

/-- A round moves the first entry it has not looked at to its side. -/
theorem pivotRound_spec {pivot x : Float8 × β} {low high : List (Float8 × β)}
    (before rest : List (Float8 × β)) (hpivot : isNaN pivot.1 = false) (hx : isNaN x.1 = false) (hsplit : Split pivot low high) :
    ∃ low' high', pivotRound pivot.1 (before ++ low ++ high ++ x :: rest,
        (before ++ low).length) ((before ++ low ++ high).length : Nat) =
      .ok (before ++ low' ++ high' ++ rest, ((before ++ low').length : Nat)) ∧
      Split pivot low' high' ∧ (low' ++ high').Perm (x :: (low ++ high)) := by
  unfold pivotRound
  dsimp only
  rw [entryAt_append, ok_bind]
  by_cases hle : comparFloat8 x.1 pivot.1 ≤ 0
  · have hkey : entryKey x ≤ entryKey pivot := (comparFloat8_le_iff hx hpivot).mp hle
    have hlow : ∀ y ∈ low ++ [x], entryKey y ≤ entryKey pivot := by
      rw [List.forall_mem_append, List.forall_mem_singleton]
      exact ⟨hsplit.low_le, hkey⟩
    rw [if_pos hle]
    cases high with
    | nil =>
        refine ⟨low ++ [x], [], ?_, ⟨hlow, by simp⟩, ?_⟩
        · rw [List.append_nil, swapn_self, ok_bind]
          simp
          rfl
        · rw [List.append_nil, List.append_nil]
          exact List.perm_append_singleton x low
    | cons y high =>
        refine ⟨low ++ [x], high ++ [y], ?_, ⟨hlow, ?_⟩, ?_⟩
        · have hswap := (swapn_apart (before ++ low) high rest y x).2
          have hindex : ((before ++ low ++ y :: high).length : Int) =
              ((before ++ low).length : Int) + high.length + 1 := by
            rw [List.length_append, List.length_cons]
            push_cast
            omega
          have hlists : before ++ low ++ y :: high ++ x :: rest =
              before ++ low ++ y :: (high ++ x :: rest) := by simp
          rw [hindex, hlists, hswap, ok_bind]
          simp
          rfl
        · intro z hz
          exact hsplit.high_gt z (by simpa [or_comm] using hz)
        · have hmove : (high ++ [y]).Perm (y :: high) := List.perm_append_singleton y high
          rw [List.append_assoc, List.singleton_append]
          exact ((hmove.cons x).append_left low).trans List.perm_middle
  · have hkey : entryKey pivot < entryKey x := by
      have hnot := mt (comparFloat8_le_iff hx hpivot).mpr hle
      exact Int.not_le.mp hnot
    refine ⟨low, high ++ [x], ?_, ⟨hsplit.low_le, ?_⟩, ?_⟩
    · rw [if_neg hle]
      simp [pure_eq_ok]
    · rw [List.forall_mem_append, List.forall_mem_singleton]
      exact ⟨hsplit.high_gt, hkey⟩
    · rw [← List.append_assoc]
      exact List.perm_append_singleton x (low ++ high)

theorem pivotRounds_spec {pivot : Float8 × β} {low high rest : List (Float8 × β)}
    (before after : List (Float8 × β)) (hpivot : isNaN pivot.1 = false) (hrest : Ordinary rest)
    (hsplit : Split pivot low high) :
    ∃ low' high', ((List.range rest.length).map fun i : Nat =>
        ((before ++ low ++ high).length : Int) + i).foldlM (pivotRound pivot.1)
        (before ++ low ++ high ++ (rest ++ after), ((before ++ low).length : Int)) =
      .ok (before ++ low' ++ high' ++ after, ((before ++ low').length : Int)) ∧
      Split pivot low' high' ∧ (low' ++ high').Perm (rest ++ (low ++ high)) := by
  induction rest generalizing low high with
  | nil => exact ⟨low, high, rfl, hsplit, List.Perm.refl _⟩
  | cons x rest ih =>
      have hx := hrest x List.mem_cons_self
      have ⟨low', high', hround, hsplit', hperm⟩ :=
        pivotRound_spec before (rest ++ after) hpivot hx hsplit
      have ⟨low'', high'', hrounds, hsplit'', hperm'⟩ :=
        ih (fun y hy => hrest y (List.mem_cons_of_mem x hy)) hsplit'
      have hlen : (before ++ low' ++ high').length = (before ++ low ++ high).length + 1 := by
        have hcount := hperm.length_eq
        simp only [List.length_append, List.length_cons] at hcount ⊢
        omega
      refine ⟨low'', high'', ?_, hsplit'', hperm'.trans ?_⟩
      · rw [List.length_cons, List.range_succ_eq_map, List.map_cons, List.map_map, List.foldlM_cons,
          Nat.cast_zero, Int.add_zero, List.cons_append, hround, ok_bind, ← hrounds, hlen]
        congr 2
        funext i
        simp only [Function.comp_apply]
        push_cast
        omega
      · exact (hperm.append_left rest).trans List.perm_middle

/-- The pivot is moved behind the entries it is compared with. -/
theorem swapn_toEnd {mid : List (Float8 × β)} {pivot : Float8 × β} {i : Nat}
    (before after : List (Float8 × β)) (hget : mid[i]? = some pivot) :
    ∃ rest, swapn (before ++ mid ++ after) ((before.length : Int) + i)
        ((before.length : Int) + (mid.length - 1 : Nat)) =
      .ok (before ++ rest ++ pivot :: after) ∧ (rest ++ [pivot]).Perm mid := by
  have ⟨hi, hpivot⟩ := List.getElem?_eq_some_iff.mp hget
  have hmid : mid = mid.take i ++ pivot :: mid.drop (i + 1) := by
    rw [← hpivot, List.getElem_cons_drop, List.take_append_drop]
  have hfront : (mid.take i).length = i := List.length_take_of_le hi.le
  generalize mid.take i = front at hmid hfront
  generalize mid.drop (i + 1) = back at hmid
  subst hmid
  have hindex : (before.length : Int) + i = ((before ++ front).length : Nat) := by
    rw [List.length_append, hfront]
    push_cast
    rfl
  cases back using List.reverseRecOn with
  | nil =>
      have hlast : (before.length : Int) + ((front ++ [pivot]).length - 1 : Nat) =
          ((before ++ front).length : Nat) := by
        simp
      have hself := swapn_self (before ++ front) pivot after
      refine ⟨front, ?_, List.Perm.refl _⟩
      rw [hindex, hlast, List.append_assoc before, List.append_assoc front, List.singleton_append,
        ← List.append_assoc before, hself]
  | append_singleton back last =>
      have hlast : (before.length : Int) + ((front ++ pivot :: (back ++ [last])).length - 1 : Nat) =
          ((before ++ front).length : Int) + back.length + 1 := by
        simp
        omega
      have hswap := (swapn_apart (before ++ front) back after pivot last).1
      refine ⟨front ++ last :: back, ?_, ?_⟩
      · rw [hindex, hlast]
        have hlists : before ++ (front ++ pivot :: (back ++ [last])) ++ after =
            before ++ front ++ pivot :: (back ++ last :: after) := by simp
        rw [hlists, hswap]
        simp
      · have hmove : (last :: back ++ [pivot]).Perm (pivot :: (back ++ [last])) :=
          (List.perm_append_singleton pivot (last :: back)).trans
            ((List.perm_append_singleton last back).symm.cons pivot)
        rw [List.append_assoc]
        exact hmove.append_left front

/-- Behind the loop the pivot takes its final place. -/
theorem swapn_toPlace (before high after : List (Float8 × β)) (pivot : Float8 × β) :
    ∃ high', swapn (before ++ high ++ pivot :: after) before.length
        ((before.length : Int) + high.length) = .ok (before ++ pivot :: high' ++ after) ∧
      high'.Perm high := by
  cases high with
  | nil =>
      refine ⟨[], ?_, List.Perm.refl _⟩
      rw [List.append_nil, List.length_nil, Nat.cast_zero, Int.add_zero, swapn_self]
      simp
  | cons y high =>
      have hswap := (swapn_apart before high after y pivot).1
      refine ⟨high ++ [y], ?_, List.perm_append_singleton y high⟩
      have hlists : before ++ y :: high ++ pivot :: after =
          before ++ y :: (high ++ pivot :: after) := by simp
      rw [List.length_cons, Nat.cast_add, Nat.cast_one, ← Int.add_assoc, hlists, hswap]
      simp

/-- The part between the borders is split around the pivot, whatever entry that is. -/
theorem partitionPivot_spec (before : List (Float8 × β)) {mid : List (Float8 × β)}
    (after : List (Float8 × β)) (hmid : Ordinary mid) {i : Nat} (hi : i < mid.length) :
    ∃ pivot low high, partitionPivot (before ++ mid ++ after) before.length
        ((before.length : Int) + (mid.length - 1 : Nat)) ((before.length : Int) + i) =
      .ok (before ++ (low ++ pivot :: high) ++ after, ((before ++ low).length : Int)) ∧
      Split pivot low high ∧ (low ++ pivot :: high).Perm mid := by
  have hget : mid[i]? = some mid[i] := List.getElem?_eq_getElem hi
  have hpivot := hmid mid[i] (List.getElem_mem hi)
  generalize mid[i] = pivot at hget hpivot
  have ⟨rest, hend, hperm⟩ := swapn_toEnd before after hget
  have hrest : Ordinary rest := fun x hx =>
    hmid x (hperm.mem_iff.mp (List.mem_append_left _ hx))
  have hlen : mid.length - 1 = rest.length := by
    rw [← hperm.length_eq, List.length_append, List.length_singleton, Nat.add_sub_cancel]
  have hnone : Split pivot [] [] := ⟨by simp, by simp⟩
  have ⟨low, high, hrounds, hsplit, hperm'⟩ :=
    pivotRounds_spec before (pivot :: after) hpivot hrest hnone
  simp only [List.append_nil] at hrounds hperm'
  have ⟨high', hplace, hhigh⟩ := swapn_toPlace (before ++ low) high after pivot
  have hentry : entryAt (before ++ mid ++ after) ((before.length : Int) + i) = .ok pivot := by
    have hindex : (before.length : Int) + i = ((before.length + i : Nat) : Int) := by
      push_cast
      rfl
    unfold entryAt
    rw [hindex, if_neg (by omega), Int.toNat_natCast, List.append_assoc,
      List.getElem?_append_right (by omega), Nat.add_sub_cancel_left,
      List.getElem?_append_left hi, hget]
  have hright : (before.length : Int) + (mid.length - 1 : Nat) =
      ((before ++ low).length : Int) + high.length := by
    have hcount := hperm'.length_eq
    rw [List.length_append] at hcount
    rw [hlen, List.length_append, ← hcount]
    push_cast
    omega
  have hspan : ((before.length : Int) + (mid.length - 1 : Nat) - before.length).toNat =
      rest.length := by omega
  refine ⟨pivot, low, high', ?_, ⟨hsplit.low_le, ?_⟩, ?_⟩
  · unfold partitionPivot
    rw [hentry, ok_bind, hend, ok_bind]
    dsimp only
    rw [hspan, List.append_assoc before rest, ← List.append_assoc before rest] at *
    rw [hrounds, ok_bind]
    dsimp only
    rw [hright, hplace, ok_bind]
    simp [pure_eq_ok]
  · exact fun x hx => hsplit.high_gt x (hhigh.mem_iff.mp hx)
  · have hsame : (low ++ pivot :: high').Perm (pivot :: (low ++ high)) :=
      List.perm_middle.trans ((hhigh.append_left low).cons pivot)
    exact (hsame.trans (hperm'.cons pivot)).trans
      ((List.perm_append_singleton pivot rest).symm.trans hperm)

/-! ## The loop -/

/-- Every draw is between its bounds. -/
def DrawsInside (randomInt : Nat → Int → Int → Int) : Prop :=
  ∀ n x y, x ≤ y → x ≤ randomInt n x y ∧ randomInt n x y ≤ y

variable (weight : Float8 × β → Nat)

/-- The number of elements the entries stand for. -/
def weightOf (lists : List (Float8 × β)) : Nat := (lists.map weight).sum

theorem weightOf_append (xs ys : List (Float8 × β)) :
    weightOf weight (xs ++ ys) = weightOf weight xs + weightOf weight ys := by
  unfold weightOf
  rw [List.map_append, List.sum_append]

theorem weightOf_cons (x : Float8 × β) (xs : List (Float8 × β)) :
    weightOf weight (x :: xs) = weight x + weightOf weight xs := by
  unfold weightOf
  rw [List.map_cons, List.sum_cons]

/-- The real index of a position is the number of elements in front of it. -/
def CountsElements (realIndexCalc : Int → List (Float8 × β) → Except Fault Int)
    (lists : List (Float8 × β)) : Prop :=
  ∀ front back, (front ++ back).Perm lists →
    realIndexCalc (front.length : Int) (front ++ back) = .ok (weightOf weight front : Int)

/-- The element of rank `k` is one of those of `x`, which the entries in front of it do not
exceed and the entries behind it do not fall below. -/
structure IsSelected (lists : List (Float8 × β)) (k : Nat) (before : List (Float8 × β))
    (x : Float8 × β) (after : List (Float8 × β)) : Prop where
  perm : (before ++ x :: after).Perm lists
  below : ∀ y ∈ before, entryKey y ≤ entryKey x
  above : ∀ y ∈ after, entryKey x ≤ entryKey y
  lo : weightOf weight before ≤ k
  hi : k < weightOf weight before + weight x

def Selected (lists : List (Float8 × β)) (k : Nat) (out : List (Float8 × β) × Int) : Prop :=
  ∃ before x after, out = (before ++ x :: after, (before.length : Int)) ∧
    IsSelected weight lists k before x after

/-- The element of rank `k` is in the part between the borders, which the entries in front of it
do not exceed and the entries behind it do not fall below. -/
structure IsBetween (lists : List (Float8 × β)) (k : Nat) (before mid after : List (Float8 × β)) :
    Prop where
  perm : (before ++ mid ++ after).Perm lists
  below : ∀ x ∈ before, ∀ y ∈ mid, entryKey x ≤ entryKey y
  above : ∀ x ∈ mid, ∀ y ∈ after, entryKey x ≤ entryKey y
  lo : weightOf weight before ≤ k
  hi : k < weightOf weight before + weightOf weight mid

def Between (lists : List (Float8 × β)) (k : Nat) (st : SelectState β) : Prop :=
  ∃ before mid after, st.lists = before ++ mid ++ after ∧ st.left = before.length ∧
    st.right = (before.length : Int) + mid.length - 1 ∧ IsBetween weight lists k before mid after

variable {weight} {lists before mid after : List (Float8 × β)} {k : Nat}

theorem IsBetween.ne_nil (h : IsBetween weight lists k before mid after) : mid ≠ [] := by
  rintro rfl
  have hlo := h.lo
  have hhi := h.hi
  rw [show weightOf weight ([] : List (Float8 × β)) = 0 from rfl] at hhi
  omega

section Pivoted

variable {pivot : Float8 × β} {low high : List (Float8 × β)}

theorem IsBetween.pivoted (h : IsBetween weight lists k before mid after)
    (hperm : (low ++ pivot :: high).Perm mid) :
    IsBetween weight lists k before (low ++ pivot :: high) after := by
  have hweight : weightOf weight (low ++ pivot :: high) = weightOf weight mid :=
    (hperm.map weight).sum_eq
  constructor
  · exact ((hperm.append_left before).append_right after).trans h.perm
  · exact fun x hx y hy => h.below x hx y (hperm.mem_iff.mp hy)
  · exact fun x hx y hy => h.above x (hperm.mem_iff.mp hx) y hy
  · exact h.lo
  · rw [hweight]
    exact h.hi

/-- The pivot itself. -/
theorem IsBetween.select (h : IsBetween weight lists k before (low ++ pivot :: high) after)
    (hsplit : Split pivot low high) (hlo : weightOf weight (before ++ low) ≤ k)
    (hhi : k < weightOf weight (before ++ low) + weight pivot) :
    IsSelected weight lists k (before ++ low) pivot (high ++ after) := by
  constructor
  · simpa using h.perm
  · rw [List.forall_mem_append]
    exact ⟨fun x hx => h.below x hx pivot (by simp), hsplit.low_le⟩
  · rw [List.forall_mem_append]
    exact ⟨fun y hy => (hsplit.high_gt y hy).le, fun y hy => h.above pivot (by simp) y hy⟩
  · exact hlo
  · exact hhi

/-- What is not greater than the pivot. -/
theorem IsBetween.goLeft (h : IsBetween weight lists k before (low ++ pivot :: high) after)
    (hsplit : Split pivot low high) (hlt : k < weightOf weight (before ++ low)) :
    IsBetween weight lists k before low (pivot :: (high ++ after)) := by
  constructor
  · simpa using h.perm
  · exact fun x hx y hy => h.below x hx y (List.mem_append_left _ hy)
  · intro x hx y hy
    have hle := hsplit.low_le x hx
    rcases List.mem_cons.mp hy with rfl | hy
    · exact hle
    · rcases List.mem_append.mp hy with hy | hy
      · exact hle.trans (hsplit.high_gt y hy).le
      · exact h.above x (List.mem_append_left _ hx) y hy
  · exact h.lo
  · rwa [weightOf_append] at hlt

/-- What is greater. -/
theorem IsBetween.goRight (h : IsBetween weight lists k before (low ++ pivot :: high) after)
    (hsplit : Split pivot low high) (hle : weightOf weight (before ++ low) + weight pivot ≤ k) :
    IsBetween weight lists k (before ++ low ++ [pivot]) high after := by
  have hhi := h.hi
  rw [weightOf_append, weightOf_cons] at hhi
  rw [weightOf_append] at hle
  constructor
  · simpa using h.perm
  · intro x hx y hy
    have hgt := hsplit.high_gt y hy
    rcases List.mem_append.mp hx with hx | hx
    · rcases List.mem_append.mp hx with hx | hx
      · exact h.below x hx y (by simp [hy])
      · exact (hsplit.low_le x hx).trans hgt.le
    · rw [List.mem_singleton.mp hx]
      exact hgt.le
  · exact fun x hx y hy => h.above x (by simp [hx]) y hy
  · rw [weightOf_append, weightOf_append, weightOf_cons]
    exact hle
  · rw [weightOf_append, weightOf_append, weightOf_cons, show weightOf weight [] = 0 from rfl]
    omega

/-- A single entry. -/
theorem IsBetween.single {x : Float8 × β} (h : IsBetween weight lists k before [x] after) :
    IsSelected weight lists k before x after := by
  have hhi := h.hi
  rw [weightOf_cons, show weightOf weight ([] : List (Float8 × β)) = 0 from rfl, Nat.add_zero] at hhi
  constructor
  · simpa using h.perm
  · exact fun y hy => h.below y hy x List.mem_cons_self
  · exact fun y hy => h.above x List.mem_cons_self y hy
  · exact h.lo
  · exact hhi

/-- Next to the border the last entry is selected: the pivot, or the one behind it. -/
theorem IsBetween.atBorder (h : IsBetween weight lists k before (low ++ pivot :: high) after)
    (hsplit : Split pivot low high) (hle : weightOf weight (before ++ low) ≤ k)
    (hbehind : high ++ after ≠ [] → weightOf weight (before ++ low) + weight pivot ≤ k)
    (hborder : (high ++ after).length ≤ 1) :
    Selected weight lists k
      (before ++ low ++ pivot :: (high ++ after), (lists.length : Int) - 1) := by
  have hcount := h.perm.length_eq
  simp only [List.length_append, List.length_cons] at hcount
  by_cases hlast : high ++ after = []
  · have ⟨hhigh, hafter⟩ := List.append_eq_nil_iff.mp hlast
    subst hhigh hafter
    have hhi := h.hi
    rw [← weightOf_append, ← List.append_assoc, weightOf_append, weightOf_cons] at hhi
    refine ⟨before ++ low, pivot, [], ?_, h.select hsplit hle hhi⟩
    rw [← hcount, List.length_append]
    simp
    omega
  · have hright := h.goRight hsplit (hbehind hlast)
    have hpos := List.length_pos_of_ne_nil hright.ne_nil
    rw [List.length_append] at hborder
    have ⟨x, hx⟩ := List.length_eq_one_iff.mp (show high.length = 1 by omega)
    have hafter : after = [] := List.length_eq_zero_iff.mp (by omega)
    subst hx hafter
    refine ⟨before ++ low ++ [pivot], x, [], ?_, hright.single⟩
    rw [← hcount]
    simp
    omega

/-- What a round makes of the pivot's place and the elements in front of it and of the next
entry. -/
theorem narrow_spec {st : SelectState β} (drawn : Nat)
    (h : IsBetween weight lists k before (low ++ pivot :: high) after)
    (hsplit : Split pivot low high) (hleft : st.left = before.length)
    (hright : st.right = (before.length : Int) + (low ++ pivot :: high).length - 1) {next : Nat}
    (hnext : next = if high ++ after = [] then weightOf weight (before ++ low)
      else weightOf weight (before ++ low) + weight pivot) :
    let pivoted := before ++ (low ++ pivot :: high) ++ after
    (∃ st', narrow { st with lists := pivoted, drawn } ((lists.length : Int) - 1)
        ((before ++ low).length : Nat) (weightOf weight (before ++ low) : Nat) next k = .next st' ∧
      Between weight lists k st' ∧ st'.right - st'.left < st.right - st.left) ∨
    ∃ out, narrow { st with lists := pivoted, drawn } ((lists.length : Int) - 1)
        ((before ++ low).length : Nat) (weightOf weight (before ++ low) : Nat) next k = .done out ∧
      Selected weight lists k out := by
  intro pivoted
  have hlists : pivoted = before ++ low ++ pivot :: (high ++ after) := by simp [pivoted]
  have hcount : lists.length = before.length + low.length + 1 + high.length + after.length := by
    rw [← h.perm.length_eq]
    simp
    omega
  have hhi := h.hi
  rw [weightOf_append, weightOf_cons] at hhi
  have hsum := weightOf_append weight before low
  rw [List.length_append, List.length_cons] at hright
  unfold narrow
  by_cases hfound : ((weightOf weight (before ++ low) : Nat) : Int) ≤ k ∧ (k : Int) < (next : Nat)
  · rw [if_pos hfound]
    refine .inr ⟨_, rfl, before ++ low, pivot, high ++ after, ?_, ?_⟩
    · rw [← hlists]
    · refine h.select hsplit (by omega) ?_
      split_ifs at hnext
      · omega
      · omega
  · rw [if_neg hfound]
    by_cases hless : (k : Int) < (weightOf weight (before ++ low) : Nat)
    · rw [if_pos hless]
      have hbetween := h.goLeft hsplit (by omega)
      refine .inl ⟨_, rfl, ⟨before, low, pivot :: (high ++ after), hlists, hleft, ?_, hbetween⟩, ?_⟩
      · dsimp only
        rw [List.length_append]
        push_cast
        omega
      · dsimp only
        rw [List.length_append]
        push_cast
        omega
    · rw [if_neg hless]
      by_cases hborder : ((before ++ low).length : Int) + 1 ≥ (lists.length : Int) - 1
      · rw [if_pos hborder]
        rw [List.length_append] at hborder
        have hone : (high ++ after).length ≤ 1 := by
          rw [List.length_append]
          omega
        rw [hlists]
        refine .inr ⟨_, rfl, h.atBorder hsplit (by omega) ?_ hone⟩
        intro hlast
        rw [hnext, if_neg hlast] at hfound
        omega
      · rw [if_neg hborder]
        rw [List.length_append] at hborder
        have hnext' : next = weightOf weight (before ++ low) + weight pivot := by
          rw [hnext, if_neg]
          intro hlast
          rw [List.append_eq_nil_iff] at hlast
          rw [hlast.1, hlast.2] at hcount
          simp only [List.length_nil] at hcount
          push_cast at hborder
          omega
        have hbetween := h.goRight hsplit (by omega)
        refine .inl ⟨_, rfl, ⟨before ++ low ++ [pivot], high, after, ?_, ?_, ?_, hbetween⟩, ?_⟩
        · rw [hlists]
          simp
        · simp only [List.length_append, List.length_singleton]
          push_cast
          omega
        · simp only [List.length_append, List.length_singleton]
          push_cast at hright ⊢
          omega
        · dsimp only
          rw [hright, hleft, List.length_append]
          push_cast
          omega

end Pivoted

/-- One round selects the element or brings the borders closer, whatever is drawn. -/
theorem selectRound_spec {randomInt : Nat → Int → Int → Int} (hdraws : DrawsInside randomInt)
    {realIndexCalc : Int → List (Float8 × β) → Except Fault Int} (hordinary : Ordinary lists)
    (hcalc : CountsElements weight realIndexCalc lists) {st : SelectState β}
    (h : Between weight lists k st) :
    (∃ st', selectRound randomInt realIndexCalc ((lists.length : Int) - 1) k st = .ok (.next st') ∧
      Between weight lists k st' ∧ st'.right - st'.left < st.right - st.left) ∨
    ∃ out, selectRound randomInt realIndexCalc ((lists.length : Int) - 1) k st = .ok (.done out) ∧
      Selected weight lists k out := by
  have ⟨before, mid, after, hlists, hleft, hright, hbetween⟩ := h
  have hpos := List.length_pos_of_ne_nil hbetween.ne_nil
  have hmid : Ordinary mid := fun x hx => hordinary x (hbetween.perm.mem_iff.mp (by simp [hx]))
  have ⟨hlo, hhi⟩ := hdraws st.drawn st.left st.right (by omega)
  have hi : (randomInt st.drawn st.left st.right - before.length).toNat < mid.length := by omega
  have ⟨pivot, low, high, hpivot, hsplit, hperm⟩ :=
    partitionPivot_spec before after hmid hi
  have hindex : (before.length : Int) +
      (randomInt st.drawn st.left st.right - before.length).toNat =
        randomInt st.drawn st.left st.right := by omega
  have hborder : (before.length : Int) + (mid.length - 1 : Nat) = st.right := by omega
  rw [hindex, hborder, ← hlists, ← hleft] at hpivot
  have hnow := hbetween.pivoted hperm
  have hlen : (low ++ pivot :: high).length = mid.length := hperm.length_eq
  have hpivoted : before ++ (low ++ pivot :: high) ++ after =
      before ++ low ++ pivot :: (high ++ after) := by simp
  have hreal : realIndexCalc ((before ++ low).length : Int)
      (before ++ (low ++ pivot :: high) ++ after) =
        .ok (weightOf weight (before ++ low) : Int) := by
    rw [hpivoted]
    exact hcalc (before ++ low) (pivot :: (high ++ after)) (hpivoted ▸ hnow.perm)
  have hcount : lists.length = (before ++ low).length + 1 + (high ++ after).length := by
    have hsame := hnow.perm.length_eq
    rw [hpivoted] at hsame
    simp only [List.length_append, List.length_cons] at hsame ⊢
    omega
  have hnextReal : ∃ next : Nat, realIndexCalc
      (min ((lists.length : Int) - 1) (((before ++ low).length : Int) + 1))
      (before ++ (low ++ pivot :: high) ++ after) = .ok (next : Int) ∧
      next = if high ++ after = [] then weightOf weight (before ++ low)
        else weightOf weight (before ++ low) + weight pivot := by
    by_cases hlast : high ++ after = []
    · rw [hlast, List.length_nil] at hcount
      have hmin : min ((lists.length : Int) - 1) (((before ++ low).length : Int) + 1) =
          ((before ++ low).length : Int) := by omega
      rw [hmin, if_pos hlast]
      exact ⟨_, hreal, rfl⟩
    · have hpos' := List.length_pos_of_ne_nil hlast
      have hmin : min ((lists.length : Int) - 1) (((before ++ low).length : Int) + 1) =
          ((before ++ low ++ [pivot]).length : Int) := by
        simp only [List.length_append, List.length_singleton] at hcount hpos' ⊢
        push_cast
        omega
      have hsnoc : before ++ (low ++ pivot :: high) ++ after =
          before ++ low ++ [pivot] ++ (high ++ after) := by simp
      rw [hmin, if_neg hlast, hsnoc]
      refine ⟨_, hcalc _ _ (hsnoc ▸ hnow.perm), ?_⟩
      rw [weightOf_append, weightOf_cons]
      rfl
  have ⟨next, hnextReal, hnext⟩ := hnextReal
  unfold selectRound
  dsimp only
  rw [hpivot, ok_bind]
  dsimp only
  rw [hreal, ok_bind, hnextReal, ok_bind, pure_eq_ok]
  have hstep := narrow_spec (st.drawn + 1) hnow hsplit hleft (by rw [hlen, hright]) hnext
  rcases hstep with ⟨st', hst', hbetween', hcloser⟩ | ⟨out, hout, hselected⟩
  · exact .inl ⟨st', congrArg Except.ok hst', hbetween', hcloser⟩
  · exact .inr ⟨out, congrArg Except.ok hout, hselected⟩

/-- Whatever pivots are drawn, the selection ends with the element of rank `k`. -/
theorem partitionSelect_spec {randomInt : Nat → Int → Int → Int} (hdraws : DrawsInside randomInt)
    {realIndexCalc : Int → List (Float8 × β) → Except Fault Int} (hordinary : Ordinary lists)
    (hcalc : CountsElements weight realIndexCalc lists) (hk : k < weightOf weight lists) :
    ∃ out, Selected weight lists k out ∧ ∀ fuel, lists.length < fuel →
      partitionSelect fuel randomInt realIndexCalc lists 0 ((lists.length : Int) - 1) k =
        some (.ok out) := by
  have hbetween : IsBetween weight lists k [] lists [] := by
    constructor
    · simp
    · simp
    · simp
    · exact Nat.zero_le k
    · rw [show weightOf weight ([] : List (Float8 × β)) = 0 from rfl, Nat.zero_add]
      exact hk
  have hpos := List.length_pos_of_ne_nil hbetween.ne_nil
  have hstart : Between weight lists k
      { lists, left := 0, right := (lists.length : Int) - 1, drawn := 0 } :=
    ⟨[], lists, [], by simp, rfl, by simp, hbetween⟩
  let measure (st : SelectState β) : Nat := (st.right - st.left + 1).toNat
  have hround : ∀ st, Between weight lists k st →
      (∃ st', selectRound randomInt realIndexCalc ((lists.length : Int) - 1) k st =
        .ok (.next st') ∧ Between weight lists k st' ∧ measure st' < measure st) ∨
      ∃ out, selectRound randomInt realIndexCalc ((lists.length : Int) - 1) k st =
        .ok (.done out) ∧ Selected weight lists k out := by
    intro st hst
    rcases selectRound_spec hdraws hordinary hcalc hst with ⟨st', hstep, hst', hcloser⟩ | hdone
    · have ⟨before, mid, after, _, hleft, hright, hmid⟩ := hst
      have hmidpos := List.length_pos_of_ne_nil hmid.ne_nil
      refine .inl ⟨st', hstep, hst', ?_⟩
      dsimp only [measure]
      omega
    · exact .inr hdone
  have ⟨out, hselected, hrun⟩ := Loop.run_of_invariant _ _ _ hround hstart
  refine ⟨out, hselected, fun fuel hfuel => hrun fuel ?_⟩
  dsimp only [measure]
  omega

/-! ## Ranks -/

/-- The elements the entries stand for. -/
def elementsOf (weight : Float8 × β → Nat) (lists : List (Float8 × β)) : List Float8 :=
  lists.flatMap fun entry => List.replicate (weight entry) entry.1

theorem length_elementsOf (weight : Float8 × β → Nat) (lists : List (Float8 × β)) :
    (elementsOf weight lists).length = weightOf weight lists := by
  rw [elementsOf, List.length_flatMap, weightOf]
  simp

/-- What is selected has the rank that was looked for. -/
theorem IsSelected.hasRank {x : Float8 × β} (h : IsSelected weight lists k before x after) :
    OrderStatistic.HasRank float8Key (elementsOf weight lists) k x.1 := by
  have hrank : OrderStatistic.HasRank float8Key (elementsOf weight before ++
      List.replicate (weight x) x.1 ++ elementsOf weight after) k x.1 := by
    apply OrderStatistic.hasRank_between
    · intro v hv
      have ⟨entry, hentry, hmem⟩ := List.mem_flatMap.mp hv
      rw [List.eq_of_mem_replicate hmem]
      exact h.below entry hentry
    · intro v hv
      have ⟨entry, hentry, hmem⟩ := List.mem_flatMap.mp hv
      rw [List.eq_of_mem_replicate hmem]
      exact h.above entry hentry
    · rw [length_elementsOf]
      exact h.lo
    · rw [length_elementsOf]
      exact h.hi
  have hwhole : elementsOf weight (before ++ x :: after) = elementsOf weight before ++
      List.replicate (weight x) x.1 ++ elementsOf weight after := by
    simp [elementsOf]
  rw [← hwhole] at hrank
  exact hrank.perm (h.perm.flatMap_right _)

end Partition

end Madlib.Svec
