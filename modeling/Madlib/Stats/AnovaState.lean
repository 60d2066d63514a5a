import Madlib.Stats.OneWayAnova

/-!
# The states of the analysis of variance

A state is determined by the groups, in the order in which they arrived, and the values that each
group has been given.  Both ways to make room for a new group lead to the same kind of state.
-/

namespace Madlib.Stats

open Madlib.Backend Madlib.Dbal Madlib.Lib.Arrivals Madlib.Lib.MachineInt Madlib.Lib.Moments
  Madlib.Lib.Segments

/-! ## The reserved space -/

/-- Spreading the bits gives all bits up to the highest one. -/
theorem nextPowerOfTwo_eq (n : Nat) :
    nextPowerOfTwo n = 2 ^ ((n + 65535) % 65536).size % 65536 := by
  have hv : (n + 65535) % 65536 < 2 ^ 16 := Nat.mod_lt _ (by decide)
  unfold nextPowerOfTwo
  generalize (n + 65535) % 65536 = v at hv
  have h1 : ∀ i, v.testBit i = true ↔ ∃ d, d < 1 ∧ v.testBit (i + d) = true := by
    intro i
    simp
  have hspread := testBit_spread (testBit_spread (testBit_spread (testBit_spread h1)))
  dsimp only
  refine congrArg (· % 65536) ?_
  have hpos : 0 < 2 ^ v.size := Nat.two_pow_pos _
  have hones : v ||| v >>> 1 ||| (v ||| v >>> 1) >>> 2 |||
      (v ||| v >>> 1 ||| (v ||| v >>> 1) >>> 2) >>> 4 |||
      (v ||| v >>> 1 ||| (v ||| v >>> 1) >>> 2 |||
        (v ||| v >>> 1 ||| (v ||| v >>> 1) >>> 2) >>> 4) >>> 8 = 2 ^ v.size - 1 := by
    apply Nat.eq_of_testBit_eq
    intro i
    rw [Nat.testBit_two_pow_sub_one, Bool.eq_iff_iff, decide_eq_true_iff, hspread,
      exists_testBit_iff hv]
  rw [hones]
  omega

theorem nextPowerOfTwo_zero : nextPowerOfTwo 0 = 0 := by decide

theorem nextPowerOfTwo_add_one {n : Nat} (h : n < 32768) :
    nextPowerOfTwo (n + 1) = 2 ^ n.size := by
  have hsize : n.size ≤ 15 := Nat.size_le.mpr h
  have hpow : 2 ^ n.size ≤ 32768 := Nat.pow_le_pow_right (n := 2) (by decide) hsize
  rw [nextPowerOfTwo_eq, show (n + 1 + 65535) % 65536 = n by omega]
  exact Nat.mod_eq_of_lt (hpow.trans_lt (by decide))

theorem le_nextPowerOfTwo {n : Nat} (h : n ≤ 32768) : n ≤ nextPowerOfTwo n := by
  cases n with
  | zero => exact Nat.zero_le _
  | succ n =>
      rw [nextPowerOfTwo_add_one h]
      exact Nat.lt_size_self n

/-- The space for one more group: there is some left, or it is doubled. -/
theorem nextPowerOfTwo_succ {n : Nat} (h : n < 32768) : nextPowerOfTwo (n + 1) =
    if n < nextPowerOfTwo n then nextPowerOfTwo n
    else if nextPowerOfTwo n = 0 then 1 else nextPowerOfTwo n * 2 % 65536 := by
  cases n with
  | zero => decide
  | succ n =>
      have hpos : 0 < 2 ^ n.size := Nat.two_pow_pos _
      have hlt : n < 2 ^ n.size := Nat.lt_size_self n
      rw [nextPowerOfTwo_add_one h, nextPowerOfTwo_add_one (by omega)]
      split
      case isTrue hroom =>
        have hsize : (n + 1).size = n.size :=
          le_antisymm (Nat.size_le.mpr hroom) (Nat.size_le_size (Nat.le_succ n))
        rw [hsize]
      case isFalse hfull =>
        have heq : n + 1 = 2 ^ n.size := by omega
        have hsize : (n + 1).size = n.size + 1 := by
          rw [heq, Nat.size_pow]
        rw [if_neg hpos.ne', hsize, pow_succ]
        omega

/-! ## Memory -/

section Memory

variable {α : Type}

theorem deref_ok {xs : List α} {i : Nat} {x : α} (h : xs[i]? = some x) : deref xs i = .ok x := by
  unfold deref
  rw [h]

theorem slice_ok {xs : List α} {first last : Nat} (h : last ≤ xs.length) :
    slice xs first last = .ok ((xs.drop first).take (last - first)) := by
  unfold slice
  rw [if_neg (Nat.not_lt.mpr h)]

theorem stdCopy_ok {elements dest : List α} {pos : Nat}
    (h : pos + elements.length ≤ dest.length) : stdCopy elements dest pos =
      .ok (dest.take pos ++ elements ++ dest.drop (pos + elements.length)) := by
  unfold stdCopy
  rw [if_neg (Nat.not_lt.mpr h)]

/-- The element before the copied ones is stored. -/
theorem stdCopy_store {β : Type} {elements dest : List α} {pos : Nat} {x : α}
    (k : List α → Except Fault β) (h : pos + 1 + elements.length ≤ dest.length) :
    (stdCopy elements dest (pos + 1) >>= fun xs => store xs pos x >>= k) =
      k (dest.take pos ++ x :: (elements ++ dest.drop (pos + 1 + elements.length))) := by
  have hpos : pos < dest.length := by omega
  have htake : dest.take (pos + 1) = dest.take pos ++ [dest[pos]] :=
    (List.take_append_getElem hpos).symm
  have hlen : (dest.take pos).length = pos := List.length_take_of_le hpos.le
  rw [stdCopy_ok h, ok_bind, htake]
  unfold store
  rw [if_pos (by simp; omega), List.append_assoc, List.append_assoc, List.singleton_append,
    List.set_append_right _ _ hlen.le, hlen, Nat.sub_self, List.set_cons_zero, ok_bind]

/-- The elements of `n` groups in the space reserved for them. -/
def padded [Zero α] (n : Nat) (xs : List α) : List α :=
  xs ++ List.replicate (nextPowerOfTwo n - n) 0

variable [Zero α] {n pos : Nat} {xs : List α}

theorem length_padded (hn : n ≤ 32768) (hxs : xs.length = n) :
    (padded n xs).length = nextPowerOfTwo n := by
  have hle := le_nextPowerOfTwo hn
  rw [padded, List.length_append, List.length_replicate, hxs]
  omega

theorem getElem?_padded {i : Nat} (h : i < xs.length) : (padded n xs)[i]? = xs[i]? :=
  List.getElem?_append_left h

theorem slice_padded (hn : n ≤ 32768) (hxs : xs.length = n) {first last : Nat} (hlast : last ≤ n) :
    slice (padded n xs) first last = .ok ((xs.drop first).take (last - first)) := by
  have hle := le_nextPowerOfTwo hn
  have hzero : last - first - (xs.length - first) = 0 := by omega
  rw [slice_ok (by rw [length_padded hn hxs]; omega)]
  refine congrArg Except.ok ?_
  rw [padded, List.drop_append, List.take_append, List.length_drop, hzero, List.take_zero,
    List.append_nil]

/-- Room for one more group where there is reserved space. -/
theorem insert_padded (hn : n < 32768) (hxs : xs.length = n) (hroom : n < nextPowerOfTwo n)
    (hpos : pos ≤ n) (x : α) {β : Type} (k : List α → Except Fault β) :
    (slice (padded n xs) pos n >>= fun elements =>
      stdCopy elements (padded n xs) (pos + 1) >>= fun ys => store ys pos x >>= k) =
      k (padded (n + 1) (insertAt xs pos x)) := by
  have hlen := length_padded hn.le hxs
  have hnext : nextPowerOfTwo (n + 1) = nextPowerOfTwo n := by
    rw [nextPowerOfTwo_succ hn, if_pos hroom]
  have helements : ((xs.drop pos).take (n - pos)) = xs.drop pos := by
    apply List.take_of_length_le
    rw [List.length_drop, hxs]
  have htail : pos + 1 + (xs.drop pos).length = n + 1 := by
    rw [List.length_drop, hxs]
    omega
  have hnil : xs.drop (n + 1) = [] := List.drop_eq_nil_of_le (by omega)
  rw [slice_padded hn.le hxs le_rfl, ok_bind, helements, stdCopy_store k (by omega), htail]
  refine congrArg k ?_
  rw [padded, padded, insertAt, hnext, List.take_append_of_le_length (by omega), List.drop_append,
    hnil, List.nil_append, List.drop_replicate, List.append_assoc,
    List.cons_append, hxs, show nextPowerOfTwo n - n - (n + 1 - n) = nextPowerOfTwo n - (n + 1) by omega]

/-- Room for one more group in a larger space. -/
theorem insert_zeros (hn : n < 32768) (hxs : xs.length = n) (hpos : pos ≤ n) (x : α) {β : Type}
    (k : List α → Except Fault β) :
    (slice (padded n xs) 0 pos >>= fun front =>
      stdCopy front (List.replicate (nextPowerOfTwo (n + 1)) 0) 0 >>= fun dest =>
        slice (padded n xs) pos n >>= fun elements =>
          stdCopy elements dest (pos + 1) >>= fun ys => store ys pos x >>= k) =
      k (padded (n + 1) (insertAt xs pos x)) := by
  have hle := le_nextPowerOfTwo (n := n + 1) hn
  have hfront : (xs.take pos).length = pos := List.length_take_of_le (by omega)
  have helements : ((xs.drop pos).take (n - pos)) = xs.drop pos := by
    apply List.take_of_length_le
    rw [List.length_drop, hxs]
  have htail : pos + 1 + (xs.drop pos).length = n + 1 := by
    rw [List.length_drop, hxs]
    omega
  have hnil : (xs.take pos).drop (n + 1) = [] := List.drop_eq_nil_of_le (by omega)
  rw [slice_padded hn.le hxs hpos, ok_bind, List.drop_zero, Nat.sub_zero,
    stdCopy_ok (by rw [List.length_replicate]; omega), ok_bind, slice_padded hn.le hxs le_rfl,
    ok_bind, helements, hfront, List.take_zero, List.nil_append, List.drop_replicate, Nat.zero_add,
    stdCopy_store k (by rw [htail, List.length_append, hfront, List.length_replicate]; omega),
    htail]
  refine congrArg k ?_
  rw [padded, insertAt, List.take_left' hfront, List.drop_append, hfront,
    hnil, List.nil_append, List.drop_replicate, List.append_assoc,
    List.cons_append, show nextPowerOfTwo (n + 1) - pos - (n + 1 - pos) =
      nextPowerOfTwo (n + 1) - (n + 1) by omega]

theorem assignSegment_zeros (hn : n < 32768) (hxs : xs.length = n) :
    assignSegment xs (List.replicate (nextPowerOfTwo (n + 1)) 0) n =
      .ok (padded (n + 1) (xs ++ [0])) := by
  have hle := le_nextPowerOfTwo (n := n + 1) hn
  unfold assignSegment
  rw [eigenAssert_true (by rw [List.length_replicate]; omega), ok_bind, eigenAssert_true hxs, ok_bind,
    stdCopy_ok (by rw [List.length_replicate]; omega), List.take_zero, List.nil_append,
    List.drop_replicate, Nat.zero_add, hxs, padded, List.append_assoc, ← List.replicate_one,
    ← List.replicate_add]
  rw [show 1 + (nextPowerOfTwo (n + 1) - (n + 1)) = nextPowerOfTwo (n + 1) - n by omega]

end Memory

/-! ## States -/

section Arrays

variable {α : Type}

/-- Fields that fill the array are found again. -/
theorem rebind_toArray {s : OWATransitionState α} {n : Nat} (hvalues : s.groupValues.length = n)
    (hindices : s.posToIndices.length = n) (hnum : s.num.length = n) (hsum : s.sum.length = n)
    (hcorrected : s.correctedSquareSum.length = n) (hrest : 0 < n + s.rest.length) :
    OWATransitionState.rebind s.toArray n = .ok s := by
  have hlen : s.toArray.length = 1 + 5 * n + s.rest.length := by
    simp only [OWATransitionState.toArray, List.length_cons, List.length_append]
    omega
  have hget : ∀ i, i < s.toArray.length → ∃ x, elementAt s.toArray i = .ok x := fun i hi =>
    ⟨_, elementAt_eq_ok (List.getElem?_eq_getElem hi)⟩
  obtain ⟨x₁, h₁⟩ := hget 1 (by omega)
  obtain ⟨x₂, h₂⟩ := hget (1 + n) (by omega)
  obtain ⟨x₃, h₃⟩ := hget (1 + 2 * n) (by omega)
  obtain ⟨x₄, h₄⟩ := hget (1 + 3 * n) (by omega)
  obtain ⟨x₅, h₅⟩ := hget (1 + 4 * n) (by omega)
  have h₀ : elementAt s.toArray 0 = .ok s.numGroups := rfl
  unfold OWATransitionState.rebind arraySize
  rw [if_neg (by omega), h₀, ok_bind, h₁, ok_bind, h₂, ok_bind, h₃, ok_bind, h₄, ok_bind, h₅,
    ok_bind]
  refine congrArg Except.ok ?_
  have hdrop : ∀ (xs ys : List α) (i j : Nat), s.toArray.drop i = xs ++ ys → xs.length = n →
      j = i + n → s.toArray.drop j = ys := by
    intro xs ys i j hi hxs hj
    rw [hj, ← List.drop_drop, hi]
    exact List.drop_left' hxs
  have d₁ : s.toArray.drop 1 = s.groupValues ++ (s.posToIndices ++
    (s.num ++ (s.sum ++ (s.correctedSquareSum ++ s.rest)))) := rfl
  have d₂ := hdrop _ _ 1 (1 + n) d₁ hvalues rfl
  have d₃ := hdrop _ _ (1 + n) (1 + 2 * n) d₂ hindices (by omega)
  have d₄ := hdrop _ _ (1 + 2 * n) (1 + 3 * n) d₃ hnum (by omega)
  have d₅ := hdrop _ _ (1 + 3 * n) (1 + 4 * n) d₄ hsum (by omega)
  have d₆ := hdrop _ _ (1 + 4 * n) (1 + 5 * n) d₅ hcorrected (by omega)
  rw [d₁, d₂, d₃, d₄, d₅, d₆, List.take_left' hvalues, List.take_left' hindices,
    List.take_left' hnum, List.take_left' hsum, List.take_left' hcorrected]

/-- A new state is all zeros. -/
theorem rebind_zeros [Zero α] {n : Nat} (hn : 0 < n) :
    OWATransitionState.rebind (List.replicate (arraySize n) (0 : α)) n =
      .ok ⟨0, List.replicate n 0, List.replicate n 0, List.replicate n 0, List.replicate n 0,
        List.replicate n 0, []⟩ := by
  have hlen : ∀ {xs : List α}, xs = List.replicate n 0 → xs.length = n := by
    rintro xs rfl
    exact List.length_replicate
  have harray : (OWATransitionState.mk (0 : α) (List.replicate n 0) (List.replicate n 0)
      (List.replicate n 0) (List.replicate n 0) (List.replicate n 0) []).toArray =
      List.replicate (arraySize n) 0 := by
    simp only [OWATransitionState.toArray, arraySize, List.append_nil, ← List.replicate_add]
    rw [← List.replicate_succ]
    congr 1
    omega
  rw [← harray]
  exact rebind_toArray (hlen rfl) (hlen rfl) (hlen rfl) (hlen rfl) (hlen rfl) (by omega)

end Arrays

section States

variable {α : Type} [Field α]

/-- The state when these groups have arrived, in this order, with these samples in their slots. -/
def stateWith (order : List Nat) (slots : Nat → Sample α) : OWATransitionState α where
  numGroups := order.length
  groupValues := padded order.length ((sorted order).map fun g : Nat => (g : α))
  posToIndices := padded order.length ((numbers order).map fun i : Nat => (i : α))
  num := padded order.length (order.map fun g => (slots g).weight)
  sum := padded order.length (order.map fun g => (slots g).sum)
  correctedSquareSum := padded order.length (order.map fun g => (slots g).corrected)
  rest := if order = [] then [0] else []

/-- The state when these groups have arrived, in this order, with these values. -/
def stateOf (order : List Nat) (values : Nat → Multiset α) : OWATransitionState α where
  numGroups := order.length
  groupValues := padded order.length ((sorted order).map fun g : Nat => (g : α))
  posToIndices := padded order.length ((numbers order).map fun i : Nat => (i : α))
  num := padded order.length (order.map fun g => (moments (values g)).weight)
  sum := padded order.length (order.map fun g => (moments (values g)).sum)
  correctedSquareSum := padded order.length (order.map fun g => (moments (values g)).corrected)
  rest := if order = [] then [0] else []

variable {order : List Nat} {values : Nat → Multiset α} {slots : Nat → Sample α}

theorem stateWith_nil (slots : Nat → Sample α) : (stateWith [] slots).toArray = [0, 0] := by
  simp [stateWith, padded, sorted, numbers, nextPowerOfTwo_zero, OWATransitionState.toArray]

theorem stateOf_nil : (stateOf [] values).toArray = [0, 0] :=
  stateWith_nil fun g => moments (values g)

theorem padded_append_zero {n : Nat} (hroom : n < nextPowerOfTwo n) (hn : n < 32768)
    (xs : List α) : padded (n + 1) (xs ++ [0]) = padded n xs := by
  have hnext : nextPowerOfTwo (n + 1) = nextPowerOfTwo n := by
    rw [nextPowerOfTwo_succ hn, if_pos hroom]
  rw [padded, padded, List.append_assoc, ← List.replicate_one, ← List.replicate_add, hnext]
  rw [show 1 + (nextPowerOfTwo n - (n + 1)) = nextPowerOfTwo n - n by omega]

/-- A group without values has an empty slot. -/
theorem map_append_empty {g : Nat} (hg : slots g = ⟨0, 0, 0⟩) (f : Sample α → α)
    (hf : f ⟨0, 0, 0⟩ = 0) :
    ((order ++ [g]).map fun h => f (slots h)) = (order.map fun h => f (slots h)) ++ [0] := by
  rw [List.map_append, List.map_singleton, hg, hf]

theorem map_insertAt {β γ : Type} (f : β → γ) (xs : List β) (i : Nat) (x : β) :
    (insertAt xs i x).map f = insertAt (xs.map f) i (f x) := by
  rw [insertAt, insertAt, List.map_append, List.map_cons, List.map_take, List.map_drop]

/-- The lists of a state with one more group. -/
theorem groupValues_append (order : List Nat) (g : Nat) :
    ((sorted (order ++ [g])).map fun g : Nat => (g : α)) =
      insertAt ((sorted order).map fun g : Nat => (g : α)) (lowerBound (sorted order) g) g := by
  rw [sorted_append, map_insertAt]

theorem posToIndices_append {g : Nat} (hg : g ∉ order) :
    ((numbers (order ++ [g])).map fun i : Nat => (i : α)) =
      insertAt ((numbers order).map fun i : Nat => (i : α)) (lowerBound (sorted order) g)
        (order.length : Nat) := by
  rw [numbers_append hg, map_insertAt]

theorem deref_posToIndices_stateWith {pos i : Nat} (h : (numbers order)[pos]? = some i) :
    deref (stateWith order slots : OWATransitionState α).posToIndices pos = .ok (i : α) := by
  have hlt := (List.getElem?_eq_some_iff.mp h).1
  apply deref_ok
  unfold stateWith
  rw [getElem?_padded (by simpa using hlt), List.getElem?_map, h]
  rfl

theorem sampleAt_stateWith {idx g : Nat} (hn : order.length ≤ 32768) (hg : order[idx]? = some g) :
    (stateWith order slots : OWATransitionState α).sampleAt idx = .ok (slots g) := by
  have hlt : idx < order.length := (List.getElem?_eq_some_iff.mp hg).1
  have hle := le_nextPowerOfTwo hn
  have hassert : ∀ f : Sample α → α,
      idx < (padded order.length (order.map fun h => f (slots h))).length := by
    intro f
    rw [length_padded hn (by simp)]
    omega
  have hderef : ∀ f : Sample α → α,
      deref (padded order.length (order.map fun h => f (slots h))) idx =
        .ok (f (slots g)) := by
    intro f
    apply deref_ok
    rw [getElem?_padded (by simpa using hlt), List.getElem?_map, hg]
    rfl
  unfold OWATransitionState.sampleAt stateWith
  rw [eigenAssert_true (hassert Sample.weight), ok_bind, eigenAssert_true (hassert Sample.sum),
    ok_bind, eigenAssert_true (hassert Sample.corrected), ok_bind, hderef Sample.weight, ok_bind,
    hderef Sample.sum, ok_bind, hderef Sample.corrected, ok_bind]
  rfl

theorem sampleAt_stateOf {idx g : Nat} (hn : order.length ≤ 32768) (hg : order[idx]? = some g) :
    (stateOf order values : OWATransitionState α).sampleAt idx = .ok (moments (values g)) :=
  sampleAt_stateWith hn hg

theorem deref_posToIndices {pos i : Nat} (h : (numbers order)[pos]? = some i) :
    deref (stateOf order values : OWATransitionState α).posToIndices pos = .ok (i : α) :=
  deref_posToIndices_stateWith h

/-- A sample is stored into a slot. -/
def OWATransitionState.putSample (s : OWATransitionState α) (idx : Nat) (m : Sample α) :
    OWATransitionState α :=
  { s with
    num := s.num.set idx m.weight
    sum := s.sum.set idx m.sum
    correctedSquareSum := s.correctedSquareSum.set idx m.corrected }

/-- What is stored into the slot of a group changes the slot of that group only. -/
theorem putSample_stateWith {g : Nat} (hnodup : order.Nodup) (hg : g ∈ order) (m : Sample α) :
    (stateWith order slots).putSample (order.idxOf g) m =
      stateWith order (Function.update slots g m) := by
  have hlt : order.idxOf g < order.length := List.idxOf_lt_length_of_mem hg
  have hset : ∀ f : Sample α → α,
      (padded order.length (order.map fun h => f (slots h))).set (order.idxOf g) (f m) =
        padded order.length (order.map fun h => f (Function.update slots g m h)) := by
    intro f
    have hupdate : (fun h => f (Function.update slots g m h)) =
        Function.update (fun h => f (slots h)) g (f m) :=
      Function.comp_update f slots g m
    rw [padded, padded, List.set_append_left _ _ (by simpa using hlt), set_idxOf hnodup hg, hupdate]
  unfold OWATransitionState.putSample stateWith
  dsimp only
  rw [hset Sample.weight, hset Sample.sum, hset Sample.corrected]

variable [LinearOrder α] [IsStrictOrderedRing α]

/-- The update formula is that of the moments. -/
theorem updateCorrectedSumOfSquares_moments (left right : Multiset α) :
    updateCorrectedSumOfSquares (moments left) (moments right) = moments (left + right) := by
  have hweight : ∀ values : Multiset α, (moments values).weight ≤ 0 ↔ values = 0 := by
    intro values
    rw [← Multiset.card_eq_zero]
    exact Nat.cast_nonpos
  unfold updateCorrectedSumOfSquares
  by_cases hright : right = 0
  · rw [if_pos ((hweight right).mpr hright), hright, add_zero]
  · rw [if_neg fun h => hright ((hweight right).mp h), ← weight_add, ← sum_add]
    by_cases hleft : left = 0
    · rw [if_pos ((hweight left).mpr hleft), hleft, zero_add]
    · rw [if_neg fun h => hleft ((hweight left).mp h)]
      dsimp only
      rw [weight_add, ← corrected_add hleft hright, ← weight_add]

variable [FloorRing α]

theorem uint16_numGroups_with (hn : order.length ≤ 32768) :
    uint16 (stateWith order slots : OWATransitionState α).numGroups = order.length :=
  uint16_natCast (by omega)

theorem construct_stateWith (hn : order.length ≤ 32768) :
    OWATransitionState.construct (stateWith order slots : OWATransitionState α).toArray =
      .ok (stateWith order slots) := by
  have hle := le_nextPowerOfTwo hn
  have h₀ : elementAt (stateWith order slots : OWATransitionState α).toArray 0 =
      .ok (stateWith order slots).numGroups := rfl
  unfold OWATransitionState.construct
  rw [h₀, ok_bind, uint16_numGroups_with hn]
  apply rebind_toArray
  · exact length_padded hn (by simp)
  · exact length_padded hn (by simp)
  · exact length_padded hn (by simp)
  · exact length_padded hn (by simp)
  · exact length_padded hn (by simp)
  · unfold stateWith
    cases order with
    | nil => simp
    | cons g order => exact Nat.lt_add_right _ (lt_of_lt_of_le (Nat.succ_pos _) hle)

/-- A group is found where its label is, or not at all. -/
theorem positionOf_stateWith (hn : order.length ≤ 32768) (g : Nat) :
    (stateWith order slots : OWATransitionState α).positionOf g =
      .ok (lowerBound (sorted order) g, decide (g ∈ order)) := by
  have hbound : lowerBound (sorted order) g ≤ order.length := by
    rw [← length_sorted order]
    exact lowerBound_le _ g
  have hslice : slice (stateWith order slots : OWATransitionState α).groupValues 0 order.length =
      .ok ((sorted order).map fun g : Nat => (g : α)) := by
    have hlen : ((sorted order).map fun g : Nat => (g : α)).length = order.length := by simp
    unfold stateWith
    rw [slice_padded hn hlen le_rfl, List.drop_zero, Nat.sub_zero, List.take_of_length_le hlen.le]
  have hfound : ((sorted order).map fun g : Nat => (g : α))[lowerBound (sorted order) g]? = some (g : α) ↔
      g ∈ order := by
    rw [List.getElem?_map, Option.map_eq_some_iff]
    calc
      (∃ a, (sorted order)[lowerBound (sorted order) g]? = some a ∧ (a : α) = g) ↔
          (sorted order)[lowerBound (sorted order) g]? = some g := by
        simp only [Nat.cast_inj, exists_eq_right]
      _ ↔ g ∈ sorted order := getElem?_lowerBound (sorted_pairwise order) g
      _ ↔ g ∈ order := mem_sorted
  unfold OWATransitionState.positionOf
  rw [uint16_numGroups_with hn, hslice, ok_bind]
  dsimp only
  rw [lowerBound_map (f := fun g : Nat => (g : α)) Nat.strictMono_cast, Nat.mod_eq_of_lt (by omega)]
  refine congrArg Except.ok (Prod.ext rfl ?_)
  exact decide_eq_decide.mpr hfound

theorem insertGroup_stateWith {g : Nat} (hn : order.length < 32768)
    (hroom : order.length < nextPowerOfTwo order.length) (hg : g ∉ order) (hzero : slots g = ⟨0, 0, 0⟩) :
    (stateWith order slots : OWATransitionState α).insertGroup (lowerBound (sorted order) g) g =
      .ok (stateWith (order ++ [g]) slots) := by
  have hbound : lowerBound (sorted order) g ≤ order.length := by
    rw [← length_sorted order]
    exact lowerBound_le _ g
  have hne : order ≠ [] := by
    rintro rfl
    simp [nextPowerOfTwo_zero] at hroom
  have hlen : (order ++ [g]).length = order.length + 1 := by simp
  have hcount : ((order.length : Nat) : α) + 1 = ((order.length + 1 : Nat) : α) := by
    push_cast
    rfl
  have hslots : ∀ f : Sample α → α, f ⟨0, 0, 0⟩ = 0 →
      padded order.length (order.map fun h => f (slots h)) =
        padded (order.length + 1) ((order ++ [g]).map fun h => f (slots h)) := by
    intro f hf
    rw [map_append_empty hzero f hf, padded_append_zero hroom hn]
  unfold OWATransitionState.insertGroup
  rw [uint16_numGroups_with hn.le]
  simp only [stateWith]
  rw [insert_padded hn (by simp) hroom hbound, insert_padded hn (by simp) hroom hbound,
    hslots Sample.weight rfl, hslots Sample.sum rfl, hslots Sample.corrected rfl, if_neg hne,
    ← groupValues_append, ← posToIndices_append hg, if_neg (by simp), hlen, hcount]
  rfl

theorem reallocate_stateWith {g : Nat} (hn : order.length < 32768)
    (hfull : ¬order.length < nextPowerOfTwo order.length) (hg : g ∉ order)
    (hzero : slots g = ⟨0, 0, 0⟩) :
    (stateWith order slots : OWATransitionState α).reallocate (lowerBound (sorted order) g) g
        (nextPowerOfTwo order.length) = .ok (stateWith (order ++ [g]) slots) := by
  have hmax : maxAllocSize = 1073741823 := rfl
  have hbound : lowerBound (sorted order) g ≤ order.length := by
    rw [← length_sorted order]
    exact lowerBound_le _ g
  have hlen : (order ++ [g]).length = order.length + 1 := by simp
  have hreserved : (if nextPowerOfTwo order.length = 0 then 1
      else nextPowerOfTwo order.length * 2 % 65536) = nextPowerOfTwo (order.length + 1) := by
    rw [nextPowerOfTwo_succ hn, if_neg hfull]
  have hnext : order.length < nextPowerOfTwo (order.length + 1) :=
    le_nextPowerOfTwo (n := order.length + 1) hn
  have hsize : nextPowerOfTwo (order.length + 1) ≤ 65535 := by
    rw [nextPowerOfTwo_eq]
    omega
  have hslots : ∀ (f : Sample α → α), f ⟨0, 0, 0⟩ = 0 →
      assignSegment (padded order.length (order.map fun h => f (slots h)))
          (List.replicate (nextPowerOfTwo (order.length + 1)) 0) order.length =
        .ok (padded (order.length + 1)
          ((order ++ [g]).map fun h => f (slots h))) := by
    intro f hf
    have hnone : nextPowerOfTwo order.length - order.length = 0 := by omega
    have hall : padded order.length (order.map fun h => f (slots h)) =
        order.map fun h => f (slots h) := by
      rw [padded, hnone, List.replicate_zero, List.append_nil]
    rw [hall, map_append_empty hzero f hf]
    exact assignSegment_zeros hn (by simp)
  unfold OWATransitionState.reallocate
  rw [uint16_numGroups_with hn.le]
  simp only [stateWith, hreserved]
  rw [allocateArray_ok (by unfold arraySize; omega), ok_bind, rebind_zeros (by omega), ok_bind,
    insert_zeros hn (by simp) hbound, insert_zeros hn (by simp) hbound,
    hslots Sample.weight rfl, ok_bind, hslots Sample.sum rfl, ok_bind,
    hslots Sample.corrected rfl, ok_bind, ← groupValues_append, ← posToIndices_append hg,
    if_neg (by simp), hlen, Nat.mod_eq_of_lt (by omega)]
  rfl

/-- A group that is new takes the next slot, one that is known keeps its slot. -/
theorem idxOfGroup_stateWith {g : Nat} (hn : (arrive order g).length ≤ 32768)
    (hzero : g ∉ order → slots g = ⟨0, 0, 0⟩) :
    (stateWith order slots : OWATransitionState α).idxOfGroup g =
      .ok (stateWith (arrive order g) slots, (arrive order g).idxOf g) := by
  have hle : order.length ≤ 32768 := (length_le_arrive order g).trans hn
  have hbound : lowerBound (sorted order) g ≤ order.length := by
    rw [← length_sorted order]
    exact lowerBound_le _ g
  unfold OWATransitionState.idxOfGroup
  rw [positionOf_stateWith hle, ok_bind, uint16_numGroups_with hle]
  by_cases hg : g ∈ order
  · rw [if_pos (decide_eq_true hg), pure_eq_ok, ok_bind]
    dsimp only
    rw [deref_posToIndices_stateWith (getElem?_numbers hg), ok_bind, Nat.floor_natCast, arrive, if_pos hg]
    rfl
  · have hlt : order.length < 32768 := by
      rw [arrive, if_neg hg, List.length_append, List.length_singleton] at hn
      omega
    have hnumber : (numbers (order ++ [g]))[lowerBound (sorted order) g]? = some order.length := by
      rw [numbers_append hg]
      exact getElem?_insertAt (by rwa [length_numbers]) _
    have hnew : (deref (stateWith (order ++ [g]) slots : OWATransitionState α).posToIndices
          (lowerBound (sorted order) g) >>= fun idx =>
            pure (stateWith (order ++ [g]) slots, ⌊idx⌋₊)) =
        .ok (stateWith (arrive order g) slots, (arrive order g).idxOf g) := by
      rw [deref_posToIndices_stateWith hnumber, ok_bind, Nat.floor_natCast, arrive, if_neg hg,
        List.idxOf_append_of_notMem hg, List.idxOf_cons_self]
      rfl
    rw [if_neg (by simpa using hg)]
    dsimp only
    split
    case isTrue hroom => rwa [insertGroup_stateWith hlt hroom hg (hzero hg), ok_bind]
    case isFalse hfull => rwa [reallocate_stateWith hlt hfull hg (hzero hg), ok_bind]

/-- There is no room for a group after 32768 others: the space would be that of no group. -/
theorem idxOfGroup_full {g : Nat} (hn : order.length = 32768) (hg : g ∉ order) :
    (stateWith order slots : OWATransitionState α).idxOfGroup g =
      .error (thrown "Out-of-bounds array access detected.") := by
  have hfull : nextPowerOfTwo order.length = 32768 := by
    rw [hn]
    decide
  have hreserved : (if 32768 = 0 then 1 else 32768 * 2 % 65536) = 0 := by decide
  have hrebind : OWATransitionState.rebind (List.replicate (arraySize 0) (0 : α)) 0 =
      .error (thrown "Out-of-bounds array access detected.") := rfl
  have hreallocate : ∀ pos, (stateWith order slots : OWATransitionState α).reallocate pos g 32768 =
      .error (thrown "Out-of-bounds array access detected.") := by
    intro pos
    unfold OWATransitionState.reallocate
    dsimp only
    rw [hreserved, allocateArray_ok (by decide), ok_bind, hrebind, error_bind]
  unfold OWATransitionState.idxOfGroup
  rw [positionOf_stateWith hn.le, ok_bind, uint16_numGroups_with hn.le, if_neg (by simpa using hg), hfull,
    if_neg (by omega), hreallocate, error_bind]

/-! ## States of moments -/

theorem uint16_numGroups (hn : order.length ≤ 32768) :
    uint16 (stateOf order values : OWATransitionState α).numGroups = order.length :=
  uint16_natCast (by omega)

theorem construct_stateOf (hn : order.length ≤ 32768) :
    OWATransitionState.construct (stateOf order values : OWATransitionState α).toArray =
      .ok (stateOf order values) := construct_stateWith hn

theorem positionOf_stateOf (hn : order.length ≤ 32768) (g : Nat) :
    (stateOf order values : OWATransitionState α).positionOf g =
      .ok (lowerBound (sorted order) g, decide (g ∈ order)) := positionOf_stateWith hn g

theorem idxOfGroup_stateOf {g : Nat} (hn : (arrive order g).length ≤ 32768)
    (hzero : g ∉ order → values g = 0) :
    (stateOf order values : OWATransitionState α).idxOfGroup g =
      .ok (stateOf (arrive order g) values, (arrive order g).idxOf g) :=
  idxOfGroup_stateWith hn fun hg => (congrArg moments (hzero hg)).trans moments_zero

theorem idxOfGroup_error {g : Nat} (hn : order.length = 32768) (hg : g ∉ order) :
    (stateOf order values : OWATransitionState α).idxOfGroup g =
      .error (thrown "Out-of-bounds array access detected.") := idxOfGroup_full hn hg

/-- Values of a group change the slot of that group. -/
theorem updateAt_stateOf {g : Nat} (hn : order.length ≤ 32768) (hnodup : order.Nodup)
    (hg : g ∈ order) (added : Multiset α) :
    (stateOf order values).updateAt (order.idxOf g) (moments added) =
      .ok (stateOf order (Function.update values g (values g + added))) := by
  have hget : order[order.idxOf g]? = some g := List.getElem?_idxOf hg
  have hmoments : Function.update (fun h => moments (values h)) g (moments (values g + added)) =
      fun h => moments (Function.update values g (values g + added) h) :=
    (Function.comp_update moments values g (values g + added)).symm
  have hput : (stateWith order fun h => moments (values h)).putSample (order.idxOf g)
      (moments (values g + added)) = _ := putSample_stateWith hnodup hg _
  rw [hmoments] at hput
  unfold OWATransitionState.updateAt
  rw [sampleAt_stateOf hn hget, ok_bind, updateCorrectedSumOfSquares_moments]
  exact congrArg Except.ok hput

/-- Values of a group arrive. -/
theorem idxOfGroup_updateAt {β : Type} {g : Nat} (hn : (arrive order g).length ≤ 32768)
    (hnodup : order.Nodup) (hzero : g ∉ order → values g = 0) (added : Multiset α)
    (k : OWATransitionState α → Except Fault β) :
    ((stateOf order values).idxOfGroup g >>= fun found =>
      found.1.updateAt found.2 (moments added) >>= k) =
      k (stateOf (arrive order g) (Function.update values g (values g + added))) := by
  rw [idxOfGroup_stateOf hn hzero, ok_bind]
  dsimp only
  rw [updateAt_stateOf hn (arrive_nodup hnodup g) (mem_arrive.mpr (.inr rfl)), ok_bind]

end States

end Madlib.Stats
