import Mathlib

/-!
# Keys in the order they arrive

Keys are numbered in the order in which they arrive, and looked up in the sorted list of those
that have arrived.
-/

namespace Madlib.Lib.Arrivals

variable {κ : Type}

/-! ## Sorted lists -/

def insertAt (xs : List κ) (i : Nat) (x : κ) : List κ := xs.take i ++ x :: xs.drop i

theorem getElem?_insertAt {xs : List κ} {i : Nat} (hi : i ≤ xs.length) (x : κ) :
    (insertAt xs i x)[i]? = some x := by
  have hlen : (xs.take i).length = i := List.length_take_of_le hi
  rw [insertAt, List.getElem?_append_right hlen.le, hlen, Nat.sub_self, List.getElem?_cons_zero]

variable [LinearOrder κ]

/-- The number of elements before the first one that is not less. -/
def lowerBound (xs : List κ) (x : κ) : Nat := (xs.takeWhile fun y => decide (y < x)).length

theorem take_lowerBound (xs : List κ) (x : κ) :
    xs.take (lowerBound xs x) = xs.takeWhile fun y => decide (y < x) := by
  have h : (xs.takeWhile fun y => decide (y < x)) ++ xs.dropWhile (fun y => decide (y < x)) = xs :=
    List.takeWhile_append_dropWhile
  calc
    xs.take (lowerBound xs x) =
        ((xs.takeWhile fun y => decide (y < x)) ++ xs.dropWhile fun y => decide (y < x)).take
          (lowerBound xs x) := by rw [h]
    _ = _ := List.take_left

theorem drop_lowerBound (xs : List κ) (x : κ) :
    xs.drop (lowerBound xs x) = xs.dropWhile fun y => decide (y < x) := by
  have h : (xs.takeWhile fun y => decide (y < x)) ++ xs.dropWhile (fun y => decide (y < x)) = xs :=
    List.takeWhile_append_dropWhile
  calc
    xs.drop (lowerBound xs x) =
        ((xs.takeWhile fun y => decide (y < x)) ++ xs.dropWhile fun y => decide (y < x)).drop
          (lowerBound xs x) := by rw [h]
    _ = _ := List.drop_left

theorem lowerBound_le (xs : List κ) (x : κ) : lowerBound xs x ≤ xs.length :=
  (List.takeWhile_prefix _).length_le

theorem insertAt_lowerBound (xs : List κ) (x : κ) :
    insertAt xs (lowerBound xs x) x = xs.orderedInsert (· ≤ ·) x := by
  rw [insertAt, take_lowerBound, drop_lowerBound, List.orderedInsert_eq_take_drop]
  simp only [not_le]

/-- In a sorted list an element is found where its lower bound is, or nowhere. -/
theorem getElem?_lowerBound {xs : List κ} (hsorted : xs.Pairwise (· ≤ ·)) (x : κ) :
    xs[lowerBound xs x]? = some x ↔ x ∈ xs := by
  constructor
  · exact List.mem_of_getElem?
  · intro hx
    induction xs with
    | nil => cases hx
    | cons y ys ih =>
        have hys := List.pairwise_cons.mp hsorted
        unfold lowerBound at ih ⊢
        rcases lt_or_ge y x with hlt | hge
        · have hmem : x ∈ ys := (List.mem_cons.mp hx).resolve_left hlt.ne'
          rw [List.takeWhile_cons, if_pos (decide_eq_true hlt), List.length_cons,
            List.getElem?_cons_succ]
          exact ih hys.2 hmem
        · have heq : y = x := by
            rcases List.mem_cons.mp hx with heq | hmem
            · exact heq.symm
            · exact le_antisymm (hys.1 x hmem) hge
          rw [List.takeWhile_cons, if_neg (by simpa using hge), heq]
          rfl

/-- Looking up commutes with a strictly monotone renaming. -/
theorem lowerBound_map {κ' : Type} [LinearOrder κ'] {f : κ → κ'} (hf : StrictMono f)
    (xs : List κ) (x : κ) : lowerBound (xs.map f) (f x) = lowerBound xs x := by
  unfold lowerBound
  rw [List.takeWhile_map, List.length_map]
  congr 2
  funext y
  exact decide_eq_decide.mpr hf.lt_iff_lt

/-! ## Arrivals -/

/-- A key that has not arrived yet arrives last. -/
def arrive (order : List κ) (x : κ) : List κ := if x ∈ order then order else order ++ [x]

def sorted (order : List κ) : List κ := order.insertionSort (· ≤ ·)

@[simp] theorem mem_arrive {order : List κ} {x y : κ} :
    y ∈ arrive order x ↔ y ∈ order ∨ y = x := by
  unfold arrive
  split
  case isTrue h =>
    constructor
    · exact .inl
    · rintro (hy | rfl)
      · exact hy
      · exact h
  case isFalse => simp

theorem arrive_nodup {order : List κ} (h : order.Nodup) (x : κ) : (arrive order x).Nodup := by
  unfold arrive
  split
  case isTrue => exact h
  case isFalse hx => exact h.concat hx |> fun hc => by simpa using hc

@[simp] theorem mem_foldl_arrive {order xs : List κ} {y : κ} :
    y ∈ xs.foldl arrive order ↔ y ∈ order ∨ y ∈ xs := by
  induction xs generalizing order with
  | nil => simp
  | cons x xs ih => rw [List.foldl_cons, ih, mem_arrive, List.mem_cons, or_assoc]

theorem foldl_arrive_nodup {order : List κ} (h : order.Nodup) (xs : List κ) :
    (xs.foldl arrive order).Nodup := by
  induction xs generalizing order with
  | nil => exact h
  | cons x xs ih => exact ih (arrive_nodup h x)

theorem length_le_arrive (order : List κ) (x : κ) : order.length ≤ (arrive order x).length := by
  unfold arrive
  split
  case isTrue => exact le_rfl
  case isFalse => simp

theorem length_le_foldl_arrive (order xs : List κ) :
    order.length ≤ (xs.foldl arrive order).length := by
  induction xs generalizing order with
  | nil => exact le_rfl
  | cons x xs ih => exact (length_le_arrive order x).trans (ih _)

@[simp] theorem mem_sorted {order : List κ} {x : κ} : x ∈ sorted order ↔ x ∈ order :=
  List.mem_insertionSort _

@[simp] theorem length_sorted (order : List κ) : (sorted order).length = order.length :=
  List.length_insertionSort _ _

theorem sorted_pairwise (order : List κ) : (sorted order).Pairwise (· ≤ ·) :=
  List.pairwise_insertionSort _ _

theorem sorted_perm (order : List κ) : (sorted order).Perm order :=
  List.perm_insertionSort _ _

theorem sorted_nodup {order : List κ} (h : order.Nodup) : (sorted order).Nodup :=
  (sorted_perm order).nodup_iff.mpr h

/-- Sorted after an arrival: the key is inserted where its lower bound is. -/
theorem sorted_append (order : List κ) (x : κ) :
    sorted (order ++ [x]) = insertAt (sorted order) (lowerBound (sorted order) x) x := by
  rw [insertAt_lowerBound]
  have hperm : (sorted (order ++ [x])).Perm ((sorted order).orderedInsert (· ≤ ·) x) :=
    calc
      (sorted (order ++ [x])).Perm (order ++ [x]) := sorted_perm _
      List.Perm (order ++ [x]) (x :: order) := List.perm_append_singleton x order
      List.Perm (x :: order) (x :: sorted order) := (sorted_perm order).symm.cons x
      List.Perm (x :: sorted order) ((sorted order).orderedInsert (· ≤ ·) x) :=
        (List.perm_orderedInsert _ x _).symm
  exact hperm.eq_of_pairwise' (sorted_pairwise _) ((sorted_pairwise order).orderedInsert x _)

/-- The numbers of the keys, in the order of the keys. -/
def numbers (order : List κ) : List Nat := (sorted order).map order.idxOf

@[simp] theorem length_numbers (order : List κ) : (numbers order).length = order.length := by
  rw [numbers, List.length_map, length_sorted]

theorem numbers_append {order : List κ} {x : κ} (hx : x ∉ order) :
    numbers (order ++ [x]) =
      insertAt (numbers order) (lowerBound (sorted order) x) order.length := by
  have hold : ∀ ys : List κ, (∀ y ∈ ys, y ∈ order) →
      ys.map (order ++ [x]).idxOf = ys.map order.idxOf := by
    intro ys hys
    apply List.map_congr_left
    intro y hy
    exact List.idxOf_append_of_mem (hys y hy)
  have hnew : (order ++ [x]).idxOf x = order.length := by
    rw [List.idxOf_append_of_notMem hx, List.idxOf_cons_self, Nat.add_zero]
  unfold numbers
  rw [sorted_append, insertAt, insertAt, List.map_append, List.map_cons, hnew, List.map_take,
    List.map_drop, hold (sorted order) fun y hy => mem_sorted.mp hy]

/-- The number of a key is found where the key is. -/
theorem getElem?_numbers {order : List κ} {x : κ} (hx : x ∈ order) :
    (numbers order)[lowerBound (sorted order) x]? = some (order.idxOf x) := by
  have hfound := (getElem?_lowerBound (sorted_pairwise order) x).mpr (mem_sorted.mpr hx)
  rw [numbers, List.getElem?_map, hfound]
  rfl

/-- What is kept for one key changes. -/
theorem set_idxOf {β : Type} {order : List κ} (hnodup : order.Nodup) {x : κ} (hx : x ∈ order)
    (f : κ → β) (b : β) :
    (order.map f).set (order.idxOf x) b = order.map (Function.update f x b) := by
  induction order with
  | nil => cases hx
  | cons y ys ih =>
      rw [List.nodup_cons] at hnodup
      by_cases hxy : y = x
      · subst hxy
        have hrest : ys.map (Function.update f y b) = ys.map f := by
          apply List.map_congr_left
          intro z hz
          exact Function.update_of_ne (ne_of_mem_of_not_mem hz hnodup.1) b f
        rw [List.idxOf_cons_self, List.map_cons, List.set_cons_zero, List.map_cons,
          Function.update_self, hrest]
      · have hmem : x ∈ ys := (List.mem_cons.mp hx).resolve_left fun h => hxy h.symm
        rw [List.idxOf_cons_ne ys hxy, List.map_cons, List.set_cons_succ, List.map_cons,
          Function.update_of_ne hxy, ih hnodup.2 hmem]

end Madlib.Lib.Arrivals
