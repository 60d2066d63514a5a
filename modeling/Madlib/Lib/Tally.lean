import Madlib.Lib.MachineInt

/-!
# Tallies

How often each of the numbers below a bound occurs among some items, counted in 32 bits.  A tally
is kept up by counting one more item, and the tallies of two parts add up to that of the whole.
-/

namespace Madlib.Lib.Tally

open Madlib.Lib.MachineInt

def tally (n : ℕ) (items : List Int) : List Int :=
  (List.range n).map fun k : ℕ => toInt32 (items.count (k : Int))

variable {n : ℕ} {items items' : List Int}

@[simp] theorem length_tally (n : ℕ) (items : List Int) : (tally n items).length = n := by
  simp [tally]

theorem getElem?_tally {k : ℕ} (hk : k < n) :
    (tally n items)[k]? = some (toInt32 (items.count (k : Int))) := by
  simp [tally, hk]

theorem tally_nil (n : ℕ) : tally n [] = List.replicate n 0 := by
  apply List.ext_getElem
  · simp
  · simp [tally, toInt32, wrapAt]

theorem tally_perm (h : items.Perm items') : tally n items = tally n items' := by
  unfold tally
  simp only [h.count_eq]

/-- One more item. -/
theorem set_tally {k : ℕ} (hk : k < n) {x : Int} (hx : (tally n items)[k]? = some x) :
    (tally n items).set k (toInt32 (x + 1)) = tally n (items ++ [(k : Int)]) := by
  rw [getElem?_tally hk] at hx
  rw [← Option.some.inj hx, toInt32_toInt32_add]
  apply List.ext_getElem?
  intro j
  by_cases hj : j < n
  · rw [getElem?_tally hj, List.count_append]
    by_cases hjk : k = j
    · rw [hjk, List.getElem?_set_self (by simpa using hj)]
      simp
    · have hne : (k : Int) ≠ j := by omega
      rw [List.getElem?_set_ne hjk, getElem?_tally hj]
      simp [hne]
  · rw [List.getElem?_eq_none (by simpa using hj), List.getElem?_eq_none (by simpa using hj)]

/-- The tallies of the parts, added in 32 bits. -/
theorem zipWith_tally (items items' : List Int) :
    List.zipWith (fun x y => toInt32 (x + y)) (tally n items) (tally n items') =
      tally n (items ++ items') := by
  apply List.ext_getElem?
  intro k
  by_cases hk : k < n
  · rw [List.getElem?_zipWith, getElem?_tally hk, getElem?_tally hk, getElem?_tally hk,
      List.count_append]
    dsimp only
    rw [toInt32_toInt32_add, add_comm, toInt32_toInt32_add, add_comm, Nat.cast_add]
  · rw [List.getElem?_eq_none (by simpa using hk), List.getElem?_eq_none (by simpa using hk)]

/-- What fits is counted exactly. -/
theorem getElem?_tally_of_lt {k : ℕ} (hk : k < n) (hfits : items.count (k : Int) < 2147483648) :
    (tally n items)[k]? = some (items.count (k : Int) : Int) := by
  rw [getElem?_tally hk, toInt32_of_mem (by omega) (by omega)]

end Madlib.Lib.Tally
