import Mathlib

/-!
# Arrays that grow by blocks

What has been stored is a prefix of the array, which has room up to the end of the last block.
Vectors of one length are stored one behind the other.
-/

namespace Madlib.Lib.BlockArray

variable {α : Type}

/-- The array with `values` written from an offset on. -/
def written (array values : List α) (offset : Nat) : List α :=
  array.take offset ++ values ++ array.drop (offset + values.length)

variable {array values stored : List α} {offset : Nat}

theorem length_written (h : offset + values.length ≤ array.length) :
    (written array values offset).length = array.length := by
  unfold written
  rw [List.length_append, List.length_append, List.length_take, List.length_drop]
  omega

theorem written_all (h : values.length = array.length) : written array values 0 = values := by
  unfold written
  rw [List.take_zero, List.nil_append, Nat.zero_add, h, List.drop_length, List.append_nil]

/-- What is written right behind the stored values is stored too. -/
theorem prefix_written (hstored : stored <+: array) (hlength : stored.length = offset) :
    stored ++ values <+: written array values offset := by
  have htake : array.take offset = stored := by
    rw [← hlength]
    exact (List.prefix_iff_eq_take.mp hstored).symm
  unfold written
  rw [htake]
  exact List.prefix_append _ _

theorem take_one_of_stored (hstored : stored <+: array) {i : Nat} {a : α}
    (ha : stored[i]? = some a) : (array.drop i).take 1 = [a] := by
  have ⟨rest, hrest⟩ := hstored
  have hi := (List.getElem?_eq_some_iff.mp ha).1
  have harray : array[i]? = some a := by
    rw [← hrest, List.getElem?_append_left hi, ha]
  rw [List.take_one, List.head?_drop, harray]
  rfl

/-! ## Room -/

/-- The number of elements of the blocks `n` elements take up. -/
def capacity (block n : Nat) : Nat := (n + block - 1) / block * block

variable {block n : Nat}

theorem capacity_zero (block : Nat) : capacity block 0 = 0 := by
  unfold capacity
  cases block with
  | zero => rfl
  | succ block =>
      rw [Nat.div_eq_of_lt (by omega), Nat.zero_mul]

/-- Full blocks need another one. -/
theorem capacity_succ_of_full (hblock : 0 < block) (h : n % block = 0) :
    capacity block (n + 1) = n + block := by
  have hn : n = n / block * block := by
    have hdiv := Nat.div_add_mod' n block
    omega
  have hdiv : (n + 1 + block - 1) / block = n / block + 1 := by
    rw [show n + 1 + block - 1 = n + block by omega, Nat.add_div_right n hblock]
  unfold capacity
  rw [hdiv, Nat.add_mul, Nat.one_mul, ← hn]

theorem capacity_of_not_full (hblock : 0 < block) (h : n % block ≠ 0) :
    capacity block n = (n / block + 1) * block := by
  have hdiv : (n + block - 1) / block = n / block + 1 := by
    have hrest := Nat.div_add_mod' n block
    have hlt := Nat.mod_lt n hblock
    have hsum : n + block - 1 = (n % block - 1) + (n / block + 1) * block := by
      rw [Nat.add_mul]
      omega
    rw [hsum, Nat.add_mul_div_right _ _ hblock, Nat.div_eq_of_lt (by omega), Nat.zero_add]
  unfold capacity
  rw [hdiv]

/-- In a block that is not full there is room for one more. -/
theorem lt_capacity (hblock : 0 < block) (h : n % block ≠ 0) : n < capacity block n := by
  have hrest := Nat.div_add_mod' n block
  have hlt := Nat.mod_lt n hblock
  rw [capacity_of_not_full hblock h, Nat.add_mul]
  omega

theorem capacity_succ_of_not_full (hblock : 0 < block) (h : n % block ≠ 0) :
    capacity block (n + 1) = capacity block n := by
  have hrest := Nat.div_add_mod' n block
  have hlt := Nat.mod_lt n hblock
  have hdiv : (n + 1 + block - 1) / block = n / block + 1 := by
    rw [show n + 1 + block - 1 = n + block by omega, Nat.add_div_right n hblock]
  rw [capacity_of_not_full hblock h]
  unfold capacity
  rw [hdiv]

/-! ## Vectors -/

variable {vectors : List (List α)} {d : Nat}

theorem length_flatten_of_length (h : ∀ v ∈ vectors, v.length = d) :
    vectors.flatten.length = vectors.length * d := by
  induction vectors with
  | nil => simp
  | cons v vectors ih =>
      have ⟨hv, hrest⟩ := List.forall_mem_cons.mp h
      rw [List.flatten_cons, List.length_append, hv, ih hrest, List.length_cons]
      ring

/-- The vector at its place in an array that stores all of them. -/
theorem take_drop_of_stored (h : ∀ v ∈ vectors, v.length = d) (hstored : vectors.flatten <+: array)
    {i : Nat} {v : List α} (hi : vectors[i]? = some v) :
    (array.drop (i * d)).take d = v := by
  have ⟨rest, hrest⟩ := hstored
  rw [← hrest]
  clear hrest hstored
  induction vectors generalizing i with
  | nil => simp at hi
  | cons w vectors ih =>
      have ⟨hw, hvectors⟩ := List.forall_mem_cons.mp h
      cases i with
      | zero =>
          rw [List.getElem?_cons_zero, Option.some.injEq] at hi
          rw [Nat.zero_mul, List.drop_zero, List.flatten_cons, List.append_assoc, ← hw, hi,
            List.take_left]
      | succ i =>
          rw [List.getElem?_cons_succ] at hi
          have hskip : (i + 1) * d = w.length + i * d := by
            rw [hw]
            ring
          rw [List.flatten_cons, List.append_assoc, hskip, List.drop_length_add_append]
          exact ih hvectors hi

end Madlib.Lib.BlockArray
