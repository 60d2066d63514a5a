import Mathlib

/-!
# Concatenated blocks of one length

An array of fixed-size records is laid out as the concatenation of equally long
blocks; a slice between two multiples of the length is a block again.
-/

namespace Madlib.Lib.Blocks

variable {α β : Type}

/-- The items from index `a` up to index `b`, as `s[a:b]` takes them. -/
def slice (s : List α) (a b : Nat) : List α := (s.drop a).take (b - a)

theorem slice_map (f : α → β) (s : List α) (a b : Nat) :
    slice (s.map f) a b = (slice s a b).map f := by
  unfold slice
  rw [List.map_take, List.map_drop]

variable {f : α → List β} {m : Nat}

theorem length_flatMap_of_length (hf : ∀ a, (f a).length = m) (l : List α) :
    (l.flatMap f).length = l.length * m := by
  induction l with
  | nil => simp
  | cons a l ih =>
      rw [List.flatMap_cons, List.length_append, hf, ih, List.length_cons]
      ring

theorem drop_flatMap (hf : ∀ a, (f a).length = m) (l : List α) (i : Nat) :
    (l.flatMap f).drop (i * m) = (l.drop i).flatMap f := by
  induction l generalizing i with
  | nil => simp
  | cons a l ih =>
      cases i with
      | zero => simp
      | succ i =>
          have hskip : (i + 1) * m = (f a).length + i * m := by
            rw [hf]
            ring
          rw [List.flatMap_cons, hskip, List.drop_length_add_append, ih, List.drop_succ_cons]

theorem slice_flatMap (hf : ∀ a, (f a).length = m) {l : List α} {i : Nat} (hi : i < l.length) :
    slice (l.flatMap f) (i * m) ((i + 1) * m) = f l[i] := by
  have hlen : (i + 1) * m - i * m = (f l[i]).length := by
    rw [hf, Nat.add_mul]
    omega
  unfold slice
  rw [drop_flatMap hf, List.drop_eq_getElem_cons hi, List.flatMap_cons, hlen, List.take_left]

end Madlib.Lib.Blocks
