import Mathlib

/-!
# Words as one string of bits

The bits of a list of words from left to right, the most significant bit of each word first, and
the runs of equal bits at the two ends of a string.
-/

namespace Madlib.Lib.BitString

variable {w : ℕ} {v : Bool}

/-- The bits of a word from left to right. -/
def bits (x : BitVec w) : List Bool := List.ofFn fun i : Fin w => x.getMsbD i

def bitString (words : List (BitVec w)) : List Bool := words.flatMap bits

/-- How many bits there are in front of the first one that is not `v`. -/
def leading (v : Bool) (l : List Bool) : ℕ := (l.takeWhile (· == v)).length

/-- How many bits there are behind the last one that is not `v`. -/
def trailing (v : Bool) (l : List Bool) : ℕ := leading v l.reverse

/-! ## Strings -/

@[simp] theorem length_bits (x : BitVec w) : (bits x).length = w := by
  simp [bits]

@[simp] theorem bitString_cons (x : BitVec w) (words : List (BitVec w)) :
    bitString (x :: words) = bits x ++ bitString words := by
  simp [bitString]

@[simp] theorem length_bitString (words : List (BitVec w)) :
    (bitString words).length = w * words.length := by
  induction words with
  | nil => simp [bitString]
  | cons x words ih =>
      simp [ih]
      ring

theorem bitString_drop (words : List (BitVec w)) (k : ℕ) :
    bitString (words.drop k) = (bitString words).drop (w * k) := by
  induction words generalizing k with
  | nil => simp [bitString]
  | cons x words ih =>
      cases k with
      | zero => simp
      | succ k =>
          have hlength : w * (k + 1) = (bits x).length + w * k := by
            rw [length_bits]
            ring
          rw [List.drop_succ_cons, ih, bitString_cons, hlength, List.drop_length_add_append]

theorem bitString_take (words : List (BitVec w)) (k : ℕ) :
    bitString (words.take k) = (bitString words).take (w * k) := by
  induction words generalizing k with
  | nil => simp [bitString]
  | cons x words ih =>
      cases k with
      | zero => simp [bitString]
      | succ k =>
          have hlength : w * (k + 1) = (bits x).length + w * k := by
            rw [length_bits]
            ring
          rw [List.take_succ_cons, bitString_cons, ih, bitString_cons, hlength,
            List.take_length_add_append]

theorem reverse_bitString (words : List (BitVec w)) :
    (bitString words).reverse = words.reverse.flatMap fun x => (bits x).reverse := by
  rw [bitString, List.reverse_flatMap]
  rfl

theorem bitString_replicate {x : BitVec w} (h : bits x = List.replicate w v) (n : ℕ) :
    bitString (List.replicate n x) = List.replicate (w * n) v := by
  induction n with
  | zero => simp [bitString]
  | succ n ih =>
      rw [List.replicate_succ, bitString_cons, ih, h, List.replicate_append_replicate]
      congr 1
      ring

theorem getElem?_bits {x : BitVec w} {p : ℕ} (hp : p < w) : (bits x)[p]? = some (x.getMsbD p) := by
  simp [bits, hp]

theorem getElem?_bitString (hw : 0 < w) (words : List (BitVec w)) (p : ℕ) :
    (bitString words)[p]? = words[p / w]?.map fun x => x.getMsbD (p % w) := by
  induction words generalizing p with
  | nil => simp [bitString]
  | cons x words ih =>
      rw [bitString_cons]
      by_cases hp : p < w
      · rw [List.getElem?_append_left (by simpa using hp), getElem?_bits hp, Nat.div_eq_of_lt hp,
          Nat.mod_eq_of_lt hp]
        rfl
      · have hnext : p / w = (p - w) / w + 1 := Nat.div_eq_sub_div hw (by omega)
        have hplace : p % w = (p - w) % w := Nat.mod_eq_sub_mod (by omega)
        rw [List.getElem?_append_right (by simpa using hp), length_bits, ih, hnext, hplace,
          List.getElem?_cons_succ]

/-! ## Runs -/

theorem leading_append (l r : List Bool) :
    leading v (l ++ r) =
      if leading v l = l.length then l.length + leading v r else leading v l := by
  unfold leading
  rw [List.takeWhile_append]
  split <;> simp

theorem leading_le_length (v : Bool) (l : List Bool) : leading v l ≤ l.length :=
  (List.takeWhile_sublist _).length_le

theorem trailing_le_length (v : Bool) (l : List Bool) : trailing v l ≤ l.length := by
  rw [← List.length_reverse]
  exact leading_le_length v l.reverse

theorem leading_eq_length {l : List Bool} (h : ∀ b ∈ l, b = v) : leading v l = l.length := by
  rw [leading, List.takeWhile_eq_self_iff.mpr (by simpa using h)]

theorem trailing_eq_length {l : List Bool} (h : ∀ b ∈ l, b = v) : trailing v l = l.length := by
  rw [trailing, leading_eq_length (by simpa using h), List.length_reverse]

theorem leading_replicate (k : ℕ) : leading v (List.replicate k v) = k := by
  rw [leading_eq_length (fun c hc => List.eq_of_mem_replicate hc), List.length_replicate]

theorem trailing_replicate (k : ℕ) : trailing v (List.replicate k v) = k := by
  rw [trailing, List.reverse_replicate, leading_replicate]

/-- A run ends at the first other bit. -/
theorem leading_eq {l : List Bool} {b : ℕ} (hstop : l[b]? = some (!v))
    (hrun : ∀ k < b, l[k]? = some v) : leading v l = b := by
  induction l generalizing b with
  | nil => simp at hstop
  | cons x l ih =>
      cases b with
      | zero =>
          obtain rfl : x = !v := by simpa using hstop
          simp [leading]
      | succ b =>
          obtain rfl : x = v := by simpa using hrun 0 (Nat.succ_pos b)
          have hrest := ih (by simpa using hstop) fun k hk => by
            simpa using hrun (k + 1) (Nat.succ_lt_succ hk)
          simp only [leading, beq_self_eq_true, List.takeWhile_cons_of_pos, List.length_cons]
          rw [← hrest, leading]

theorem trailing_eq {l : List Bool} {b : ℕ} (hb : b < l.length)
    (hstop : l[l.length - 1 - b]? = some (!v))
    (hrun : ∀ k < b, l[l.length - 1 - k]? = some v) : trailing v l = b := by
  apply leading_eq
  · rw [List.getElem?_reverse hb, hstop]
  · intro k hk
    rw [List.getElem?_reverse (hk.trans hb), hrun k hk]

end Madlib.Lib.BitString
