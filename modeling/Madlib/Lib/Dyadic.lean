import Mathlib

/-!
# Dyadic cells

A list of parts tiles an interval when every integer lies in one part of the list if
it is in the interval and in none otherwise.  Tilings of adjacent intervals are put
together by appending, in either order.  A cell is the set of the integers with one
quotient by a power of two; counting a list of integers cell by cell counts each of
them as often as it is covered.
-/

namespace Madlib.Lib.Dyadic

/-! ## Tilings -/

section

variable {α : Type} (contains : α → Int → Bool)

/-- How many parts of the list an integer lies in. -/
def coverCount (parts : List α) (x : Int) : Nat := parts.countP fun p => contains p x

/-- Every integer of `[lo, hi]` is covered once, and no other one. -/
def Tiles (parts : List α) (lo hi : Int) : Prop :=
  ∀ x, coverCount contains parts x = if lo ≤ x ∧ x ≤ hi then 1 else 0

@[simp] theorem coverCount_nil (x : Int) : coverCount contains [] x = 0 := rfl

theorem coverCount_append (parts parts' : List α) (x : Int) :
    coverCount contains (parts ++ parts') x =
      coverCount contains parts x + coverCount contains parts' x :=
  List.countP_append

theorem coverCount_singleton (p : α) (x : Int) :
    coverCount contains [p] x = if contains p x then 1 else 0 := by
  by_cases h : contains p x <;> simp [coverCount, h]

variable {contains}

theorem tiles_singleton {p : α} {lo hi : Int}
    (h : ∀ x, contains p x = true ↔ lo ≤ x ∧ x ≤ hi) : Tiles contains [p] lo hi := by
  intro x
  rw [coverCount_singleton]
  by_cases hx : lo ≤ x ∧ x ≤ hi
  · rw [if_pos hx, if_pos ((h x).mpr hx)]
  · rw [if_neg hx, if_neg (fun hc => hx ((h x).mp hc))]

theorem Tiles.append {parts parts' : List α} {lo mid hi : Int} (h : Tiles contains parts lo mid)
    (h' : Tiles contains parts' (mid + 1) hi) (hlo : lo ≤ mid + 1) (hhi : mid ≤ hi) :
    Tiles contains (parts ++ parts') lo hi := by
  intro x
  rw [coverCount_append, h x, h' x]
  split <;> split <;> split <;> omega

theorem Tiles.comm {parts parts' : List α} {lo hi : Int}
    (h : Tiles contains (parts ++ parts') lo hi) : Tiles contains (parts' ++ parts) lo hi := by
  intro x
  rw [coverCount_append, Nat.add_comm, ← coverCount_append]
  exact h x

end

/-! ## Cells -/

/-- The integers `x` with `x >> exponent = index`. -/
structure Cell where
  exponent : Nat
  index : Int
  deriving DecidableEq, Repr

def Cell.contains (c : Cell) (x : Int) : Bool := x / 2 ^ c.exponent == c.index

theorem two_pow_pos (d : Nat) : (0 : Int) < 2 ^ d := Int.pow_pos (by omega)

theorem Cell.contains_iff (c : Cell) (x : Int) :
    c.contains x = true ↔ c.index * 2 ^ c.exponent ≤ x ∧ x < (c.index + 1) * 2 ^ c.exponent := by
  have hpos := two_pow_pos c.exponent
  have hle := Int.le_ediv_iff_mul_le (a := c.index) (b := x) hpos
  have hlt := Int.ediv_lt_iff_lt_mul (a := x) (b := c.index + 1) hpos
  unfold Cell.contains
  rw [beq_iff_eq, ← hle, ← hlt]
  omega

/-- A cell is the interval of its length from a multiple of its length on. -/
theorem tiles_cell {d : Nat} {c lo hi : Int} (hlo : lo = c * 2 ^ d)
    (hhi : hi = lo + 2 ^ d - 1) : Tiles Cell.contains [⟨d, c⟩] lo hi := by
  apply tiles_singleton
  intro x
  have hnext : (c + 1) * 2 ^ d = c * 2 ^ d + 2 ^ d := by ring
  rw [Cell.contains_iff]
  dsimp only
  omega

theorem coverCount_pos_of_mem {cells : List Cell} {c : Cell} (h : c ∈ cells) {x : Int}
    (hx : c.contains x = true) : 0 < coverCount Cell.contains cells x :=
  List.countP_pos_iff.mpr ⟨c, h, hx⟩

/-- A cell inside `[-2^n, 2^n)` has an exponent up to `n` and an index in that range. -/
theorem Cell.bounds {c : Cell} {n : Nat}
    (h : ∀ x, c.contains x = true → -2 ^ n ≤ x ∧ x < 2 ^ n) :
    c.exponent ≤ n ∧ -2 ^ n ≤ c.index ∧ c.index < 2 ^ n := by
  have hp := two_pow_pos c.exponent
  have hn := two_pow_pos n
  have hnext : (c.index + 1) * 2 ^ c.exponent = c.index * 2 ^ c.exponent + 2 ^ c.exponent := by
    ring
  have ⟨hlo, _⟩ := h (c.index * 2 ^ c.exponent) ((c.contains_iff _).mpr (by omega))
  have ⟨_, hhi⟩ := h (c.index * 2 ^ c.exponent + 2 ^ c.exponent - 1)
    ((c.contains_iff _).mpr (by omega))
  refine ⟨?_, by nlinarith, by nlinarith⟩
  by_contra hlt
  have hbig : (2 : Int) ^ (n + 1) ≤ 2 ^ c.exponent := pow_le_pow_right₀ (by omega) (by omega)
  have hdouble : (2 : Int) ^ (n + 1) = 2 * 2 ^ n := by ring
  -- so long a cell ends at or below the bottom, or starts at or above zero
  rcases lt_or_ge c.index 0 with hneg | hnonneg
  · nlinarith
  · nlinarith

/-! ## Alignment -/

/-- `m` is a multiple of every power of two that fits into the width `w`. -/
def Aligned (m w : Int) : Prop := ∀ d : Nat, 2 ^ d ≤ w → 2 ^ d ∣ m

theorem two_pow_dvd {d e : Nat} (h : d ≤ e) : (2 : Int) ^ d ∣ 2 ^ e := pow_dvd_pow 2 h

theorem lt_of_two_pow_lt {d e : Nat} (h : (2 : Int) ^ d < 2 ^ e) : d < e := by
  by_contra hge
  have hle : (2 : Int) ^ e ≤ 2 ^ d := pow_le_pow_right₀ (by omega) (by omega)
  omega

theorem aligned_of_dvd {m w : Int} {e : Nat} (hm : 2 ^ e ∣ m) (hw : w < 2 ^ (e + 1)) :
    Aligned m w := by
  intro d hd
  have hlt : d < e + 1 := lt_of_two_pow_lt (by omega)
  exact dvd_trans (two_pow_dvd (by omega)) hm

theorem two_pow_succ (d : Nat) : (2 : Int) ^ (d + 1) = 2 * 2 ^ d := by ring

/-- A width lies between two neighbouring powers of two. -/
theorem exists_two_pow_le {w : Int} (h : 1 ≤ w) : ∃ d : Nat, 2 ^ d ≤ w ∧ w < 2 ^ (d + 1) := by
  obtain ⟨n, rfl⟩ := Int.eq_ofNat_of_zero_le (show 0 ≤ w by omega)
  have hn : n ≠ 0 := by omega
  refine ⟨n.log2, ?_, ?_⟩
  · exact_mod_cast Nat.log2_self_le hn
  · exact_mod_cast Nat.lt_log2_self

theorem not_dvd_of_between {p w : Int} (hlo : p < w) (hhi : w < 2 * p) : ¬ p ∣ w := by
  intro h
  have hdvd : p ∣ w - p := Int.dvd_sub h (Int.dvd_refl p)
  have hle := Int.le_of_dvd (by omega) hdvd
  omega

/-! ## Counting through cells -/

theorem sum_indicator (p : Int → Bool) (xs : List Int) :
    (xs.map fun x => if p x then 1 else 0).sum = xs.countP p := by
  induction xs with
  | nil => rfl
  | cons x xs ih =>
      by_cases h : p x <;> simp [h, ih, Nat.add_comm]

theorem countP_le_sum {p : Int → Bool} {f : Int → Nat} {xs : List Int}
    (h : ∀ x, p x = true → 1 ≤ f x) : xs.countP p ≤ (xs.map f).sum := by
  induction xs with
  | nil => simp
  | cons x xs ih =>
      rw [List.map_cons, List.sum_cons]
      by_cases hp : p x = true
      · have hx := h x hp
        rw [List.countP_cons_of_pos hp]
        omega
      · rw [List.countP_cons_of_neg hp]
        omega

/-- Summed over the parts, a list is counted as often as its members are covered. -/
theorem sum_countP_contains {α : Type} (contains : α → Int → Bool) (parts : List α)
    (xs : List Int) :
    (parts.map fun p => xs.countP fun x => contains p x).sum =
      (xs.map fun x => coverCount contains parts x).sum := by
  induction parts with
  | nil => simp
  | cons p parts ih =>
      have hsplit : ∀ x, coverCount contains (p :: parts) x =
          (if contains p x then 1 else 0) + coverCount contains parts x := by
        intro x
        rw [← List.singleton_append, coverCount_append, coverCount_singleton]
      simp only [List.map_cons, List.sum_cons, ih, hsplit, List.sum_map_add, sum_indicator]

end Madlib.Lib.Dyadic
