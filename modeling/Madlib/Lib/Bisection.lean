import Mathlib

/-!
# Bisection by powers of two

A search that moves its guess by `2 ^ k`, half of it, and so on down to 1, and ends early where the
target is met.  The last guess is not looked at.  Of a monotone function that meets the target the
search finds the place divisible by the largest power of two; otherwise it ends at the odd one of
the two places between which the target is passed.
-/

namespace Madlib.Lib.Bisection

variable {α : Type} {f : ℤ → α} {target : α}

/-! ## Places divisible by a large power of two -/

/-- The place where the target is met, of those the one divisible by the largest power of two. -/
def Coarsest (f : ℤ → α) (target : α) (x : ℤ) : Prop :=
  f x = target ∧ ∃ e : ℕ, 2 ^ e ∣ x ∧ ∀ y, f y = target → 2 ^ e ∣ y → y = x

theorem Coarsest.unique {x y : ℤ} (hx : Coarsest f target x) (hy : Coarsest f target y) :
    x = y := by
  have ⟨hfx, d, hdx, hdonly⟩ := hx
  have ⟨hfy, e, hey, heonly⟩ := hy
  rcases le_total d e with hle | hle
  · have hdvd : 2 ^ d ∣ y := dvd_trans (pow_dvd_pow 2 hle) hey
    exact (hdonly y hfy hdvd).symm
  · have hdvd : 2 ^ e ∣ x := dvd_trans (pow_dvd_pow 2 hle) hdx
    exact heonly x hfx hdvd

/-- The guess is the only multiple of its power of two among the places left. -/
theorem eq_of_dvd_of_near {m x y : ℤ} (hx : m ∣ x) (hy : m ∣ y) (hlo : x - m < y)
    (hhi : y < x + m) : y = x := by
  have hdvd : m ∣ y - x := dvd_sub hy hx
  have habs : |y - x| < m := by
    rw [abs_lt]
    omega
  have hzero := Int.eq_zero_of_abs_lt_dvd hdvd habs
  omega

/-- A place is the coarsest one if the width of a window around all of them divides it. -/
theorem coarsest_of_window {k : ℕ} {guess : ℤ} (hdvd : 2 ^ k ∣ guess)
    (hwindow : ∀ y, f y = target → guess - 2 ^ k < y ∧ y < guess + 2 ^ k)
    (h : f guess = target) : Coarsest f target guess := by
  refine ⟨h, k, hdvd, fun y hy hky => ?_⟩
  have ⟨hlo, hhi⟩ := hwindow y hy
  exact eq_of_dvd_of_near hdvd hky hlo hhi

variable [LinearOrder α]

/-! ## The search -/

def bisect (f : ℤ → α) (target : α) : ℕ → ℤ → ℤ
  | 0, guess => guess
  | k + 1, guess =>
      if f guess = target then guess
      else if target < f guess then bisect f target k (guess - 2 ^ k)
      else bisect f target k (guess + 2 ^ k)

/-! ## Rounds -/

theorem bisect_of_eq {k : ℕ} {guess : ℤ} (h : f guess = target) :
    bisect f target k guess = guess := by
  cases k with
  | zero => rfl
  | succ k => rw [bisect, if_pos h]

theorem bisect_of_gt {k : ℕ} {guess : ℤ} (h : target < f guess) :
    bisect f target (k + 1) guess = bisect f target k (guess - 2 ^ k) := by
  rw [bisect, if_neg (ne_of_gt h), if_pos h]

theorem bisect_of_lt {k : ℕ} {guess : ℤ} (h : f guess < target) :
    bisect f target (k + 1) guess = bisect f target k (guess + 2 ^ k) := by
  rw [bisect, if_neg (ne_of_lt h), if_neg (not_lt_of_gt h)]

theorem two_pow_halves (k : ℕ) : (2 : ℤ) ^ (k + 1) = 2 ^ k + 2 ^ k := by
  rw [pow_succ]
  ring

/-! ## Any function -/

theorem bisect_bounds (f : ℤ → α) (target : α) (k : ℕ) (guess : ℤ) :
    guess - 2 ^ k < bisect f target k guess ∧ bisect f target k guess < guess + 2 ^ k := by
  induction k generalizing guess with
  | zero => simp [bisect]
  | succ k ih =>
      have hpos : (0 : ℤ) < 2 ^ k := by positivity
      have hdouble := two_pow_halves k
      rcases lt_trichotomy (f guess) target with hlt | heq | hgt
      · rw [bisect_of_lt hlt]
        have hright := ih (guess + 2 ^ k)
        omega
      · rw [bisect_of_eq heq]
        omega
      · rw [bisect_of_gt hgt]
        have hleft := ih (guess - 2 ^ k)
        omega

/-- The search ends at the last place it can reach if every guess on the way is too low. -/
theorem bisect_eq_last_iff (f : ℤ → α) (target : α) (k : ℕ) (guess : ℤ) :
    bisect f target k guess = guess + 2 ^ k - 1 ↔
      ∀ d : ℕ, 1 ≤ d → d ≤ k → f (guess + 2 ^ k - 2 ^ d) < target := by
  induction k generalizing guess with
  | zero =>
      apply iff_of_true
      · simp [bisect]
      · intro d hone hzero
        omega
  | succ k ih =>
      have hpos : (0 : ℤ) < 2 ^ k := by positivity
      have hdouble := two_pow_halves k
      have hfirst : guess + 2 ^ (k + 1) - 2 ^ (k + 1) = guess := by ring
      rcases lt_trichotomy (f guess) target with hlt | heq | hgt
      · have hsame : guess + 2 ^ k + 2 ^ k = guess + 2 ^ (k + 1) := by omega
        rw [bisect_of_lt hlt, ← hsame, ih]
        constructor
        · intro h d hone hle
          rcases Nat.lt_or_eq_of_le hle with hd | hd
          · exact h d hone (Nat.le_of_lt_succ hd)
          · rw [hd, hsame, hfirst]
            exact hlt
        · intro h d hone hle
          exact h d hone (Nat.le_succ_of_le hle)
      · apply iff_of_false
        · rw [bisect_of_eq heq]
          omega
        · intro h
          have hlow := h (k + 1) (by omega) (le_refl _)
          rw [hfirst, heq] at hlow
          exact lt_irrefl target hlow
      · apply iff_of_false
        · rw [bisect_of_gt hgt]
          have hleft := bisect_bounds f target k (guess - 2 ^ k)
          omega
        · intro h
          have hlow := h (k + 1) (by omega) (le_refl _)
          rw [hfirst] at hlow
          exact lt_asymm hlow hgt

/-! ## Monotone functions -/

theorem dvd_move {k : ℕ} {guess : ℤ} (h : 2 ^ (k + 1) ∣ guess) :
    2 ^ k ∣ guess - 2 ^ k ∧ 2 ^ k ∣ guess + 2 ^ k := by
  have hdvd : (2 : ℤ) ^ k ∣ guess := dvd_trans (pow_dvd_pow 2 (Nat.le_succ k)) h
  exact ⟨dvd_sub hdvd (dvd_refl _), dvd_add hdvd (dvd_refl _)⟩

/-- A target that is met is found. -/
theorem bisect_coarsest (hf : Monotone f) {k : ℕ} {guess : ℤ} (hdvd : 2 ^ k ∣ guess)
    (hwindow : ∀ y, f y = target → guess - 2 ^ k < y ∧ y < guess + 2 ^ k)
    (hmet : ∃ x, f x = target) : Coarsest f target (bisect f target k guess) := by
  induction k generalizing guess with
  | zero =>
      have ⟨x, hx⟩ := hmet
      have ⟨hlo, hhi⟩ := hwindow x hx
      have heq : x = guess := by
        rw [pow_zero] at hlo hhi
        omega
      exact coarsest_of_window hdvd hwindow (heq ▸ hx)
  | succ k ih =>
      have hdouble := two_pow_halves k
      have ⟨hleft, hright⟩ := dvd_move hdvd
      rcases lt_trichotomy (f guess) target with hlt | heq | hgt
      · have habove : ∀ y, f y = target → guess < y := by
          intro y hy
          by_contra hle
          have hmono := hf (not_lt.mp hle)
          exact absurd (hy ▸ hmono) (not_le.mpr hlt)
        have hnext : ∀ y, f y = target →
            guess + 2 ^ k - 2 ^ k < y ∧ y < guess + 2 ^ k + 2 ^ k := by
          intro y hy
          have hin := hwindow y hy
          have hup := habove y hy
          omega
        rw [bisect_of_lt hlt]
        exact ih hright hnext
      · rw [bisect_of_eq heq]
        exact coarsest_of_window hdvd hwindow heq
      · have hbelow : ∀ y, f y = target → y < guess := by
          intro y hy
          by_contra hle
          have hmono := hf (not_lt.mp hle)
          exact absurd (hy ▸ hmono) (not_le.mpr hgt)
        have hnext : ∀ y, f y = target →
            guess - 2 ^ k - 2 ^ k < y ∧ y < guess - 2 ^ k + 2 ^ k := by
          intro y hy
          have hin := hwindow y hy
          have hdown := hbelow y hy
          omega
        rw [bisect_of_gt hgt]
        exact ih hleft hnext

/-- A target that is passed between two places is missed by one of them. -/
theorem bisect_passed (hf : Monotone f) {p : ℤ} (hbelow : f (p - 1) < target)
    (habove : target < f p) {k : ℕ} {guess : ℤ} (hdvd : 2 ^ k ∣ guess) (hodd : k = 0 → Odd guess)
    (hlo : guess - 2 ^ k < p) (hhi : p ≤ guess + 2 ^ k) :
    bisect f target k guess = if Odd p then p else p - 1 := by
  induction k generalizing guess with
  | zero =>
      have hguess := hodd rfl
      rw [pow_zero] at hlo hhi
      rw [bisect]
      split_ifs with hp
      · rw [Int.odd_iff] at hguess hp
        omega
      · rw [Int.odd_iff] at hguess hp
        omega
  | succ k ih =>
      have hdouble := two_pow_halves k
      have ⟨hleft, hright⟩ := dvd_move hdvd
      have heven : k = 0 → Even guess := by
        intro hk
        rw [hk, zero_add, pow_one] at hdvd
        exact even_iff_two_dvd.mpr hdvd
      rcases le_or_gt p guess with hp | hp
      · have hgt : target < f guess := lt_of_lt_of_le habove (hf hp)
        rw [bisect_of_gt hgt]
        apply ih hleft _ (by omega) (by omega)
        intro hk
        rw [hk, pow_zero]
        exact (heven hk).sub_odd odd_one
      · have hlt : f guess < target := lt_of_le_of_lt (hf (by omega)) hbelow
        rw [bisect_of_lt hlt]
        apply ih hright _ (by omega) (by omega)
        intro hk
        rw [hk, pow_zero]
        exact (heven hk).add_odd odd_one

end Madlib.Lib.Bisection
