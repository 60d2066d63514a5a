import Madlib.Backend
import Madlib.Lib.ConjugateDirections
import Madlib.Lib.Loop

/-!
# The conjugate gradient solver

The loop of `conjugate_gradient` keeps the point in a table and the residual, the direction and the
size of the residual in variables.  In exact arithmetic its passes are the steps of the method of
conjugate directions, so it is left before there are more passes than unknowns.
-/

namespace Madlib.ConjugateGradient

open Matrix Madlib.Backend Madlib.Lib.ConjugateDirections Madlib.Lib.Loop

variable {k : Nat} {α : Type} [Field α] [LinearOrder α]

/-- The row of `X_val`, and the variables. -/
structure Variables (k : Nat) (α : Type) where
  iter : Nat
  xVal : Fin k → α
  r : Fin k → α
  p : Fin k → α
  rSize : α
  exitIfNoProgessIn : Int

def residualRefresh : Nat := 30

/-- What is NULL when the loop is entered is given a value by its first pass. -/
def declared (x : Fin k → α) : Variables k α := ⟨0, x, 0, 0, 0, 15⟩

def arrayDot (u v : Fin k → α) : α := u ⬝ᵥ v

/-- `SELECT ARRAY(SELECT array_dot(val_id, ..) FROM .. ORDER BY row_id LIMIT k)`, where row `i` of
the table holds row `i` of the matrix. -/
def matrixTimes (matrix : Matrix (Fin k) (Fin k) α) (v : Fin k → α) : Fin k → α :=
  fun i => arrayDot (matrix i) v

def divide (x y : α) : Except Fault α :=
  if y = 0 then .error (.elog "division by zero") else .ok (x / y)

def failedToConverge : Fault :=
  .elog "Algorithm failed to converge. Check is input is positive definate."

omit [LinearOrder α] in
theorem matrixTimes_eq (A : Matrix (Fin k) (Fin k) α) (v : Fin k → α) :
    matrixTimes A v = A *ᵥ v := rfl

theorem divide_ok {u v : α} (h : v ≠ 0) : divide u v = .ok (u / v) := if_neg h

section Loop

variable (matrix : Matrix (Fin k) (Fin k) α) (b : Fin k → α) (precisionLimit : α)

/-- The statements under `iter%recidual_refresh = 0`. -/
def refresh (s : Variables k α) : Variables k α :=
  if s.iter % residualRefresh = 0 then
    let r := b - matrixTimes matrix s.xVal
    { s with r := r, rSize := arrayDot r r, p := r }
  else s

/-- The statements behind the test for the exit. -/
def turnDirection (s : Variables k α) (x r : Fin k → α) (rNewSize : α) :
    Except Fault (Step (Variables k α) ((Fin k → α) × α)) := do
  let beta ← divide rNewSize s.rSize
  let t := { s with iter := s.iter + 1, xVal := x, r := r, p := r + beta • s.p, rSize := rNewSize }
  if s.rSize < rNewSize then
    if s.exitIfNoProgessIn - 1 ≤ 0 then .error failedToConverge
    else .ok (.next { t with exitIfNoProgessIn := s.exitIfNoProgessIn - 1 })
  else .ok (.next { t with exitIfNoProgessIn := 15 })

/-- The statements behind the refresh; the loop is left with the point and the size of its
residual. -/
def pass (s : Variables k α) : Except Fault (Step (Variables k α) ((Fin k → α) × α)) := do
  let ap := matrixTimes matrix s.p
  let alpha ← divide s.rSize (arrayDot s.p ap)
  let x := s.xVal + alpha • s.p
  let r := s.r + (-alpha) • ap
  let rNewSize := arrayDot r r
  if rNewSize < precisionLimit then
    let r := b - matrixTimes matrix x
    let rNewSize := arrayDot r r
    if rNewSize < precisionLimit then .ok (.done (x, rNewSize))
    else turnDirection s x r rNewSize
  else turnDirection s x r rNewSize

def loopBody (s : Variables k α) : Except Fault (Step (Variables k α) ((Fin k → α) × α)) :=
  pass matrix b precisionLimit (refresh matrix b s)

/-- `conjugate_gradient`, with the point the table is filled with; `none` when the loop has not
been left after that many passes. -/
def conjugateGradient (passes : Nat) (verbosity : Int) (x : Fin k → α) :
    Option (Except Fault (List α)) :=
  (run (loopBody matrix b precisionLimit) passes (declared x)).map fun out =>
    out.map fun left => if 1 < verbosity then [left.2] else List.ofFn left.1

/-- The variables at the top of a pass, the residual being computed. -/
inductive TopOfPass (x : Fin k → α) : Nat → Variables k α → Prop where
  | first : TopOfPass x 0 (refresh matrix b (declared x))
  | next {n : Nat} {s t : Variables k α} (h : TopOfPass x n s)
      (hpass : pass matrix b precisionLimit s = .ok (.next t)) :
      TopOfPass x (n + 1) (refresh matrix b t)

/-- The pass ends with a longer residual than it starts with. -/
def Grows (s : Variables k α) : Prop :=
  let r := s.r + (-(s.rSize / arrayDot s.p (matrixTimes matrix s.p))) • matrixTimes matrix s.p
  arrayDot s.r s.r < arrayDot r r

end Loop

/-! ## Passes are steps -/

variable {A : Matrix (Fin k) (Fin k) α} {b x : Fin k → α} {precisionLimit : α} {n : Nat}

/-- How many of the last steps have made the residual longer. -/
def streak (A : Matrix (Fin k) (Fin k) α) (b x : Fin k → α) : Nat → Nat
  | 0 => 0
  | n + 1 =>
      if arrayDot (iterate A b x n).r (iterate A b x n).r <
          arrayDot (iterate A b x (n + 1)).r (iterate A b x (n + 1)).r then
        streak A b x n + 1
      else 0

/-- The variables at the top of a pass are those of the method. -/
structure AtTop (A : Matrix (Fin k) (Fin k) α) (b x : Fin k → α) (n : Nat) (s : Variables k α) :
    Prop where
  iter : s.iter = n
  xVal : s.xVal = (iterate A b x n).x
  r : s.r = (iterate A b x n).r
  p : s.p = (iterate A b x n).p
  rSize : s.rSize = arrayDot (iterate A b x n).r (iterate A b x n).r
  exitIfNoProgessIn : s.exitIfNoProgessIn = 15 - streak A b x n
  streak_lt : streak A b x n < 15
  ne_zero : ∀ i ≤ n, (iterate A b x i).r ≠ 0

/-- The last steps of a streak make the residual longer. -/
theorem grows_of_streak {i : Nat} (hi : i < n) (h : n ≤ i + streak A b x n) :
    arrayDot (iterate A b x i).r (iterate A b x i).r <
      arrayDot (iterate A b x (i + 1)).r (iterate A b x (i + 1)).r := by
  induction n with
  | zero => omega
  | succ n ih =>
      rw [streak] at h
      split_ifs at h with hgrows
      · rcases Nat.lt_succ_iff_lt_or_eq.mp hi with hlt | rfl
        · exact ih hlt (by omega)
        · exact hgrows
      · omega

theorem streak_le (A : Matrix (Fin k) (Fin k) α) (b x : Fin k → α) (n : Nat) :
    streak A b x n ≤ n := by
  induction n with
  | zero => exact le_refl 0
  | succ n ih =>
      rw [streak]
      split_ifs
      · omega
      · omega

theorem atTop_first (h : A *ᵥ x ≠ b) : AtTop A b x 0 (refresh A b (declared x)) where
  iter := rfl
  xVal := rfl
  r := rfl
  p := rfl
  rSize := rfl
  exitIfNoProgessIn := rfl
  streak_lt := by simp [streak]
  ne_zero i hi := by
    obtain rfl : i = 0 := by omega
    intro hzero
    exact h (sub_eq_zero.mp hzero).symm

/-- Within the first thirty passes the residual is computed once. -/
theorem AtTop.refresh_eq {t : Variables k α} (h : AtTop A b x (n + 1) t) (hn : n + 1 < 30) :
    refresh A b t = t := by
  have hiter := h.iter
  unfold refresh residualRefresh
  rw [if_neg (by omega)]

variable {s : Variables k α}

theorem AtTop.grows_iff (h : AtTop A b x n s) :
    Grows A s ↔ arrayDot (iterate A b x n).r (iterate A b x n).r <
      arrayDot (iterate A b x (n + 1)).r (iterate A b x (n + 1)).r := by
  have hr : s.r + (-(s.rSize / arrayDot s.p (matrixTimes A s.p))) • matrixTimes A s.p =
      (iterate A b x (n + 1)).r := by
    rw [h.r, h.rSize, h.p, neg_smul, ← sub_eq_add_neg]
    rfl
  unfold Grows
  rw [hr, h.r]

theorem TopOfPass.exists_le (h : TopOfPass A b precisionLimit x n s) {m : Nat} (hm : m ≤ n) :
    ∃ t, TopOfPass A b precisionLimit x m t := by
  induction h with
  | first =>
      obtain rfl : m = 0 := by omega
      exact ⟨_, .first⟩
  | next h hpass ih =>
      rcases Nat.lt_or_eq_of_le hm with hlt | rfl
      · exact ih (by omega)
      · exact ⟨_, .next h hpass⟩

section Ordered

variable [IsStrictOrderedRing α]

theorem AtTop.rSize_ne_zero (h : AtTop A b x n s) : s.rSize ≠ 0 := by
  rw [h.rSize]
  exact fun h0 => h.ne_zero n (le_refl n) (dotProduct_self_eq_zero.mp h0)

/-- What a pass computes of the next step. -/
theorem AtTop.pass_eq (hA : PositiveDefinite A) (h : AtTop A b x n s) :
    pass A b precisionLimit s =
      let next := iterate A b x (n + 1)
      if arrayDot next.r next.r < precisionLimit then
        .ok (.done (next.x, arrayDot next.r next.r))
      else turnDirection s next.x next.r (arrayDot next.r next.r) := by
  have hconj := conjugate_of_ne_zero hA fun i hi => h.ne_zero i (le_of_lt hi)
  have hpos := hconj.curvature_pos hA (h.ne_zero n (le_refl n))
  have hresidual := iterate_residual A b x (n + 1)
  have hp : arrayDot s.p (matrixTimes A s.p) =
      (iterate A b x n).p ⬝ᵥ A *ᵥ (iterate A b x n).p := by
    rw [h.p]
    rfl
  have hx : s.xVal + (s.rSize / ((iterate A b x n).p ⬝ᵥ A *ᵥ (iterate A b x n).p)) • s.p =
      (iterate A b x (n + 1)).x := by
    rw [h.xVal, h.rSize, h.p]
    rfl
  have hr : s.r + (-(s.rSize / ((iterate A b x n).p ⬝ᵥ A *ᵥ (iterate A b x n).p))) •
      matrixTimes A s.p = (iterate A b x (n + 1)).r := by
    rw [h.r, h.rSize, h.p, neg_smul, ← sub_eq_add_neg]
    rfl
  unfold pass
  simp only [hp, divide_ok hpos.ne', ok_bind, hx, hr]
  rw [matrixTimes_eq, ← hresidual]
  split_ifs
  · rfl
  · rfl

/-- A pass that is not the last one turns to the next direction, or gives up. -/
theorem AtTop.turnDirection_eq (h : AtTop A b x n s) :
    (∃ t, turnDirection s (iterate A b x (n + 1)).x (iterate A b x (n + 1)).r
        (arrayDot (iterate A b x (n + 1)).r (iterate A b x (n + 1)).r) = .ok (.next t) ∧
      t.iter = n + 1 ∧ ((iterate A b x (n + 1)).r ≠ 0 → AtTop A b x (n + 1) t)) ∨
    turnDirection s (iterate A b x (n + 1)).x (iterate A b x (n + 1)).r
        (arrayDot (iterate A b x (n + 1)).r (iterate A b x (n + 1)).r) = .error failedToConverge ∧
      15 ≤ streak A b x (n + 1) := by
  have hne : ∀ i ≤ n + 1, (iterate A b x (n + 1)).r ≠ 0 → (iterate A b x i).r ≠ 0 := by
    intro i hi hlast
    rcases Nat.lt_or_ge n i with hlt | hge
    · obtain rfl : i = n + 1 := by omega
      exact hlast
    · exact h.ne_zero i hge
  have hp : (iterate A b x (n + 1)).r +
      (arrayDot (iterate A b x (n + 1)).r (iterate A b x (n + 1)).r / s.rSize) • s.p =
        (iterate A b x (n + 1)).p := by
    rw [h.p, h.rSize]
    rfl
  have hstreak : streak A b x (n + 1) =
      if s.rSize < arrayDot (iterate A b x (n + 1)).r (iterate A b x (n + 1)).r then
        streak A b x n + 1
      else 0 := by
    rw [streak, h.rSize]
  have hcount := h.exitIfNoProgessIn
  have hiter := h.iter
  unfold turnDirection
  rw [divide_ok h.rSize_ne_zero, ok_bind, hp]
  split_ifs at hstreak ⊢ with hgrows hlast
  · exact .inr ⟨rfl, by omega⟩
  · refine .inl ⟨_, rfl, by simp [hiter], fun hr => ?_⟩
    exact ⟨by simp [hiter], rfl, rfl, rfl, rfl, by simp only; omega, by omega,
      fun i hi => hne i hi hr⟩
  · refine .inl ⟨_, rfl, by simp [hiter], fun hr => ?_⟩
    exact ⟨by simp [hiter], rfl, rfl, rfl, rfl, by simp only; omega, by omega,
      fun i hi => hne i hi hr⟩

/-- There is a pass for each residual other than zero, so fewer than unknowns are behind. -/
theorem AtTop.lt (hA : PositiveDefinite A) (h : AtTop A b x n s) : n < k := by
  have hle := le_card_of_ne_zero (n := n + 1) hA fun i hi => h.ne_zero i (by omega)
  rwa [Fintype.card_fin] at hle

/-- The ends of a pass. -/
theorem AtTop.step (hk : k ≤ 30) (hA : PositiveDefinite A) (hlimit : 0 < precisionLimit)
    (h : AtTop A b x n s) :
    (∃ t, pass A b precisionLimit s = .ok (.next t) ∧ refresh A b t = t ∧
      AtTop A b x (n + 1) t) ∨
    (pass A b precisionLimit s = .ok (.done ((iterate A b x (n + 1)).x,
        arrayDot (iterate A b x (n + 1)).r (iterate A b x (n + 1)).r)) ∧
      arrayDot (iterate A b x (n + 1)).r (iterate A b x (n + 1)).r < precisionLimit) ∨
    pass A b precisionLimit s = .error failedToConverge ∧ 15 ≤ streak A b x (n + 1) := by
  rw [h.pass_eq hA]
  dsimp only
  split_ifs with hlast
  · exact .inr (.inl ⟨rfl, hlast⟩)
  · rcases h.turnDirection_eq with ⟨t, ht, hiter, hnext⟩ | hgivesUp
    · have hr : (iterate A b x (n + 1)).r ≠ 0 := by
        intro hzero
        rw [hzero, arrayDot, zero_dotProduct] at hlast
        exact hlast hlimit
      have htop := hnext hr
      exact .inl ⟨t, ht, htop.refresh_eq ((htop.lt hA).trans_le hk), htop⟩
    · exact .inr (.inr hgivesUp)

/-! ## Runs -/

theorem TopOfPass.atTop (hk : k ≤ 30) (hA : PositiveDefinite A) (hlimit : 0 < precisionLimit)
    (hx : A *ᵥ x ≠ b) (h : TopOfPass A b precisionLimit x n s) : AtTop A b x n s := by
  induction h with
  | first => exact atTop_first hx
  | next h hpass ih =>
      rcases ih.step hk hA hlimit with ⟨t, ht, hrefresh, htop⟩ | ⟨ht, -⟩ | ⟨ht, -⟩
      · cases hpass.symm.trans ht
        rwa [hrefresh]
      · cases hpass.symm.trans ht
      · cases hpass.symm.trans ht

/-- The exception comes behind fifteen passes in a row that make the residual longer. -/
def NoProgress (A : Matrix (Fin k) (Fin k) α) (b : Fin k → α) (precisionLimit : α)
    (x : Fin k → α) : Prop :=
  ∃ m, ∀ i < 15, ∃ s, TopOfPass A b precisionLimit x (m + i) s ∧ Grows A s

theorem TopOfPass.noProgress (hk : k ≤ 30) (hA : PositiveDefinite A) (hlimit : 0 < precisionLimit)
    (hx : A *ᵥ x ≠ b) (h : TopOfPass A b precisionLimit x n s)
    (hstreak : 15 ≤ streak A b x (n + 1)) : NoProgress A b precisionLimit x := by
  have hle := streak_le A b x (n + 1)
  refine ⟨n + 1 - 15, fun i hi => ?_⟩
  obtain ⟨t, ht⟩ := h.exists_le (show n + 1 - 15 + i ≤ n by omega)
  refine ⟨t, ht, (ht.atTop hk hA hlimit hx).grows_iff.mpr ?_⟩
  exact grows_of_streak (n := n + 1) (by omega) (by omega)

/-- From the top of a pass the loop is left within the passes that remain. -/
theorem TopOfPass.run (hk : k ≤ 30) (hA : PositiveDefinite A) (hlimit : 0 < precisionLimit)
    (hx : A *ᵥ x ≠ b) {u : Variables k α} (hu : refresh A b u = s)
    (h : TopOfPass A b precisionLimit x n s) {passes : Nat} (hpasses : k = n + passes) :
    ∃ out, Lib.Loop.run (loopBody A b precisionLimit) passes u = some out ∧
      Ends (fun e => e = failedToConverge ∧ NoProgress A b precisionLimit x)
        (fun left => left.2 = arrayDot (b - A *ᵥ left.1) (b - A *ᵥ left.1) ∧
          left.2 < precisionLimit) out := by
  have htop := h.atTop hk hA hlimit hx
  have hlt := htop.lt hA
  induction passes generalizing n s u with
  | zero => omega
  | succ passes ih =>
      have hbody : loopBody A b precisionLimit u = pass A b precisionLimit s := by
        rw [loopBody, hu]
      rw [Lib.Loop.run, hbody]
      rcases htop.step hk hA hlimit with ⟨t, ht, hrefresh, htop'⟩ | ⟨ht, hsmall⟩ | ⟨ht, hstreak⟩
      · have hnext := TopOfPass.next h ht
        rw [hrefresh] at hnext
        rw [ht]
        exact ih hrefresh hnext (by omega) htop' (htop'.lt hA)
      · rw [ht]
        refine ⟨_, rfl, ?_, hsmall⟩
        rw [← iterate_residual]
      · rw [ht]
        exact ⟨_, rfl, rfl, h.noProgress hk hA hlimit hx hstreak⟩

theorem TopOfPass.orthogonal (hk : k ≤ 30) (hA : PositiveDefinite A) (hlimit : 0 < precisionLimit)
    (hx : A *ᵥ x ≠ b) {m : Nat} {t : Variables k α} (hs : TopOfPass A b precisionLimit x m s)
    (ht : TopOfPass A b precisionLimit x n t) (hlt : m < n) :
    arrayDot s.r t.r = 0 ∧ arrayDot s.p (A *ᵥ t.p) = 0 := by
  have htop := hs.atTop hk hA hlimit hx
  have htop' := ht.atTop hk hA hlimit hx
  have hconj := conjugate_of_ne_zero hA fun i hi => htop'.ne_zero i (le_of_lt hi)
  rw [htop.r, htop'.r, htop.p, htop'.p]
  exact ⟨hconj.residuals m n hlt (le_refl n), hconj.directions m n hlt (le_refl n)⟩

/-- The solver is right when it returns, and is left within as many passes as unknowns. -/
theorem conjugateGradient_solves (hk : k ≤ 30) (hA : PositiveDefinite A)
    (hlimit : 0 < precisionLimit) (hx : A *ᵥ x ≠ b) (verbosity : Int) :
    (∀ n s, TopOfPass A b precisionLimit x n s → s.r = b - A *ᵥ s.xVal) ∧
    (∀ m n s t, TopOfPass A b precisionLimit x m s → TopOfPass A b precisionLimit x n t → m ≠ n →
      arrayDot s.r t.r = 0 ∧ arrayDot s.p (A *ᵥ t.p) = 0) ∧
    ∃ out, conjugateGradient A b precisionLimit k verbosity x = some out ∧
      Ends (fun e => e = failedToConverge ∧ NoProgress A b precisionLimit x)
        (fun result => ∃ y, arrayDot (b - A *ᵥ y) (b - A *ᵥ y) < precisionLimit ∧
          result = if 1 < verbosity then [arrayDot (b - A *ᵥ y) (b - A *ᵥ y)] else List.ofFn y)
        out := by
  refine ⟨?_, ?_, ?_⟩
  · intro n s hs
    have htop := hs.atTop hk hA hlimit hx
    rw [htop.r, htop.xVal]
    exact iterate_residual A b x n
  · intro m n s t hs ht hmn
    rcases Nat.lt_or_gt_of_ne hmn with hlt | hgt
    · exact hs.orthogonal hk hA hlimit hx ht hlt
    · obtain ⟨hr, hp⟩ := ht.orthogonal hk hA hlimit hx hs hgt
      rw [arrayDot, dotProduct_comm, arrayDot, hA.comm]
      exact ⟨hr, hp⟩
  · obtain ⟨out, hrun, hends⟩ := TopOfPass.run hk hA hlimit hx rfl .first (Nat.zero_add k).symm
    rw [conjugateGradient, hrun]
    refine ⟨_, rfl, ?_⟩
    cases out with
    | error e => exact hends
    | ok left =>
        obtain ⟨y, size⟩ := left
        obtain ⟨hsize, hsmall⟩ := hends
        dsimp only at hsize hsmall
        subst hsize
        exact ⟨y, hsmall, rfl⟩

end Ordered

/-- A system with two unknowns. -/
theorem conjugateGradient_solves_two :
    ∃ out, conjugateGradient !![(2 : ℚ), 1; 1, 2] ![1, 0] (1 / 100) 2 0 ![0, 0] = some out ∧
      Ends (fun e => e = failedToConverge ∧
          NoProgress !![(2 : ℚ), 1; 1, 2] ![1, 0] (1 / 100) ![0, 0])
        (fun result => ∃ y, arrayDot (![1, 0] - !![(2 : ℚ), 1; 1, 2] *ᵥ y)
            (![1, 0] - !![(2 : ℚ), 1; 1, 2] *ᵥ y) < 1 / 100 ∧
          result = if 1 < (0 : Int) then
            [arrayDot (![1, 0] - !![(2 : ℚ), 1; 1, 2] *ᵥ y) (![1, 0] - !![(2 : ℚ), 1; 1, 2] *ᵥ y)]
          else List.ofFn y) out := by
  refine (conjugateGradient_solves (by decide) ⟨?_, ?_⟩ (by norm_num) ?_ 0).2.2
  · ext i j
    fin_cases i <;> fin_cases j <;> rfl
  · intro v hv
    have hform : v ⬝ᵥ !![(2 : ℚ), 1; 1, 2] *ᵥ v = v ⬝ᵥ v + (v 0 + v 1) * (v 0 + v 1) := by
      simp [dotProduct, mulVec, Fin.sum_univ_two]
      ring
    have hself : 0 < v ⬝ᵥ v := by
      have hne : v ⬝ᵥ v ≠ 0 := fun h0 => hv (dotProduct_self_eq_zero.mp h0)
      exact lt_of_le_of_ne (Finset.sum_nonneg fun i _ => mul_self_nonneg (v i)) hne.symm
    rw [hform]
    exact add_pos_of_pos_of_nonneg hself (mul_self_nonneg _)
  · intro h
    have hfirst := congrFun h 0
    simp at hfirst

end Madlib.ConjugateGradient
