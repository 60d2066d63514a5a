import Madlib.Lib.Triangular
import Madlib.Regress.LogisticSums

/-!
# The conjugate-gradient step

The final function updates the direction and the coefficients.  Rows add to the lower triangle of
`X_transp_AX`; the final function multiplies with all of it.
-/

namespace Madlib.Regress

open Madlib.Backend Madlib.Dbal Madlib.Lib.MachineInt Madlib.Lib.Segments Madlib.Lib.Triangular

section Definitions

variable {α : Type} [Field α] [LinearOrder α] [FloorRing α]

/-- A quotient of doubles, if it is finite. -/
def quotient (a b : α) : Option α := if b = 0 then none else some (a / b)

/-- A number divided by one that is not negative is negative, with an infinite quotient too. -/
def negativeQuotient (a b : α) : Bool := if b = 0 then a < 0 else a / b < 0

def cgNoSolution : Fault :=
  thrown ("Over- or underflow in conjugate-gradient step, while updating coefficients. Input data " ++
    "is likely of poor numerical condition.")

/-- The direction of the first iteration is the gradient. -/
def cgFirstDirection (storage : List α) (w : Nat) : Except Fault (List α) := do
  let gradNew ← mapAt storage (intIndex (4 + 3 * w)) w
  let storage ← mapAssign storage (intIndex (2 + w)) gradNew
  mapAssign storage (intIndex (2 + 2 * w)) gradNew

/-- The direction of a later iteration.  A direction that is not finite makes every coefficient
not finite. -/
def cgNextDirection (storage : List α) (w : Nat) : Except Fault (List α) := do
  let gradNew ← mapAt storage (intIndex (4 + 3 * w)) w
  let grad ← mapAt storage (intIndex (2 + 2 * w)) w
  let dir ← mapAt storage (intIndex (2 + w)) w
  let gradNewMinusGrad := List.zipWith (fun a b => a - b) gradNew grad
  let newByDifference ← dot gradNew gradNewMinusGrad
  let dirByDifference ← dot dir gradNewMinusGrad
  let gradByGrad ← dot grad grad
  let beta := if negativeQuotient newByDifference gradByGrad then some 0
    else quotient newByDifference dirByDifference
  match beta with
  | none => .error cgNoSolution
  | some beta => do
      let storage := storage.set (intIndex (2 + 3 * w)) beta
      let storage ← mapAssign storage (intIndex (2 + w))
        (List.zipWith (fun a b => a - beta * b) gradNew dir)
      mapAssign storage (intIndex (2 + 2 * w)) gradNew

/-- The direction of either kind of iteration. -/
def cgSetDirection (iteration : α) (storage : List α) (w : Nat) : Except Fault (List α) :=
  if iteration = 0 then cgFirstDirection storage w else cgNextDirection storage w

/-- The coefficients move along the direction. -/
def cgMoveCoef (storage : List α) (w : Nat) : Except Fault (List α) := do
  let grad ← mapAt storage (intIndex (2 + 2 * w)) w
  let dir ← mapAt storage (intIndex (2 + w)) w
  let xTranspAX ← mapAt storage (intIndex (4 + 4 * w)) (w * w)
  let gradByDir ← dot grad dir
  let curvature := quadraticForm w (fun i j => xTranspAX.getD (j * w + i) 0)
    fun i => dir.getD i 0
  match quotient gradByDir curvature with
  | none => .error cgNoSolution
  | some alpha => do
      let coef ← mapAt storage 2 w
      mapAssign storage 2 (List.zipWith (fun a b => a + alpha * b) coef dir)

/-- `logregr_cg_step_final`, for states of at least one coefficient. -/
def logregrCGStepFinal (storage : List α) : Except Fault (Option (List α)) := do
  let w ← logRegrCGLayout.construct storage
  let numRows ← elementAt storage (logRegrCGLayout.numRows w)
  if numRows = 0 then pure none
  else do
    let iteration ← elementAt storage 0
    let storage ← cgSetDirection iteration storage w
    let storage ← cgMoveCoef storage w
    pure (some (storage.set 0 (iteration + 1)))

end Definitions

/-! ## The documented update -/

section Update

variable {α : Type} [Field α]

/-- The scalar product of two vectors. -/
def scalarProduct (x y : List α) : α := (List.zipWith (fun a b => a * b) x y).sum

def difference (x y : List α) : List α := List.zipWith (fun a b => a - b) x y

/-- The fields of a state of width `w`. -/
structure CGFields (w : Nat) (storage : List α) (iteration : α) (coef dir grad gradNew : List α) :
    Prop where
  iteration_eq : storage[0]? = some iteration
  coef_eq : (storage.drop 2).take w = coef
  dir_eq : (storage.drop (2 + w)).take w = dir
  grad_eq : (storage.drop (2 + 2 * w)).take w = grad
  gradNew_eq : (storage.drop (4 + 3 * w)).take w = gradNew

/-- Two steps along a direction that is not zero lead to the same place only if they agree. -/
theorem zipWith_step_iff {coef direction : List α} (hlength : coef.length = direction.length)
    {a b : α} (hne : ∃ i, i < direction.length ∧ direction.getD i 0 ≠ 0) :
    List.zipWith (fun c d => c + a * d) coef direction =
      List.zipWith (fun c d => c + b * d) coef direction ↔ a = b := by
  constructor
  · intro heq
    have ⟨i, hi, hd⟩ := hne
    have hentry := congrArg (fun l : List α => l[i]?) heq
    rw [List.getD_eq_getElem _ _ hi] at hd
    simp only [List.getElem?_zipWith, List.getElem?_eq_getElem hi,
      List.getElem?_eq_getElem (hlength ▸ hi : i < coef.length), Option.some.injEq] at hentry
    exact mul_right_cancel₀ hd (add_left_cancel hentry)
  · intro hab
    rw [hab]

variable [LinearOrder α]

/-- The direction `d` of the update. -/
def cgDirection (iteration : α) (dir grad gradNew : List α) : List α :=
  if iteration = 0 then gradNew
  else
    let change := difference gradNew grad
    let beta := if scalarProduct gradNew change / scalarProduct grad grad < 0 then 0
      else scalarProduct gradNew change / scalarProduct dir change
    List.zipWith (fun a b => a - beta * b) gradNew dir

/-- The quotients of the update have denominators other than zero. -/
def CGDenominators (iteration : α) (dir grad gradNew : List α) (curvature : α) : Prop :=
  curvature ≠ 0 ∧ (iteration ≠ 0 → scalarProduct dir (difference gradNew grad) ≠ 0 ∧
    scalarProduct grad grad ≠ 0)

/-- What the final function makes of a state: `d` and the gradient are stored, the coefficients
have moved along `d`, the iteration is the next one. -/
def CGUpdated (w : Nat) (iteration : α) (coef dir grad gradNew : List α) (curvature : α)
    (storage : List α) : Prop :=
  let direction := cgDirection iteration dir grad gradNew
  CGFields w storage (iteration + 1)
    (List.zipWith (fun c d => c + scalarProduct gradNew direction / curvature * d) coef direction)
    direction gradNew gradNew

end Update

/-! ## Assigning to fields -/

section Assign

variable {α : Type} [Zero α]

/-- A field that is assigned has the new elements, the others are as before. -/
theorem mapAssign_spec (storage : List α) (offset : Nat) (values : List α)
    (h : offset + values.length ≤ storage.length) :
    ∃ storage', mapAssign storage offset values = .ok storage' ∧
      storage'.length = storage.length ∧ (storage'.drop offset).take values.length = values ∧
      ∀ k, k < offset ∨ offset + values.length ≤ k → storage'[k]? = storage[k]? := by
  refine ⟨_, mapAssign_ok h, List.length_mapIdx, ?_, fun k hk => ?_⟩
  · apply List.ext_getElem?
    intro i
    rw [getElem?_mapElements]
    by_cases hi : i < values.length
    · rw [if_pos hi, List.getElem?_mapIdx, List.getElem?_eq_getElem (by omega), Option.map_some,
        if_pos (by omega), Nat.add_sub_cancel_left, List.getD_eq_getElem _ _ hi,
        List.getElem?_eq_getElem hi]
    · rw [if_neg hi, List.getElem?_eq_none (Nat.le_of_not_lt hi)]
  · rw [List.getElem?_mapIdx]
    have hout : ¬(offset ≤ k ∧ k < offset + values.length) := by omega
    simp only [if_neg hout, Option.map_id']

theorem length_mapElements {α : Type} {storage : List α} {offset n : Nat}
    (h : offset + n ≤ storage.length) : ((storage.drop offset).take n).length = n := by
  rw [List.length_take, List.length_drop]
  omega

/-- The vectors of a state have its width. -/
theorem CGFields.lengths {α : Type} [Field α] {w : Nat} {storage : List α} {iteration : α}
    {coef dir grad gradNew : List α} (h : CGFields w storage iteration coef dir grad gradNew)
    (hlength : storage.length = logRegrCGLength w) :
    coef.length = w ∧ dir.length = w ∧ grad.length = w ∧ gradNew.length = w := by
  unfold logRegrCGLength at hlength
  rw [← h.coef_eq, ← h.dir_eq, ← h.grad_eq, ← h.gradNew_eq]
  exact ⟨length_mapElements (by omega), length_mapElements (by omega),
    length_mapElements (by omega), length_mapElements (by omega)⟩

theorem length_cgDirection {α : Type} [Field α] [LinearOrder α] {w : Nat} {iteration : α}
    {dir grad gradNew : List α} (hdir : dir.length = w) (hgradNew : gradNew.length = w) :
    (cgDirection iteration dir grad gradNew).length = w := by
  unfold cgDirection
  split
  · exact hgradNew
  · rw [List.length_zipWith, hgradNew, hdir, Nat.min_self]

end Assign

/-! ## The new direction -/

section Direction

variable {α : Type} [Field α] [LinearOrder α] {w : Nat} {storage storage' : List α}
  {iteration : α} {coef dir grad gradNew direction : List α}

/-- The direction and the gradient were set, and nothing else but beta. -/
structure DirectionSet (w : Nat) (storage : List α) (direction gradNew storage' : List α) :
    Prop where
  length_eq : storage'.length = storage.length
  dir_eq : (storage'.drop (2 + w)).take w = direction
  grad_eq : (storage'.drop (2 + 2 * w)).take w = gradNew
  keeps : ∀ k, k < 2 + w ∨ 3 + 3 * w ≤ k → storage'[k]? = storage[k]?

omit [Field α] [LinearOrder α] in
/-- The two assignments both kinds of iteration end with. -/
theorem directionSet_of_assign [Zero α] (storage : List α)
    (hlength : storage.length = logRegrCGLength w) (hdir : direction.length = w) (hgrad : gradNew.length = w) :
    ∃ storage', (do
        let storage ← mapAssign storage (2 + w) direction
        mapAssign storage (2 + 2 * w) gradNew) = .ok storage' ∧
      DirectionSet w storage direction gradNew storage' := by
  unfold logRegrCGLength at hlength
  have ⟨s, hs, hslength, hsdir, hskeeps⟩ :=
    mapAssign_spec storage (2 + w) direction (by omega)
  have ⟨s', hs', hslength', hsgrad, hskeeps'⟩ :=
    mapAssign_spec s (2 + 2 * w) gradNew (by omega)
  rw [hdir] at hsdir hskeeps
  rw [hgrad] at hsgrad hskeeps'
  refine ⟨s', by rw [hs, ok_bind, hs'], hslength'.trans hslength, ?_, hsgrad, fun k hk => ?_⟩
  · rw [← hsdir]
    apply mapElements_congr
    intro k _ hk
    exact hskeeps' k (by omega)
  · rw [hskeeps' k (by omega), hskeeps k (by omega)]

omit [LinearOrder α] in
theorem cgFirstDirection_ok (hfits : logRegrCGLayout.Fits w (logRegrCGLength w))
    (hlength : storage.length = logRegrCGLength w)
    (h : CGFields w storage iteration coef dir grad gradNew) :
    ∃ storage', cgFirstDirection storage w = .ok storage' ∧
      DirectionSet w storage gradNew gradNew storage' := by
  have hmax : maxAllocSize = 1073741823 := rfl
  have halloc := hfits.allocates
  have hlen : storage.length = 5 + w * w + 4 * w := hlength
  unfold logRegrCGLength at halloc
  have ⟨_, _, _, hgradNew⟩ := h.lengths hlength
  unfold cgFirstDirection
  simp (disch := omega) only [intIndex_of_lt]
  rw [mapAt_ok (by omega), ok_bind, h.gradNew_eq]
  exact directionSet_of_assign storage hlength hgradNew hgradNew

/-- With denominators other than zero the tests and quotients are those of the update. -/
theorem cgNextDirection_ok (hfits : logRegrCGLayout.Fits w (logRegrCGLength w))
    (hlength : storage.length = logRegrCGLength w)
    (h : CGFields w storage iteration coef dir grad gradNew) (hiteration : iteration ≠ 0)
    (hdenominator : scalarProduct dir (difference gradNew grad) ≠ 0)
    (hsquare : scalarProduct grad grad ≠ 0) :
    ∃ storage', cgNextDirection storage w = .ok storage' ∧
      DirectionSet w storage (cgDirection iteration dir grad gradNew) gradNew storage' := by
  have hmax : maxAllocSize = 1073741823 := rfl
  have halloc := hfits.allocates
  have hlen : storage.length = 5 + w * w + 4 * w := hlength
  unfold logRegrCGLength at halloc
  have ⟨_, hdir, hgrad, hgradNew⟩ := h.lengths hlength
  have hchange : (difference gradNew grad).length = w := by
    rw [difference, List.length_zipWith, hgradNew, hgrad, Nat.min_self]
  have ⟨beta, hbeta, hdirection⟩ : ∃ beta,
      (if negativeQuotient (scalarProduct gradNew (difference gradNew grad))
          (scalarProduct grad grad) then some 0
        else quotient (scalarProduct gradNew (difference gradNew grad))
          (scalarProduct dir (difference gradNew grad))) = some beta ∧
      cgDirection iteration dir grad gradNew =
        List.zipWith (fun a b => a - beta * b) gradNew dir := by
    refine ⟨_, ?_, if_neg hiteration⟩
    unfold negativeQuotient quotient
    simp only [if_neg hdenominator, if_neg hsquare, decide_eq_true_eq]
    split <;> rfl
  unfold cgNextDirection
  simp (disch := omega) only [intIndex_of_lt]
  rw [mapAt_ok (by omega), ok_bind, h.gradNew_eq, mapAt_ok (by omega), ok_bind, h.grad_eq,
    mapAt_ok (by omega), ok_bind, h.dir_eq,
    show List.zipWith (fun a b => a - b) gradNew grad = difference gradNew grad from rfl,
    dot_ok (hgradNew.trans hchange.symm), ok_bind, dot_ok (hdir.trans hchange.symm), ok_bind,
    dot_ok rfl, ok_bind]
  change ∃ storage', (match (if negativeQuotient (scalarProduct gradNew (difference gradNew grad))
        (scalarProduct grad grad) then some 0
      else quotient (scalarProduct gradNew (difference gradNew grad))
        (scalarProduct dir (difference gradNew grad))) with
    | none => Except.error cgNoSolution
    | some beta => do
        let storage ← mapAssign (storage.set (2 + 3 * w) beta) (2 + w)
          (List.zipWith (fun a b => a - beta * b) gradNew dir)
        mapAssign storage (2 + 2 * w) gradNew) = .ok storage' ∧ _
  rw [hbeta]
  dsimp only
  rw [← hdirection]
  have hlengthDirection : (cgDirection iteration dir grad gradNew).length = w :=
    length_cgDirection hdir hgradNew
  have ⟨storage', hassign, hset⟩ := directionSet_of_assign
    (storage.set (2 + 3 * w) beta) ((List.length_set ..).trans hlength) hlengthDirection hgradNew
  refine ⟨storage', hassign, hset.length_eq.trans (List.length_set ..), hset.dir_eq, hset.grad_eq,
    fun k hk => ?_⟩
  rw [hset.keeps k hk, List.getElem?_set_ne (by omega)]

/-- The first iteration takes the gradient, the later ones the conjugate direction. -/
theorem cgSetDirection_ok (hfits : logRegrCGLayout.Fits w (logRegrCGLength w))
    (hlength : storage.length = logRegrCGLength w)
    (h : CGFields w storage iteration coef dir grad gradNew)
    (hdenominators : iteration ≠ 0 → scalarProduct dir (difference gradNew grad) ≠ 0 ∧
      scalarProduct grad grad ≠ 0) :
    ∃ storage', cgSetDirection iteration storage w = .ok storage' ∧
      DirectionSet w storage (cgDirection iteration dir grad gradNew) gradNew storage' := by
  unfold cgSetDirection
  by_cases hiteration : iteration = 0
  · rw [if_pos hiteration, cgDirection, if_pos hiteration]
    exact cgFirstDirection_ok hfits hlength h
  · have ⟨hdenominator, hsquare⟩ := hdenominators hiteration
    rw [if_neg hiteration]
    exact cgNextDirection_ok hfits hlength h hiteration hdenominator hsquare

/-- The coefficients of a state whose direction is set. -/
theorem DirectionSet.cgMoveCoef_eq (hfits : logRegrCGLayout.Fits w (logRegrCGLength w))
    (hlength : storage.length = logRegrCGLength w)
    (h : CGFields w storage iteration coef dir grad gradNew)
    (hset : DirectionSet w storage direction gradNew storage')
    (hdirection : direction.length = w) {lower : Nat → Nat → α}
    (hmatrix : ∀ i j, i < w → j < w → storage[4 + 4 * w + (j * w + i)]? = some (lower i j)) :
    cgMoveCoef storage' w =
      match quotient (scalarProduct gradNew direction)
        (quadraticForm w lower fun i => direction.getD i 0) with
      | none => .error cgNoSolution
      | some alpha =>
          mapAssign storage' 2 (List.zipWith (fun a b => a + alpha * b) coef direction) := by
  have hmax : maxAllocSize = 1073741823 := rfl
  have halloc := hfits.allocates
  have hlen : storage.length = 5 + w * w + 4 * w := hlength
  have hlen' := hset.length_eq
  unfold logRegrCGLength at halloc
  have ⟨_, _, _, hgradNew⟩ := h.lengths hlength
  have hcoef : (storage'.drop 2).take w = coef := by
    rw [← h.coef_eq]
    apply mapElements_congr
    intro k _ hk
    exact hset.keeps k (by omega)
  have hcurvature : quadraticForm w (fun i j =>
        ((storage'.drop (4 + 4 * w)).take (w * w)).getD (j * w + i) 0)
      (fun i => direction.getD i 0) = quadraticForm w lower fun i => direction.getD i 0 := by
    apply quadraticForm_congr
    intro i j hi hj
    have hentry : j * w + w ≤ w * w := by
      rw [← Nat.succ_mul]
      exact Nat.mul_le_mul_right w (by omega)
    rw [List.getD_eq_getElem?_getD, getElem?_mapElements, if_pos (by omega),
      hset.keeps _ (by omega), hmatrix i j hi hj, Option.getD_some]
  unfold cgMoveCoef
  simp (disch := omega) only [intIndex_of_lt]
  rw [mapAt_ok (by omega), ok_bind, hset.grad_eq, mapAt_ok (by omega), ok_bind, hset.dir_eq,
    mapAt_ok (by omega), ok_bind, dot_ok (hgradNew.trans hdirection.symm), ok_bind]
  rw [hcurvature, mapAt_ok (by omega), hcoef]
  rfl

omit [LinearOrder α] in
/-- With the direction set, new coefficients and the next iteration make the new state. -/
theorem DirectionSet.cgFields_of_moved (hlength : storage.length = logRegrCGLength w)
    (h : CGFields w storage iteration coef dir grad gradNew)
    (hset : DirectionSet w storage direction gradNew storage') {newCoef : List α}
    (hnewCoef : newCoef.length = w) :
    ∃ moved, mapAssign storage' 2 newCoef = .ok moved ∧
      CGFields w (moved.set 0 (iteration + 1)) (iteration + 1) newCoef direction gradNew
        gradNew := by
  have hlen : storage.length = 5 + w * w + 4 * w := hlength
  have ⟨moved, hmoved, hlengthMoved, hcoefMoved, hkeeps⟩ :=
    mapAssign_spec storage' 2 newCoef (by rw [hnewCoef, hset.length_eq]; omega)
  rw [hnewCoef] at hcoefMoved hkeeps
  have hlater : ∀ offset, 2 + w ≤ offset →
      ((moved.set 0 (iteration + 1)).drop offset).take w = (storage'.drop offset).take w := by
    intro offset hoffset
    apply mapElements_congr
    intro k hk _
    rw [List.getElem?_set_ne (by omega), hkeeps k (by omega)]
  refine ⟨moved, hmoved, ?_, ?_, ?_, ?_, ?_⟩
  · rw [List.getElem?_set_self (by rw [hlengthMoved, hset.length_eq]; omega)]
  · rw [← hcoefMoved]
    apply mapElements_congr
    intro k hk _
    exact List.getElem?_set_ne (by omega)
  · rw [hlater _ (by omega), hset.dir_eq]
  · rw [hlater _ (by omega), hset.grad_eq]
  · rw [hlater _ (by omega), ← h.gradNew_eq]
    apply mapElements_congr
    intro k hk _
    exact hset.keeps k (by omega)

end Direction

/-! ## The final function -/

section Final

variable {α : Type} [Field α] [LinearOrder α] [IsStrictOrderedRing α] [FloorRing α] {w : Nat}
  {storage : List α} {iteration numRows curvature : α} {coef dir grad gradNew : List α} {lower : Nat → Nat → α}

/-- The final function divides by the form of the entries in the array. -/
theorem logregrCGStepFinal_eq (hfits : logRegrCGLayout.Fits w (logRegrCGLength w))
    (hholds : logRegrCGLayout.Holds w (logRegrCGLength w) storage)
    (h : CGFields w storage iteration coef dir grad gradNew)
    (hnumRows : storage[3 + 3 * w]? = some numRows) (hne : numRows ≠ 0)
    (hmatrix : ∀ i j, i < w → j < w → storage[4 + 4 * w + (j * w + i)]? = some (lower i j))
    (hdenominators : iteration ≠ 0 → scalarProduct dir (difference gradNew grad) ≠ 0 ∧
      scalarProduct grad grad ≠ 0)
    (hcurvature : quadraticForm w lower
      (fun i => (cgDirection iteration dir grad gradNew).getD i 0) = curvature) :
    if curvature = 0 then logregrCGStepFinal storage = .error cgNoSolution
    else ∃ storage', logregrCGStepFinal storage = .ok (some storage') ∧
      CGUpdated w iteration coef dir grad gradNew curvature storage' := by
  have hmax : maxAllocSize = 1073741823 := rfl
  have halloc := hfits.allocates
  have hlength := hholds.length_eq
  have hlen : storage.length = 5 + w * w + 4 * w := hlength
  unfold logRegrCGLength at halloc
  have ⟨hcoef, hdir, _, hgradNew⟩ := h.lengths hlength
  have hdirection : (cgDirection iteration dir grad gradNew).length = w :=
    length_cgDirection hdir hgradNew
  have ⟨directed, hdirected, hset⟩ := cgSetDirection_ok hfits hlength h hdenominators
  have hindex : logRegrCGLayout.numRows w = 3 + 3 * w := intIndex_of_lt (by omega)
  have hfinal : logregrCGStepFinal storage = (do
      let storage ← cgMoveCoef directed w
      pure (some (storage.set 0 (iteration + 1)))) := by
    unfold logregrCGStepFinal
    rw [hfits.construct hholds, ok_bind, hindex, elementAt_eq_ok hnumRows, ok_bind, if_neg hne,
      elementAt_eq_ok h.iteration_eq, ok_bind, hdirected, ok_bind]
  rw [hfinal, hset.cgMoveCoef_eq hfits hlength h hdirection hmatrix, hcurvature]
  by_cases hzero : curvature = 0
  · rw [if_pos hzero, quotient, if_pos hzero]
    rfl
  · rw [if_neg hzero, quotient, if_neg hzero]
    dsimp only
    have hnewCoef : (List.zipWith (fun a b => a +
        scalarProduct gradNew (cgDirection iteration dir grad gradNew) / curvature * b) coef
        (cgDirection iteration dir grad gradNew)).length = w := by
      rw [List.length_zipWith, hcoef, hdirection, Nat.min_self]
    have ⟨moved, hmoved, hfields⟩ := hset.cgFields_of_moved hlength h hnewCoef
    rw [hmoved]
    exact ⟨_, rfl, hfields⟩

omit [IsStrictOrderedRing α] in
/-- With a direction that is not zero, any other curvature moves the coefficients elsewhere. -/
theorem logregrCGStepFinal_updates_iff (hlength : storage.length = logRegrCGLength w)
    (h : CGFields w storage iteration coef dir grad gradNew)
    (hfinal : if curvature = 0 then logregrCGStepFinal storage = .error cgNoSolution
      else ∃ storage', logregrCGStepFinal storage = .ok (some storage') ∧
        CGUpdated w iteration coef dir grad gradNew curvature storage')
    (hdirection : ∃ i, i < w ∧ (cgDirection iteration dir grad gradNew).getD i 0 ≠ 0) {full : α} :
    (∃ storage', logregrCGStepFinal storage = .ok (some storage') ∧
      CGUpdated w iteration coef dir grad gradNew full storage') ↔
      curvature ≠ 0 ∧
        scalarProduct gradNew (cgDirection iteration dir grad gradNew) / curvature =
          scalarProduct gradNew (cgDirection iteration dir grad gradNew) / full := by
  have ⟨hcoef, hdir, _, hgradNew⟩ := h.lengths hlength
  have hlengthDirection : (cgDirection iteration dir grad gradNew).length = w :=
    length_cgDirection hdir hgradNew
  by_cases hzero : curvature = 0
  · rw [if_pos hzero] at hfinal
    constructor
    · intro ⟨storage', hok, _⟩
      rw [hfinal] at hok
      cases hok
    · intro ⟨hne, _⟩
      exact absurd hzero hne
  · rw [if_neg hzero] at hfinal
    have ⟨moved, hok, hmoved⟩ := hfinal
    have hplaces := zipWith_step_iff (a := scalarProduct gradNew
        (cgDirection iteration dir grad gradNew) / curvature)
      (b := scalarProduct gradNew (cgDirection iteration dir grad gradNew) / full)
      (hcoef.trans hlengthDirection.symm) (by rw [hlengthDirection]; exact hdirection)
    constructor
    · intro ⟨storage', hok', hupdated⟩
      have hsame : moved = storage' := Option.some.inj (Except.ok.inj (hok.symm.trans hok'))
      rw [← hsame] at hupdated
      exact ⟨hzero, hplaces.mp (hmoved.coef_eq.symm.trans hupdated.coef_eq)⟩
    · intro ⟨_, hagree⟩
      refine ⟨moved, hok, hmoved.iteration_eq, ?_, hmoved.dir_eq, hmoved.grad_eq,
        hmoved.gradNew_eq⟩
      rw [hmoved.coef_eq]
      exact hplaces.mpr hagree

omit [LinearOrder α] [IsStrictOrderedRing α] [FloorRing α] in
theorem quotients_agree_iff {g full part rest : α} (hsum : full = part + rest) (hfull : full ≠ 0) :
    part ≠ 0 ∧ g / part = g / full ↔ rest = 0 ∨ g = 0 ∧ part ≠ 0 := by
  constructor
  · intro ⟨hpart, hquotients⟩
    rw [div_eq_div_iff hpart hfull] at hquotients
    rcases mul_eq_mul_left_iff.mp hquotients with hsame | hg
    · left
      rw [hsum] at hsame
      exact add_eq_left.mp hsame
    · exact .inr ⟨hg, hpart⟩
  · intro h
    rcases h with hrest | ⟨hg, hpart⟩
    · rw [hrest, add_zero] at hsum
      rw [← hsum]
      exact ⟨hfull, rfl⟩
    · rw [hg, zero_div, zero_div]
      exact ⟨hpart, rfl⟩

end Final

/-! ## The states rows lead to -/

section Reached

variable {α : Type} [Field α]

/-- `g` -/
def cgGradient (sigma : α → α) (coef : List α) (w : Nat) (rows : List (Bool × List α)) : List α :=
  (List.range w).map fun i => (rows.map fun row => row.2.getD i 0 *
    (sigma (-signOf row.1 * scalarProduct row.2 coef) * signOf row.1)).sum

/-- An entry of `H`, the sum of `x * trans(x) * a` -/
def cgHessian (sigma : α → α) (coef : List α) (rows : List (Bool × List α)) (i j : Nat) : α :=
  (rows.map fun row => row.2.getD i 0 * row.2.getD j 0 *
    (sigma (scalarProduct row.2 coef) * sigma (-scalarProduct row.2 coef))).sum

theorem cgHessian_symmetric (sigma : α → α) (coef : List α) (rows : List (Bool × List α))
    (i j : Nat) : cgHessian sigma coef rows i j = cgHessian sigma coef rows j i := by
  unfold cgHessian
  congr 1
  apply List.map_congr_left
  intro row _
  rw [mul_comm (row.2.getD i 0)]

/-- The state after the rows of an iteration that started from `start`. -/
structure CGReached (sigma : α → α) (w : Nat) (start : List α) (rows : List (Bool × List α))
    (state : List α) : Prop where
  holds : logRegrCGLayout.Holds w (logRegrCGLength w) state
  inter : ∀ k, k < 3 + 3 * w → state[k]? = start[k]?
  numRows : state[3 + 3 * w]? = some (rows.length : α)
  gradNew : (state.drop (4 + 3 * w)).take w =
    cgGradient sigma ((start.drop 2).take w) w rows
  matrix : ∀ i j, i < w → j < w → state[4 + 4 * w + (j * w + i)]? =
    some (lowerTriangle (cgHessian sigma ((start.drop 2).take w) rows) i j)

variable [LinearOrder α] [IsStrictOrderedRing α] [FloorRing α] {sigma logOnePlusExp : α → α}
  {w : Nat} {previous : Option (List α)} {rows : List (Bool × List α)}

omit [LinearOrder α] [IsStrictOrderedRing α] [FloorRing α] in
/-- Rows never add to an entry above the diagonal. -/
theorem cgTerms_above (hfits : logRegrCGLayout.Fits w (logRegrCGLength w)) (storage : List α)
    {row : Bool × List α} (hrow : row.2.length = w) {i j : Nat} (hij : i < j) (hj : j < w) :
    cgTerms sigma logOnePlusExp w storage row (4 + 4 * w + (j * w + i)) = 0 := by
  have hfields := logRegrCGFields_consecutive hfits
  have hmax : maxAllocSize = 1073741823 := rfl
  have halloc := hfits.allocates
  have hentry : j * w + w ≤ w * w := by
    rw [← Nat.succ_mul]
    exact Nat.mul_le_mul_right w (by omega)
  have hnumRows : logRegrCGFields.numRows w = 3 + 3 * w := intIndex_of_lt (by
    unfold logRegrCGLength at halloc
    omega)
  have hvector := hfields.vector_eq
  have hmatrix := hfields.matrix_eq
  have hlast := hfields.logLikelihood_eq
  have hindex : 4 + 4 * w = logRegrCGFields.matrix w := by omega
  have hzero : ∀ a, crossTerm (logRegrCGFields.matrix w) row.2 a
      (logRegrCGFields.matrix w + (j * w + i)) = 0 := by
    intro a
    rw [crossTerm, hrow, lowerTerm_entry (by omega) hj, if_neg (Nat.not_le.mpr hij)]
  unfold cgTerms SumFields.terms
  dsimp only
  rw [hindex, hzero, scalarTerm_ne (by omega), vectorTerm_ge (by rw [List.length_map]; omega),
    scalarTerm_ne (by omega), add_zero, add_zero, add_zero]

omit [LinearOrder α] [IsStrictOrderedRing α] [FloorRing α] in
/-- So the entries above the diagonal are zero after any rows. -/
theorem cgAbove_summed (hfits : logRegrCGLayout.Fits w (logRegrCGLength w)) {base : List α}
    (hsums : SumsOver logRegrCGLayout w (logRegrCGLength w) base
      (cgTerms sigma logOnePlusExp w base) (logRegrCGFields.intra w) fun row => row.2.length = w)
    (hrows : ∀ row ∈ rows, row.2.length = w) {i j : Nat} (hij : i < j) (hj : j < w) :
    (summed base (cgTerms sigma logOnePlusExp w base) rows)[4 + 4 * w + (j * w + i)]? =
      some 0 := by
  have hfields := logRegrCGFields_consecutive hfits
  have hmax : maxAllocSize = 1073741823 := rfl
  have halloc := hfits.allocates
  unfold logRegrCGLength at halloc
  have hnumRows : logRegrCGFields.numRows w = 3 + 3 * w := intIndex_of_lt (by omega)
  have hentry : j * w + w ≤ w * w := by
    rw [← Nat.succ_mul]
    exact Nat.mul_le_mul_right w (by omega)
  have hlt : 4 + 4 * w + (j * w + i) < logRegrCGLength w := by
    unfold logRegrCGLength
    omega
  have hintra : logRegrCGFields.intra w (4 + 4 * w + (j * w + i)) = true :=
    decide_eq_true (by omega)
  have hterms : ∀ row ∈ (rows : Multiset (Bool × List α)),
      cgTerms sigma logOnePlusExp w base row (4 + 4 * w + (j * w + i)) = 0 := by
    intro row hrow
    exact cgTerms_above hfits base (hrows row hrow) hij hj
  rw [hsums.getElem?_summed hlt hintra hterms, Multiset.map_const', Multiset.sum_replicate,
    nsmul_zero]

/-- A pass over rows returns when the previous state has their width, and it leads to this. -/
theorem cgReached_pass (sigma logOnePlusExp : α → α)
    (hfits : logRegrCGLayout.Fits w (logRegrCGLength w))
    (hprevious : ∀ s, previous = some s → logRegrCGLayout.Holds w (logRegrCGLength w) s)
    (hrows : ∀ row ∈ rows, row.2.length = w) (hne : rows ≠ []) :
    ∃ state, ((logregrCG sigma logOnePlusExp).aggregate previous).pass rows = .ok state ∧
      CGReached sigma w ((logregrCG sigma logOnePlusExp).start previous w) rows state := by
  have hstep : SumsStep (logregrCG sigma logOnePlusExp) logRegrCGFields.intra
      (cgTerms sigma logOnePlusExp) := logregrCG_sumsStep
  have hfields := logRegrCGFields_consecutive hfits
  have hvector := hfields.vector_eq
  have hmatrix := hfields.matrix_eq
  have hnumRows : logRegrCGFields.numRows w = 3 + 3 * w := intIndex_of_lt (by
    have hmax : maxAllocSize = 1073741823 := rfl
    have halloc := hfits.allocates
    unfold logRegrCGLength at halloc
    omega)
  have hsumsOver := hstep.sumsOver hfits hprevious
  have ⟨state, hstate⟩ : ∃ state,
      summed ((logregrCG sigma logOnePlusExp).base logRegrCGFields.intra previous w)
        (cgTerms sigma logOnePlusExp w
          ((logregrCG sigma logOnePlusExp).base logRegrCGFields.intra previous w)) rows = state :=
    ⟨_, rfl⟩
  have hsums : logRegrCGFields.Sums sigma logOnePlusExp (fun y xc => sigma (-y * xc) * y) w
      (logRegrCGLength w) ((logregrCG sigma logOnePlusExp).start previous w) rows state := by
    rw [← hstate]
    apply SumFields.sums_summed hfields rfl hsumsOver hrows
    intro k hk
    exact IterationMethod.base_eq_start hprevious (decide_eq_false (Nat.not_le.mpr hk))
  have hrun : ((logregrCG sigma logOnePlusExp).aggregate previous).run (.segment rows) =
      .ok state := by
    rw [← hstate]
    exact hstep.run_ok logregrCG_guards (SumFields.addsIntra hfields rfl) hfits hprevious hrows
      (fun hzero => hne ((Multiset.coe_eq_zero _).mp hzero))
  have hholds : logRegrCGLayout.Holds w (logRegrCGLength w) state := by
    rw [← hstate]
    exact hsumsOver.holds_summed hrows
  have habove : ∀ i j, i < j → j < w → state[4 + 4 * w + (j * w + i)]? = some 0 := by
    intro i j hij hj
    rw [← hstate]
    exact cgAbove_summed hfits hsumsOver hrows hij hj
  refine ⟨state, hrun, hholds, ?_, ?_, ?_, ?_⟩
  · intro k hk
    exact hsums.inter k (by omega)
  · rw [← hnumRows, hsums.numRows, Multiset.coe_card]
  · apply List.ext_getElem?
    intro i
    rw [getElem?_mapElements, cgGradient, List.getElem?_map]
    by_cases hi : i < w
    · rw [if_pos hi, List.getElem?_range hi, Option.map_some,
        show 4 + 3 * w = logRegrCGFields.vector w by omega, hsums.vector i hi, Multiset.map_coe,
        Multiset.sum_coe]
      rfl
    · rw [if_neg hi, List.getElem?_eq_none (by rw [List.length_range]; omega)]
      rfl
  · intro i j hi hj
    unfold lowerTriangle
    by_cases hji : j ≤ i
    · rw [if_pos hji, show 4 + 4 * w = logRegrCGFields.matrix w by omega,
        hsums.matrix i j hji hi, Multiset.map_coe, Multiset.sum_coe]
      rfl
    · rw [if_neg hji, habove i j (Nat.lt_of_not_le hji) hj]

/-- A row of another width than the previous state's makes a state the final function rejects. -/
theorem logregrCGStepFinal_mismatch
    (hprevious : (logregrCG sigma logOnePlusExp).IsPrevious previous)
    (hrows : ∀ row ∈ rows, row.2.length = w) (hne : rows ≠ [])
    (hmismatch : ¬(logRegrCGLayout.Fits w (logRegrCGLength w) ∧
      ∀ s, previous = some s → logRegrCGLayout.Holds w (logRegrCGLength w) s))
    {state : List α}
    (hpass : ((logregrCG sigma logOnePlusExp).aggregate previous).pass rows = .ok state) :
    ∃ e, logregrCGStepFinal state = .error e := by
  have hstep : SumsStep (logregrCG sigma logOnePlusExp) logRegrCGFields.intra
      (cgTerms sigma logOnePlusExp) := logregrCG_sumsStep
  have hrun : ((logregrCG sigma logOnePlusExp).aggregate previous).run (.segment rows) =
      .ok state := hpass
  have hplanRows : ∀ row ∈ (Plan.segment rows).rows, row.2.length = w := hrows
  rcases hstep.run_single logregrCG_guards hprevious hmismatch hplanRows hrun with
    ⟨hzero, _⟩ | ⟨row, hsingle, hfirst⟩
  · exact absurd ((Multiset.coe_eq_zero _).mp hzero) hne
  · have hrow : row.2.length = w := by
      apply hrows
      have hmem : row ∈ (rows : Multiset (Bool × List α)) :=
        (show (rows : Multiset (Bool × List α)) = {row} from hsingle) ▸
          Multiset.mem_singleton_self row
      exact hmem
    have ⟨e, hconstruct⟩ :=
      hstep.construct_error_of_mismatch logregrCG_guards hprevious hmismatch hrow hfirst
    refine ⟨e, ?_⟩
    have hlayout : logRegrCGLayout.construct state = .error e := hconstruct
    unfold logregrCGStepFinal
    rw [hlayout, error_bind]

end Reached

/-! ## The step and the documented update -/

section Step

variable {α : Type} [Field α] [LinearOrder α] [IsStrictOrderedRing α] [FloorRing α]
  {sigma : α → α} {w : Nat} {start state : List α} {rows : List (Bool × List α)} {iteration : α}
  {coef dir grad : List α}

/-- The final function returns the state of the documented update. -/
def CGStepMeets (sigma : α → α) (w : Nat) (rows : List (Bool × List α)) (iteration : α)
    (coef dir grad state : List α) : Prop :=
  let gradNew := cgGradient sigma coef w rows
  let direction := cgDirection iteration dir grad gradNew
  ∃ storage, logregrCGStepFinal state = .ok (some storage) ∧
    CGUpdated w iteration coef dir grad gradNew
      (quadraticForm w (cgHessian sigma coef rows) fun i => direction.getD i 0) storage

/-- The entries below the diagonal add nothing, or there is no step to make. -/
def CGTriangleSuffices (sigma : α → α) (w : Nat) (rows : List (Bool × List α)) (iteration : α)
    (coef dir grad : List α) : Prop :=
  let gradNew := cgGradient sigma coef w rows
  let direction := cgDirection iteration dir grad gradNew
  quadraticForm w (strictTriangle (cgHessian sigma coef rows)) (fun i => direction.getD i 0) = 0 ∨
    scalarProduct gradNew direction = 0 ∧
      quadraticForm w (lowerTriangle (cgHessian sigma coef rows)) (fun i => direction.getD i 0) ≠ 0

omit [LinearOrder α] [IsStrictOrderedRing α] [FloorRing α] in
theorem CGReached.fields (h : CGReached sigma w start rows state) {old : List α}
    (hstart : CGFields w start iteration coef dir grad old) :
    CGFields w state iteration coef dir grad (cgGradient sigma coef w rows) := by
  have hsame : ∀ offset, offset + w ≤ 3 + 3 * w →
      (state.drop offset).take w = (start.drop offset).take w := by
    intro offset hoffset
    apply mapElements_congr
    intro k _ hk
    exact h.inter k (by omega)
  constructor
  · rw [h.inter 0 (by omega), hstart.iteration_eq]
  · rw [hsame 2 (by omega), hstart.coef_eq]
  · rw [hsame (2 + w) (by omega), hstart.dir_eq]
  · rw [hsame (2 + 2 * w) (by omega), hstart.grad_eq]
  · rw [h.gradNew, hstart.coef_eq]

theorem CGReached.meets_iff (h : CGReached sigma w start rows state)
    (hfits : logRegrCGLayout.Fits w (logRegrCGLength w)) (hne : rows ≠ []) {old : List α}
    (hstart : CGFields w start iteration coef dir grad old)
    (hdenominators : CGDenominators iteration dir grad (cgGradient sigma coef w rows)
      (quadraticForm w (cgHessian sigma coef rows) fun i =>
        (cgDirection iteration dir grad (cgGradient sigma coef w rows)).getD i 0)) :
    CGStepMeets sigma w rows iteration coef dir grad state ↔
      CGTriangleSuffices sigma w rows iteration coef dir grad := by
  have hfields := h.fields hstart
  have hcount : (rows.length : α) ≠ 0 :=
    Nat.cast_ne_zero.mpr fun hzero => hne (List.length_eq_zero_iff.mp hzero)
  have hfinal := logregrCGStepFinal_eq hfits h.holds hfields h.numRows hcount h.matrix
    hdenominators.2 rfl
  have hsymmetric : quadraticForm w (cgHessian sigma coef rows) _ = _ :=
    quadraticForm_symmetric (d := fun i =>
      (cgDirection iteration dir grad (cgGradient sigma coef w rows)).getD i 0)
      (cgHessian_symmetric sigma coef rows)
  unfold CGStepMeets CGTriangleSuffices
  dsimp only
  rw [logregrCGStepFinal_updates_iff h.holds.length_eq (h.fields hstart) hfinal
    (exists_ne_zero hdenominators.1), hstart.coef_eq]
  exact quotients_agree_iff hsymmetric hdenominators.1

/-- From every previous state the update is the documented one exactly if that state has the width
of the rows and the entries below the diagonal add nothing along the direction, unless no step is
to be made. -/
theorem logregrCGStep_updates_iff (logOnePlusExp : α → α) {previous : Option (List α)}
    {old : List α} (hprevious : (logregrCG sigma logOnePlusExp).IsPrevious previous)
    (hrows : ∀ row ∈ rows, row.2.length = w) (hne : rows ≠ [])
    (hstart : CGFields w ((logregrCG sigma logOnePlusExp).start previous w) iteration coef dir
      grad old)
    (hdenominators : CGDenominators iteration dir grad (cgGradient sigma coef w rows)
      (quadraticForm w (cgHessian sigma coef rows) fun i =>
        (cgDirection iteration dir grad (cgGradient sigma coef w rows)).getD i 0)) :
    (8 * logRegrCGLength w + 40 ≤ maxAllocSize →
      (∀ s, previous = some s → logRegrCGLayout.Holds w (logRegrCGLength w) s) →
      ∃ state, ((logregrCG sigma logOnePlusExp).aggregate previous).pass rows = .ok state) ∧
    ∀ state, ((logregrCG sigma logOnePlusExp).aggregate previous).pass rows = .ok state →
      (CGStepMeets sigma w rows iteration coef dir grad state ↔
        (∀ s, previous = some s → logRegrCGLayout.Holds w (logRegrCGLength w) s) ∧
          CGTriangleSuffices sigma w rows iteration coef dir grad) := by
  constructor
  · intro halloc hholds
    have ⟨state, hpass, _⟩ := cgReached_pass sigma logOnePlusExp (logRegrCGLayout_fits halloc)
      hholds hrows hne
    exact ⟨state, hpass⟩
  · intro state hpass
    have hfits : logRegrCGLayout.Fits w (logRegrCGLength w) :=
      logregrCG_guards.fits_of_pass hrows hne hpass
    by_cases hholds : ∀ s, previous = some s → logRegrCGLayout.Holds w (logRegrCGLength w) s
    · have ⟨state', hpass', hreached⟩ := cgReached_pass sigma logOnePlusExp hfits hholds hrows hne
      rw [Except.ok.inj (hpass.symm.trans hpass')]
      exact (hreached.meets_iff hfits hne hstart hdenominators).trans
        (and_iff_right hholds).symm
    · have ⟨e, herror⟩ := logregrCGStepFinal_mismatch hprevious hrows hne
        (fun hmatch => hholds hmatch.2) hpass
      constructor
      · intro ⟨storage, hok, _⟩
        rw [herror] at hok
        cases hok
      · intro ⟨hmatch, _⟩
        exact absurd hmatch hholds

end Step

theorem logregrCG_isPrevious_none (sigma logOnePlusExp : ℚ → ℚ) :
    (logregrCG sigma logOnePlusExp).IsPrevious none := nofun

/-- The fields the first iteration starts from. -/
theorem cgFields_zero (w : Nat) (sigma logOnePlusExp : ℚ → ℚ) :
    CGFields w ((logregrCG sigma logOnePlusExp).start none w) 0 (List.replicate w 0)
      (List.replicate w 0) (List.replicate w 0) (List.replicate w 0) := by
  have hstart : (logregrCG sigma logOnePlusExp).start none w =
      (List.replicate (5 + w * w + 4 * w) 0).set 1 (w : ℚ) := rfl
  have hzero : ∀ offset, 2 ≤ offset → offset + w ≤ 5 + w * w + 4 * w →
      (((List.replicate (5 + w * w + 4 * w) 0).set 1 (w : ℚ)).drop offset).take w =
        List.replicate w 0 := by
    intro offset hoffset hend
    apply List.ext_getElem?
    intro i
    rw [getElem?_mapElements, List.getElem?_replicate]
    by_cases hi : i < w
    · rw [if_pos hi, if_pos hi, List.getElem?_set_ne (by omega), List.getElem?_replicate,
        if_pos (by omega)]
    · rw [if_neg hi, if_neg hi]
  rw [hstart]
  constructor
  · rw [List.getElem?_set_ne (by omega), List.getElem?_replicate, if_pos (by omega)]
  · exact hzero 2 (by omega) (by omega)
  · exact hzero (2 + w) (by omega) (by omega)
  · exact hzero (2 + 2 * w) (by omega) (by omega)
  · exact hzero (4 + 3 * w) (by omega) (by omega)

theorem logregrCGStep_updates_two :
    ∃ state, ((logregrCG (fun _ : ℚ => 1 / 2) fun _ => 0).aggregate none).pass twoRows =
        .ok state ∧
      CGStepMeets (fun _ => 1 / 2) 1 twoRows 0 [0] [0] [0] state := by
  have hrows : ∀ row ∈ twoRows, row.2.length = 1 := by
    unfold twoRows
    simp
  have hdenominators : CGDenominators 0 [0] [0] (cgGradient (fun _ : ℚ => 1 / 2) [0] 1 twoRows)
      (quadraticForm 1 (cgHessian (fun _ => 1 / 2) [0] twoRows) fun i =>
        (cgDirection 0 [0] [0] (cgGradient (fun _ => 1 / 2) [0] 1 twoRows)).getD i 0) := by
    refine ⟨?_, fun hne => absurd rfl hne⟩
    simp [quadraticForm, cgHessian, cgDirection, cgGradient, twoRows, signOf]
    norm_num
  obtain ⟨hreturns, hiff⟩ := logregrCGStep_updates_iff (fun _ => 0)
    (logregrCG_isPrevious_none (fun _ : ℚ => 1 / 2) fun _ => 0) hrows (by simp [twoRows])
    (cgFields_zero 1 _ _) hdenominators
  obtain ⟨state, hpass⟩ := hreturns (by decide) (by simp)
  refine ⟨state, hpass, (hiff state hpass).mpr ⟨by simp, .inl ?_⟩⟩
  simp [quadraticForm, strictTriangle]

/-- A row with two elements that are not zero: the first step is 4/3 along the diagonal instead
of 1. -/
theorem logregrCGStep_off_diagonal :
    CGDenominators 0 [0, 0] [0, 0] (cgGradient (fun _ : ℚ => 1 / 2) [0, 0] 2 [(true, [1, 1])])
      (quadraticForm 2 (cgHessian (fun _ => 1 / 2) [0, 0] [(true, [1, 1])]) fun i =>
        (cgDirection 0 [0, 0] [0, 0]
          (cgGradient (fun _ => 1 / 2) [0, 0] 2 [(true, [1, 1])])).getD i 0) ∧
      ∃ state, ((logregrCG (fun _ : ℚ => 1 / 2) fun _ => 0).aggregate none).pass
          [(true, [1, 1])] = .ok state ∧
        ¬CGStepMeets (fun _ => 1 / 2) 2 [(true, [1, 1])] 0 [0, 0] [0, 0] [0, 0] state := by
  have hrows : ∀ row ∈ [((true, [1, 1]) : Bool × List ℚ)], row.2.length = 2 := by simp
  have hdenominators : CGDenominators 0 [0, 0] [0, 0]
      (cgGradient (fun _ : ℚ => 1 / 2) [0, 0] 2 [(true, [1, 1])])
      (quadraticForm 2 (cgHessian (fun _ => 1 / 2) [0, 0] [(true, [1, 1])]) fun i =>
        (cgDirection 0 [0, 0] [0, 0]
          (cgGradient (fun _ => 1 / 2) [0, 0] 2 [(true, [1, 1])])).getD i 0) := by
    refine ⟨?_, fun hne => absurd rfl hne⟩
    simp [quadraticForm, Finset.sum_range_succ, cgHessian, cgDirection, cgGradient, signOf,
      List.range_succ]
  have hnone : ∀ s : List ℚ, none = some s →
      logRegrCGLayout.Holds 2 (logRegrCGLength 2) s := by
    intro s hs
    cases hs
  obtain ⟨state, hpass, hreached⟩ := cgReached_pass (fun _ : ℚ => 1 / 2) (fun _ => 0)
    (logRegrCGLayout_fits (by decide)) hnone hrows (by simp)
  refine ⟨hdenominators, state, hpass, fun hmeets => ?_⟩
  have hsuffices := (hreached.meets_iff (logRegrCGLayout_fits (by decide)) (by simp)
    (cgFields_zero 2 _ _) hdenominators).mp hmeets
  unfold CGTriangleSuffices at hsuffices
  simp [quadraticForm, Finset.sum_range_succ, cgHessian, cgDirection, cgGradient, signOf,
    List.range_succ, strictTriangle, scalarProduct] at hsuffices

end Madlib.Regress
