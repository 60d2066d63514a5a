import Madlib.Backend
import Madlib.Lib.MachineInt

/-!
# Stochastic gradient descent for the linear SVM

The weights are kept divided by `wdiv`, so that the regularisation of a step only changes one
number, and now and then they are multiplied out again.  The plain recursion changes all weights
in every step.
-/

namespace Madlib.KernelMachines

open Madlib.Backend Madlib.Lib.MachineInt

/-- `lsvm_sgd_model_rec` -/
structure LsvmModel (α : Type) where
  weights : List α
  wdiv : α
  wbias : α
  indDim : Nat
  inds : Int
  cumErr : Int
  deriving DecidableEq

section Functions

variable {α : Type} [Field α] [LinearOrder α]

/-- The hinge loss -/
def dloss (a y : α) : α :=
  let z := a * y
  if 1 < z then 0 else y

/-- The first data point says how many weights there are. -/
def initialiseWeights (model : LsvmModel α) (ind : List α) : LsvmModel α :=
  if model.indDim = 0 then
    { model with indDim := ind.length, weights := List.replicate ind.length 0 }
  else model

/-- The weights are multiplied out when the divisor is large. -/
def rescale (model : LsvmModel α) : LsvmModel α :=
  if 100000 < model.wdiv ∧ model.wdiv ≠ 1 then
    { model with weights := model.weights.map (· * (1 / model.wdiv)), wdiv := 1 }
  else model

/-- `lsvm_sgd_update` for a data point and its label. -/
def lsvmSgdUpdate (eta0 lambda : α) (model : LsvmModel α) (row : List α × α) :
    Except Fault (LsvmModel α) :=
  let model := initialiseWeights model row.1
  if model.weights.length ≠ model.indDim ∨ row.1.length < model.indDim then .error .outOfBounds
  else
    let ind := row.1.take model.indDim
    let label := row.2
    let eta := eta0 / (1 + lambda * eta0 * model.inds)
    let inds := toInt32 (model.inds + 1)
    let s := (model.weights.zip ind).foldl (fun s p => if p.2 ≠ 0 then s + p.1 * p.2 else s) 0
    let s := s / model.wdiv + model.wbias
    let cumErr := if s * label < 0 then toInt32 (model.cumErr + 1) else model.cumErr
    -- update for regularisation term
    let model := rescale { model with wdiv := model.wdiv / (1 - eta * lambda) }
    -- update for loss term
    let d := dloss s label
    let c := eta * d * model.wdiv
    let weights :=
      if d ≠ 0 then
        List.zipWith (fun w x => if x ≠ 0 then w + x * c else w) model.weights ind
      else model.weights
    -- update for bias term
    let etab := eta * (1 / 100)
    .ok { model with
      weights := weights
      wbias := model.wbias + etab * d
      inds := inds
      cumErr := cumErr }

/-- The initial state of `lsvm_sgd_agg` -/
def lsvmInit : LsvmModel α := ⟨[], 1, 0, 0, 0, 0⟩

def lsvmSgdAgg (eta0 lambda : α) (rows : List (List α × α)) : Except Fault (LsvmModel α) :=
  rows.foldlM (lsvmSgdUpdate eta0 lambda) lsvmInit

/-! ## The plain recursion -/

structure LinearModel (α : Type) where
  weights : List α
  bias : α
  errors : Nat
  deriving DecidableEq

def innerProduct (w x : List α) : α := (List.zipWith (· * ·) w x).sum

def learningRate (eta0 lambda : α) (n : Nat) : α := eta0 / (1 + lambda * eta0 * n)

/-- Step `n` of stochastic gradient descent. -/
def sgdStep (eta0 lambda : α) (n : Nat) (model : LinearModel α) (row : List α × α) :
    LinearModel α :=
  let eta := learningRate eta0 lambda n
  let margin := row.2 * (innerProduct model.weights row.1 + model.bias)
  let errors := if margin < 0 then model.errors + 1 else model.errors
  let shrunk := model.weights.map ((1 - eta * lambda) * ·)
  if margin ≤ 1 then
    ⟨List.zipWith (fun w x => w + eta * row.2 * x) shrunk row.1,
      model.bias + 1 / 100 * eta * row.2, errors⟩
  else ⟨shrunk, model.bias, errors⟩

def sgdFrom (eta0 lambda : α) (n : Nat) (model : LinearModel α) :
    List (List α × α) → LinearModel α
  | [] => model
  | row :: rows => sgdFrom eta0 lambda (n + 1) (sgdStep eta0 lambda n model row) rows

/-- Stochastic gradient descent in `d` dimensions, from zero on. -/
def sgd (eta0 lambda : α) (d : Nat) (rows : List (List α × α)) : LinearModel α :=
  sgdFrom eta0 lambda 0 ⟨List.replicate d 0, 0, 0⟩ rows

end Functions

/-! ## One step -/

section Step

variable {α : Type}

theorem zipWith_left {β : Type} {f : α → β → α} {xs : List α} {ys : List β}
    (hlen : xs.length ≤ ys.length) (hf : ∀ a b, f a b = a) : List.zipWith f xs ys = xs := by
  induction xs generalizing ys with
  | nil => rfl
  | cons x xs ih =>
      cases ys with
      | nil => simp at hlen
      | cons y ys => rw [List.zipWith_cons_cons, hf, ih (Nat.le_of_succ_le_succ hlen)]

variable [Field α]

/-- Dividing before or after the inner product. -/
theorem innerProduct_map_div (w x : List α) (c : α) :
    innerProduct (w.map (· / c)) x = innerProduct w x / c := by
  induction w generalizing x with
  | nil => simp [innerProduct]
  | cons a w ih =>
      cases x with
      | nil => simp [innerProduct]
      | cons b x =>
          have hrest := ih x
          simp only [innerProduct] at hrest ⊢
          rw [List.map_cons, List.zipWith_cons_cons, List.sum_cons, hrest, List.zipWith_cons_cons,
            List.sum_cons]
          ring

/-- The true weights of a model. -/
def trueWeights (model : LsvmModel α) : List α := model.weights.map (· / model.wdiv)

/-- The model stands for the linear model after `n` steps in `d` dimensions. -/
structure Represents (d n : Nat) (model : LsvmModel α) (plain : LinearModel α) : Prop where
  weights : trueWeights model = plain.weights
  length : model.weights.length = d
  wdiv_ne : model.wdiv ≠ 0
  wbias : model.wbias = plain.bias
  indDim : model.indDim = d
  inds : model.inds = n
  cumErr : model.cumErr = plain.errors
  errors_le : plain.errors ≤ n

theorem initialiseWeights_eq {d n : Nat} {model : LsvmModel α} {plain : LinearModel α}
    (h : Represents d n model plain) {ind : List α} (hind : ind.length = d) :
    initialiseWeights model ind = model := by
  unfold initialiseWeights
  split
  case isTrue hzero =>
    have hd : d = 0 := h.indDim.symm.trans hzero
    have hnil : model.weights = [] := List.length_eq_zero_iff.mp (h.length.trans hd)
    rw [hind, hd, List.replicate_zero, ← hzero, ← hnil]
  case isFalse => rfl

variable [LinearOrder α]

theorem foldl_eq_innerProduct (w x : List α) (s : α) :
    (w.zip x).foldl (fun s p => if p.2 ≠ 0 then s + p.1 * p.2 else s) s =
      s + innerProduct w x := by
  induction w generalizing x s with
  | nil => simp [innerProduct]
  | cons a w ih =>
      cases x with
      | nil => simp [innerProduct]
      | cons b x =>
          have hstep : (if b ≠ 0 then s + a * b else s) = s + a * b := by
            by_cases hb : b = 0
            · simp [hb]
            · rw [if_pos hb]
          rw [List.zip_cons_cons, List.foldl_cons, ih]
          dsimp only
          rw [hstep, add_assoc]
          simp [innerProduct]

theorem rescale_trueWeights {model : LsvmModel α} (h : model.wdiv ≠ 0) :
    trueWeights (rescale model) = trueWeights model ∧ (rescale model).wdiv ≠ 0 := by
  unfold rescale
  split
  · constructor
    · unfold trueWeights
      rw [List.map_map]
      apply List.map_congr_left
      intro w _
      simp [div_eq_mul_inv]
    · exact one_ne_zero
  · exact ⟨rfl, h⟩

theorem rescale_fields (model : LsvmModel α) :
    (rescale model).weights.length = model.weights.length ∧
      (rescale model).wbias = model.wbias ∧ (rescale model).indDim = model.indDim := by
  unfold rescale
  split
  · exact ⟨List.length_map _, rfl, rfl⟩
  · exact ⟨rfl, rfl, rfl⟩

/-- The update for the loss term is one of the true weights. -/
theorem lossTerm_trueWeights (w x : List α) {div : α} (hdiv : div ≠ 0) (c : α) :
    (List.zipWith (fun a b => if b ≠ 0 then a + b * (c * div) else a) w x).map (· / div) =
      List.zipWith (fun a b => a + c * b) (w.map (· / div)) x := by
  induction w generalizing x with
  | nil => rfl
  | cons a w ih =>
      cases x with
      | nil => rfl
      | cons b x =>
          have hentry : (if b ≠ 0 then a + b * (c * div) else a) / div = a / div + c * b := by
            by_cases hb : b = 0
            · simp [hb]
            · rw [if_pos hb]
              field_simp
          rw [List.zipWith_cons_cons, List.map_cons, ih, List.map_cons, List.zipWith_cons_cons,
            hentry]

/-- The regularisation term divides the divisor, which multiplies the true weights. -/
theorem regularised {eta lambda : α} {d n : Nat} {model : LsvmModel α} {plain : LinearModel α}
    (h : Represents d n model plain) (hshrink : 1 - eta * lambda ≠ 0) (k : Nat) :
    trueWeights (rescale { model with wdiv := model.wdiv / (1 - eta * lambda), indDim := k }) =
        plain.weights.map ((1 - eta * lambda) * ·) ∧
      (rescale { model with wdiv := model.wdiv / (1 - eta * lambda), indDim := k }).wdiv ≠ 0 ∧
      (rescale { model with wdiv := model.wdiv / (1 - eta * lambda), indDim := k }).weights.length =
        d ∧
      (rescale { model with wdiv := model.wdiv / (1 - eta * lambda), indDim := k }).wbias =
        plain.bias ∧
      (rescale { model with wdiv := model.wdiv / (1 - eta * lambda), indDim := k }).indDim = k := by
  have hdiv : ({ model with wdiv := model.wdiv / (1 - eta * lambda), indDim := k } :
      LsvmModel α).wdiv ≠ 0 := div_ne_zero h.wdiv_ne hshrink
  obtain ⟨htrue, hne⟩ := rescale_trueWeights hdiv
  obtain ⟨hlength, hbias, hdim⟩ := rescale_fields
    { model with wdiv := model.wdiv / (1 - eta * lambda), indDim := k }
  refine ⟨?_, hne, hlength.trans h.length, hbias.trans h.wbias, hdim⟩
  rw [htrue, ← h.weights, trueWeights, trueWeights, List.map_map]
  apply List.map_congr_left
  intro w _
  have hwdiv := h.wdiv_ne
  simp only [Function.comp_apply]
  field_simp

/-- One call is one step of the plain recursion, while the counters do not overflow. -/
theorem lsvmSgdUpdate_represents {eta0 lambda : α} {d n : Nat} {model : LsvmModel α}
    {plain : LinearModel α} (h : Represents d n model plain) {row : List α × α}
    (hrow : row.1.length = d) (hn : n + 1 < 2147483648)
    (hshrink : 1 - learningRate eta0 lambda n * lambda ≠ 0) :
    ∃ model', lsvmSgdUpdate eta0 lambda model row = .ok model' ∧
      Represents d (n + 1) model' (sgdStep eta0 lambda n plain row) := by
  have heta : eta0 / (1 + lambda * eta0 * (model.inds : α)) = learningRate eta0 lambda n := by
    rw [h.inds, Int.cast_natCast, learningRate]
  have hs : (model.weights.zip row.1).foldl (fun s p => if p.2 ≠ 0 then s + p.1 * p.2 else s) 0 /
      model.wdiv + model.wbias = innerProduct plain.weights row.1 + plain.bias := by
    rw [foldl_eq_innerProduct, zero_add, ← innerProduct_map_div, ← h.weights, h.wbias, trueWeights]
  unfold lsvmSgdUpdate
  dsimp only
  rw [initialiseWeights_eq h hrow, if_neg (by rw [h.length, h.indDim, hrow]; omega), h.indDim,
    ← hrow, List.take_length, heta, hs]
  refine ⟨_, rfl, ?_⟩
  unfold sgdStep
  dsimp only
  generalize learningRate eta0 lambda n = eta at hshrink
  generalize innerProduct plain.weights row.1 + plain.bias = s
  have hlabel : dloss s row.2 = if row.2 * s ≤ 1 then row.2 else 0 := by
    unfold dloss
    dsimp only
    rw [mul_comm s]
    by_cases hm : row.2 * s ≤ 1
    · rw [if_neg (not_lt.mpr hm), if_pos hm]
    · rw [if_pos (not_le.mp hm), if_neg hm]
  have hshrunk : (plain.weights.map ((1 - eta * lambda) * ·)).length ≤ row.1.length := by
    rw [← h.weights, trueWeights, List.length_map, List.length_map, h.length, hrow]
  obtain ⟨htrue, hne, hlength, hbias, hdim⟩ := regularised h hshrink row.1.length
  generalize rescale
    { model with wdiv := model.wdiv / (1 - eta * lambda), indDim := row.1.length } = scaled at *
  -- both steps add a multiple of the data point, which is zero when the margin is large
  have hcode : (if dloss s row.2 ≠ 0 then
        List.zipWith (fun w x => if x ≠ 0 then w + x * (eta * dloss s row.2 * scaled.wdiv) else w)
          scaled.weights row.1
      else scaled.weights) =
      List.zipWith (fun w x => if x ≠ 0 then w + x * (eta * dloss s row.2 * scaled.wdiv) else w)
        scaled.weights row.1 := by
    by_cases hd : dloss s row.2 = 0
    · rw [if_neg (not_not.mpr hd), hd, zipWith_left (by rw [hlength, hrow])]
      intro w x
      simp
    · rw [if_pos hd]
  have hplain : (if row.2 * s ≤ 1 then
        (⟨List.zipWith (fun w x => w + eta * row.2 * x)
            (plain.weights.map ((1 - eta * lambda) * ·)) row.1,
          plain.bias + 1 / 100 * eta * row.2,
          if row.2 * s < 0 then plain.errors + 1 else plain.errors⟩ : LinearModel α)
      else ⟨plain.weights.map ((1 - eta * lambda) * ·), plain.bias,
          if row.2 * s < 0 then plain.errors + 1 else plain.errors⟩) =
      ⟨List.zipWith (fun w x => w + eta * dloss s row.2 * x)
          (plain.weights.map ((1 - eta * lambda) * ·)) row.1,
        plain.bias + 1 / 100 * eta * dloss s row.2,
        if row.2 * s < 0 then plain.errors + 1 else plain.errors⟩ := by
    rw [hlabel]
    by_cases hm : row.2 * s ≤ 1
    · rw [if_pos hm, if_pos hm]
    · rw [if_neg hm, if_neg hm, zipWith_left hshrunk (by simp), mul_zero, add_zero]
  rw [hcode, hplain]
  constructor
  · rw [trueWeights, lossTerm_trueWeights _ _ hne, ← trueWeights, htrue]
  · rw [List.length_zipWith, hlength, hrow, min_self]
  · exact hne
  · dsimp only
    rw [hbias, mul_comm eta (1 / 100)]
  · exact hdim
  · dsimp only
    rw [h.inds, toInt32_of_mem (by omega) (by omega), Nat.cast_add_one]
  · have herrors := h.errors_le
    dsimp only
    rw [mul_comm s, h.cumErr]
    split
    · rw [toInt32_of_mem (by omega) (by omega), Nat.cast_add_one]
    · rfl
  · have herrors := h.errors_le
    dsimp only
    split
    · omega
    · omega

end Step

/-! ## Runs -/

section Run

theorem represents_init (α : Type) [Field α] (d : Nat) : Represents (α := α) d 0 ⟨List.replicate d 0, 1, 0, d, 0, 0⟩
    ⟨List.replicate d 0, 0, 0⟩ := by
  constructor
  · rw [trueWeights, List.map_replicate, zero_div]
  · exact List.length_replicate
  · exact one_ne_zero
  · rfl
  · rfl
  · rfl
  · rfl
  · exact le_rfl

variable {α : Type} [Field α] [LinearOrder α] {eta0 lambda : α} {d : Nat}

theorem foldlM_represents {rows : List (List α × α)} {n : Nat} {model : LsvmModel α}
    {plain : LinearModel α} (h : Represents d n model plain)
    (hrows : ∀ row ∈ rows, row.1.length = d) (hn : n + rows.length < 2147483648)
    (hshrink : ∀ k, n ≤ k → k < n + rows.length → 1 - learningRate eta0 lambda k * lambda ≠ 0) :
    ∃ model', rows.foldlM (lsvmSgdUpdate eta0 lambda) model = .ok model' ∧
      Represents d (n + rows.length) model' (sgdFrom eta0 lambda n plain rows) := by
  induction rows generalizing n model plain with
  | nil => exact ⟨model, rfl, h⟩
  | cons row rows ih =>
      rw [List.length_cons] at hn hshrink
      obtain ⟨next, hnext, hrep⟩ := lsvmSgdUpdate_represents h (hrows row List.mem_cons_self)
        (by omega) (hshrink n le_rfl (by omega))
      obtain ⟨last, hlast, hrun⟩ := ih hrep (fun r hr => hrows r (List.mem_cons_of_mem row hr))
        (by omega) fun k hlo hhi => hshrink k (by omega) (by omega)
      refine ⟨last, ?_, ?_⟩
      · rw [List.foldlM_cons, hnext]
        exact hlast
      · rw [List.length_cons, ← Nat.add_assoc, Nat.add_right_comm]
        exact hrun

/-- The first data point gives the initial state its dimension. -/
theorem lsvmSgdAgg_eq {rows : List (List α × α)} (hne : rows ≠ [])
    (hdim : ∀ row ∈ rows, row.1.length = d) : lsvmSgdAgg eta0 lambda rows =
      rows.foldlM (lsvmSgdUpdate eta0 lambda) ⟨List.replicate d 0, 1, 0, d, 0, 0⟩ := by
  cases rows with
  | nil => exact absurd rfl hne
  | cons row rows =>
      have hrow : row.1.length = d := hdim row List.mem_cons_self
      have hinit : initialiseWeights lsvmInit row.1 = ⟨List.replicate d 0, 1, 0, d, 0, 0⟩ := by
        rw [← hrow]
        rfl
      have hagain : initialiseWeights (⟨List.replicate d 0, 1, 0, d, 0, 0⟩ : LsvmModel α) row.1 =
          ⟨List.replicate d 0, 1, 0, d, 0, 0⟩ := initialiseWeights_eq (represents_init α d) hrow
      have hfirst : lsvmSgdUpdate eta0 lambda lsvmInit row =
          lsvmSgdUpdate eta0 lambda ⟨List.replicate d 0, 1, 0, d, 0, 0⟩ row := by
        unfold lsvmSgdUpdate
        rw [hinit, hagain]
      rw [lsvmSgdAgg, List.foldlM_cons, List.foldlM_cons, hfirst]

/-- While the counters do not overflow, the weights over their divisor and the bias are those of
the plain recursion. -/
theorem lsvm_sgd_refines (eta0 lambda : α) (d : Nat) (rows : List (List α × α))
    (hne : rows ≠ []) (hdim : ∀ row ∈ rows, row.1.length = d) (hlen : rows.length < 2147483648)
    (hstep : ∀ n : Nat, n < rows.length →
      1 + lambda * eta0 * n ≠ 0 ∧ 1 - learningRate eta0 lambda n * lambda ≠ 0) :
    ∃ model, lsvmSgdAgg eta0 lambda rows = .ok model ∧
      model.weights.map (· / model.wdiv) = (sgd eta0 lambda d rows).weights ∧
      model.wbias = (sgd eta0 lambda d rows).bias ∧
      model.cumErr = (sgd eta0 lambda d rows).errors := by
  obtain ⟨model, hrun, hrep⟩ := foldlM_represents (represents_init α d) hdim
    (by rwa [Nat.zero_add]) fun k _ hk => (hstep k (by rwa [Nat.zero_add] at hk)).2
  refine ⟨model, ?_, hrep.weights, hrep.wbias, hrep.cumErr⟩
  rw [lsvmSgdAgg_eq hne hdim]
  exact hrun

/-! ## Overflow -/

/-- A data point that says nothing only changes the divisor and the counter. -/
theorem lsvmSgdUpdate_idle (eta0 lambda v : α) (i : Int) :
    ∃ v', lsvmSgdUpdate eta0 lambda ⟨[0], v, 0, 1, i, 0⟩ ([0], 0) =
      .ok ⟨[0], v', 0, 1, toInt32 (i + 1), 0⟩ := by
  unfold lsvmSgdUpdate initialiseWeights rescale dloss
  by_cases hlarge : 100000 < v / (1 - eta0 / (1 + lambda * eta0 * i) * lambda) ∧
      v / (1 - eta0 / (1 + lambda * eta0 * i) * lambda) ≠ 1
  · exact ⟨1, by simp [hlarge]⟩
  · exact ⟨v / (1 - eta0 / (1 + lambda * eta0 * i) * lambda), by simp [hlarge]⟩

theorem foldlM_idle (eta0 lambda : α) (k : Nat) (v : α) (i : Int) :
    ∃ v', (List.replicate k ([0], 0)).foldlM (lsvmSgdUpdate eta0 lambda) ⟨[0], v, 0, 1, i, 0⟩ =
      .ok ⟨[0], v', 0, 1, if k = 0 then i else toInt32 (i + k), 0⟩ := by
  induction k generalizing v i with
  | zero => exact ⟨v, rfl⟩
  | succ k ih =>
      obtain ⟨v₁, hstep⟩ := lsvmSgdUpdate_idle eta0 lambda v i
      obtain ⟨v₂, hrest⟩ := ih v₁ (toInt32 (i + 1))
      refine ⟨v₂, ?_⟩
      have hinds : (if k = 0 then toInt32 (i + 1) else toInt32 (toInt32 (i + 1) + k)) =
          toInt32 (i + (k + 1 : Nat)) := by
        rw [toInt32_toInt32_add, Nat.cast_add_one, add_right_comm, ← add_assoc]
        split
        case isTrue hk => rw [hk, Nat.cast_zero, add_zero]
        case isFalse => rfl
      rw [List.replicate_succ, List.foldlM_cons, hstep, ok_bind, hrest, hinds,
        if_neg (Nat.succ_ne_zero k)]

theorem sgdFrom_idle (eta0 lambda : α) (k n : Nat) (rows : List (List α × α)) :
    sgdFrom eta0 lambda n ⟨[0], 0, 0⟩ (List.replicate k ([0], 0) ++ rows) =
      sgdFrom eta0 lambda (n + k) ⟨[0], 0, 0⟩ rows := by
  induction k generalizing n with
  | zero => rfl
  | succ k ih =>
      have hstep : sgdStep eta0 lambda n ⟨[0], 0, 0⟩ ([0], 0) = ⟨[0], 0, 0⟩ := by
        simp [sgdStep, innerProduct]
      rw [List.replicate_succ, List.cons_append, sgdFrom, hstep, ih, Nat.add_assoc, Nat.add_comm 1]

/-- A data point at zero with a label changes the bias. -/
theorem lsvmSgdUpdate_bias [IsStrictOrderedRing α] (eta0 lambda v : α) (i : Int) :
    ∃ model, lsvmSgdUpdate eta0 lambda ⟨[0], v, 0, 1, i, 0⟩ ([0], 1) = .ok model ∧
      model.wbias = eta0 / (1 + lambda * eta0 * i) * (1 / 100) := by
  unfold lsvmSgdUpdate initialiseWeights rescale dloss
  by_cases hlarge : 100000 < v / (1 - eta0 / (1 + lambda * eta0 * i) * lambda) ∧
      v / (1 - eta0 / (1 + lambda * eta0 * i) * lambda) ≠ 1
  · simp [hlarge]
  · simp [hlarge]

end Run

/-- Three data points, the last of which the model gets wrong. -/
theorem lsvm_sgd_refines_three :
    ∃ model, lsvmSgdAgg (1 / 2 : ℚ) 1 [([1, 2], 1), ([0, -1], -1), ([3, 0], -1)] = .ok model ∧
      model.weights.map (· / model.wdiv) =
        (sgd (1 / 2 : ℚ) 1 2 [([1, 2], 1), ([0, -1], -1), ([3, 0], -1)]).weights ∧
      model.wbias = (sgd (1 / 2 : ℚ) 1 2 [([1, 2], 1), ([0, -1], -1), ([3, 0], -1)]).bias ∧
      model.cumErr = (sgd (1 / 2 : ℚ) 1 2 [([1, 2], 1), ([0, -1], -1), ([3, 0], -1)]).errors := by
  refine lsvm_sgd_refines (1 / 2) 1 2 [([1, 2], 1), ([0, -1], -1), ([3, 0], -1)] (by decide)
    (by decide) (by decide) ?_
  intro n hn
  have hn' : n < 3 := hn
  interval_cases n
  · constructor <;> norm_num [learningRate]
  · constructor <;> norm_num [learningRate]
  · constructor <;> norm_num [learningRate]

/-- After 2^31 data points the counter is negative, and so is the learning rate. -/
theorem lsvm_sgd_counter_wraps :
    (∀ row ∈ List.replicate 2147483648 ([(0 : ℚ)], (0 : ℚ)) ++ [([0], 1)], row.1.length = 1) ∧
      (∀ n : Nat, 1 + (1 : ℚ) * (1 / 2) * n ≠ 0 ∧ 1 - learningRate (1 / 2 : ℚ) 1 n * 1 ≠ 0) ∧
      ∃ model,
        lsvmSgdAgg (1 / 2 : ℚ) 1 (List.replicate 2147483648 ([0], 0) ++ [([0], 1)]) = .ok model ∧
        model.wbias ≠
          (sgd (1 / 2 : ℚ) 1 1 (List.replicate 2147483648 ([0], 0) ++ [([0], 1)])).bias := by
  have hpos : ∀ n : Nat, (0 : ℚ) < 1 + 1 * (1 / 2) * n := fun n => by positivity
  generalize hcount : 2147483648 = count
  have hdim : ∀ row ∈ List.replicate count ([(0 : ℚ)], (0 : ℚ)) ++ [([0], 1)],
      row.1.length = 1 := by
    intro row hrow
    rcases List.mem_append.mp hrow with hidle | hlast
    · rw [List.eq_of_mem_replicate hidle]
      rfl
    · rw [List.mem_singleton.mp hlast]
      rfl
  refine ⟨hdim, fun n => ⟨(hpos n).ne', ?_⟩, ?_⟩
  · have hne := (hpos n).ne'
    have hpos' : (0 : ℚ) < 1 / 2 + 1 / 2 * n := by positivity
    unfold learningRate
    rw [mul_one, sub_ne_zero]
    intro hone
    rw [eq_comm, div_eq_one_iff_eq hne] at hone
    linarith
  · obtain ⟨v, hidle⟩ := foldlM_idle (1 / 2 : ℚ) 1 count 1 0
    obtain ⟨model, hlast, hbias⟩ := lsvmSgdUpdate_bias (1 / 2 : ℚ) 1 v
      (if count = 0 then 0 else toInt32 (0 + count))
    refine ⟨model, ?_, ?_⟩
    · rw [lsvmSgdAgg_eq (by simp) hdim, List.foldlM_append]
      rw [show (⟨List.replicate 1 0, 1, 0, 1, 0, 0⟩ : LsvmModel ℚ) = ⟨[0], 1, 0, 1, 0, 0⟩ from rfl,
        hidle, ok_bind, List.foldlM_cons, hlast]
      rfl
    · rw [hbias, sgd, show List.replicate 1 (0 : ℚ) = [0] from rfl, sgdFrom_idle, ← hcount]
      have hwrap : toInt32 (0 + (2147483648 : Nat)) = -2147483648 := by decide
      rw [if_neg (by decide), hwrap]
      norm_num [sgdFrom, sgdStep, innerProduct, learningRate]

end Madlib.KernelMachines
