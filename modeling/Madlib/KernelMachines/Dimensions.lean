import Madlib.KernelMachines.KernelExpansion
import Madlib.KernelMachines.LinearSvm

/-!
# Examples of another dimension

The first example fixes the dimension of a model.  The kernel compares it with that of later ones,
but it is only called when there are support vectors, and never for the linear machine.
-/

namespace Madlib.KernelMachines

open Madlib.Backend Madlib.Lib.MachineInt Madlib.Lib.BlockArray

/-! ## Raised errors -/

section Raised

variable {α β : Type}

/-- The call ends in an error that it raises. -/
def Raises (x : Except Fault α) : Prop := ∃ fault, x = .error fault ∧ fault.isRaised

@[simp] theorem raises_error (fault : Fault) :
    Raises (.error fault : Except Fault α) ↔ fault.isRaised := by
  simp [Raises]

@[simp] theorem not_raises_ok (a : α) : ¬Raises (.ok a : Except Fault α) := by
  simp [Raises]

theorem raises_bind {x : Except Fault α} {f : α → Except Fault β} :
    Raises (x >>= f) ↔ Raises x ∨ ∃ a, x = .ok a ∧ Raises (f a) := by
  cases x with
  | error fault => simp
  | ok a => simp

theorem not_raises_storeAt {array source : List α} {offset : Int} {count : Nat} :
    ¬Raises (storeAt array source offset count) := by
  unfold storeAt
  split_ifs <;> simp [Fault.isRaised]

theorem constructZeroArray_raises_iff [Zero α] {n : Int} :
    Raises (constructZeroArray n : Except Fault (List α)) ↔
      toInt32 (8 * n) + 24 < 0 ∨ (maxAllocSize : Int) < toInt32 (8 * n) + 24 := by
  unfold constructZeroArray
  dsimp only
  split_ifs with hsize hheader
  · simp [Fault.isRaised, hsize]
  · simp [Fault.isRaised, hsize]
  · simp [hsize]

end Raised

/-! ## Calls -/

/-- The three machines that keep support vectors -/
inductive Machine where
  | regression
  | classification
  | novelty

/-- What a call gets beside the model. -/
structure SvmCall (α : Type) where
  ind : FloatArray α
  label : α
  eta : α
  nu : α
  slambda : α

section Calls

variable {α : Type} [Field α] [LinearOrder α]

/-- The update functions under one name -/
def svmUpdate (kernel : List α → List α → Except Fault α) (sqrt : α → α) (dblMin : α) :
    Machine → SvmModel α → SvmCall α → Except Fault (SvmModel α)
  | .regression, model, call =>
      svmRegUpdate kernel dblMin call.eta call.nu call.slambda model (call.ind, call.label)
  | .classification, model, call =>
      svmClsUpdate kernel sqrt dblMin call.eta call.nu model (call.ind, call.label)
  | .novelty, model, call => svmNdUpdate kernel dblMin call.eta call.nu model call.ind

/-- `lsvm_sgd_update`, which does not check the array.  As many values are read as the first one
has elements, NULL or not. -/
def lsvmUpdate (model : LsvmModel α) (call : SvmCall α) : Except Fault (LsvmModel α) :=
  if model.indDim = 0 ∧ call.ind.values.length < call.ind.items then .error .outOfBounds
  else lsvmSgdUpdate call.eta call.slambda model (call.ind.values, call.label)

/-- The parameters are in their ranges. -/
def SvmCall.accepted (call : SvmCall α) : Machine → Bool
  | .regression =>
      !(call.eta ≤ 0 || 1 < call.eta || call.nu ≤ 0 || 1 < call.nu || 1 < call.eta * call.slambda)
  | _ => !(call.eta ≤ 0 || 1 < call.eta || call.nu ≤ 0 || 1 < call.nu)

/-- The arguments do not pass the checks made before anything else. -/
def SvmCall.Refused (call : SvmCall α) (machine : Machine) : Prop :=
  call.accepted machine = false ∨ call.ind.nullBitmap ∨ call.ind.ndim ≠ 1

/-- The first block of vectors is larger than an allocation, or its size turns negative. -/
def BlockRefused (d : Nat) : Prop :=
  toInt32 (8 * toInt32 ((blocksize : Int) * d)) + 24 < 0 ∨
    (maxAllocSize : Int) < toInt32 (8 * toInt32 ((blocksize : Int) * d)) + 24

instance (d : Nat) : Decidable (BlockRefused d) := inferInstanceAs (Decidable (_ ∨ _))

/-- The kernel takes no vectors of different lengths. -/
def ComparesLengths (kernel : List α → List α → Except Fault α) : Prop :=
  ∀ x1 x2, x1.length ≠ x2.length → Raises (kernel x1 x2)

/-- `svm_polynomial` -/
def svmPolynomial (pow : α → α → α) (degree : α) (x1 x2 : List α) : Except Fault α :=
  if x1.length ≠ x2.length then
    .error (.ereport .invalidParameterValue "function \"%s\" called with invalid parameters")
  else .ok (pow (dotSum x1 x2) degree)

/-- `svm_gaussian` -/
def svmGaussian (exp : α → α) (gamma : α) (x1 x2 : List α) : Except Fault α :=
  if x1.length ≠ x2.length then
    .error (.ereport .invalidParameterValue "function \"%s\" called with invalid parameters")
  else
    let ret := (x1.zip x2).foldl (fun ret p => ret + (p.1 - p.2) * (p.1 - p.2)) 0
    .ok (exp (-1 * gamma * ret))

omit [LinearOrder α]

theorem svmDot_comparesLengths : ComparesLengths (svmDot : List α → List α → Except Fault α) := by
  intro x1 x2 hlength
  simp [svmDot, hlength, Fault.isRaised]

theorem svmPolynomial_comparesLengths (pow : α → α → α) (degree : α) :
    ComparesLengths (svmPolynomial pow degree) := by
  intro x1 x2 hlength
  simp [svmPolynomial, hlength, Fault.isRaised]

theorem svmGaussian_comparesLengths (exp : α → α) (gamma : α) :
    ComparesLengths (svmGaussian exp gamma) := by
  intro x1 x2 hlength
  simp [svmGaussian, hlength, Fault.isRaised]

end Calls

/-! ## What a call finds and leaves -/

section Arrays

variable {α : Type}

theorem readAt_eq_ok {array xs : List α} {offset : Int} {count : Nat}
    (h : readAt array offset count = .ok xs) :
    0 ≤ offset ∧ offset + count ≤ array.length := by
  unfold readAt at h
  split_ifs at h with hrange
  omega

/-- Writing does not change how long the array is. -/
theorem storeAt_eq_ok {array source array' : List α} {offset : Int} {count : Nat}
    (h : storeAt array source offset count = .ok array') : count ≤ array'.length := by
  unfold storeAt at h
  split_ifs at h with hrange
  rw [← Except.ok.inj h]
  simp only [List.length_append, List.length_take, List.length_drop]
  omega

theorem addNewWeight_eq_ok [Zero α] {weights weights' : List α} {weight : α} {nsvs : Nat}
    (h : addNewWeight weights weight nsvs = .ok weights') : 0 < weights'.length := by
  unfold addNewWeight at h
  split_ifs at h with hfull
  · have ⟨ret, _, h⟩ := bind_eq_ok.mp h
    have ⟨ret, _, h⟩ := bind_eq_ok.mp h
    exact storeAt_eq_ok h
  · exact storeAt_eq_ok h

theorem addNewSV_eq_ok [Zero α] {spvs ind spvs' : List α} {nsvs dim : Nat}
    (h : addNewSV spvs ind nsvs dim = .ok spvs') : dim ≤ spvs'.length := by
  unfold addNewSV at h
  split_ifs at h with hfull
  · have ⟨ret, _, h⟩ := bind_eq_ok.mp h
    have ⟨ret, _, h⟩ := bind_eq_ok.mp h
    exact storeAt_eq_ok h
  · exact storeAt_eq_ok h

variable [Field α] [LinearOrder α] {model : SvmModel α} {d : Nat}

omit [LinearOrder α] in
theorem addSupportVector_eq_ok {tooSmall : α → Bool} {factor weight : α} {ind : List α}
    {arrays : List α × List α}
    (h : addSupportVector model tooSmall factor weight ind d = .ok arrays) :
    d ≤ arrays.2.length ∧ 0 < arrays.1.length := by
  have ⟨rescaled, _, h⟩ := bind_eq_ok.mp h
  have ⟨weights, hweights, h⟩ := bind_eq_ok.mp h
  have ⟨individuals, hindividuals, h⟩ := bind_eq_ok.mp h
  rw [← Except.ok.inj h]
  exact ⟨addNewSV_eq_ok hindividuals, addNewWeight_eq_ok hweights⟩

omit [LinearOrder α] in
/-- The first support vector is refused with its block, and for no other reason. -/
theorem addSupportVector_raises_iff (hnsvs : model.nsvs = 0) {tooSmall : α → Bool}
    {factor weight : α} {ind : List α} :
    Raises (addSupportVector model tooSmall factor weight ind d) ↔ BlockRefused d := by
  have hrescaled : ∃ weights, rescaleWeights tooSmall factor model.weights 0 = .ok weights := by
    unfold rescaleWeights
    rw [if_neg (Nat.not_lt_zero _)]
    exact ⟨_, rfl⟩
  have ⟨weights, hweights⟩ := hrescaled
  have hweight : ∃ weights', addNewWeight weights weight 0 = .ok weights' := by
    have hcreate : constructZeroArray (toInt32 ((0 : Nat) + (blocksize : Nat))) =
        .ok (List.replicate 100 (0 : α)) := rfl
    unfold addNewWeight
    rw [if_pos (by decide), hcreate, ok_bind]
    exact ⟨_, rfl⟩
  have ⟨weights', hweights'⟩ := hweight
  have hsize : toInt32 (((0 : Nat) + (blocksize : Nat) : Int) * d) =
      toInt32 ((blocksize : Int) * d) := by
    rw [Nat.cast_zero, zero_add]
  unfold addSupportVector
  rw [hnsvs, hweights, ok_bind, hweights', ok_bind]
  unfold addNewSV BlockRefused
  rw [if_pos (by decide), hsize, ← constructZeroArray_raises_iff (α := α)]
  simp [raises_bind, not_raises_storeAt]

end Arrays

/-! ## Runs of the machines with support vectors -/

section Runs

variable {α : Type} [Field α] [LinearOrder α] {kernel : List α → List α → Except Fault α}
  {model model' : SvmModel α} {ind : FloatArray α} {accepted : Bool} {d : Nat} {p : α}

omit [LinearOrder α] in
theorem svmPredictEval_empty {weights vectors x : List α}
    (h : svmPredictEval kernel weights vectors x 0 d = .ok p) : p = 0 := by
  have ⟨sppVec, _, hfold⟩ := bind_eq_ok.mp h
  exact (Except.ok.inj hfold).symm

omit [LinearOrder α] in
/-- The first round reads the first vector and the first weight. -/
theorem svmPredictEval_reads {weights vectors x : List α} {nsvs : Nat}
    (h : svmPredictEval kernel weights vectors x (nsvs + 1) d = .ok p) :
    d ≤ vectors.length ∧ 0 < weights.length := by
  have ⟨sppVec, _, hfold⟩ := bind_eq_ok.mp h
  rw [List.range_succ_eq_map, List.foldlM_cons] at hfold
  have ⟨ret, hround, _⟩ := bind_eq_ok.mp hfold
  have ⟨relevant, hvector, hround⟩ := bind_eq_ok.mp hround
  have ⟨sppVec', _, hround⟩ := bind_eq_ok.mp hround
  have ⟨weight, hweight, _⟩ := bind_eq_ok.mp hround
  have ⟨hoffset, hrange⟩ := readAt_eq_ok hvector
  have ⟨_, hfirst⟩ := readAt_eq_ok hweight
  omega

omit [LinearOrder α] in
/-- The kernel is called in the first round. -/
theorem svmPredictEval_raises (hkernel : ComparesLengths kernel) {weights vectors x : List α}
    (nsvs : Nat) (hd : d ≤ 134217724) (hvectors : d ≤ vectors.length)
    (hweights : 0 < weights.length) (hx : x.length ≠ d) : Raises (svmPredictEval kernel weights vectors x (nsvs + 1) d) := by
  have hvector : readAt vectors (toInt32 ((d : Int) * (0 : Nat))) d =
      .ok ((vectors.drop 0).take d) := by
    rw [Nat.cast_zero, mul_zero]
    exact readAt_ok (show 0 + d ≤ vectors.length by omega)
  have hlength : ((vectors.drop 0).take d).length = d := by
    rw [List.drop_zero, List.length_take]
    omega
  have hcopy : storeAt (List.replicate d (0 : α)) ((vectors.drop 0).take d) 0 d =
      .ok ((vectors.drop 0).take d) := by
    change storeAt _ _ ((0 : Nat) : Int) _ = _
    rw [storeAt_ok (by rw [List.length_replicate]; omega) hlength.ge,
      List.take_of_length_le hlength.le, written_all (by rw [List.length_replicate, hlength])]
  have hweight : readAt weights ((0 : Nat) : Int) 1 = .ok ((weights.drop 0).take 1) :=
    readAt_ok (by omega)
  unfold svmPredictEval
  rw [constructZeroArray_ok hd, ok_bind, List.range_succ_eq_map, List.foldlM_cons, raises_bind]
  left
  rw [hvector, ok_bind, hcopy, ok_bind, hweight, ok_bind, raises_bind]
  left
  exact hkernel _ _ (by rw [hlength]; exact hx.symm)

omit [LinearOrder α] in
theorem svmPredict_refused (h : accepted = false ∨ ind.nullBitmap ∨ ind.ndim ≠ 1) :
    svmPredict kernel accepted model ind = .error invalidParameter := by
  unfold svmPredict
  rw [if_pos h]
  rfl

omit [LinearOrder α] in
theorem svmPredict_accepted (h : ¬(accepted = false ∨ ind.nullBitmap ∨ ind.ndim ≠ 1)) :
    svmPredict kernel accepted model ind =
      svmPredictEval kernel model.weights model.individuals ind.values model.nsvs
        (if model.indDim = 0 then ind.items else model.indDim) >>= fun p =>
          pure (if model.indDim = 0 then ind.items else model.indDim, p) := by
  unfold svmPredict
  rw [if_neg h]

/-- A call that returns has passed the checks, and has read the first of the vectors. -/
structure Predicted (model : SvmModel α) (accepted : Bool) (ind : FloatArray α) (d : Nat) (p : α) :
    Prop where
  accepted : accepted = true
  nullBitmap : ind.nullBitmap = false
  indDim : d = if model.indDim = 0 then ind.items else model.indDim
  empty : model.nsvs = 0 → p = 0
  stored : 0 < model.nsvs → d ≤ model.individuals.length ∧ 0 < model.weights.length

omit [LinearOrder α] in
theorem svmPredict_eq_ok (h : svmPredict kernel accepted model ind = .ok (d, p)) :
    Predicted model accepted ind d p := by
  by_cases hrefused : accepted = false ∨ ind.nullBitmap ∨ ind.ndim ≠ 1
  · rw [svmPredict_refused hrefused] at h
    cases h
  rw [svmPredict_accepted hrefused] at h
  simp only [not_or, Bool.not_eq_false, Bool.not_eq_true, not_not] at hrefused
  have ⟨haccepted, hnulls, _⟩ := hrefused
  have ⟨q, heval, hpair⟩ := bind_eq_ok.mp h
  have ⟨hdim, hq⟩ := Prod.mk.inj (Except.ok.inj hpair)
  rw [hdim, hq] at heval
  constructor
  · exact haccepted
  · exact hnulls
  · exact hdim.symm
  · intro hnsvs
    rw [hnsvs] at heval
    exact svmPredictEval_empty heval
  · intro hnsvs
    rw [← Nat.succ_pred_eq_of_pos hnsvs] at heval
    exact svmPredictEval_reads heval

/-- With no support vectors the value at an example is zero, which from the second call on counts
as a large error; for the classification it does so in the first one. -/
def Machine.TakesAll : Machine → SvmModel α → Prop
  | .regression, model => model.epsilon ≤ 0 ∧ (0 < model.indDim → model.epsilon < 0)
  | .classification, model => model.indDim = 0 ∧ model.b = 0 ∧ model.rho = 0
  | .novelty, model => 0 ≤ model.rho ∧ (0 < model.indDim → 0 < model.rho)

/-- What holds of a model after any calls. -/
structure Reached (machine : Machine) (model : SvmModel α) : Prop where
  dimension_le : model.indDim ≤ 134217724
  stored : 0 < model.nsvs →
    model.indDim ≤ model.individuals.length ∧ 0 < model.weights.length
  takesAll : model.nsvs = 0 → machine.TakesAll model

omit [LinearOrder α] in
theorem Predicted.dimension_le (h : Predicted model accepted ind d p)
    (hmodel : model.indDim ≤ 134217724) : d ≤ 134217724 := by
  have hitems := ind.items_eq h.nullBitmap
  have hsize := allocated_iff.mp ind.size_le
  rw [h.indDim]
  split_ifs <;> omega

/-- What a call does to the arrays of the model, and, if it keeps them, to its tolerance. -/
inductive Outcome (model model' : SvmModel α) (ind : List α) (large kept : Prop) : Prop
  | kept (hsmall : ¬large) (nsvs : model'.nsvs = model.nsvs)
      (weights : model'.weights = model.weights)
      (individuals : model'.individuals = model.individuals) (hkept : kept)
  | added (hlarge : large) (nsvs : model'.nsvs = model.nsvs + 1) {tooSmall : α → Bool}
      {factor weight : α}
      (arrays : addSupportVector model tooSmall factor weight ind model'.indDim =
        .ok (model'.weights, model'.individuals))

variable {dblMin eta nu slambda : α} {sqrt : α → α} {row : FloatArray α × α}

theorem svmRegUpdate_eq_ok
    (h : svmRegUpdate kernel dblMin eta nu slambda model row = .ok model') :
    ∃ p, svmPredict kernel
        (!(eta ≤ 0 || 1 < eta || nu ≤ 0 || 1 < nu || 1 < eta * slambda)) model row.1 =
          .ok (model'.indDim, p) ∧
      Outcome model model' row.1.values (model.epsilon < |row.2 - (p + model.b)|)
        (model'.epsilon = model.epsilon - eta * nu) := by
  have ⟨⟨d, p⟩, hp, h⟩ := bind_eq_ok.mp h
  dsimp only at h
  by_cases hlarge : model.epsilon < |row.2 - (p + model.b)|
  · rw [if_pos hlarge] at h
    have ⟨⟨weights, individuals⟩, hadd, h⟩ := bind_eq_ok.mp h
    rw [← Except.ok.inj h]
    exact ⟨p, hp, .added hlarge rfl hadd⟩
  · rw [if_neg hlarge] at h
    rw [← Except.ok.inj h]
    exact ⟨p, hp, .kept hlarge rfl rfl rfl rfl⟩

theorem svmClsUpdate_eq_ok (h : svmClsUpdate kernel sqrt dblMin eta nu model row = .ok model') :
    ∃ p, svmPredict kernel (!(eta ≤ 0 || 1 < eta || nu ≤ 0 || 1 < nu)) model row.1 =
          .ok (model'.indDim, p) ∧
      Outcome model model' row.1.values (row.2 * (p + model.b) ≤ model.rho) True := by
  have ⟨⟨d, p⟩, hp, h⟩ := bind_eq_ok.mp h
  dsimp only at h
  by_cases hlarge : row.2 * (p + model.b) ≤ model.rho
  · rw [if_pos hlarge] at h
    have ⟨⟨weights, individuals⟩, hadd, h⟩ := bind_eq_ok.mp h
    rw [← Except.ok.inj h]
    exact ⟨p, hp, .added hlarge rfl hadd⟩
  · rw [if_neg hlarge] at h
    rw [← Except.ok.inj h]
    exact ⟨p, hp, .kept hlarge rfl rfl rfl trivial⟩

theorem svmNdUpdate_eq_ok (h : svmNdUpdate kernel dblMin eta nu model ind = .ok model') :
    ∃ p, svmPredict kernel (!(eta ≤ 0 || 1 < eta || nu ≤ 0 || 1 < nu)) model ind =
          .ok (model'.indDim, p) ∧
      Outcome model model' ind.values (p < model.rho) (model'.rho = model.rho + eta * nu) := by
  have ⟨⟨d, p⟩, hp, h⟩ := bind_eq_ok.mp h
  dsimp only at h
  by_cases hlarge : p < model.rho
  · rw [if_pos hlarge] at h
    have ⟨⟨weights, individuals⟩, hadd, h⟩ := bind_eq_ok.mp h
    rw [← Except.ok.inj h]
    exact ⟨p, hp, .added hlarge rfl hadd⟩
  · rw [if_neg hlarge] at h
    rw [← Except.ok.inj h]
    exact ⟨p, hp, .kept hlarge rfl rfl rfl rfl⟩

/-- Only the tolerance is left to be looked at. -/
theorem Reached.of_outcome {machine : Machine} {large kept : Prop} (h : Reached machine model)
    (hp : svmPredict kernel accepted model ind = .ok (model'.indDim, p))
    (hout : Outcome model model' ind.values large kept)
    (htakes : model.nsvs = 0 → accepted = true → p = 0 → ¬large → kept →
      machine.TakesAll model') : Reached machine model' := by
  have hpredicted := svmPredict_eq_ok hp
  have hdimension := hpredicted.dimension_le h.dimension_le
  cases hout with
  | kept hsmall nsvs weights individuals hkept =>
      constructor
      · exact hdimension
      · rw [nsvs, weights, individuals]
        exact hpredicted.stored
      · intro hnsvs
        rw [nsvs] at hnsvs
        exact htakes hnsvs hpredicted.accepted (hpredicted.empty hnsvs) hsmall hkept
  | added hlarge nsvs arrays =>
      constructor
      · exact hdimension
      · intro _
        exact addSupportVector_eq_ok arrays
      · intro hnsvs
        omega

variable {machine : Machine} {call : SvmCall α}

theorem SvmCall.pos_of_accepted (machine : Machine) (h : call.accepted machine = true) :
    0 < call.eta ∧ 0 < call.nu := by
  cases machine <;> simp only [SvmCall.accepted, Bool.not_eq_true', Bool.or_eq_false_iff,
    decide_eq_false_iff_not, not_le] at h <;> tauto

/-- The checks come first, and with no vectors stored the example would be added. -/
theorem svmUpdate_eq_bind [IsStrictOrderedRing α] (kernel : List α → List α → Except Fault α)
    (sqrt : α → α) (dblMin : α) (machine : Machine) (model : SvmModel α) (call : SvmCall α) :
    ∃ f : Nat × α → Except Fault (SvmModel α),
    svmUpdate kernel sqrt dblMin machine model call =
        svmPredict kernel (call.accepted machine) model call.ind >>= f ∧
      (model.nsvs = 0 → 0 < model.indDim → machine.TakesAll model →
        (Raises (f (model.indDim, 0)) ↔ BlockRefused model.indDim)) := by
  cases machine with
  | regression =>
      refine ⟨_, rfl, ?_⟩
      intro hnsvs hdim htakes
      have hlarge : model.epsilon < |call.label - (0 + model.b)| :=
        (htakes.2 hdim).trans_le (abs_nonneg _)
      dsimp only
      rw [if_pos hlarge, raises_bind, addSupportVector_raises_iff hnsvs]
      simp
  | classification =>
      refine ⟨_, rfl, ?_⟩
      intro _ hdim htakes
      exact absurd htakes.1 hdim.ne'
  | novelty =>
      refine ⟨_, rfl, ?_⟩
      intro hnsvs hdim htakes
      dsimp only
      rw [if_pos (htakes.2 hdim), raises_bind, addSupportVector_raises_iff hnsvs]
      simp

theorem svmUpdate_reached [IsStrictOrderedRing α] (h : Reached machine model)
    (hstep : svmUpdate kernel sqrt dblMin machine model call = .ok model') :
    Reached machine model' := by
  cases machine with
  | regression =>
      have ⟨p, hp, hout⟩ := svmRegUpdate_eq_ok hstep
      apply h.of_outcome hp hout
      intro hnsvs haccepted _ _ hepsilon
      have hpos := SvmCall.pos_of_accepted .regression haccepted
      have hlt : model'.epsilon < 0 := by
        have hdown := mul_pos hpos.1 hpos.2
        have hle := (h.takesAll hnsvs).1
        rw [hepsilon]
        linarith
      exact ⟨hlt.le, fun _ => hlt⟩
  | classification =>
      have ⟨p, hp, hout⟩ := svmClsUpdate_eq_ok hstep
      apply h.of_outcome hp hout
      intro hnsvs _ hzero hsmall _
      have ⟨_, hb, hrho⟩ := h.takesAll hnsvs
      exact absurd (by rw [hzero, hb, hrho, add_zero, mul_zero]) hsmall
  | novelty =>
      have ⟨p, hp, hout⟩ := svmNdUpdate_eq_ok hstep
      apply h.of_outcome hp hout
      intro hnsvs haccepted _ _ hrho
      have hpos := SvmCall.pos_of_accepted .novelty haccepted
      have hlt : 0 < model'.rho := by
        rw [hrho]
        exact add_pos_of_nonneg_of_pos (h.takesAll hnsvs).1 (mul_pos hpos.1 hpos.2)
      exact ⟨hlt.le, fun _ => hlt⟩

theorem reached_init (machine : Machine) : Reached machine (svmInit : SvmModel α) := by
  constructor
  · exact Nat.zero_le _
  · intro h
    exact absurd h (Nat.lt_irrefl 0)
  · intro _
    cases machine
    · exact ⟨le_refl _, fun h => absurd h (Nat.lt_irrefl 0)⟩
    · exact ⟨rfl, rfl, rfl⟩
    · exact ⟨le_refl _, fun h => absurd h (Nat.lt_irrefl 0)⟩

theorem svmUpdate_run_reached [IsStrictOrderedRing α] {calls : List (SvmCall α)}
    (h : Reached machine model)
    (hrun : calls.foldlM (svmUpdate kernel sqrt dblMin machine) model = .ok model') :
    Reached machine model' := by
  induction calls generalizing model with
  | nil =>
      rw [← Except.ok.inj hrun]
      exact h
  | cons call calls ih =>
      have ⟨next, hstep, hrest⟩ := bind_eq_ok.mp hrun
      exact ih (svmUpdate_reached h hstep) hrest

theorem svmUpdate_raises_iff [IsStrictOrderedRing α] (hkernel : ComparesLengths kernel)
    (sqrt : α → α) (dblMin : α) (h : Reached machine model) (hdim : 0 < model.indDim)
    (hitems : call.ind.items ≠ model.indDim) :
    Raises (svmUpdate kernel sqrt dblMin machine model call) ↔
      call.Refused machine ∨ 0 < model.nsvs ∨ BlockRefused model.indDim := by
  have ⟨f, hupdate, hempty⟩ := svmUpdate_eq_bind kernel sqrt dblMin machine model call
  rw [hupdate]
  by_cases hrefused : call.Refused machine
  · rw [svmPredict_refused hrefused]
    simp [hrefused, invalidParameter, Fault.isRaised]
  have hnulls : call.ind.nullBitmap = false := by
    by_contra hnot
    exact hrefused (.inr (.inl (Bool.eq_true_of_not_eq_false hnot)))
  have hlength : call.ind.values.length ≠ model.indDim := by
    rw [← call.ind.items_eq hnulls]
    exact hitems
  rw [svmPredict_accepted hrefused, if_neg hdim.ne']
  by_cases hnsvs : 0 < model.nsvs
  · have ⟨hvectors, hweights⟩ := h.stored hnsvs
    have hraises := svmPredictEval_raises hkernel (model.nsvs - 1) h.dimension_le hvectors
      hweights hlength
    rw [Nat.sub_add_cancel hnsvs] at hraises
    simp [raises_bind, hraises, hnsvs]
  · have hzero : model.nsvs = 0 := by omega
    have hvalue : svmPredictEval kernel model.weights model.individuals call.ind.values model.nsvs
        model.indDim = .ok 0 := by
      unfold svmPredictEval
      rw [constructZeroArray_ok h.dimension_le, hzero]
      rfl
    rw [hvalue, ok_bind, pure_eq_ok, ok_bind, hempty hzero hdim (h.takesAll hzero)]
    simp [hrefused, hzero]

end Runs

/-! ## Runs of the linear machine -/

section Linear

variable {α : Type} [Field α] [LinearOrder α] {model model' : LsvmModel α} {call : SvmCall α}

/-- There are as many weights as the first example had elements. -/
theorem lsvmUpdate_length (h : lsvmUpdate model call = .ok model') :
    model'.weights.length = model'.indDim := by
  unfold lsvmUpdate at h
  by_cases hnulls : model.indDim = 0 ∧ call.ind.values.length < call.ind.items
  · rw [if_pos hnulls] at h
    cases h
  rw [if_neg hnulls] at h
  unfold lsvmSgdUpdate at h
  generalize initialiseWeights model call.ind.values = started at h
  dsimp only at h
  by_cases houtside : started.weights.length ≠ started.indDim ∨
      call.ind.values.length < started.indDim
  · rw [if_pos houtside] at h
    cases h
  rw [if_neg houtside] at h
  have ⟨hlength, _, hdim⟩ := rescale_fields { started with
    wdiv := started.wdiv /
      (1 - call.eta / (1 + call.slambda * call.eta * started.inds) * call.slambda) }
  rw [← Except.ok.inj h]
  dsimp only at hlength hdim ⊢
  rw [hdim]
  split_ifs
  · rw [List.length_zipWith, hlength, List.length_take]
    omega
  · rw [hlength]
    omega

theorem lsvmUpdate_run_length {calls : List (SvmCall α)}
    (h : model.weights.length = model.indDim)
    (hrun : calls.foldlM lsvmUpdate model = .ok model') :
    model'.weights.length = model'.indDim := by
  induction calls generalizing model with
  | nil =>
      rw [← Except.ok.inj hrun]
      exact h
  | cons call calls ih =>
      have ⟨next, hstep, hrest⟩ := bind_eq_ok.mp hrun
      exact ih (lsvmUpdate_length hstep) hrest

/-- A shorter array is read past its end, a longer one is cut off. -/
theorem lsvmUpdate_mismatch (h : model.weights.length = model.indDim) (hdim : 0 < model.indDim) :
    (call.ind.values.length < model.indDim → lsvmUpdate model call = .error .outOfBounds) ∧
      (model.indDim ≤ call.ind.values.length →
        ∃ model', lsvmUpdate model call = .ok model' ∧
          lsvmSgdUpdate call.eta call.slambda model
            (call.ind.values.take model.indDim, call.label) = .ok model') := by
  have hstarted : ∀ ind, initialiseWeights model ind = model := fun _ => if_neg hdim.ne'
  have hnulls : ¬(model.indDim = 0 ∧ call.ind.values.length < call.ind.items) :=
    fun hboth => hdim.ne' hboth.1
  unfold lsvmUpdate
  rw [if_neg hnulls]
  unfold lsvmSgdUpdate
  simp only [hstarted]
  constructor
  · intro hshort
    rw [if_pos (.inr hshort)]
  · intro hlong
    have hread : ¬(model.weights.length ≠ model.indDim ∨
        call.ind.values.length < model.indDim) := by omega
    have hcut : ¬(model.weights.length ≠ model.indDim ∨
        (call.ind.values.take model.indDim).length < model.indDim) := by
      rw [List.length_take]
      omega
    rw [if_neg hread, if_neg hcut, List.take_take, min_self]
    exact ⟨_, rfl, rfl⟩

end Linear

/-! ## All machines -/

/-- After any calls that fix a dimension, an example of another one is refused by the kernel as
soon as there is a support vector.  The first support vector is taken as it comes, and the linear
machine takes every example. -/
theorem update_rejects_iff {α : Type} [Field α] [LinearOrder α] [IsStrictOrderedRing α]
    {kernel : List α → List α → Except Fault α} (hkernel : ComparesLengths kernel)
    (sqrt : α → α) (dblMin : α) :
    (∀ machine (calls : List (SvmCall α)) model,
      calls.foldlM (svmUpdate kernel sqrt dblMin machine) svmInit = .ok model →
      0 < model.indDim → ∀ call : SvmCall α, call.ind.items ≠ model.indDim →
        (Raises (svmUpdate kernel sqrt dblMin machine model call) ↔
          call.Refused machine ∨ 0 < model.nsvs ∨ BlockRefused model.indDim) ∧
        (machine = .classification →
          Raises (svmUpdate kernel sqrt dblMin machine model call))) ∧
    (∀ (calls : List (SvmCall α)) model, calls.foldlM lsvmUpdate lsvmInit = .ok model →
      0 < model.indDim → ∀ call : SvmCall α, call.ind.items ≠ model.indDim →
        (call.ind.values.length < model.indDim → lsvmUpdate model call = .error .outOfBounds) ∧
        (model.indDim ≤ call.ind.values.length →
          ∃ model', lsvmUpdate model call = .ok model' ∧
            lsvmSgdUpdate call.eta call.slambda model
              (call.ind.values.take model.indDim, call.label) = .ok model')) := by
  constructor
  · intro machine calls model hrun hdim call hitems
    have hreached := svmUpdate_run_reached (reached_init machine) hrun
    have hiff := svmUpdate_raises_iff hkernel sqrt dblMin hreached hdim hitems
    refine ⟨hiff, ?_⟩
    intro hmachine
    have hnsvs : 0 < model.nsvs := by
      by_contra hnot
      have htakes := hreached.takesAll (Nat.eq_zero_of_not_pos hnot)
      rw [hmachine] at htakes
      exact absurd htakes.1 hdim.ne'
    exact hiff.mpr (.inr (.inl hnsvs))
  · intro calls model hrun hdim call _
    exact lsvmUpdate_mismatch (lsvmUpdate_run_length rfl hrun) hdim

/-! ## Two examples -/

def firstCall : SvmCall ℚ := ⟨pointOne, 0, 1 / 10, 1 / 200, 1 / 20⟩

def pointTwo : FloatArray ℚ := ⟨false, 1, 2, [1, 5], fun _ => rfl, by decide⟩

def secondCall : SvmCall ℚ := ⟨pointTwo, 2, 1 / 10, 1 / 200, 1 / 20⟩

/-- There is nothing to be learned from the first example. -/
def afterFirst : SvmModel ℚ := ⟨1, 0, -1 / 2000, 0, 0, 0, 1, [], []⟩

def afterFirstLinear : LsvmModel ℚ := ⟨[0], 200 / 199, 0, 1, 1, 0⟩

theorem firstCall_run :
    [firstCall].foldlM (svmUpdate svmDot id (1 / 2 ^ 1022) .regression) svmInit =
      .ok afterFirst := by
  decide +kernel

theorem firstCall_run_linear : [firstCall].foldlM lsvmUpdate lsvmInit = .ok afterFirstLinear := by
  decide +kernel

theorem update_rejects_two :
    (Raises (svmUpdate svmDot id (1 / 2 ^ 1022) .regression afterFirst secondCall) ↔
      secondCall.Refused .regression ∨ 0 < afterFirst.nsvs ∨ BlockRefused afterFirst.indDim) ∧
    ∃ model', lsvmUpdate afterFirstLinear secondCall = .ok model' ∧
      lsvmSgdUpdate (1 / 10) (1 / 20) afterFirstLinear ([1], 2) = .ok model' := by
  have h := update_rejects_iff svmDot_comparesLengths id (1 / 2 ^ 1022 : ℚ)
  constructor
  · exact (h.1 .regression [firstCall] afterFirst firstCall_run (by decide) secondCall
      (by decide)).1
  · exact (h.2 [firstCall] afterFirstLinear firstCall_run_linear (by decide) secondCall
      (by decide)).2 (by decide)

/-- The first of two elements becomes a support vector. -/
theorem svmUpdate_truncates :
    [firstCall].foldlM (svmUpdate svmDot id (1 / 2 ^ 1022) .regression) svmInit =
        .ok afterFirst ∧
      secondCall.ind.items ≠ afterFirst.indDim ∧ afterFirst.indDim = 1 ∧
      svmUpdate svmDot id (1 / 2 ^ 1022) .regression afterFirst secondCall =
        .ok ⟨2, 2, 99 / 1000, 0, 1 / 10, 1, 1, 1 / 10 :: List.replicate 99 0,
          1 :: List.replicate 99 0⟩ := by
  decide +kernel

end Madlib.KernelMachines
