import Madlib.KernelMachines.OnlineSvm
import Madlib.Lib.BlockArray

/-!
# The kernel expansion of the regression machine

The recursion of the algorithm keeps the examples with a large error, each with the sign of its
error.  Weights, offset and tolerance are read off them.
-/

namespace Madlib.KernelMachines

open Madlib.Backend Madlib.Lib.MachineInt Madlib.Lib.BlockArray

section Recursion

variable {α : Type} [Field α] [LinearOrder α]

/-- The parameters `svm_reg_update` accepts, without the one value of `slambda` it divides by zero
for; `dblMin` is `DBL_MIN`. -/
structure RegParameters (α : Type) [Field α] [LinearOrder α] where
  dblMin : α
  eta : α
  nu : α
  slambda : α
  eta_pos : 0 < eta
  eta_le : eta ≤ 1
  nu_pos : 0 < nu
  nu_le : nu ≤ 1
  shrinks : eta * slambda < 1

/-- The examples seen, and those kept with the signs of their errors. -/
structure Expansion (α : Type) where
  examples : Nat
  support : List (List α × α)

namespace Expansion

variable (params : RegParameters α) (k : List α → List α → α) (e : Expansion α)

/-- The `i`-th of `n` support vectors was rescaled for each later one. -/
def weights : List α :=
  e.support.mapIdx fun i s =>
    s.2 * params.eta * (1 - params.eta * params.slambda) ^ (e.support.length - 1 - i)

def offset : α := (e.support.map fun s => s.2 * params.eta).sum

def tolerance (epsilon0 : α) : α :=
  epsilon0 + params.eta * (e.support.length - params.nu * e.examples)

/-- The value at a point -/
def predict (x : List α) : α :=
  e.offset params +
    (List.zipWith (fun w s => w * k s.1 x) (e.weights params) e.support).sum

/-- The error exceeds the tolerance. -/
def Large (epsilon0 : α) (row : List α × α) : Prop :=
  e.tolerance params epsilon0 < |row.2 - e.predict params k row.1|

instance (epsilon0 : α) (row : List α × α) : Decidable (e.Large params k epsilon0 row) :=
  inferInstanceAs (Decidable (_ < _))

/-- The sign of the error -/
def sign (row : List α × α) : α := if row.2 - e.predict params k row.1 < 0 then -1 else 1

/-- An example with a large error is kept. -/
def step (epsilon0 : α) (row : List α × α) : Expansion α where
  examples := e.examples + 1
  support :=
    if e.Large params k epsilon0 row then e.support ++ [(row.1, e.sign params k row)]
    else e.support

/-- The recursion over a sequence of examples -/
def after (epsilon0 : α) (rows : List (List α × α)) : Expansion α :=
  rows.foldl (fun e row => e.step params k epsilon0 row) ⟨0, []⟩

local instance atLeastTwo_ten : Nat.AtLeastTwo 10 := ⟨by decide⟩

/-- No weight is below the threshold weights are set to zero at. -/
def AboveUnderflow : Prop :=
  ∀ w ∈ e.weights params,
    (1 / 10 + 1 / (1 - params.eta * params.slambda) + 1 / 10) * params.dblMin ≤ |w|

/-- The counter of examples does not overflow, and a block that is needed can be allocated. -/
structure StepFits (d : Nat) (epsilon0 : α) (row : List α × α) : Prop where
  examples_lt : e.examples + 1 < 2147483648
  block : e.Large params k epsilon0 row → e.support.length % blocksize = 0 →
    8 * ((e.support.length + blocksize) * d) + 24 ≤ maxAllocSize

end Expansion

/-- The model stores an expansion in `d` dimensions, in arrays of whole blocks. -/
structure Stores (params : RegParameters α) (epsilon0 : α) (d : Nat) (e : Expansion α)
    (model : SvmModel α) : Prop where
  inds : model.inds = e.examples
  nsvs : model.nsvs = e.support.length
  epsilon : model.epsilon = epsilon0 + params.eta * (model.nsvs - params.nu * model.inds)
  b : model.b = e.offset params
  weights : e.weights params <+: model.weights
  individuals : (e.support.map Prod.fst).flatten <+: model.individuals
  length_weights : model.weights.length = capacity blocksize model.nsvs
  length_individuals : model.individuals.length = capacity blocksize model.nsvs * d
  allocated : 8 * (capacity blocksize model.nsvs * d) + 24 ≤ maxAllocSize
  indDim : model.indDim = if e.examples = 0 then 0 else d

end Recursion

/-! ## Arrays -/

section Arrays

variable {α : Type}

/-- So many doubles and a header fit into an allocation. -/
theorem allocated_iff {n : Nat} : 8 * n + 24 ≤ maxAllocSize ↔ n ≤ 134217724 := by
  unfold maxAllocSize
  omega

theorem constructZeroArray_ok [Zero α] {n : Nat} (h : n ≤ 134217724) :
    constructZeroArray (n : Int) = .ok (List.replicate n (0 : α)) := by
  unfold constructZeroArray maxAllocSize
  rw [toInt32_of_mem (by omega) (by omega)]
  dsimp only
  rw [if_neg (by omega), if_neg (by omega), show ((8 * (n : Int) + 24) / 8 - 3).toNat = n by omega]

theorem readAt_ok {array : List α} {offset count : Nat} (h : offset + count ≤ array.length) :
    readAt array offset count = .ok ((array.drop offset).take count) := by
  unfold readAt
  rw [if_neg (by omega), Int.toNat_natCast]

theorem storeAt_ok {array source : List α} {offset count : Nat}
    (h : offset + count ≤ array.length) (hsource : count ≤ source.length) :
    storeAt array source offset count = .ok (written array (source.take count) offset) := by
  unfold storeAt written
  rw [if_neg (by omega), Int.toNat_natCast, List.length_take, Nat.min_eq_left hsource]

/-- What a new vector, or a new weight, leaves in its array. -/
structure Grown (stored ind : List α) (nsvs d : Nat) (spvs' : List α) : Prop where
  stored : stored ++ ind <+: spvs'
  length_eq : spvs'.length = capacity blocksize (nsvs + 1) * d

variable [Zero α] {spvs stored : List α} {nsvs d : Nat}

theorem addNewSV_ok (ind : List α) (hstored : stored <+: spvs) (hlength : stored.length = nsvs * d)
    (hcapacity : spvs.length = capacity blocksize nsvs * d) (hind : ind.length = d)
    (hallocated : capacity blocksize nsvs * d ≤ 134217724)
    (hblock : nsvs % blocksize = 0 → (nsvs + blocksize) * d ≤ 134217724) :
    ∃ spvs', addNewSV spvs ind nsvs d = .ok spvs' ∧ Grown stored ind nsvs d spvs' := by
  have hpos : 0 < blocksize := by decide
  have hle := hstored.length_le
  rw [hlength] at hle
  have hproduct : toInt32 ((nsvs : Int) * d) = ((nsvs * d : Nat) : Int) := by
    rw [← Nat.cast_mul, toInt32_of_mem (by omega) (by omega)]
  have htake : ind.take d = ind := by
    rw [← hind]
    exact List.take_length
  clear hallocated
  unfold addNewSV
  rw [hproduct]
  by_cases hfull : nsvs % blocksize = 0
  · have hsize : toInt32 (((nsvs : Int) + blocksize) * d) =
        (((nsvs + blocksize) * d : Nat) : Int) := by
      have hroom := hblock hfull
      rw [← Nat.cast_add, ← Nat.cast_mul, toInt32_of_mem (by omega) (by omega)]
    have hcreate : constructZeroArray (((nsvs + blocksize) * d : Nat) : Int) =
        .ok (List.replicate ((nsvs + blocksize) * d) (0 : α)) :=
      constructZeroArray_ok (hblock hfull)
    clear hblock
    have hroom : nsvs * d + d ≤ (nsvs + blocksize) * d := by
      rw [Nat.add_mul]
      exact Nat.add_le_add_left (Nat.le_mul_of_pos_left d hpos) _
    have hspvs : spvs.take (nsvs * d) = stored := by
      rw [← hlength]
      exact (List.prefix_iff_eq_take.mp hstored).symm
    have hcapacity' : capacity blocksize (nsvs + 1) * d = (nsvs + blocksize) * d := by
      rw [capacity_succ_of_full hpos hfull]
    generalize (nsvs + blocksize) * d = room at hsize hcreate hroom hcapacity'
    have hempty : (List.replicate room (0 : α)).length = room := List.length_replicate
    have hstoredRoom : 0 + stored.length ≤ (List.replicate room (0 : α)).length := by
      rw [hempty, hlength]
      omega
    have hcopy : storeAt (List.replicate room (0 : α)) spvs 0 (nsvs * d) =
        .ok (written (List.replicate room 0) stored 0) := by
      change storeAt _ _ ((0 : Nat) : Int) _ = _
      rw [storeAt_ok (by rw [hempty]; omega) hle, hspvs]
    have hcopied : (written (List.replicate room (0 : α)) stored 0).length = room :=
      (length_written hstoredRoom).trans hempty
    have hprefix : stored <+: written (List.replicate room (0 : α)) stored 0 :=
      prefix_written List.nil_prefix rfl
    rw [if_pos hfull, hsize, hcreate, ok_bind, hcopy, ok_bind,
      storeAt_ok (by rw [hcopied]; exact hroom) hind.ge, htake]
    refine ⟨_, rfl, prefix_written hprefix hlength, ?_⟩
    rw [length_written (by rw [hcopied, hind]; exact hroom), hcopied, hcapacity']
  · have hlt := lt_capacity hpos hfull
    have hroom : nsvs * d + d ≤ spvs.length := by
      rw [hcapacity, ← Nat.succ_mul]
      exact Nat.mul_le_mul_right d hlt
    rw [if_neg hfull, storeAt_ok hroom hind.ge, htake]
    refine ⟨_, rfl, prefix_written hstored hlength, ?_⟩
    rw [length_written (by rw [hind]; exact hroom), hcapacity,
      capacity_succ_of_not_full hpos hfull]

/-- A weight is stored like a vector of one element. -/
theorem addNewWeight_eq {weights : List α} {weight : α} (h : nsvs < 2147483648) :
    addNewWeight weights weight nsvs = addNewSV weights [weight] nsvs 1 := by
  unfold addNewWeight addNewSV
  simp only [Nat.cast_one, mul_one, toInt32_of_mem (x := (nsvs : Int)) (by omega) (by omega)]

theorem rescaleWeights_ok [Mul α] {tooSmall : α → Bool} {weights items : List α} (factor : α)
    (hitems : items <+: weights) (hlength : items.length = nsvs)
    (hlarge : ∀ w ∈ items, tooSmall w = false) :
    ∃ weights', rescaleWeights tooSmall factor weights nsvs = .ok weights' ∧
      items.map (fun w => w * factor) <+: weights' ∧ weights'.length = weights.length := by
  have hle := hitems.length_le
  unfold rescaleWeights
  rw [if_neg (by omega)]
  refine ⟨_, rfl, ?_, List.length_mapIdx⟩
  have ⟨rest, hrest⟩ := hitems
  have hfirst : items.map (fun w => w * factor) = items.mapIdx fun i w =>
      if i < nsvs then if tooSmall w then 0 else w * factor else w := by
    apply List.ext_getElem?
    intro i
    rw [List.getElem?_map, List.getElem?_mapIdx]
    cases hi : items[i]? with
    | none => rfl
    | some w =>
        have hlt : i < nsvs := by
          rw [← hlength]
          exact (List.getElem?_eq_some_iff.mp hi).1
        rw [Option.map_some, Option.map_some, if_pos hlt,
          hlarge w (List.mem_of_getElem? hi)]
        rfl
  rw [← hrest, List.mapIdx_append, hfirst]
  exact List.prefix_append _ _

end Arrays

/-! ## The value at an example -/

section Evaluation

variable {α : Type}

/-- A fold that adds a number in each round adds all of them. -/
theorem foldlM_add [AddMonoid α] {ι : Type} {step : α → ι → Except Fault α} {g : ι → α} {l : List ι}
    (h : ∀ i ∈ l, ∀ ret, step ret i = .ok (ret + g i)) (ret : α) :
    l.foldlM step ret = .ok (ret + (l.map g).sum) := by
  induction l generalizing ret with
  | nil =>
      rw [List.map_nil, List.sum_nil, add_zero]
      rfl
  | cons i l ih =>
      have ⟨hi, hl⟩ := List.forall_mem_cons.mp h
      rw [List.foldlM_cons, hi ret, ok_bind, ih hl, List.map_cons, List.sum_cons, add_assoc]

theorem map_range_eq_zipWith {β : Type} {ws : List α} {vs : List β} (f : α → β → α)
    (hlength : ws.length = vs.length) {g : Nat → α}
    (hg : ∀ i w v, ws[i]? = some w → vs[i]? = some v → g i = f w v) :
    (List.range vs.length).map g = List.zipWith f ws vs := by
  apply List.ext_getElem?
  intro i
  rw [List.getElem?_map, List.getElem?_zipWith]
  by_cases hi : i < vs.length
  · rw [List.getElem?_range hi, Option.map_some, List.getElem?_eq_getElem hi,
      List.getElem?_eq_getElem (hlength ▸ hi : i < ws.length)]
    exact congrArg some (hg i _ _ (List.getElem?_eq_getElem _) (List.getElem?_eq_getElem hi))
  · rw [List.getElem?_eq_none (by rw [List.length_range]; omega),
      List.getElem?_eq_none (Nat.le_of_not_lt hi : vs.length ≤ i)]
    cases ws[i]? <;> rfl

theorem svmPredictEval_ok [Field α] {kernel : List α → List α → Except Fault α}
    {k : List α → List α → α}
    {weights individuals ind ws : List α} {vs : List (List α)} {d : Nat}
    (hws : ws <+: weights) (hvs : vs.flatten <+: individuals) (hlength : ws.length = vs.length)
    (hd : ∀ v ∈ vs, v.length = d) (hdimension : d ≤ 134217724)
    (hallocated : vs.length * d ≤ 134217724)
    (hkernel : ∀ v, v.length = d → kernel v ind = .ok (k v ind)) :
    svmPredictEval kernel weights individuals ind vs.length d =
      .ok (List.zipWith (fun w v => w * k v ind) ws vs).sum := by
  have hround : ∀ i ∈ List.range vs.length, ∀ ret, (do
      let relevant ← readAt individuals (toInt32 ((d : Int) * (i : Int))) d
      let sppVec ← storeAt (List.replicate d (0 : α)) relevant 0 d
      let weight ← readAt weights i 1
      let value ← kernel sppVec ind
      pure (ret + weight.headD 0 * value)) =
        .ok (ret + (ws.getD i 0 * k (vs.getD i []) ind)) := by
    intro i hi ret
    have hlt : i < vs.length := List.mem_range.mp hi
    have ⟨v, hv⟩ : ∃ v, vs[i]? = some v := ⟨_, List.getElem?_eq_getElem hlt⟩
    have ⟨w, hw⟩ : ∃ w, ws[i]? = some w := ⟨_, List.getElem?_eq_getElem (hlength ▸ hlt)⟩
    have hplace : d * i + d ≤ vs.length * d := by
      rw [Nat.mul_comm, ← Nat.succ_mul]
      exact Nat.mul_le_mul_right d hlt
    have hindex : toInt32 ((d : Int) * (i : Int)) = ((i * d : Nat) : Int) := by
      rw [← Nat.cast_mul, Nat.mul_comm i d, toInt32_of_mem (by omega) (by omega)]
    have hstored : vs.flatten.length ≤ individuals.length := hvs.length_le
    rw [length_flatten_of_length hd] at hstored
    have hvector : v.length = d := hd v (List.mem_of_getElem? hv)
    have hcopy : storeAt (List.replicate d (0 : α)) v 0 d = .ok v := by
      change storeAt _ _ ((0 : Nat) : Int) _ = _
      rw [storeAt_ok (by rw [List.length_replicate]; omega) hvector.ge, ← hvector, List.take_length,
        written_all (List.length_replicate).symm]
    have hweight : readAt weights i 1 = .ok [w] := by
      have hlt' : i < ws.length := (List.getElem?_eq_some_iff.mp hw).1
      have hle := hws.length_le
      rw [readAt_ok (by omega), take_one_of_stored hws hw]
    rw [hindex, readAt_ok (by rw [Nat.mul_comm i d]; omega), ok_bind,
      take_drop_of_stored hd hvs hv, hcopy, ok_bind, hweight, ok_bind, hkernel _ hvector, ok_bind,
      List.getD_eq_getElem?_getD, hw, List.getD_eq_getElem?_getD, hv]
    rfl
  unfold svmPredictEval
  rw [constructZeroArray_ok hdimension, ok_bind]
  have hfold := foldlM_add hround 0
  rw [zero_add, map_range_eq_zipWith (fun w v => w * k v ind) hlength ?_] at hfold
  · exact hfold
  · intro i w v hw hv
    rw [List.getD_eq_getElem?_getD, hw, List.getD_eq_getElem?_getD, hv]
    rfl

end Evaluation

/-! ## One example -/

section Step

variable {α : Type} [Field α] [LinearOrder α] {params : RegParameters α} {epsilon0 : α}
  {kernel : List α → List α → Except Fault α} {k : List α → List α → α} {d : Nat}
  {e : Expansion α} {model : SvmModel α}

/-- An array without NULLs, of one dimension and `d` elements. -/
structure IsExample (d : Nat) (ind : FloatArray α) : Prop where
  nullBitmap : ind.nullBitmap = false
  ndim : ind.ndim = 1
  items : ind.items = d

omit [Field α] [LinearOrder α] in
theorem IsExample.length_values {ind : FloatArray α} (h : IsExample d ind) :
    ind.values.length = d := by
  rw [← ind.items_eq h.nullBitmap, h.items]

omit [Field α] [LinearOrder α] in
theorem IsExample.dimension_le {ind : FloatArray α} (h : IsExample d ind) : d ≤ 134217724 := by
  rw [← h.length_values]
  exact allocated_iff.mp ind.size_le

theorem Expansion.length_weights : (e.weights params).length = e.support.length :=
  List.length_mapIdx

/-- Another support vector shrinks the weights of the others. -/
theorem Expansion.weights_append (n : Nat) (support : List (List α × α)) (s : List α × α) :
    (Expansion.mk n (support ++ [s])).weights params =
      ((Expansion.mk n support).weights params).map
        (fun w => w * (1 - params.eta * params.slambda)) ++ [s.2 * params.eta] := by
  unfold Expansion.weights
  dsimp only
  rw [List.mapIdx_append, List.length_append]
  congr 1
  · apply List.ext_getElem?
    intro i
    rw [List.getElem?_mapIdx, List.getElem?_map, List.getElem?_mapIdx]
    cases hi : support[i]? with
    | none => rfl
    | some t =>
        have hlt := (List.getElem?_eq_some_iff.mp hi).1
        have hpower : support.length + [s].length - 1 - i = support.length - 1 - i + 1 := by
          rw [List.length_singleton]
          omega
        rw [Option.map_some, Option.map_some, Option.map_some, hpower, pow_succ, ← mul_assoc]
  · have hpower : support.length + [s].length - 1 - (support.length + 0) = 0 := by
      rw [List.length_singleton]
      omega
    rw [List.mapIdx_singleton, Nat.zero_add,
      show support.length + [s].length - 1 - support.length = 0 from hpower, pow_zero, mul_one]

theorem Expansion.offset_append (n m : Nat) (support : List (List α × α)) (s : List α × α) :
    (Expansion.mk n (support ++ [s])).offset params =
      (Expansion.mk m support).offset params + s.2 * params.eta := by
  unfold Expansion.offset
  rw [List.map_append, List.sum_append, List.map_singleton, List.sum_singleton]

theorem Stores.tolerance_eq (h : Stores params epsilon0 d e model) :
    model.epsilon = e.tolerance params epsilon0 := by
  rw [h.epsilon, h.nsvs, h.inds, Int.cast_natCast]
  rfl

theorem svmPredict_ok (h : Stores params epsilon0 d e model)
    (hsupport : ∀ s ∈ e.support, s.1.length = d) (hd : 1 ≤ d)
    {ind : FloatArray α} (hind : IsExample d ind)
    (hkernel : ∀ v, v.length = d → kernel v ind.values = .ok (k v ind.values)) :
    ∃ p, svmPredict kernel true model ind = .ok (d, p) ∧
      p + model.b = e.predict params k ind.values := by
  have hdimension := hind.dimension_le
  have hdim : (if model.indDim = 0 then ind.items else model.indDim) = d := by
    rw [h.indDim, hind.items]
    split_ifs <;> first | rfl | omega
  have hlength : (e.weights params).length = (e.support.map Prod.fst).length := by
    rw [e.length_weights, List.length_map]
  have hvectors : ∀ v ∈ e.support.map Prod.fst, v.length = d := List.forall_mem_map.mpr hsupport
  have hroom : (e.support.map Prod.fst).length * d ≤ 134217724 := by
    have hle := h.individuals.length_le
    rw [length_flatten_of_length hvectors, h.length_individuals] at hle
    exact hle.trans (allocated_iff.mp h.allocated)
  have heval := svmPredictEval_ok h.weights h.individuals hlength hvectors hdimension hroom hkernel
  rw [List.length_map, ← h.nsvs] at heval
  refine ⟨(List.zipWith (fun w v => w * k v ind.values) (e.weights params)
    (e.support.map Prod.fst)).sum, ?_, ?_⟩
  · unfold svmPredict
    dsimp only
    rw [if_neg (by simp [hind.nullBitmap, hind.ndim]), hdim, heval]
    rfl
  · unfold Expansion.predict
    rw [h.b, add_comm, List.zipWith_map_right]

/-- Weight and vector are stored behind the others. -/
theorem addSupportVector_ok (h : Stores params epsilon0 d e model)
    (hsupport : ∀ s ∈ e.support, s.1.length = d) (hd : 1 ≤ d) {ind : List α} (hind : ind.length = d)
    (hblock : e.support.length % blocksize = 0 →
      8 * ((e.support.length + blocksize) * d) + 24 ≤ maxAllocSize)
    {tooSmall : α → Bool} (hlarge : ∀ w ∈ e.weights params, tooSmall w = false)
    (factor weight : α) :
    ∃ weights individuals,
      addSupportVector model tooSmall factor weight ind d = .ok (weights, individuals) ∧
      Grown ((e.weights params).map fun w => w * factor) [weight] e.support.length 1 weights ∧
      Grown (e.support.map Prod.fst).flatten ind e.support.length d individuals := by
  have hallocated := allocated_iff.mp h.allocated
  have hlengthWeights := h.length_weights
  have hlengthIndividuals := h.length_individuals
  rw [h.nsvs] at hallocated hlengthWeights hlengthIndividuals
  have hcapacity : capacity blocksize e.support.length * 1 ≤ 134217724 :=
    (Nat.mul_le_mul_left _ hd).trans hallocated
  have hvectors : ∀ v ∈ e.support.map Prod.fst, v.length = d := List.forall_mem_map.mpr hsupport
  have hflatten : (e.support.map Prod.fst).flatten.length = e.support.length * d := by
    rw [length_flatten_of_length hvectors, List.length_map]
  have ⟨scaled, hscaled, hprefix, hlengthScaled⟩ :=
    rescaleWeights_ok factor h.weights e.length_weights hlarge
  have hscaledLength : ((e.weights params).map fun w => w * factor).length =
      e.support.length * 1 := by
    rw [List.length_map, e.length_weights, Nat.mul_one]
  have ⟨weights, hweights, hgrownWeights⟩ := addNewSV_ok [weight] hprefix hscaledLength
    (by rw [hlengthScaled, hlengthWeights, Nat.mul_one]) List.length_singleton hcapacity
    (fun hfull => (Nat.mul_le_mul_left _ hd).trans (allocated_iff.mp (hblock hfull)))
  have ⟨individuals, hindividuals, hgrown⟩ := addNewSV_ok ind h.individuals hflatten
    hlengthIndividuals hind hallocated (fun hfull => allocated_iff.mp (hblock hfull))
  have hsmall : e.support.length < 2147483648 := by
    have hle := hprefix.length_le
    rw [hscaledLength, hlengthScaled, hlengthWeights] at hle
    omega
  refine ⟨weights, individuals, ?_, hgrownWeights, hgrown⟩
  unfold addSupportVector
  rw [h.nsvs, hscaled, ok_bind, addNewWeight_eq hsmall, hweights, ok_bind, hindividuals]
  rfl

/-- The model after an example with a small error. -/
theorem Stores.keep (h : Stores params epsilon0 d e model) (cumErr : α) :
    Stores params epsilon0 d ⟨e.examples + 1, e.support⟩
      { model with
        inds := ((e.examples + 1 : Nat) : Int), cumErr := cumErr,
        epsilon := e.tolerance params epsilon0 - params.eta * params.nu, indDim := d } := by
  refine ⟨rfl, h.nsvs, ?_, h.b, h.weights, h.individuals, h.length_weights,
    h.length_individuals, h.allocated, rfl⟩
  dsimp only
  rw [← h.tolerance_eq, h.epsilon, h.inds]
  push_cast
  ring

/-- The model after an example with a large error, whose vector and weight have been stored. -/
theorem Stores.add (h : Stores params epsilon0 d e model) {ind weights individuals : List α}
    {sign : α} (cumErr : α)
    (hweights : Grown ((e.weights params).map fun w => w * (1 - params.eta * params.slambda))
      [sign * params.eta] e.support.length 1 weights)
    (hindividuals : Grown (e.support.map Prod.fst).flatten ind e.support.length d individuals)
    (hblock : e.support.length % blocksize = 0 →
      8 * ((e.support.length + blocksize) * d) + 24 ≤ maxAllocSize) :
    Stores params epsilon0 d ⟨e.examples + 1, e.support ++ [(ind, sign)]⟩
      { model with
        inds := ((e.examples + 1 : Nat) : Int), cumErr := cumErr,
        epsilon := e.tolerance params epsilon0 + (1 - params.nu) * params.eta,
        b := model.b + sign * params.eta, nsvs := model.nsvs + 1, indDim := d,
        weights := weights, individuals := individuals } := by
  have hlength : (e.support ++ [(ind, sign)]).length = e.support.length + 1 := by
    rw [List.length_append, List.length_singleton]
  constructor
  · rfl
  · rw [hlength, ← h.nsvs]
  · dsimp only
    rw [← h.tolerance_eq, h.epsilon, h.inds, h.nsvs]
    push_cast
    ring
  · rw [Expansion.offset_append _ e.examples, ← h.b]
  · rw [Expansion.weights_append _ e.support]
    exact hweights.stored
  · rw [List.map_append, List.flatten_append, List.map_singleton, List.flatten_singleton]
    exact hindividuals.stored
  · dsimp only
    rw [hweights.length_eq, h.nsvs, Nat.mul_one]
  · dsimp only
    rw [hindividuals.length_eq, h.nsvs]
  · dsimp only
    rw [h.nsvs]
    by_cases hfull : e.support.length % blocksize = 0
    · rw [capacity_succ_of_full (by decide) hfull]
      exact hblock hfull
    · rw [capacity_succ_of_not_full (by decide) hfull, ← h.nsvs]
      exact h.allocated
  · rfl

theorem RegParameters.accepted (params : RegParameters α) :
    (!(decide (params.eta ≤ 0) || decide (1 < params.eta) || decide (params.nu ≤ 0) ||
      decide (1 < params.nu) || decide (1 < params.eta * params.slambda))) = true := by
  simp [params.eta_pos, params.eta_le, params.nu_pos, params.nu_le, params.shrinks.le]

theorem Expansion.sign_mul_eta (params : RegParameters α) (k : List α → List α → α)
    (e : Expansion α) (row : List α × α) :
    e.sign params k row * params.eta =
      if row.2 - e.predict params k row.1 < 0 then -params.eta else params.eta := by
  unfold Expansion.sign
  split_ifs
  · rw [neg_one_mul]
  · rw [one_mul]

/-- A call is a step of the recursion, when no weight is too small and the arrays have room. -/
theorem svmRegUpdate_stores (h : Stores params epsilon0 d e model)
    (hsupport : ∀ s ∈ e.support, s.1.length = d) (hd : 1 ≤ d)
    {row : FloatArray α × α} (hrow : IsExample d row.1)
    (hkernel : ∀ v, v.length = d → kernel v row.1.values = .ok (k v row.1.values))
    (hfits : e.StepFits params k d epsilon0 (row.1.values, row.2))
    (habove : e.AboveUnderflow params) :
    ∃ model', svmRegUpdate kernel params.dblMin params.eta params.nu params.slambda model row =
        .ok model' ∧
      Stores params epsilon0 d (e.step params k epsilon0 (row.1.values, row.2)) model' := by
  have ⟨p, hp, hpredict⟩ := svmPredict_ok h hsupport hd hrow hkernel
  have hinds : toInt32 (model.inds + 1) = ((e.examples + 1 : Nat) : Int) := by
    have hlt := hfits.examples_lt
    rw [h.inds, toInt32_of_mem (by omega) (by omega)]
    rfl
  unfold svmRegUpdate Expansion.step
  rw [params.accepted]
  dsimp only
  rw [hp, ok_bind]
  dsimp only
  rw [hpredict, hinds, h.tolerance_eq]
  by_cases hlarge : e.Large params k epsilon0 (row.1.values, row.2)
  · have hcond : e.tolerance params epsilon0 < |row.2 - e.predict params k row.1.values| := hlarge
    have hsmall : ∀ w ∈ e.weights params, decide (|w| <
        (1 / 10 + 1 / (1 - params.eta * params.slambda) + 1 / 10) * params.dblMin) = false := by
      intro w hw
      exact decide_eq_false (not_lt.mpr (habove w hw))
    have hweight := e.sign_mul_eta params k (row.1.values, row.2)
    have ⟨weights, individuals, hadd, hweights, hindividuals⟩ := addSupportVector_ok h hsupport hd
      hrow.length_values (hfits.block hlarge) hsmall (1 - params.eta * params.slambda)
      (e.sign params k (row.1.values, row.2) * params.eta)
    rw [if_pos hcond, if_pos hlarge, ← hweight, hadd]
    exact ⟨_, rfl, h.add _ hweights hindividuals (hfits.block hlarge)⟩
  · have hcond : ¬e.tolerance params epsilon0 < |row.2 - e.predict params k row.1.values| := hlarge
    rw [if_neg hcond, if_neg hlarge]
    exact ⟨_, rfl, h.keep _⟩

end Step

/-! ## A sequence of examples -/

section Run

variable {α : Type} [Field α] [LinearOrder α] {params : RegParameters α} {epsilon0 : α}
  {kernel : List α → List α → Except Fault α} {k : List α → List α → α} {d : Nat}
  {rows : List (FloatArray α × α)}

/-- The vectors and labels of a sequence of examples. -/
def points (rows : List (FloatArray α × α)) : List (List α × α) :=
  rows.map fun row => (row.1.values, row.2)

/-- Each example meets this in the expansion of those before it. -/
def InEachStep (params : RegParameters α) (k : List α → List α → α) (epsilon0 : α)
    (rows : List (FloatArray α × α)) (P : Expansion α → List α × α → Prop) : Prop :=
  ∀ seen row rest, rows = seen ++ row :: rest →
    P (Expansion.after params k epsilon0 (points seen)) (row.1.values, row.2)

theorem InEachStep.of_append {P : Expansion α → List α × α → Prop} {row : FloatArray α × α}
    (h : InEachStep params k epsilon0 (rows ++ [row]) P) : InEachStep params k epsilon0 rows P := by
  intro seen r rest hrows
  apply h seen r (rest ++ [row])
  rw [hrows, List.append_assoc, List.cons_append]

theorem Expansion.after_append (row : FloatArray α × α) :
    Expansion.after params k epsilon0 (points (rows ++ [row])) =
      (Expansion.after params k epsilon0 (points rows)).step params k epsilon0
        (row.1.values, row.2) := by
  unfold Expansion.after points
  rw [List.map_append, List.foldl_append]
  rfl

/-- Only examples become support vectors. -/
theorem Expansion.support_length (hrows : ∀ row ∈ rows, IsExample d row.1) :
    ∀ s ∈ (Expansion.after params k epsilon0 (points rows)).support, s.1.length = d := by
  induction rows using List.reverseRecOn with
  | nil => exact nofun
  | append_singleton rows row ih =>
      have hrow : IsExample d row.1 := hrows row (by simp)
      have hkept := ih fun r hr => hrows r (List.mem_append_left _ hr)
      rw [Expansion.after_append]
      unfold Expansion.step
      dsimp only
      split
      · intro s hs
        rcases List.mem_append.mp hs with hold | hnew
        · exact hkept s hold
        · rw [List.mem_singleton.mp hnew]
          exact hrow.length_values
      · exact hkept

/-- The model stands for the expansion, and its value at an example is the expansion's. -/
structure MaintainsExpansion (params : RegParameters α) (epsilon0 : α)
    (kernel : List α → List α → Except Fault α) (k : List α → List α → α) (d : Nat)
    (e : Expansion α) (model : SvmModel α) : Prop where
  stores : Stores params epsilon0 d e model
  predicts : ∀ ind, IsExample d ind → ∃ p, svmPredict kernel true model ind = .ok (d, p) ∧
    p + model.b = e.predict params k ind.values

theorem stores_init (params : RegParameters α) (epsilon0 : α) (d : Nat) :
    Stores params epsilon0 d ⟨0, []⟩ { svmInit with epsilon := epsilon0 } := by
  have hzero : capacity blocksize 0 = 0 := capacity_zero blocksize
  constructor
  · rfl
  · rfl
  · simp [svmInit]
  · rfl
  · exact List.nil_prefix
  · exact List.nil_prefix
  · exact hzero.symm
  · dsimp only [svmInit]
    rw [hzero, Nat.zero_mul]
    rfl
  · dsimp only [svmInit]
    rw [hzero, Nat.zero_mul]
    decide
  · rfl

theorem svmRegUpdate_run (hd : 1 ≤ d)
    (hkernel : ∀ v x, v.length = d → x.length = d → kernel v x = .ok (k v x))
    (hrows : ∀ row ∈ rows, IsExample d row.1)
    (habove : InEachStep params k epsilon0 rows fun e _ => e.AboveUnderflow params)
    (hfits : InEachStep params k epsilon0 rows fun e row => e.StepFits params k d epsilon0 row) :
    ∃ model, rows.foldlM (svmRegUpdate kernel params.dblMin params.eta params.nu params.slambda)
        { svmInit with epsilon := epsilon0 } = .ok model ∧
      Stores params epsilon0 d (Expansion.after params k epsilon0 (points rows)) model := by
  induction rows using List.reverseRecOn with
  | nil => exact ⟨_, rfl, stores_init params epsilon0 d⟩
  | append_singleton rows row ih =>
      have hrow : IsExample d row.1 := hrows row (by simp)
      have hseen : ∀ r ∈ rows, IsExample d r.1 := fun r hr => hrows r (List.mem_append_left _ hr)
      have ⟨model, hrun, hstores⟩ := ih hseen habove.of_append hfits.of_append
      have ⟨model', hstep, hstores'⟩ := svmRegUpdate_stores hstores
        (Expansion.support_length hseen) hd hrow
        (fun v hv => hkernel v _ hv hrow.length_values) (hfits rows row [] rfl)
        (habove rows row [] rfl)
      refine ⟨model', ?_, ?_⟩
      · rw [List.foldlM_append, hrun, ok_bind, List.foldlM_cons, hstep]
        rfl
      · rw [Expansion.after_append]
        exact hstores'

end Run

/-! ## A single example -/

theorem inEachStep_singleton {α : Type} [Field α] [LinearOrder α] {params : RegParameters α}
    {k : List α → List α → α} {epsilon0 : α} {row : FloatArray α × α}
    {P : Expansion α → List α × α → Prop} (h : P ⟨0, []⟩ (row.1.values, row.2)) :
    InEachStep params k epsilon0 [row] P := by
  intro seen r rest hrows
  rcases List.append_eq_singleton_iff.mp hrows.symm with ⟨hseen, hrest⟩ | ⟨_, hrest⟩
  · rw [hseen, (List.cons.inj hrest).1]
    exact h
  · cases hrest

/-- The default parameters of `svm_regression` -/
def defaultParameters : RegParameters ℚ where
  dblMin := 1 / 2 ^ 1022
  eta := 1 / 10
  nu := 1 / 200
  slambda := 1 / 20
  eta_pos := by norm_num
  eta_le := by norm_num
  nu_pos := by norm_num
  nu_le := by norm_num
  shrinks := by norm_num

/-- Nothing is below the threshold while there are no weights. -/
theorem aboveUnderflow_empty (n : Nat) : (Expansion.mk n []).AboveUnderflow defaultParameters :=
  nofun

def pointOne : FloatArray ℚ := ⟨false, 1, 1, [1], fun _ => rfl, by decide⟩

theorem svmDot_ok {α : Type} [Field α] {x1 x2 : List α} (h : x1.length = x2.length) :
    svmDot x1 x2 = .ok (dotSum x1 x2) := if_neg (not_not.mpr h)

/-- From this dimension on the size of the first block wraps around, here to 88 doubles. -/
theorem addNewSV_wraps (ind : List ℚ) : addNewSV [] ind 0 5368710 = .error .outOfBounds := by
  have hcreate : constructZeroArray (toInt32 (((0 : Nat) + (blocksize : Nat) : Int) *
      (5368710 : Nat))) = .ok (List.replicate 88 (0 : ℚ)) := by
    have hsize : toInt32 (8 * toInt32 (((0 : Nat) + (blocksize : Nat) : Int) *
        (5368710 : Nat))) = 704 := by decide
    unfold constructZeroArray
    rw [hsize]
    rfl
  have hcopy : storeAt (List.replicate 88 (0 : ℚ)) [] 0 (0 * 5368710) =
      .ok (List.replicate 88 0) := by
    rw [Nat.zero_mul]
    rfl
  have hzero : toInt32 (((0 : Nat) : Int) * (5368710 : Nat)) = 0 := by decide
  unfold addNewSV
  rw [if_pos (by decide), hcreate, ok_bind, hcopy, ok_bind, hzero]
  unfold storeAt
  rw [if_pos (.inr (.inl (by rw [List.length_replicate]; decide)))]

theorem addSupportVector_wraps {model : SvmModel ℚ} (hnsvs : model.nsvs = 0)
    (hweights : model.weights = []) (hindividuals : model.individuals = []) (tooSmall : ℚ → Bool)
    (factor weight : ℚ) (ind : List ℚ) :
    addSupportVector model tooSmall factor weight ind 5368710 = .error .outOfBounds := by
  have hrescaled : rescaleWeights tooSmall factor [] 0 = .ok [] := rfl
  have hweight : addNewWeight [] weight 0 = .ok (weight :: List.replicate 99 0) := rfl
  unfold addSupportVector
  rw [hnsvs, hweights, hindividuals, hrescaled, ok_bind, hweight, ok_bind, addNewSV_wraps]
  rfl

/-- An example of a dimension the size wraps around for. -/
def wideExample : FloatArray ℚ where
  nullBitmap := false
  ndim := 1
  items := 5368710
  values := List.replicate 5368710 0
  items_eq := fun _ => List.length_replicate.symm
  size_le := by
    rw [List.length_replicate]
    decide

end Madlib.KernelMachines
