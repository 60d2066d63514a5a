import Madlib.Sketch.Countmin

/-!
# One sketch over a stream

After a stream of insertions every counter has the number of the values that chose it.
A value that shares its counter with no other value in some row is counted exactly.
-/

namespace Madlib.Sketch

open Madlib.Backend Madlib.Lib.MachineInt Madlib.Lib.Loop

variable {md5 : Md5} {sketch : Countmin} {s : List (List UInt8)}

/-- How many values of a stream choose a counter. -/
def chosenBy (md5 : Md5) (s : List (List UInt8)) (i : Fin 8) (k : Fin 1024) : Nat :=
  s.countP fun v => column (sketchMd5Bytea md5 v) i = k

/-- The sketch of a stream. -/
structure CountsStream (md5 : Md5) (s : List (List UInt8)) (sketch : Countmin) : Prop where
  toNat_eq : ∀ i k, (sketch i k).toNat = chosenBy md5 s i k
  below : ∀ i k, (sketch i k).toNat ≤ int64Max.toNat

/-- In some row no other value of the stream has the counter of `v`. -/
def Alone (md5 : Md5) (s : List (List UInt8)) (v : List UInt8) : Prop :=
  ∃ i, ∀ w ∈ s, w ≠ v → column (sketchMd5Bytea md5 w) i ≠ column (sketchMd5Bytea md5 v) i

theorem countsStream_nil (md5 : Md5) : CountsStream md5 [] fun _ _ => 0 where
  toNat_eq := fun _ _ => rfl
  below := fun _ _ => Nat.zero_le _

theorem chosenBy_snoc (md5 : Md5) (s : List (List UInt8)) (v : List UInt8) (i : Fin 8)
    (k : Fin 1024) : chosenBy md5 (s ++ [v]) i k =
      chosenBy md5 s i k + if column (sketchMd5Bytea md5 v) i = k then 1 else 0 := by
  unfold chosenBy
  rw [List.countP_append, List.countP_singleton]
  simp

theorem CountsStream.insert (h : CountsStream md5 s sketch) {v : List UInt8}
    (hmax : ∀ i, sketch i (column (sketchMd5Bytea md5 v) i) ≠ int64Max) :
    CountsStream md5 (s ++ [v]) (addHash (sketchMd5Bytea md5 v) sketch) := by
  have hstep : ∀ i k, (addHash (sketchMd5Bytea md5 v) sketch i k).toNat =
        chosenBy md5 (s ++ [v]) i k ∧
      (addHash (sketchMd5Bytea md5 v) sketch i k).toNat ≤ int64Max.toNat := by
    intro i k
    have hle := h.below i k
    have hcount := h.toNat_eq i k
    have hval : int64Max.toNat = 9223372036854775807 := rfl
    rw [chosenBy_snoc]
    unfold addHash
    by_cases hk : column (sketchMd5Bytea md5 v) i = k
    · have hne : (sketch i k).toNat ≠ int64Max.toNat := by
        intro heq
        rw [← hk] at heq
        exact hmax i (UInt64.toNat_inj.mp heq)
      rw [if_pos hk, if_pos hk, UInt64.toNat_add]
      have hone : (1 : UInt64).toNat = 1 := rfl
      omega
    · rw [if_neg hk, if_neg hk]
      exact ⟨hcount, hle⟩
  exact ⟨fun i k => (hstep i k).1, fun i k => (hstep i k).2⟩

theorem increment_error {hashval : List UInt8} {rows : List (Fin 8)} {s : Countmin × Int} {e : Fault}
    (h : rows.foldlM (fun s i => incrementCounter i (column hashval i) s.1 s.2) s = .error e) :
    e = .elog "maximum count exceeded in sketch" := by
  induction rows generalizing s with
  | nil => cases h
  | cons i rows ih =>
      rw [List.foldlM_cons] at h
      unfold incrementCounter at h
      dsimp only at h
      split at h
      case isTrue =>
        cases h
        rfl
      case isFalse => exact ih h

/-- Counters that are not full are incremented. -/
theorem increment_ends (h : CountsStream md5 s sketch) (v : List UInt8) :
    Ends (fun e => e = .elog "maximum count exceeded in sketch" ∧ int64Max.toNat ≤ s.length)
      (fun out => out.1 = addHash (sketchMd5Bytea md5 v) sketch ∧
        CountsStream md5 (s ++ [v]) out.1)
      (hashCountersIterate (sketchMd5Bytea md5 v) sketch 0 incrementCounter) := by
  cases hrun : hashCountersIterate (sketchMd5Bytea md5 v) sketch 0 incrementCounter with
  | ok out =>
      have ⟨hadd, hmax⟩ := hashCountersIterate_increment hrun
      refine ⟨hadd, ?_⟩
      rw [hadd]
      exact h.insert hmax
  | error e =>
      by_cases hroom : ∀ i k, sketch i k ≠ int64Max
      · have ⟨out, hout⟩ := hashCountersIterate_increment_ok (sketchMd5Bytea md5 v) 0 hroom
        rw [hrun] at hout
        cases hout
      · push Not at hroom
        have ⟨i, k, hfull⟩ := hroom
        have hcount := h.toNat_eq i k
        rw [hfull] at hcount
        refine ⟨?_, hcount ▸ List.countP_le_length⟩
        exact increment_error hrun

/-- The least of the counters a value chooses, which the sketch gives as its count. -/
def estimate (md5 : Md5) (s : List (List UInt8)) (v : List UInt8) : Nat :=
  Finset.univ.inf' ⟨0, Finset.mem_univ 0⟩ fun i =>
    chosenBy md5 s i (column (sketchMd5Bytea md5 v) i)

theorem estimate_le (md5 : Md5) (s : List (List UInt8)) (v : List UInt8) (i : Fin 8) :
    estimate md5 s v ≤ chosenBy md5 s i (column (sketchMd5Bytea md5 v) i) :=
  Finset.inf'_le _ (Finset.mem_univ i)

theorem exists_estimate_eq (md5 : Md5) (s : List (List UInt8)) (v : List UInt8) :
    ∃ i, estimate md5 s v = chosenBy md5 s i (column (sketchMd5Bytea md5 v) i) := by
  have ⟨i, _, hi⟩ := Finset.exists_mem_eq_inf' ⟨0, Finset.mem_univ (0 : Fin 8)⟩ fun i =>
    chosenBy md5 s i (column (sketchMd5Bytea md5 v) i)
  exact ⟨i, hi⟩

theorem count_le_chosenBy (md5 : Md5) (s : List (List UInt8)) (v : List UInt8) (i : Fin 8) :
    s.count v ≤ chosenBy md5 s i (column (sketchMd5Bytea md5 v) i) := by
  apply List.countP_mono_left
  intro w _ hw
  simp [beq_iff_eq.mp hw]

/-- A value that is alone in some row is counted exactly. -/
theorem estimate_of_alone {v : List UInt8} (halone : Alone md5 s v) :
    estimate md5 s v = s.count v := by
  have ⟨i, hi⟩ := halone
  have ⟨j, hj⟩ := exists_estimate_eq md5 s v
  apply Nat.le_antisymm
  · apply (estimate_le md5 s v i).trans
    apply List.countP_mono_left
    intro w hw hcol
    by_contra hne
    exact hi w hw (by simpa using hne) (by simpa using hcol)
  · rw [hj]
    exact count_le_chosenBy md5 s v j

/-- The least of the chosen counters. -/
theorem min_spec (sketch : Countmin) (hashval : List UInt8) :
    ∃ out, hashCountersIterate hashval sketch (signed64 int64Max) minCounter = .ok out ∧
      (∀ i, out.2 ≤ signed64 (sketch i (column hashval i))) ∧
      (out.2 = signed64 int64Max ∨ ∃ i, out.2 = signed64 (sketch i (column hashval i))) := by
  have hrun : ∃ out, hashCountersIterate hashval sketch (signed64 int64Max) minCounter = .ok out ∧
      out.1 = sketch ∧ (∀ i : Fin 8, i.val < 8 → out.2 ≤ signed64 (sketch i (column hashval i))) ∧
      (out.2 = signed64 int64Max ∨ ∃ i, out.2 = signed64 (sketch i (column hashval i))) := by
    apply foldlM_finRange_ok (fun n (s : Countmin × Int) => s.1 = sketch ∧
      (∀ i : Fin 8, i.val < n → s.2 ≤ signed64 (sketch i (column hashval i))) ∧
      (s.2 = signed64 int64Max ∨ ∃ i, s.2 = signed64 (sketch i (column hashval i))))
    · exact ⟨rfl, fun i hi => absurd hi (Nat.not_lt_zero _), .inl rfl⟩
    · intro i ⟨sketch', least⟩ ⟨hsketch, hle, hof⟩
      dsimp only at hsketch hle hof
      subst hsketch
      refine ⟨_, rfl, rfl, ?_, ?_⟩
      · intro i' hi'
        dsimp only
        by_cases heq : i' = i
        · rw [heq]
          split <;> omega
        · have hbefore := hle i' (by omega)
          split <;> omega
      · dsimp only
        by_cases hlt : signed64 (sketch' i (column hashval i)) < least
        · rw [if_pos hlt]
          exact .inr ⟨i, rfl⟩
        · rw [if_neg hlt]
          exact hof
  have ⟨out, hout, _, hle, hof⟩ := hrun
  exact ⟨out, hout, fun i => hle i i.isLt, hof⟩

/-- The sketch of a stream gives the estimate. -/
theorem CountsStream.count_estimate (h : CountsStream md5 s sketch) (v : List UInt8) :
    cmsketchCountMd5Datum sketch (sketchMd5Bytea md5 v) = .ok (estimate md5 s v : Int) := by
  have hval : int64Max.toNat = 9223372036854775807 := rfl
  have hsigned : ∀ i, signed64 (sketch i (column (sketchMd5Bytea md5 v) i)) =
      (chosenBy md5 s i (column (sketchMd5Bytea md5 v) i) : Int) := by
    intro i
    have hle := h.below i (column (sketchMd5Bytea md5 v) i)
    rw [signed64_of_lt (by omega), h.toNat_eq]
  have ⟨out, hout, hle, hof⟩ := min_spec sketch (sketchMd5Bytea md5 v)
  have ⟨i, hi⟩ := exists_estimate_eq md5 s v
  have hupper := hle i
  rw [hsigned i, ← hi] at hupper
  have hlower : (estimate md5 s v : Int) ≤ out.2 := by
    rcases hof with hmax | ⟨j, hj⟩
    · have hbelow := h.below i (column (sketchMd5Bytea md5 v) i)
      rw [h.toNat_eq, ← hi] at hbelow
      rw [hmax, signed64_of_lt (by omega)]
      omega
    · rw [hj, hsigned j]
      exact_mod_cast estimate_le md5 s v j
  have hcount : out.2 = (estimate md5 s v : Int) := by omega
  unfold cmsketchCountMd5Datum
  rw [hout, ok_bind]
  show Except.ok out.2 = _
  rw [hcount]

/-- No estimate is above what a counter can hold. -/
theorem CountsStream.estimate_below (h : CountsStream md5 s sketch) (v : List UInt8) :
    estimate md5 s v ≤ int64Max.toNat := by
  have hle := estimate_le md5 s v 0
  have hbelow := h.below 0 (column (sketchMd5Bytea md5 v) 0)
  rw [h.toNat_eq] at hbelow
  exact hle.trans hbelow

end Madlib.Sketch
