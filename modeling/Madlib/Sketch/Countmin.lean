import Mathlib
import Madlib.Backend
import Madlib.Lib.Loop
import Madlib.Lib.MachineInt

/-!
# One CountMin sketch

A sketch has `DEPTH` rows of `NUMCOUNTERS` counters.  Successive pairs of bytes of
one md5 hash choose a column in every row; inserting a value adds one to the chosen
counters, and the least of them bounds the value's count.  The hash function is a
parameter.
-/

namespace Madlib.Sketch

open Madlib.Backend Madlib.Lib.MachineInt Madlib.Lib.Loop

/-- `uint64 countmin[DEPTH][NUMCOUNTERS]` -/
abbrev Countmin := Fin 8 → Fin 1024 → UInt64

/-- The digest of a byte string. -/
abbrev Md5 := List UInt8 → Fin 16 → UInt8

def int64Max : UInt64 := 0x7FFFFFFFFFFFFFFF

/-- The digits of the hexadecimal rendering of a digest, as numbers. -/
def hexdigest (digest : Fin 16 → UInt8) : List Nat :=
  (List.ofFn digest).flatMap fun b => [b.toNat / 16, b.toNat % 16]

def hexToBytes : List Nat → List UInt8
  | c1 :: c2 :: rest => UInt8.ofNat (c1 * 16 + c2) :: hexToBytes rest
  | _ => []

/-- The hash of the bytes of a datum.  The cached hash of a zero is the hash of a zero. -/
def sketchMd5Bytea (md5 : Md5) (datum : List UInt8) : List UInt8 :=
  hexToBytes (hexdigest (md5 datum))

/-- `*(unsigned short *)c % NUMCOUNTERS` in round `i` -/
def column (hashval : List UInt8) (i : Fin 8) : Fin 1024 :=
  Fin.ofNat 1024 (ofLeBytes ((hashval.drop (2 * i)).take 2))

/-- A function that is invoked on every row of a sketch with the column chosen there. -/
abbrev CounterLambda := Fin 8 → Fin 1024 → Countmin → Int → Except Fault (Countmin × Int)

def hashCountersIterate (hashval : List UInt8) (sketch : Countmin) (initial : Int)
    (lambda : CounterLambda) : Except Fault (Countmin × Int) :=
  (List.finRange 8).foldlM (fun s i => lambda i (column hashval i) s.1 s.2) (sketch, initial)

def setCounter (sketch : Countmin) (i : Fin 8) (col : Fin 1024) (x : UInt64) : Countmin :=
  Function.update sketch i (Function.update (sketch i) col x)

def incrementCounter : CounterLambda := fun i col sketch _ =>
  if sketch i col = int64Max then .error (.elog "maximum count exceeded in sketch")
  else
    let newval := sketch i col + 1
    .ok (setCounter sketch i col newval, signed64 newval)

def minCounter : CounterLambda := fun i col sketch transval =>
  let thisval := signed64 (sketch i col)
  .ok (sketch, if thisval < transval then thisval else transval)

/-- Inserts a datum and returns its hash with the changed sketch. -/
def countminTransC (md5 : Md5) (sketch : Countmin) (datum : List UInt8) :
    Except Fault (Countmin × List UInt8) := do
  let nhash := sketchMd5Bytea md5 datum
  let (sketch, _) ← hashCountersIterate nhash sketch 0 incrementCounter
  pure (sketch, nhash)

/-- `INT64_MAX` is what the running minimum starts with. -/
def cmsketchCountMd5Datum (sketch : Countmin) (md5Bytea : List UInt8) : Except Fault Int := do
  let (_, count) ← hashCountersIterate md5Bytea sketch (signed64 int64Max) minCounter
  pure count

def cmsketchCountC (md5 : Md5) (sketch : Countmin) (arg : List UInt8) : Except Fault Int :=
  cmsketchCountMd5Datum sketch (sketchMd5Bytea md5 arg)

/-! ## Hashes -/

theorem hexToBytes_flatMap (bs : List UInt8) :
    hexToBytes (bs.flatMap fun b => [b.toNat / 16, b.toNat % 16]) = bs := by
  induction bs with
  | nil => rfl
  | cons b bs ih =>
      have hdigits : b.toNat / 16 * 16 + b.toNat % 16 = b.toNat := by omega
      simp [hexToBytes, ih, hdigits]

theorem sketchMd5Bytea_eq (md5 : Md5) (datum : List UInt8) :
    sketchMd5Bytea md5 datum = List.ofFn (md5 datum) :=
  hexToBytes_flatMap _

/-! ## Increments -/

theorem setCounter_apply (sketch : Countmin) (i i' : Fin 8) (col col' : Fin 1024) (x : UInt64) :
    setCounter sketch i col x i' col' = if i' = i ∧ col' = col then x else sketch i' col' := by
  unfold setCounter
  by_cases hi : i' = i
  · subst hi
    by_cases hcol : col' = col
    · subst hcol
      simp
    · simp [hcol]
  · simp [hi]

/-- The sketch with one more value of the given hash. -/
def addHash (hashval : List UInt8) (sketch : Countmin) : Countmin := fun i k =>
  if column hashval i = k then sketch i k + 1 else sketch i k

/-- The rounds of the loop that are done. -/
def addHashUpTo (hashval : List UInt8) (sketch : Countmin) (n : Nat) : Countmin := fun i k =>
  if i.val < n ∧ column hashval i = k then sketch i k + 1 else sketch i k

theorem addHashUpTo_succ (hashval : List UInt8) (sketch : Countmin) (i : Fin 8) :
    setCounter (addHashUpTo hashval sketch i) i (column hashval i)
        (sketch i (column hashval i) + 1) =
      addHashUpTo hashval sketch (i + 1) := by
  ext i' k
  rw [setCounter_apply]
  unfold addHashUpTo
  by_cases hi : i' = i
  · subst hi
    by_cases hk : k = column hashval i'
    · simp [hk]
    · simp [hk, Ne.symm hk]
  · have hlt : i'.val < i.val + 1 ↔ i'.val < i.val := by
      have hne : i'.val ≠ i.val := fun h => hi (Fin.ext h)
      omega
    simp [hi, hlt]

theorem addHashUpTo_self (hashval : List UInt8) (sketch : Countmin) (i : Fin 8) (k : Fin 1024) :
    addHashUpTo hashval sketch i i k = sketch i k := by
  unfold addHashUpTo
  rw [if_neg (by omega)]

theorem addHashUpTo_all (hashval : List UInt8) (sketch : Countmin) :
    addHashUpTo hashval sketch 8 = addHash hashval sketch := by
  ext i k
  have hi : i.val < 8 := i.isLt
  simp [addHashUpTo, addHash, hi]

/-- A completed insertion added one to the chosen counters, which were below the maximum. -/
theorem hashCountersIterate_increment {hashval : List UInt8} {sketch : Countmin} {r : Int}
    {out : Countmin × Int}
    (h : hashCountersIterate hashval sketch r incrementCounter = .ok out) :
    out.1 = addHash hashval sketch ∧ ∀ i, sketch i (column hashval i) ≠ int64Max := by
  have hrun := foldlM_finRange (fun n (s : Countmin × Int) =>
    s.1 = addHashUpTo hashval sketch n ∧
      ∀ i : Fin 8, i.val < n → sketch i (column hashval i) ≠ int64Max) h
    ⟨by simp [funext_iff, addHashUpTo], by simp⟩ ?_
  · rw [addHashUpTo_all] at hrun
    exact ⟨hrun.1, fun i => hrun.2 i i.isLt⟩
  · intro i s s' hs hbody
    rw [hs.1] at hbody
    unfold incrementCounter at hbody
    rw [addHashUpTo_self] at hbody
    by_cases hmax : sketch i (column hashval i) = int64Max
    · rw [if_pos hmax] at hbody
      cases hbody
    · rw [if_neg hmax] at hbody
      cases hbody
      refine ⟨addHashUpTo_succ hashval sketch i, fun i' hi' => ?_⟩
      by_cases heq : i' = i
      · rwa [heq]
      · exact hs.2 i' (by omega)

theorem hashCountersIterate_increment_ok (hashval : List UInt8) {sketch : Countmin} (r : Int)
    (h : ∀ i k, sketch i k ≠ int64Max) :
    ∃ out, hashCountersIterate hashval sketch r incrementCounter = .ok out := by
  have hrun : ∃ out, hashCountersIterate hashval sketch r incrementCounter = .ok out ∧
      out.1 = addHashUpTo hashval sketch 8 := by
    apply foldlM_finRange_ok (fun n (s : Countmin × Int) => s.1 = addHashUpTo hashval sketch n)
    · simp [funext_iff, addHashUpTo]
    · intro i s hs
      refine ⟨(addHashUpTo hashval sketch (i + 1), signed64 (sketch i (column hashval i) + 1)),
        ?_, rfl⟩
      rw [hs]
      unfold incrementCounter
      rw [addHashUpTo_self, if_neg (h i _)]
      dsimp only
      rw [addHashUpTo_succ]
  have ⟨out, hout, _⟩ := hrun
  exact ⟨out, hout⟩

theorem countminTransC_ok {md5 : Md5} {sketch : Countmin} {datum : List UInt8}
    {out : Countmin × List UInt8} (h : countminTransC md5 sketch datum = .ok out) :
    out = (addHash (sketchMd5Bytea md5 datum) sketch, sketchMd5Bytea md5 datum) ∧
      ∀ i, sketch i (column (sketchMd5Bytea md5 datum) i) ≠ int64Max := by
  unfold countminTransC at h
  have ⟨s, hs, hout⟩ := bind_eq_ok.mp h
  have ⟨hadd, hmax⟩ := hashCountersIterate_increment hs
  cases hout
  rw [hadd]
  exact ⟨rfl, hmax⟩

theorem countminTransC_total (md5 : Md5) {sketch : Countmin} (datum : List UInt8)
    (h : ∀ i k, sketch i k ≠ int64Max) : ∃ out, countminTransC md5 sketch datum = .ok out := by
  have ⟨s, hs⟩ := hashCountersIterate_increment_ok (sketchMd5Bytea md5 datum) 0 h
  refine ⟨(s.1, sketchMd5Bytea md5 datum), ?_⟩
  unfold countminTransC
  dsimp only
  rw [hs]
  rfl

end Madlib.Sketch
