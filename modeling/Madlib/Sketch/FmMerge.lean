import Madlib.Sketch.FmDistinct

/-!
# Merging two FM states

Two big states are meant to be joined by an OR of their bitmaps, into the fresh bitmaps
the merge hands to `big_or`.  It puts its result into a buffer of its own instead.
-/

namespace Madlib.Sketch

open Madlib.Backend Madlib.Lib.MachineInt

/-- `VARDATA` of a big state: the fields, the header of the bitmaps and the bitmaps. -/
def bigVardata (info : FmInfo) (bitmaps : Bitmaps) : List UInt8 :=
  leBytes 4 1 ++ leBytes 4 info.typOid ++ leBytes 4 info.funcOid ++
    leBytes 2 (info.typLen % 65536).toNat ++ [if info.typByVal then 1 else 0] ++
    leBytes 4 (4 * (4 + 4096)) ++ List.ofFn bitmaps ++ [0]

/-- `big_or`: its parameter `out` is pointed to a new buffer before anything is written, every
eighth byte of which is set.  The caller's buffer is returned with the new one. -/
def bigOr (bitmap1 bitmap2 : List UInt8) (out : Bitmaps) :
    Except Fault (Bitmaps × List (Option UInt8)) :=
  if bitmap1.length ≠ bitmap2.length then
    .error (.elog ("attempting to OR two different-sized bitmaps: " ++
      s!"{bitmap1.length + 4}, {bitmap2.length + 4}"))
  else do
    palloc (bitmap1.length + 4)
    let buffer := (List.range ((bitmap1.length + 7) / 8)).foldl (fun buffer i =>
      buffer.set (8 * i) (some (bitmap1.getD (8 * i) 0 ||| bitmap2.getD (8 * i) 0)))
      (List.replicate bitmap1.length none)
    pure (out, buffer)

/-- The values of the shorter sortasort, inserted into the other one. -/
def insertAll (catalog : Catalog) (typLen : Int) (info : FmInfo) (sortashort sortabig : Sortasort) :
    Except Fault Sortasort :=
  (List.range sortashort.numVals).foldlM (fun s (i : Nat) => do
    let x ← getval sortashort i
    let len ← extractDatumLen catalog x typLen
    fmsketchSortasortInsert catalog info s x len) sortabig

/-- Two small states stay small while their values fit into the directory of one. -/
def mergeSmall (catalog : Catalog) (md5 : Md5) (info1 info2 : FmInfo) (s1 s2 : Sortasort) :
    Except Fault FmTransval :=
  let (info, sortabig, sortashort) :=
    if s2.numVals < s1.numVals then (info1, s1, s2) else (info2, s2, s1)
  if sortabig.numVals + sortashort.numVals ≤ sortabig.capacity then do
    let s ← insertAll catalog info1.typLen info sortashort sortabig
    pure (.small info s)
  else do
    let bitmaps ← catchUp catalog md5 info1 s1 s1.numVals zeroBitmaps
    let bitmaps ← catchUp catalog md5 info1 s2 s2.numVals bitmaps
    pure (.big info1 bitmaps)

def fmsketchMerge (catalog : Catalog) (md5 : Md5) : FmBlob → FmBlob → Except Fault FmBlob
  | none, transblob2 => .ok transblob2
  | transblob1, none => .ok transblob1
  | some (.big info1 bitmaps1), some (.big info2 bitmaps2) => do
      let (storage, _) ← bigOr (bigVardata info1 bitmaps1) (bigVardata info2 bitmaps2) zeroBitmaps
      pure (some (.big info1 storage))
  | some (.small info1 s1), some (.small info2 s2) => do
      let transval ← mergeSmall catalog md5 info1 info2 s1 s2
      pure (some transval)
  | some (.small _ s1), some (.big info bitmaps) => do
      let bitmaps ← catchUp catalog md5 info s1 s1.numVals bitmaps
      pure (some (.big info bitmaps))
  | some (.big info bitmaps), some (.small _ s2) => do
      let bitmaps ← catchUp catalog md5 info s2 s2.numVals bitmaps
      pure (some (.big info bitmaps))

/-! ## Big states -/

def orBitmaps (a b : Bitmaps) : Bitmaps := fun i => a i ||| b i

variable {catalog : Catalog} {md5 : Md5} {elementType : Nat}

theorem length_bigVardata (info : FmInfo) (bitmaps : Bitmaps) :
    (bigVardata info bitmaps).length = 4116 := by
  unfold bigVardata
  simp only [List.length_append, length_leBytes, List.length_ofFn, List.length_singleton]

theorem bigOr_out {bitmap1 bitmap2 : List UInt8} (hlen : bitmap1.length = bitmap2.length)
    (hsize : bitmap1.length + 4 ≤ maxAllocSize) (out : Bitmaps) :
    ∃ buffer, bigOr bitmap1 bitmap2 out = .ok (out, buffer) := by
  unfold bigOr
  rw [if_neg (not_not.mpr hlen), palloc_ok hsize, ok_bind]
  exact ⟨_, rfl⟩

/-- Whatever was in them, the bitmaps of the merged state are the fresh ones. -/
theorem fmsketchMerge_big (catalog : Catalog) (md5 : Md5) (info1 info2 : FmInfo)
    (bitmaps1 bitmaps2 : Bitmaps) :
    fmsketchMerge catalog md5 (some (.big info1 bitmaps1)) (some (.big info2 bitmaps2)) =
      .ok (some (.big info1 zeroBitmaps)) := by
  have hlen := length_bigVardata info1 bitmaps1
  have hsize : (bigVardata info1 bitmaps1).length + 4 ≤ maxAllocSize := by
    rw [hlen]
    decide
  have ⟨buffer, hbuffer⟩ :=
    bigOr_out (hlen.trans (length_bigVardata info2 bitmaps2).symm) hsize zeroBitmaps
  change (bigOr _ _ _ >>= _) = _
  rw [hbuffer]
  rfl

theorem orBitmaps_eq_zero {a b : Bitmaps} :
    orBitmaps a b = zeroBitmaps ↔ a = zeroBitmaps ∧ b = zeroBitmaps := by
  have hbyte : ∀ x y : UInt8, x ||| y = 0 ↔ x = 0 ∧ y = 0 := by
    intro x y
    rw [← UInt8.toNat_inj, ← UInt8.toNat_inj, ← UInt8.toNat_inj, UInt8.toNat_or]
    exact Nat.or_eq_zero_iff
  unfold orBitmaps zeroBitmaps
  rw [funext_iff, funext_iff, funext_iff, ← forall_and]
  exact forall_congr' fun i => hbyte (a i) (b i)

/-- The mask of a datum is a bit. -/
theorem hitOf_mask {d : List UInt8} {pos : Fin 4096} {mask : UInt8}
    (h : hitOf md5 d = some (pos, mask)) : ∃ k, mask.toBitVec.getLsbD k := by
  have hbit : ∀ k < 8, (UInt8.ofNat (2 ^ k)).toBitVec.getLsbD k := by decide
  unfold hitOf at h
  dsimp only at h
  split_ifs at h
  injection h with h
  injection h with _ hmask
  rw [← hmask]
  exact ⟨_, hbit _ (by omega)⟩

/-- Every datum of a stream in big mode has a bit, so the bitmaps are not zero. -/
theorem fmsketchObserved_ne_zero (htype : elementType ≠ 0) {stream : List (List UInt8)}
    (h : ∀ d ∈ stream, IsDatum catalog (catalog.typlen elementType) d) :
    fmsketchObserved catalog md5 elementType stream ≠ .ok (.big zeroBitmaps) := by
  rw [fmsketchObserved_eq htype h]
  unfold streamObserved bigObserved smallObserved
  intro heq
  split_ifs at heq with hfits hcount hall hnil
  · have hbits : orHits md5 zeroBitmaps stream = zeroBitmaps := by
      injection heq with heq
      injection heq
    cases stream with
    | nil => exact absurd hcount (by decide)
    | cons d rest =>
        have ⟨⟨pos, mask⟩, hhit⟩ := Option.isSome_iff_exists.mp (hall d List.mem_cons_self)
        have ⟨k, hk⟩ := hitOf_mask hhit
        have hon := (orHits_bit zeroBitmaps (d :: rest) pos k).mpr
          (.inr ⟨d, List.mem_cons_self, mask, hhit, hk⟩)
        rw [hbits] at hon
        simp [zeroBitmaps] at hon
  · cases heq
  · cases heq

/-- The states of two streams in big mode are merged to what no stream has as its state; the
merge is the OR of two bitmaps only where there is nothing to be joined. -/
theorem fmsketchMerge_eq_or_iff (catalog : Catalog) (md5 : Md5) :
    (∀ info1 info2 bitmaps1 bitmaps2,
      (fmsketchMerge catalog md5 (some (.big info1 bitmaps1)) (some (.big info2 bitmaps2))).map
          observe = .ok (.big (orBitmaps bitmaps1 bitmaps2)) ↔
        bitmaps1 = zeroBitmaps ∧ bitmaps2 = zeroBitmaps) ∧
    (∀ elementType a b info1 info2 bitmaps1 bitmaps2, elementType ≠ 0 →
      (∀ d ∈ a ++ b, IsDatum catalog (catalog.typlen elementType) d) →
      fmsketchState catalog md5 elementType a = .ok (some (.big info1 bitmaps1)) →
      fmsketchState catalog md5 elementType b = .ok (some (.big info2 bitmaps2)) →
      (fmsketchMerge catalog md5 (some (.big info1 bitmaps1)) (some (.big info2 bitmaps2))).map
        observe ≠ fmsketchObserved catalog md5 elementType (a ++ b)) := by
  constructor
  · intro info1 info2 bitmaps1 bitmaps2
    rw [fmsketchMerge_big, ← orBitmaps_eq_zero]
    constructor
    · intro heq
      injection heq with heq
      injection heq with heq
      exact heq.symm
    · intro heq
      rw [heq]
      rfl
  · intro elementType a b info1 info2 bitmaps1 bitmaps2 htype hdatum _ _
    rw [fmsketchMerge_big]
    exact (fmsketchObserved_ne_zero htype hdatum).symm

/-! ## Two streams that show it -/

/-- The numbers and one of them again. -/
def repeatedNumbers : List (List UInt8) := minvalsNumbers ++ [int64Bytes 0]

theorem repeatedNumbers_isDatum :
    ∀ d ∈ repeatedNumbers, IsDatum int8Catalog (int8Catalog.typlen 20) d := by
  intro d hd
  apply int8_isDatum
  rcases List.mem_append.mp hd with hd | hd
  · exact length_of_mem_minvalsNumbers hd
  · rw [List.mem_singleton.mp hd]
    exact length_leBytes 8 _

theorem repeatedNumbers_big : ∃ bitmaps,
    fmsketchState int8Catalog (fun _ _ => 1) 20 repeatedNumbers =
      .ok (some (.big (fmInfo int8Catalog 20) bitmaps)) := by
  have hhit : ∀ d, (hitOf (fun _ _ => 1) d).isSome := by
    intro d
    unfold hitOf
    rw [sketchMd5Bytea_eq]
    decide
  have hcount : minvals ≤ distinctCount repeatedNumbers.dropLast := by
    unfold repeatedNumbers
    rw [List.dropLast_concat, distinctCount_minvalsNumbers]
  have hfits : Fits repeatedNumbers := by
    refine fits_of_length_le fun d hd => ?_
    rcases repeatedNumbers_isDatum d hd with ⟨_, hlen⟩ | ⟨hlen, _⟩
    · change (d.length : Int) = 8 at hlen
      omega
    · cases hlen
  exact ⟨_, fmsketchState_big (by decide) repeatedNumbers_isDatum hfits hcount fun d _ => hhit d⟩

theorem fmsketchMerge_two_streams :
    ∃ bitmaps, fmsketchState int8Catalog (fun _ _ => 1) 20 repeatedNumbers =
        .ok (some (.big (fmInfo int8Catalog 20) bitmaps)) ∧
      (fmsketchMerge int8Catalog (fun _ _ => 1) (some (.big (fmInfo int8Catalog 20) bitmaps))
        (some (.big (fmInfo int8Catalog 20) bitmaps))).map observe ≠
          fmsketchObserved int8Catalog (fun _ _ => 1) 20 (repeatedNumbers ++ repeatedNumbers) := by
  have ⟨bitmaps, hstate⟩ := repeatedNumbers_big
  have hdatum : ∀ d ∈ repeatedNumbers ++ repeatedNumbers,
      IsDatum int8Catalog (int8Catalog.typlen 20) d := by
    intro d hd
    exact (List.mem_append.mp hd).elim (repeatedNumbers_isDatum d) (repeatedNumbers_isDatum d)
  exact ⟨bitmaps, hstate, (fmsketchMerge_eq_or_iff int8Catalog (fun _ _ => 1)).2 20 _ _ _ _ _ _
    (by decide) hdatum hstate hstate⟩

/-- The state of the numbers has bits, and merged with itself it has none. -/
theorem fmsketchMerge_loses_bits : ∃ bitmaps,
    fmsketchState int8Catalog (fun _ _ => 1) 20 repeatedNumbers =
        .ok (some (.big (fmInfo int8Catalog 20) bitmaps)) ∧
      orBitmaps bitmaps bitmaps ≠ zeroBitmaps ∧
      fmsketchMerge int8Catalog (fun _ _ => 1) (some (.big (fmInfo int8Catalog 20) bitmaps))
        (some (.big (fmInfo int8Catalog 20) bitmaps)) =
          .ok (some (.big (fmInfo int8Catalog 20) zeroBitmaps)) := by
  have ⟨bitmaps, hstate⟩ := repeatedNumbers_big
  refine ⟨bitmaps, hstate, fun hzero => ?_, fmsketchMerge_big _ _ _ _ _ _⟩
  have hne : fmsketchObserved int8Catalog (fun _ _ => 1) 20 repeatedNumbers ≠ _ :=
    fmsketchObserved_ne_zero (by decide) repeatedNumbers_isDatum
  rw [fmsketchObserved, hstate] at hne
  rw [orBitmaps_eq_zero.mp hzero |>.1] at hne
  exact hne rfl

end Madlib.Sketch
