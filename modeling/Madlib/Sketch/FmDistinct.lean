import Mathlib
import Madlib.Sketch.FmSketch

/-!
# What the FM state depends on

The state after a stream is described by the distinct datums in the order they came, by
the storage their copies took, and by whether anything came after the `MINVALS`th of them.
-/

namespace Madlib.Sketch

open Madlib.Backend Madlib.Lib.MachineInt Madlib.Lib.Loop

/-- What the count distinct is computed from. -/
inductive FmObserved where
  | empty
  | small (numVals : Nat)
  | big (bitmaps : Bitmaps)

def observe : FmBlob → FmObserved
  | none => .empty
  | some (.small _ s) => .small s.numVals
  | some (.big _ bitmaps) => .big bitmaps

/-! ## Distinct datums -/

/-- The distinct datums in the order of their first arrival. -/
def firstSeen (stream : List (List UInt8)) : List (List UInt8) := stream.reverse.dedup.reverse

theorem mem_firstSeen {stream : List (List UInt8)} {d : List UInt8} :
    d ∈ firstSeen stream ↔ d ∈ stream := by simp [firstSeen]

theorem nodup_firstSeen (stream : List (List UInt8)) : (firstSeen stream).Nodup :=
  List.nodup_reverse.mpr (List.nodup_dedup _)

theorem firstSeen_append_of_mem {stream : List (List UInt8)} {d : List UInt8} (h : d ∈ stream) :
    firstSeen (stream ++ [d]) = firstSeen stream := by
  simp [firstSeen, List.dedup_cons_of_mem, h]

theorem firstSeen_append_of_notMem {stream : List (List UInt8)} {d : List UInt8}
    (h : d ∉ stream) : firstSeen (stream ++ [d]) = firstSeen stream ++ [d] := by
  simp [firstSeen, List.dedup_cons_of_notMem, h]

/-- The number of distinct datums. -/
def distinctCount (stream : List (List UInt8)) : Nat := (firstSeen stream).length

theorem distinctCount_congr {a b : List (List UInt8)} (h : ∀ d, d ∈ a ↔ d ∈ b) :
    distinctCount a = distinctCount b := by
  have hperm : (firstSeen a).Perm (firstSeen b) := by
    rw [List.perm_ext_iff_of_nodup (nodup_firstSeen a) (nodup_firstSeen b)]
    intro d
    rw [mem_firstSeen, mem_firstSeen, h d]
  exact hperm.length_eq

/-- The last datum is one that came before. -/
def LastRepeated (stream : List (List UInt8)) : Prop :=
  ∃ d ∈ stream.getLast?, d ∈ stream.dropLast

/-! ## Storage -/

/-- What `fmsketch_sortasort_insert` asks for when it makes `storageSz` bytes of storage. -/
def blobSize (storageSz : Nat) : Nat := 4 + 16 + sizeofSortasort + minvals * 4 + storageSz

/-- The used and the whole storage after one more datum of `len` bytes. -/
def storageStep (storage : Nat × Nat) (len : Nat) : Option (Nat × Nat) :=
  if storage.2 ≤ storage.1 + len then
    if blobSize (storage.2 * 2 + len) ≤ maxAllocSize then
      some (storage.1 + len, storage.2 * 2 + len)
    else none
  else some (storage.1 + len, storage.2)

def storageAfter (vals : List (List UInt8)) : Option (Nat × Nat) :=
  vals.foldlM (fun storage d => storageStep storage d.length) (0, 8 * minvals)

theorem storageAfter_append (vals : List (List UInt8)) (d : List UInt8) :
    storageAfter (vals ++ [d]) = (storageAfter vals).bind (storageStep · d.length) := by
  unfold storageAfter
  simp only [List.foldlM_append, List.foldlM_cons, List.foldlM_nil, bind_pure]
  rfl

/-- The storage never has to be larger than the backend allows. -/
def Fits (stream : List (List UInt8)) : Prop :=
  (storageAfter ((firstSeen stream).take minvals)).isSome

/-- Storage is at most three times what is in it, unless it is still the initial one. -/
theorem storageAfter_isSome {vals : List (List UInt8)}
    (h : blobSize (8 * minvals + 3 * (vals.map List.length).sum) ≤ maxAllocSize) :
    ∃ size, storageAfter vals = some ((vals.map List.length).sum, size) ∧
      size ≤ 8 * minvals + 3 * (vals.map List.length).sum := by
  induction vals using List.reverseRecOn with
  | nil => exact ⟨8 * minvals, rfl, by omega⟩
  | append_singleton vals d ih =>
      rw [List.map_append, List.sum_append, List.map_singleton, List.sum_singleton] at h ⊢
      unfold blobSize at h ih
      have ⟨size, hsize, hle⟩ := ih (by omega)
      rw [storageAfter_append, hsize, Option.bind_some, storageStep]
      by_cases hfull : size ≤ (vals.map List.length).sum + d.length
      · refine ⟨size * 2 + d.length, ?_, by omega⟩
        rw [if_pos hfull, if_pos]
        change 4 + 16 + sizeofSortasort + minvals * 4 + (size * 2 + d.length) ≤ maxAllocSize
        omega
      · exact ⟨size, by rw [if_neg hfull], by omega⟩

theorem Fits.of_append {stream : List (List UInt8)} {d : List UInt8}
    (h : Fits (stream ++ [d])) : Fits stream := by
  unfold Fits at h ⊢
  by_cases hmem : d ∈ stream
  · rwa [firstSeen_append_of_mem hmem] at h
  · rw [firstSeen_append_of_notMem hmem] at h
    by_cases hlen : (firstSeen stream).length < minvals
    · rw [List.take_of_length_le (by simp; omega), storageAfter_append] at h
      rw [List.take_of_length_le (by omega)]
      exact Option.isSome_of_isSome_bind h
    · rwa [List.take_append_of_le_length (by omega)] at h

/-! ## Bitmaps -/

/-- The bitmaps with the bits of the datums that have one. -/
def orHits (md5 : Md5) (bitmaps : Bitmaps) (vals : List (List UInt8)) : Bitmaps :=
  vals.foldl (fun bitmaps d =>
    match hitOf md5 d with
    | some (pos, mask) => orByte bitmaps pos mask
    | none => bitmaps) bitmaps

def AllHit (md5 : Md5) (vals : List (List UInt8)) : Prop := ∀ d ∈ vals, (hitOf md5 d).isSome

instance (md5 : Md5) (vals : List (List UInt8)) : Decidable (AllHit md5 vals) :=
  inferInstanceAs (Decidable (∀ d ∈ vals, _))

variable {catalog : Catalog} {md5 : Md5}

/-- A bit is on if it was or if a datum turns it on. -/
theorem orHits_bit (bitmaps : Bitmaps) (vals : List (List UInt8)) (i : Fin 4096) (k : Nat) :
    (orHits md5 bitmaps vals i).toBitVec.getLsbD k ↔
      (bitmaps i).toBitVec.getLsbD k ∨
        ∃ d ∈ vals, ∃ mask, hitOf md5 d = some (i, mask) ∧ mask.toBitVec.getLsbD k := by
  induction vals using List.reverseRecOn with
  | nil => simp [orHits]
  | append_singleton vals d ih =>
      have hstep : orHits md5 bitmaps (vals ++ [d]) =
          match hitOf md5 d with
          | some (pos, mask) => orByte (orHits md5 bitmaps vals) pos mask
          | none => orHits md5 bitmaps vals := by
        unfold orHits
        rw [List.foldl_append]
        rfl
      have hlast : (∃ d' ∈ vals ++ [d], ∃ mask, hitOf md5 d' = some (i, mask) ∧
            mask.toBitVec.getLsbD k) ↔
          (∃ d' ∈ vals, ∃ mask, hitOf md5 d' = some (i, mask) ∧ mask.toBitVec.getLsbD k) ∨
            ∃ mask, hitOf md5 d = some (i, mask) ∧ mask.toBitVec.getLsbD k := by
        simp only [List.mem_append, List.mem_singleton, or_and_right, exists_or, exists_eq_left]
      rw [hstep, hlast, ← or_assoc, ← ih]
      cases hhit : hitOf md5 d with
      | none => simp
      | some hit =>
          have ⟨pos, mask⟩ := hit
          by_cases hpos : i = pos
          · simp [orByte, hpos]
          · simp [orByte, hpos, Ne.symm hpos]

/-- The bitmaps depend on the set of the datums alone. -/
theorem orHits_congr {bitmaps : Bitmaps} {a b : List (List UInt8)} (h : ∀ d, d ∈ a ↔ d ∈ b) :
    orHits md5 bitmaps a = orHits md5 bitmaps b := by
  funext i
  apply UInt8.toBitVec_inj.mp
  apply BitVec.eq_of_getLsbD_eq
  intro k _
  rw [Bool.eq_iff_iff, orHits_bit, orHits_bit]
  simp only [h]

theorem orHits_orHits (bitmaps : Bitmaps) (a b : List (List UInt8)) :
    orHits md5 (orHits md5 bitmaps a) b = orHits md5 bitmaps (a ++ b) :=
  List.foldl_append.symm

/-- Turning on one bit, as a fold of one datum. -/
theorem fmsketchTransC_orHits {info : FmInfo} {d : List UInt8}
    (h : IsDatum catalog (catalog.typlen info.typOid) d) (rest : List UInt8)
    (bitmaps : Bitmaps) :
    fmsketchTransC catalog md5 info bitmaps (d ++ rest) =
      if AllHit md5 [d] then .ok (orHits md5 bitmaps [d]) else .error noBit := by
  rw [fmsketchTransC_eq h]
  cases hhit : hitOf md5 d with
  | none => simp [AllHit, hhit]
  | some hit => simp [AllHit, orHits, hhit]

theorem fmsketchTransC_datum (info : FmInfo) (md5 : Md5) {d : List UInt8}
    (h : IsDatum catalog (catalog.typlen info.typOid) d) (bitmaps : Bitmaps) :
    fmsketchTransC catalog md5 info bitmaps d =
      if AllHit md5 [d] then .ok (orHits md5 bitmaps [d]) else .error noBit := by
  rw [← fmsketchTransC_orHits h [], List.append_nil]

/-! ## One insertion -/

theorem WellFormed.withStorage {s : Sortasort} (h : WellFormed catalog s) {size : Nat}
    (hsize : s.storageCur < size) : WellFormed catalog { s with storageSz := size } :=
  ⟨h.stored, h.distinct, h.sorted, hsize⟩

def tooLarge : Fault := .elog "invalid memory alloc request size"

/-- With storage to be made, the insertion asks for it and then succeeds. -/
theorem growAndInsert_spec {info : FmInfo} {s : Sortasort} {d : List UInt8}
    (h : WellFormed catalog s) (hd : IsDatum catalog s.typLen d) (rest : List UInt8)
    (hinfo : info.typLen = s.typLen) (hcap : s.capacity = minvals) (hnum : s.numVals < minvals)
    (hnew : d ∉ values catalog s) :
    (maxAllocSize < blobSize (s.storageSz * 2 + d.length) →
      growAndInsert catalog info (d ++ rest) d.length 2 s = .error tooLarge) ∧
    (blobSize (s.storageSz * 2 + d.length) ≤ maxAllocSize →
      ∃ s', growAndInsert catalog info (d ++ rest) d.length 2 s = .ok s' ∧
        WellFormed catalog s' ∧ (values catalog s').Perm (d :: values catalog s) ∧
        s'.typLen = s.typLen ∧ s'.capacity = s.capacity ∧
        (s'.storageCur, s'.storageSz) =
          (s.storageCur + d.length, s.storageSz * 2 + d.length)) := by
  have hsize : blobSize (s.storageSz * 2 + d.length) =
      4 + 16 + sizeofSortasort + s.capacity * 4 + (s.storageSz * 2 + d.length) := by
    rw [hcap]
    rfl
  have hroom := h.room
  have hbig : WellFormed catalog { s with storageSz := s.storageSz * 2 + d.length } :=
    h.withStorage (by omega)
  have hfree : s.numVals < s.capacity := by omega
  have hlt : s.storageCur + d.length < s.storageSz * 2 + d.length := by omega
  have ⟨s', hinsert, hwf, hperm, hlen, hcap', hsz, hcur⟩ :=
    (sortasortTryInsert_spec hbig hd rest hfree).2.2 hnew hlt
  rw [hsize, growAndInsert]
  dsimp only
  constructor
  · intro hlarge
    rw [palloc_error hlarge, error_bind]
    rfl
  · intro hsmall
    refine ⟨s', ?_, hwf, hperm, hlen, hcap', Prod.ext hcur hsz⟩
    rw [palloc_ok hsmall, ok_bind, hinfo, hinsert, ok_bind]
    rfl

/-- A datum of the set changes nothing; a new one is stored, in storage made for it if
there is none left. -/
theorem fmsketchSortasortInsert_spec (info : FmInfo) {s : Sortasort} {d : List UInt8}
    (h : WellFormed catalog s) (hd : IsDatum catalog s.typLen d) (rest : List UInt8)
    (hinfo : info.typLen = s.typLen) (hcap : s.capacity = minvals) (hnum : s.numVals < minvals) :
    (d ∈ values catalog s →
      fmsketchSortasortInsert catalog info s (d ++ rest) d.length = .ok s) ∧
    (d ∉ values catalog s →
      (storageStep (s.storageCur, s.storageSz) d.length = none →
        fmsketchSortasortInsert catalog info s (d ++ rest) d.length = .error tooLarge) ∧
      (∀ storage, storageStep (s.storageCur, s.storageSz) d.length = some storage →
        ∃ s', fmsketchSortasortInsert catalog info s (d ++ rest) d.length = .ok s' ∧
          WellFormed catalog s' ∧ (values catalog s').Perm (d :: values catalog s) ∧
          s'.typLen = s.typLen ∧ s'.capacity = s.capacity ∧
          (s'.storageCur, s'.storageSz) = storage)) := by
  have ⟨hpresent, hfull, hroom⟩ := sortasortTryInsert_spec h hd rest (by omega)
  have hgrow : s.storageSz ≤ s.storageCur + d.length → d ∉ values catalog s →
      fmsketchSortasortInsert catalog info s (d ++ rest) d.length =
        growAndInsert catalog info (d ++ rest) d.length 2 s := by
    intro hle hnew
    unfold fmsketchSortasortInsert
    rw [if_neg (by omega), hinfo, hfull hnew hle, ok_bind]
    rfl
  have hspec := growAndInsert_spec h hd rest hinfo hcap hnum
  refine ⟨fun hmem => ?_, fun hnew => ?_⟩
  · unfold fmsketchSortasortInsert
    rw [if_neg (by omega), hinfo, hpresent hmem, ok_bind]
    rfl
  · unfold storageStep
    dsimp only
    by_cases hle : s.storageSz ≤ s.storageCur + d.length
    · rw [if_pos hle, hgrow hle hnew]
      have ⟨hlarge, hsmall⟩ := hspec hnew
      by_cases hsize : blobSize (s.storageSz * 2 + d.length) ≤ maxAllocSize
      · rw [if_pos hsize]
        refine ⟨nofun, fun storage hsome => ?_⟩
        rw [← Option.some.inj hsome]
        exact hsmall hsize
      · rw [if_neg hsize]
        exact ⟨fun _ => hlarge (by omega), nofun⟩
    · rw [if_neg hle]
      refine ⟨nofun, fun storage hsome => ?_⟩
      rw [← Option.some.inj hsome]
      have ⟨s', hinsert, hwf, hperm, hlen, hcap', hsz, hcur⟩ := hroom hnew (by omega)
      refine ⟨s', ?_, hwf, hperm, hlen, hcap', Prod.ext hcur hsz⟩
      unfold fmsketchSortasortInsert
      rw [if_neg (by omega), hinfo, hinsert, ok_bind]
      rfl

/-! ## Catching up -/

theorem allHit_append {a b : List (List UInt8)} :
    AllHit md5 (a ++ b) ↔ AllHit md5 a ∧ AllHit md5 b := List.forall_mem_append

theorem catchUp_eq {info : FmInfo} {s : Sortasort} (h : WellFormed catalog s)
    (hlen : s.typLen = catalog.typlen info.typOid) {count : Nat} (hcount : count ≤ s.numVals)
    (bitmaps : Bitmaps) :
    catchUp catalog md5 info s count bitmaps =
      if AllHit md5 ((values catalog s).take count) then
        .ok (orHits md5 bitmaps ((values catalog s).take count))
      else .error noBit := by
  unfold catchUp
  induction count with
  | zero =>
      have hnil : AllHit md5 [] := List.forall_mem_nil _
      rw [List.take_zero, if_pos hnil]
      rfl
  | succ count ih =>
      have hi : count < (values catalog s).length := by rw [length_values]; omega
      have ⟨hdatum, rest, hget⟩ := getval_ok h hi
      rw [List.range_succ, List.foldlM_append, ih (by omega), List.take_add_one,
        List.getElem?_eq_getElem hi, Option.toList_some]
      generalize (values catalog s).take count = before
      generalize (values catalog s)[count] = d at hdatum hget
      have hstep : ∀ bitmaps, (getval s count >>= fmsketchTransC catalog md5 info bitmaps) =
          if AllHit md5 [d] then .ok (orHits md5 bitmaps [d]) else .error noBit := by
        intro bitmaps
        rw [hget, ok_bind, fmsketchTransC_orHits (hlen ▸ hdatum)]
      by_cases hbefore : AllHit md5 before
      · rw [if_pos hbefore, ok_bind, List.foldlM_cons]
        simp only [List.foldlM_nil, bind_pure, hstep, allHit_append, hbefore, true_and,
          orHits_orHits]
      · rw [if_neg hbefore, if_neg (fun hall => hbefore (allHit_append.mp hall).1), error_bind]

/-! ## Whole streams -/

def fmInfo (catalog : Catalog) (elementType : Nat) : FmInfo :=
  ⟨elementType, catalog.typOutput elementType, catalog.typlen elementType,
    catalog.typbyval elementType⟩

/-- A small state over the datums of a stream. -/
structure SmallState (catalog : Catalog) (elementType : Nat) (stream : List (List UInt8))
    (s : Sortasort) : Prop where
  wellFormed : WellFormed catalog s
  typLen : s.typLen = catalog.typlen elementType
  capacity : s.capacity = minvals
  perm : (values catalog s).Perm (firstSeen stream)
  storage : storageAfter (firstSeen stream) = some (s.storageCur, s.storageSz)

theorem SmallState.numVals {elementType : Nat} {stream : List (List UInt8)} {s : Sortasort}
    (h : SmallState catalog elementType stream s) : s.numVals = distinctCount stream := by
  rw [← length_values catalog, h.perm.length_eq]
  rfl

theorem SmallState.mem_values {elementType : Nat} {stream : List (List UInt8)} {s : Sortasort}
    (h : SmallState catalog elementType stream s) {d : List UInt8} :
    d ∈ values catalog s ↔ d ∈ stream := by rw [h.perm.mem_iff, mem_firstSeen]

/-- How a stream and the outcome of its aggregation belong together. -/
inductive Outcome (catalog : Catalog) (md5 : Md5) (elementType : Nat) :
    List (List UInt8) → Except Fault FmBlob → Prop where
  | empty : Outcome catalog md5 elementType [] (.ok none)
  | tooLarge {stream : List (List UInt8)} (hfits : ¬ Fits stream) :
      Outcome catalog md5 elementType stream (.error tooLarge)
  | small {stream : List (List UInt8)} {s : Sortasort} (hne : stream ≠ []) (hfits : Fits stream)
      (hcount : distinctCount stream.dropLast < minvals)
      (hsmall : SmallState catalog elementType stream s) :
      Outcome catalog md5 elementType stream (.ok (some (.small (fmInfo catalog elementType) s)))
  | big {stream : List (List UInt8)} (hfits : Fits stream)
      (hcount : minvals ≤ distinctCount stream.dropLast) (hall : AllHit md5 stream) :
      Outcome catalog md5 elementType stream
        (.ok (some (.big (fmInfo catalog elementType) (orHits md5 zeroBitmaps stream))))
  | noBit {stream : List (List UInt8)} (hfits : Fits stream)
      (hcount : minvals ≤ distinctCount stream.dropLast) (hall : ¬ AllHit md5 stream) :
      Outcome catalog md5 elementType stream (.error noBit)

variable {elementType : Nat} {stream : List (List UInt8)} {d : List UInt8}

/-- Past `MINVALS` distinct datums nothing is stored any more. -/
theorem Fits.append_of_le (h : Fits stream) (hcount : minvals ≤ distinctCount stream) :
    Fits (stream ++ [d]) := by
  unfold Fits at h ⊢
  unfold distinctCount at hcount
  by_cases hmem : d ∈ stream
  · rwa [firstSeen_append_of_mem hmem]
  · rwa [firstSeen_append_of_notMem hmem, List.take_append_of_le_length hcount]

theorem fits_iff_of_le (hcount : distinctCount stream ≤ minvals) :
    Fits stream ↔ (storageAfter (firstSeen stream)).isSome := by
  unfold Fits
  rw [List.take_of_length_le hcount]

theorem distinctCount_append_of_mem (h : d ∈ stream) :
    distinctCount (stream ++ [d]) = distinctCount stream := by
  unfold distinctCount
  rw [firstSeen_append_of_mem h]

theorem distinctCount_append_of_notMem (h : d ∉ stream) :
    distinctCount (stream ++ [d]) = distinctCount stream + 1 := by
  unfold distinctCount
  rw [firstSeen_append_of_notMem h, List.length_append]
  rfl

/-- The last datum adds one to the count unless it is repeated. -/
theorem distinctCount_dropLast (hne : stream ≠ []) :
    distinctCount stream = distinctCount stream.dropLast ∧ LastRepeated stream ∨
      distinctCount stream = distinctCount stream.dropLast + 1 ∧ ¬ LastRepeated stream := by
  induction stream using List.reverseRecOn with
  | nil => exact absurd rfl hne
  | append_singleton stream d _ =>
      have hlast : LastRepeated (stream ++ [d]) ↔ d ∈ stream := by
        unfold LastRepeated
        rw [List.dropLast_concat, List.getLast?_concat]
        simp
      rw [List.dropLast_concat, hlast]
      by_cases h : d ∈ stream
      · exact .inl ⟨distinctCount_append_of_mem h, h⟩
      · exact .inr ⟨distinctCount_append_of_notMem h, h⟩

/-- A small state with a free entry takes one more datum. -/
theorem small_step (hd : IsDatum catalog (catalog.typlen elementType) d) {s : Sortasort}
    (h : SmallState catalog elementType stream s) (hcount : distinctCount stream < minvals) :
    Outcome catalog md5 elementType (stream ++ [d]) (do
      let s ← fmsketchSortasortInsert catalog (fmInfo catalog elementType) s d d.length
      pure (some (.small (fmInfo catalog elementType) s))) := by
  have hnum := h.numVals
  have hd' : IsDatum catalog s.typLen d := h.typLen ▸ hd
  have hspec := fmsketchSortasortInsert_spec (fmInfo catalog elementType) h.wellFormed hd' []
    h.typLen.symm h.capacity (by omega)
  rw [List.append_nil] at hspec
  have ⟨hpresent, hnew⟩ := hspec
  have hlast : distinctCount (stream ++ [d]).dropLast < minvals := by
    rwa [List.dropLast_concat]
  by_cases hmem : d ∈ stream
  · have hseen := firstSeen_append_of_mem hmem
    have hfits : Fits (stream ++ [d]) := by
      rw [fits_iff_of_le (by rw [distinctCount_append_of_mem hmem]; omega), hseen, h.storage]
      rfl
    rw [hpresent (h.mem_values.mpr hmem), ok_bind]
    exact .small (by simp) hfits hlast
      ⟨h.wellFormed, h.typLen, h.capacity, hseen ▸ h.perm, hseen ▸ h.storage⟩
  · have hseen := firstSeen_append_of_notMem hmem
    have hle : distinctCount (stream ++ [d]) ≤ minvals := by
      rw [distinctCount_append_of_notMem hmem]
      omega
    have hfits := fits_iff_of_le hle
    rw [hseen, storageAfter_append, h.storage, Option.bind_some] at hfits
    have ⟨hfull, hroom⟩ := hnew (fun hin => hmem (h.mem_values.mp hin))
    cases hstep : storageStep (s.storageCur, s.storageSz) d.length with
    | none =>
        rw [hfull hstep, error_bind]
        refine .tooLarge (fun hin => ?_)
        rw [hfits, hstep] at hin
        cases hin
    | some storage =>
        have ⟨s', hinsert, hwf, hperm, hlen, hcap, hstorage⟩ := hroom storage hstep
        rw [hinsert, ok_bind]
        refine .small (by simp) (hfits.mpr (by rw [hstep]; rfl)) hlast
          ⟨hwf, hlen.trans h.typLen, hcap.trans h.capacity, ?_, ?_⟩
        · rw [hseen]
          exact (hperm.trans (h.perm.cons d)).trans (List.perm_append_singleton d _).symm
        · rw [hseen, storageAfter_append, h.storage, Option.bind_some, hstep, hstorage]

/-- A small state without a free entry becomes a big one. -/
theorem full_step (hd : IsDatum catalog (catalog.typlen elementType) d) {s : Sortasort}
    (h : SmallState catalog elementType stream s) (hfits : Fits stream)
    (hcount : distinctCount stream = minvals) :
    Outcome catalog md5 elementType (stream ++ [d]) (do
      let bitmaps ← catchUp catalog md5 (fmInfo catalog elementType) s minvals zeroBitmaps
      let bitmaps ← fmsketchTransC catalog md5 (fmInfo catalog elementType) bitmaps d
      pure (some (.big (fmInfo catalog elementType) bitmaps))) := by
  have hnum := h.numVals
  have hfits' : Fits (stream ++ [d]) := hfits.append_of_le hcount.ge
  have hlast : minvals ≤ distinctCount (stream ++ [d]).dropLast := by
    rw [List.dropLast_concat]
    exact hcount.ge
  have htrans := fmsketchTransC_datum (fmInfo catalog elementType) md5 hd
  have hsame : AllHit md5 (values catalog s) ↔ AllHit md5 stream := by
    unfold AllHit
    simp only [h.mem_values]
  have hbits : orHits md5 zeroBitmaps (values catalog s ++ [d]) =
      orHits md5 zeroBitmaps (stream ++ [d]) := by
    apply orHits_congr
    intro v
    rw [List.mem_append, List.mem_append, h.mem_values]
  rw [catchUp_eq h.wellFormed h.typLen (by omega),
    List.take_of_length_le (by rw [length_values]; omega)]
  by_cases hold : AllHit md5 stream
  · rw [if_pos (hsame.mpr hold), ok_bind, htrans]
    by_cases hnew : AllHit md5 [d]
    · rw [if_pos hnew, ok_bind, orHits_orHits, hbits]
      exact .big hfits' hlast (allHit_append.mpr ⟨hold, hnew⟩)
    · rw [if_neg hnew, error_bind]
      exact .noBit hfits' hlast (fun hall => hnew (allHit_append.mp hall).2)
  · rw [if_neg (fun hall => hold (hsame.mp hall)), error_bind]
    exact .noBit hfits' hlast (fun hall => hold (allHit_append.mp hall).1)

theorem sortasortInit_smallState (catalog : Catalog) (elementType : Nat) :
    ∃ s, sortasortInit minvals sortasortInitialStorage (catalog.typlen elementType)
        (catalog.typbyval elementType) = .ok s ∧ SmallState catalog elementType [] s := by
  have hroom : minvals * 4 < sortasortInitialStorage - sizeofSortasort := by decide
  have ⟨s, hinit, hwf, hvalues, hlen, hcap, hsz, hcur⟩ :=
    sortasortInit_wellFormed catalog (catalog.typlen elementType) (catalog.typbyval elementType)
      hroom
  refine ⟨s, hinit, ⟨hwf, hlen, hcap, ?_, ?_⟩⟩
  · rw [hvalues]
    exact .refl _
  · rw [hcur, hsz]
    rfl

/-- One transition takes the outcome of a stream to that of the stream with one more datum. -/
theorem outcome_step (htype : elementType ≠ 0)
    (hd : IsDatum catalog (catalog.typlen elementType) d) {r : Except Fault FmBlob}
    (h : Outcome catalog md5 elementType stream r) :
    Outcome catalog md5 elementType (stream ++ [d])
      (r >>= fun blob => fmsketchTrans catalog md5 elementType blob d) := by
  have hstart : ∀ blob, fmsketchTrans catalog md5 elementType blob d = (do
      let transval ← fmTransval catalog elementType blob
      let transval ← fmsketchTransval catalog md5 d transval
      pure (some transval)) := fun blob => if_neg htype
  have hsmallStep : ∀ {s : Sortasort}, SmallState catalog elementType stream s → Fits stream →
      distinctCount stream ≤ minvals →
      Outcome catalog md5 elementType (stream ++ [d]) (do
        let transval ← fmsketchTransval catalog md5 d (.small (fmInfo catalog elementType) s)
        pure (some transval)) := by
    intro s hsmall hfits hle
    have hnum := hsmall.numVals
    unfold fmsketchTransval
    by_cases hlt : distinctCount stream < minvals
    · have hstep : Outcome catalog md5 elementType (stream ++ [d]) _ := small_step hd hsmall hlt
      have hlen : extractDatumLen catalog d (fmInfo catalog elementType).typLen = .ok d.length :=
        extractDatumLen_self hd
      dsimp only
      rw [if_pos (by omega), hlen, ok_bind, bind_assoc]
      exact hstep
    · have hstep : Outcome catalog md5 elementType (stream ++ [d]) _ :=
        full_step hd hsmall hfits (by omega)
      dsimp only
      rw [if_neg (by omega), if_pos (by omega), bind_assoc]
      simp only [bind_assoc, pure_eq_ok, ok_bind] at hstep ⊢
      exact hstep
  have hpast : minvals ≤ distinctCount stream.dropLast →
      minvals ≤ distinctCount stream ∧ minvals ≤ distinctCount (stream ++ [d]).dropLast := by
    intro hcount
    have hne : stream ≠ [] := by
      intro hnil
      subst hnil
      exact absurd hcount (by decide)
    rw [List.dropLast_concat]
    rcases distinctCount_dropLast hne with ⟨heq, _⟩ | ⟨heq, _⟩ <;> omega
  cases h with
  | empty =>
      have ⟨s, hinit, hsmall⟩ := sortasortInit_smallState catalog elementType
      rw [ok_bind, hstart, fmTransval, hinit, ok_bind, pure_eq_ok, ok_bind]
      exact hsmallStep hsmall rfl (by decide)
  | tooLarge hfits => exact .tooLarge (fun hin => hfits hin.of_append)
  | @small _ s hne hfits hcount hsmall =>
      rw [ok_bind, hstart, fmTransval, ok_bind]
      refine hsmallStep hsmall hfits ?_
      rcases distinctCount_dropLast hne with ⟨heq, _⟩ | ⟨heq, _⟩ <;> omega
  | big hfits hcount hall =>
      have hlast := hpast hcount
      have htrans := fmsketchTransC_datum (fmInfo catalog elementType) md5 hd
      rw [ok_bind, hstart, fmTransval, ok_bind, fmsketchTransval, htrans]
      by_cases hnew : AllHit md5 [d]
      · rw [if_pos hnew, ok_bind, orHits_orHits]
        exact .big (hfits.append_of_le hlast.1) hlast.2 (allHit_append.mpr ⟨hall, hnew⟩)
      · rw [if_neg hnew, error_bind, error_bind]
        exact .noBit (hfits.append_of_le hlast.1) hlast.2
          (fun hin => hnew (allHit_append.mp hin).2)
  | noBit hfits hcount hall =>
      have hlast := hpast hcount
      rw [error_bind]
      exact .noBit (hfits.append_of_le hlast.1) hlast.2
        (fun hin => hall (allHit_append.mp hin).1)

theorem outcome_state (htype : elementType ≠ 0)
    (h : ∀ d ∈ stream, IsDatum catalog (catalog.typlen elementType) d) :
    Outcome catalog md5 elementType stream (fmsketchState catalog md5 elementType stream) := by
  induction stream using List.reverseRecOn with
  | nil => exact .empty
  | append_singleton stream d ih =>
      have hprefix := ih (fun v hv => h v (List.mem_append_left _ hv))
      have hd := h d (List.mem_append_right _ (List.mem_singleton_self d))
      have hrun : fmsketchState catalog md5 elementType (stream ++ [d]) =
          (fmsketchState catalog md5 elementType stream >>= fun blob =>
            fmsketchTrans catalog md5 elementType blob d) := by
        unfold fmsketchState
        simp only [List.foldlM_append, List.foldlM_cons, List.foldlM_nil, bind_pure]
      rw [hrun]
      exact outcome_step htype hd hprefix

theorem fmsketchState_big (htype : elementType ≠ 0)
    (h : ∀ d ∈ stream, IsDatum catalog (catalog.typlen elementType) d) (hfits : Fits stream)
    (hcount : minvals ≤ distinctCount stream.dropLast) (hall : AllHit md5 stream) :
    fmsketchState catalog md5 elementType stream =
      .ok (some (.big (fmInfo catalog elementType) (orHits md5 zeroBitmaps stream))) := by
  have hout : Outcome catalog md5 elementType stream _ := outcome_state htype h
  generalize fmsketchState catalog md5 elementType stream = r at hout
  cases hout with
  | empty => exact absurd hcount (by decide)
  | tooLarge hnot => exact absurd hfits hnot
  | small _ _ hlt _ => omega
  | big _ _ _ => rfl
  | noBit _ _ hnot => exact absurd hall hnot

/-! ## What is observed -/

def fmsketchObserved (catalog : Catalog) (md5 : Md5) (elementType : Nat)
    (stream : List (List UInt8)) : Except Fault FmObserved :=
  (fmsketchState catalog md5 elementType stream).map observe

instance (stream : List (List UInt8)) : Decidable (Fits stream) :=
  inferInstanceAs (Decidable (_ = true))

def bigObserved (md5 : Md5) (stream : List (List UInt8)) : Except Fault FmObserved :=
  if AllHit md5 stream then .ok (.big (orHits md5 zeroBitmaps stream)) else .error noBit

def smallObserved (stream : List (List UInt8)) : Except Fault FmObserved :=
  if stream = [] then .ok .empty else .ok (.small (distinctCount stream))

/-- The observed state, computed from the stream as a whole. -/
def streamObserved (md5 : Md5) (stream : List (List UInt8)) : Except Fault FmObserved :=
  if ¬ Fits stream then .error tooLarge
  else if minvals ≤ distinctCount stream.dropLast then bigObserved md5 stream
  else smallObserved stream

theorem bigObserved_congr {a b : List (List UInt8)} (h : ∀ d, d ∈ a ↔ d ∈ b) :
    bigObserved md5 a = bigObserved md5 b := by
  have hall : AllHit md5 a ↔ AllHit md5 b := by
    unfold AllHit
    simp only [h]
  unfold bigObserved
  simp only [hall, orHits_congr h]

theorem smallObserved_congr {a b : List (List UInt8)} (h : ∀ d, d ∈ a ↔ d ∈ b) :
    smallObserved a = smallObserved b := by
  have hnil : a = [] ↔ b = [] := by
    rw [List.eq_nil_iff_forall_not_mem, List.eq_nil_iff_forall_not_mem]
    simp only [h]
  unfold smallObserved
  simp only [hnil, distinctCount_congr h]

theorem bigObserved_ne (md5 : Md5) (stream : List (List UInt8)) :
    bigObserved md5 stream ≠ .error tooLarge ∧
      ∀ other, bigObserved md5 stream ≠ smallObserved other := by
  unfold bigObserved smallObserved
  constructor
  · split
    · nofun
    · exact fun h => absurd (Except.error.inj h) (by decide)
  · intro other
    split <;> split <;> nofun

theorem smallObserved_ne (stream : List (List UInt8)) :
    smallObserved stream ≠ .error tooLarge := by
  unfold smallObserved
  split <;> nofun

theorem fmsketchObserved_eq (htype : elementType ≠ 0)
    (h : ∀ d ∈ stream, IsDatum catalog (catalog.typlen elementType) d) :
    fmsketchObserved catalog md5 elementType stream = streamObserved md5 stream := by
  have hout : Outcome catalog md5 elementType stream _ := outcome_state htype h
  unfold fmsketchObserved streamObserved
  generalize fmsketchState catalog md5 elementType stream = r at hout
  cases hout with
  | empty => rfl
  | tooLarge hfits => rw [if_pos hfits]; rfl
  | small hne hfits hcount hsmall =>
      rw [if_neg (not_not.mpr hfits), if_neg (by omega), smallObserved, if_neg hne,
        ← hsmall.numVals]
      rfl
  | big hfits hcount hall =>
      rw [if_neg (not_not.mpr hfits), if_pos hcount, bigObserved, if_pos hall]
      rfl
  | noBit hfits hcount hall =>
      rw [if_neg (not_not.mpr hfits), if_pos hcount, bigObserved, if_neg hall]
      rfl

/-- The state is big after more than `MINVALS` distinct datums, and after exactly `MINVALS`
of them if the last datum is a repeated one. -/
theorem minvals_le_dropLast : minvals ≤ distinctCount stream.dropLast ↔
    minvals < distinctCount stream ∨ distinctCount stream = minvals ∧ LastRepeated stream := by
  by_cases hne : stream = []
  · subst hne
    simp [distinctCount, firstSeen, minvals]
  · rcases distinctCount_dropLast hne with ⟨heq, hlast⟩ | ⟨heq, hlast⟩ <;>
      simp only [hlast, and_true, and_false, or_false] <;> omega

/-- Two streams of the same datums end in the same observed state exactly if storage runs out
for both or for none, and not one of them alone goes on after its `MINVALS`th and last
distinct datum. -/
theorem fmsketchObserved_congr_iff (htype : elementType ≠ 0) {a b : List (List UInt8)}
    (ha : ∀ d ∈ a, IsDatum catalog (catalog.typlen elementType) d)
    (hset : ∀ d, d ∈ a ↔ d ∈ b) :
    fmsketchObserved catalog md5 elementType a = fmsketchObserved catalog md5 elementType b ↔
      (Fits a ↔ Fits b) ∧
        (Fits a → distinctCount a = minvals → (LastRepeated a ↔ LastRepeated b)) := by
  have hcount := distinctCount_congr hset
  have hpa : minvals ≤ distinctCount a.dropLast ↔
      minvals < distinctCount a ∨ distinctCount a = minvals ∧ LastRepeated a :=
    minvals_le_dropLast
  have hpb : minvals ≤ distinctCount b.dropLast ↔
      minvals < distinctCount b ∨ distinctCount b = minvals ∧ LastRepeated b :=
    minvals_le_dropLast
  have ⟨hbig, hbigSmall⟩ := bigObserved_ne md5 a
  have hsmall := smallObserved_ne a
  rw [← hcount] at hpb
  rw [fmsketchObserved_eq htype ha, fmsketchObserved_eq htype (fun d hd => ha d ((hset d).mpr hd))]
  unfold streamObserved
  rw [← bigObserved_congr hset, ← smallObserved_congr hset]
  generalize bigObserved md5 a = big at *
  generalize hs : smallObserved a = small at *
  by_cases hfa : Fits a <;> by_cases hfb : Fits b
  · rw [if_neg (not_not.mpr hfa), if_neg (not_not.mpr hfb)]
    have hsame : ((if minvals ≤ distinctCount a.dropLast then big else small) =
        if minvals ≤ distinctCount b.dropLast then big else small) ↔
          (minvals ≤ distinctCount a.dropLast ↔ minvals ≤ distinctCount b.dropLast) := by
      have hne : big ≠ small := hs ▸ hbigSmall a
      by_cases ha' : minvals ≤ distinctCount a.dropLast <;>
        by_cases hb' : minvals ≤ distinctCount b.dropLast <;> simp [ha', hb', hne, hne.symm]
    rw [hsame, hpa, hpb]
    simp only [hfa, hfb, true_and, forall_const]
    constructor
    · intro h heq
      simpa [heq] using h
    · intro h
      by_cases heq : distinctCount a = minvals
      · simp [heq, h heq]
      · simp [heq]
  · rw [if_neg (not_not.mpr hfa), if_pos hfb]
    refine iff_of_false (fun h => ?_) (fun h => hfb (h.1.mp hfa))
    split at h
    · exact hbig h
    · exact hsmall h
  · rw [if_pos hfa, if_neg (not_not.mpr hfb)]
    refine iff_of_false (fun h => ?_) (fun h => hfa (h.1.mpr hfb))
    split at h
    · exact hbig h.symm
    · exact hsmall h.symm
  · rw [if_pos hfa, if_pos hfb]
    exact iff_of_true rfl ⟨iff_of_false hfa hfb, fun h => absurd h hfa⟩

/-- Storage does not run out for datums of up to 29000 bytes. -/
theorem fits_of_length_le (h : ∀ d ∈ stream, d.length ≤ 29000) : Fits stream := by
  have hsum : (((firstSeen stream).take minvals).map List.length).sum ≤ minvals * 29000 := by
    have hle := List.sum_le_card_nsmul (((firstSeen stream).take minvals).map List.length) 29000
      (by
        intro n hn
        have ⟨d, hd, heq⟩ := List.mem_map.mp hn
        rw [← heq]
        exact h d (mem_firstSeen.mp (List.mem_of_mem_take hd)))
    rw [List.length_map, List.length_take, Nat.nsmul_eq_mul] at hle
    exact hle.trans (Nat.mul_le_mul_right _ (Nat.min_le_left _ _))
  have hmax : blobSize (8 * minvals + 3 * (minvals * 29000)) ≤ maxAllocSize := by decide
  have hsmall : blobSize (8 * minvals +
      3 * (((firstSeen stream).take minvals).map List.length).sum) ≤ maxAllocSize := by
    refine le_trans ?_ hmax
    unfold blobSize
    gcongr
  have ⟨size, hsize, _⟩ := storageAfter_isSome hsmall
  unfold Fits
  rw [hsize]
  exact Option.isSome_some

/-- A catalog where every type has eight bytes. -/
def int8Catalog : Catalog where
  typlen _ := 8
  typbyval _ := true
  typOutput _ := 0
  varsizeAny _ := none
  varsizeAny_append _ _ h := by cases h

theorem int8_isDatum (h : d.length = 8) : IsDatum int8Catalog (int8Catalog.typlen 20) d :=
  .inl ⟨by decide, by rw [h]; rfl⟩

theorem fmsketchObserved_congr_two :
    fmsketchObserved int8Catalog (fun _ _ => 1) 20 [int64Bytes 1, int64Bytes 2, int64Bytes 1] =
      fmsketchObserved int8Catalog (fun _ _ => 1) 20 [int64Bytes 2, int64Bytes 1] := by
  have hdatum : ∀ d ∈ [int64Bytes 1, int64Bytes 2, int64Bytes 1],
      IsDatum int8Catalog (int8Catalog.typlen 20) d := by
    simp [int8_isDatum, int64Bytes]
  refine (fmsketchObserved_congr_iff (by decide) hdatum ?_).mpr
    ⟨iff_of_true (fits_of_length_le (by decide)) (fits_of_length_le (by decide)), ?_⟩
  · intro d
    simp [or_comm]
  · intro _ hcount
    exact absurd hcount (by decide)

/-- `MINVALS` distinct numbers. -/
def minvalsNumbers : List (List UInt8) := (List.range minvals).map fun n : Nat => int64Bytes n

theorem nodup_minvalsNumbers : minvalsNumbers.Nodup := by
  unfold minvalsNumbers
  refine List.Nodup.map_on (fun x hx y hy heq => ?_) List.nodup_range
  rw [List.mem_range] at hx hy
  have hof := congrArg ofLeBytes heq
  unfold int64Bytes at hof
  rw [ofLeBytes_leBytes, ofLeBytes_leBytes] at hof
  unfold minvals at hx hy
  omega

theorem length_of_mem_minvalsNumbers (h : d ∈ minvalsNumbers) : d.length = 8 := by
  have ⟨n, _, heq⟩ := List.mem_map.mp h
  rw [← heq]
  exact length_leBytes 8 _

theorem distinctCount_minvalsNumbers : distinctCount minvalsNumbers = minvals := by
  unfold distinctCount firstSeen
  rw [(List.nodup_reverse.mpr nodup_minvalsNumbers).dedup, List.reverse_reverse, minvalsNumbers,
    List.length_map, List.length_range]

/-- The numbers are counted exactly, but not once the first of them is repeated. -/
theorem fmsketchObserved_minvals_repeated :
    (∀ d ∈ minvalsNumbers, IsDatum int8Catalog (int8Catalog.typlen 20) d) ∧
      (∀ d, d ∈ minvalsNumbers ↔ d ∈ minvalsNumbers ++ [int64Bytes 0]) ∧
      fmsketchObserved int8Catalog (fun _ _ => 1) 20 minvalsNumbers ≠
        fmsketchObserved int8Catalog (fun _ _ => 1) 20 (minvalsNumbers ++ [int64Bytes 0]) := by
  have hzero : int64Bytes 0 ∈ minvalsNumbers := by
    unfold minvalsNumbers
    rw [List.mem_map]
    exact ⟨0, by rw [List.mem_range, minvals]; omega, rfl⟩
  have hset : ∀ d, d ∈ minvalsNumbers ↔ d ∈ minvalsNumbers ++ [int64Bytes 0] := by
    intro d
    rw [List.mem_append, List.mem_singleton]
    exact ⟨.inl, fun h => h.elim id fun heq => heq ▸ hzero⟩
  have hdatum : ∀ d ∈ minvalsNumbers, IsDatum int8Catalog (int8Catalog.typlen 20) d :=
    fun d hd => int8_isDatum (length_of_mem_minvalsNumbers hd)
  refine ⟨hdatum, hset, fun heq => ?_⟩
  have ⟨_, hrepeat⟩ := (fmsketchObserved_congr_iff (by decide) hdatum hset).mp heq
  have hfits : Fits minvalsNumbers := fits_of_length_le fun d hd => by
    rw [length_of_mem_minvalsNumbers hd]
    decide
  have hlast : LastRepeated (minvalsNumbers ++ [int64Bytes 0]) :=
    ⟨int64Bytes 0, by rw [List.getLast?_concat]; rfl, by rwa [List.dropLast_concat]⟩
  have ⟨d, hd, hin⟩ := (hrepeat hfits distinctCount_minvalsNumbers).mpr hlast
  have happend := List.dropLast_append_getLast? d hd
  have hnodup := nodup_minvalsNumbers
  rw [← happend, List.nodup_append] at hnodup
  exact hnodup.2.2 d hin d (List.mem_singleton_self d) rfl

end Madlib.Sketch
