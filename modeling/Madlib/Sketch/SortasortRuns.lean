import Mathlib
import Madlib.Sketch.FmDistinct

/-!
# Runs of a sortasort

What the calls of `sortasort_try_insert` leave behind, whatever they return, when all
datums have the length of the type.  The storage is part of a block of the backend, whose
size has 30 bits, so that the 32 bits of `storage_cur` are enough for any sum it enters.
-/

namespace Madlib.Sketch

open Madlib.Backend Madlib.Lib.MachineInt

/-- The calls of `sortasort_try_insert` one after the other, with what each of them returns. -/
def tryInsertAll (catalog : Catalog) (s : Sortasort) :
    List (List UInt8) → Except Fault (Sortasort × List Int)
  | [] => .ok (s, [])
  | dat :: dats => do
      let (s, success) ← sortasortTryInsert catalog s dat s.typLen
      let (s, successes) ← tryInsertAll catalog s dats
      pure (s, success :: successes)

/-- The value behind a pointer to a datum of a fixed-length type. -/
def datumValue (typLen : Int) (dat : List UInt8) : List UInt8 := dat.take typLen.toNat

/-- The values of the calls that returned `TRUE`. -/
def insertedValues (typLen : Int) : List (List UInt8) → List Int → List (List UInt8)
  | dat :: dats, success :: successes =>
      if success = 1 then datumValue typLen dat :: insertedValues typLen dats successes
      else insertedValues typLen dats successes
  | _, _ => []

/-- The sortasort is the set of the inserted values. -/
structure IsSetOf (catalog : Catalog) (s : Sortasort) (inserted : List (List UInt8)) : Prop where
  once : (values catalog s).Nodup
  mem : ∀ d, d ∈ values catalog s ↔ d ∈ inserted
  within : s.numVals ≤ s.capacity
  find : ∀ dat : List UInt8, s.typLen ≤ dat.length →
    ∃ found, sortasortFind catalog s dat = .ok found ∧
      (datumValue s.typLen dat ∈ inserted → 0 ≤ found ∧ found < s.numVals ∧
        (values catalog s)[found.toNat]? = some (datumValue s.typLen dat)) ∧
      (datumValue s.typLen dat ∉ inserted → found = -1)
  sorted : ∀ i j : Nat, i < j → j < s.numVals / sortaSlop * sortaSlop →
    ∃ x y c, getval s i = .ok x ∧ getval s j = .ok y ∧
      memcmp x y s.typLen.toNat = .ok c ∧ c < 0
  below : ∀ offset ∈ s.dir, offset + s.typLen.toNat ≤ s.storageCur
  disjoint : s.dir.Pairwise fun first second =>
    first + s.typLen.toNat ≤ second ∨ second + s.typLen.toNat ≤ first
  room : s.storageCur < s.storageSz

/-! ## One call -/

variable {catalog : Catalog} {s s' : Sortasort} {dat d : List UInt8} {typLen : Int}

theorem qsortInsert_perm {α : Type} {cmp : α → α → Except Fault Int} {a : α} {l out : List α}
    (h : qsortInsert cmp a l = .ok out) : out.Perm (a :: l) := by
  induction l generalizing out with
  | nil =>
      injection h with h
      rw [← h]
  | cons b l ih =>
      rw [qsortInsert] at h
      obtain ⟨c, _, h⟩ := bind_eq_ok.mp h
      split_ifs at h
      · injection h with h
        rw [← h]
      · obtain ⟨rest, hrest, h⟩ := bind_eq_ok.mp h
        injection h with h
        rw [← h]
        exact ((ih hrest).cons b).trans (List.Perm.swap a b l)

theorem qsortArg_perm {α : Type} {cmp : α → α → Except Fault Int} {l out : List α}
    (h : qsortArg cmp l = .ok out) : out.Perm l := by
  induction l generalizing out with
  | nil =>
      injection h with h
      rw [← h]
  | cons a l ih =>
      rw [qsortArg] at h
      obtain ⟨rest, hrest, h⟩ := bind_eq_ok.mp h
      exact (qsortInsert_perm h).trans ((ih hrest).cons a)

/-- The new datum lies behind the others, and its offset is somewhere in the directory. -/
theorem storeDatum_dir (h : storeDatum catalog s d = .ok s') :
    s'.dir.Perm (s.dir ++ [s.storageCur]) := by
  unfold storeDatum at h
  dsimp only at h
  split_ifs at h
  · have ⟨dir, hdir, h⟩ := bind_eq_ok.mp h
    injection h with h
    rw [← h]
    exact qsortArg_perm hdir
  · injection h with h
    rw [← h]

/-- What a call may do. -/
theorem sortasortTryInsert_cases (h : WellFormed catalog s) (hd : IsDatum catalog s.typLen d)
    (rest : List UInt8) :
    ∃ s' success, sortasortTryInsert catalog s (d ++ rest) s.typLen = .ok (s', success) ∧
      ((d ∈ values catalog s ∧ success = 1 ∧ s' = s) ∨
        (d ∉ values catalog s ∧ success = 0 ∧ s' = s ∧ s.storageSz ≤ s.storageCur + d.length) ∨
        (d ∉ values catalog s ∧ success = -1 ∧ s' = s ∧ s.capacity ≤ s.numVals) ∨
        (d ∉ values catalog s ∧ success = 1 ∧ s.numVals < s.capacity ∧
          s.storageCur + d.length < s.storageSz ∧ storeDatum catalog s d = .ok s')) := by
  have ⟨found, hfound, hspec⟩ := sortasortFind_spec h hd rest
  unfold sortasortTryInsert
  rw [hfound, ok_bind]
  rcases hspec with ⟨hlo, hhi, hat⟩ | ⟨hneg, hnew⟩
  · exact ⟨s, 1, by rw [if_pos ⟨hlo, hhi⟩]; rfl, .inl ⟨List.mem_of_getElem? hat, rfl, rfl⟩⟩
  · rw [if_neg (by omega), extractDatumLen_append hd, ok_bind, if_neg (by omega)]
    by_cases hroom : s.storageSz ≤ s.storageCur + d.length
    · exact ⟨s, 0, by rw [if_pos hroom]; rfl, .inr (.inl ⟨hnew, rfl, rfl, hroom⟩)⟩
    · rw [if_neg hroom]
      by_cases hcap : s.capacity ≤ s.numVals
      · exact ⟨s, -1, by rw [if_pos hcap]; rfl, .inr (.inr (.inl ⟨hnew, rfl, rfl, hcap⟩))⟩
      · have ⟨s', hstore, _⟩ := storeDatum_spec h hd hnew (by omega)
        refine ⟨s', 1, ?_, .inr (.inr (.inr ⟨hnew, rfl, by omega, by omega, hstore⟩))⟩
        rw [if_neg hcap, readBytes_append, ok_bind, hstore]
        rfl

/-! ## Whole runs -/

/-- A sortasort of a fixed-length type: the datums lie next to each other in the storage. -/
structure FixedLength (catalog : Catalog) (typLen : Int) (s : Sortasort) : Prop where
  wellFormed : WellFormed catalog s
  typLen_eq : s.typLen = typLen
  within : s.numVals ≤ s.capacity
  offsets : s.dir.Perm ((List.range s.numVals).map (· * typLen.toNat))
  cur : s.storageCur = s.numVals * typLen.toNat

theorem datumValue_append_drop (typLen : Int) (dat : List UInt8) :
    datumValue typLen dat ++ dat.drop typLen.toNat = dat := List.take_append_drop _ _

theorem FixedLength.datum (h : FixedLength catalog typLen s) (htyp : 0 < typLen)
    (hdat : typLen ≤ dat.length) : IsDatum catalog s.typLen (datumValue typLen dat) := by
  refine .inl ⟨h.typLen_eq ▸ htyp, ?_⟩
  rw [datumValue, List.length_take, h.typLen_eq]
  omega

theorem FixedLength.store (h : FixedLength catalog typLen s) (hd : IsDatum catalog s.typLen d)
    (hlen : d.length = typLen.toNat) (hnew : d ∉ values catalog s)
    (hcap : s.numVals < s.capacity) (hroom : s.storageCur + d.length < s.storageSz)
    (hstore : storeDatum catalog s d = .ok s') :
    FixedLength catalog typLen s' ∧ (values catalog s').Perm (d :: values catalog s) := by
  have ⟨s₁, hstore₁, hwf, hperm, htyp, hcapacity, _, hcur⟩ :=
    storeDatum_spec h.wellFormed hd hnew hroom
  obtain rfl : s' = s₁ := Except.ok.inj (hstore.symm.trans hstore₁)
  have hnum : s'.numVals = s.numVals + 1 := by
    rw [← length_values catalog, hperm.length_eq, List.length_cons, length_values]
  refine ⟨⟨hwf, htyp.trans h.typLen_eq, by omega, ?_, ?_⟩, hperm⟩
  · rw [hnum, List.range_succ, List.map_append, List.map_singleton, ← h.cur]
    exact (storeDatum_dir hstore).trans (h.offsets.append_right _)
  · rw [hcur, h.cur, hnum, hlen, Nat.add_mul, Nat.one_mul]

/-- What the invariant says of the set. -/
theorem FixedLength.isSetOf (h : FixedLength catalog typLen s) (htyp : 0 < typLen)
    {inserted : List (List UInt8)} (hmem : ∀ d, d ∈ values catalog s ↔ d ∈ inserted) :
    IsSetOf catalog s inserted := by
  have hwf := h.wellFormed
  constructor
  case once => exact hwf.distinct
  case mem => exact hmem
  case within => exact h.within
  case room => exact hwf.room
  case find =>
      intro dat hdat
      rw [h.typLen_eq] at hdat ⊢
      have ⟨found, hfound, hspec⟩ :=
        sortasortFind_spec hwf (h.datum htyp hdat) (dat.drop typLen.toNat)
      rw [datumValue_append_drop] at hfound
      refine ⟨found, hfound, fun hin => ?_, fun hout => ?_⟩
      · rcases hspec with hspec | ⟨_, hnot⟩
        · exact hspec
        · exact absurd ((hmem _).mpr hin) hnot
      · rcases hspec with ⟨_, _, hat⟩ | ⟨hneg, _⟩
        · exact absurd ((hmem _).mp (List.mem_of_getElem? hat)) hout
        · exact hneg
  case sorted =>
      intro i j hij hj
      have hhi : s.numVals / sortaSlop * sortaSlop ≤ s.numVals := Nat.div_mul_le_self _ _
      have hnum := length_values catalog s
      have hiv : i < (values catalog s).length := by omega
      have hjv : j < (values catalog s).length := by omega
      have ⟨hx, restx, hgetx⟩ := getval_ok hwf hiv
      have ⟨hy, resty, hgety⟩ := getval_ok hwf hjv
      have hlt : (values catalog s)[i] < (values catalog s)[j] := by
        have hpair := List.pairwise_iff_getElem.mp hwf.sorted i j
          (by rw [List.length_take]; omega) (by rw [List.length_take]; omega) hij
        rwa [List.getElem_take, List.getElem_take] at hpair
      have hlen : s.typLen.toNat = (values catalog s)[i].length := by
        rcases hx with ⟨_, hx⟩ | ⟨hvar, _⟩
        · omega
        · rw [h.typLen_eq] at hvar
          omega
      have ⟨c, hc, _, hneg⟩ := memcmp_spec (hx.prefixFree hy) (.inl hlen) restx resty
      exact ⟨_, _, c, hgetx, hgety, hc, hneg.mpr hlt⟩
  case below =>
      intro offset hoffset
      have ⟨k, hk, hoffset⟩ := List.mem_map.mp (h.offsets.mem_iff.mp hoffset)
      rw [h.cur, h.typLen_eq, ← hoffset, ← Nat.succ_mul]
      exact Nat.mul_le_mul_right _ (List.mem_range.mp hk)
  case disjoint =>
      rw [h.typLen_eq]
      refine (h.offsets.pairwise_iff fun hxy => hxy.symm).mpr ?_
      rw [List.pairwise_map]
      refine List.pairwise_lt_range.imp fun hlt => .inl ?_
      rw [← Nat.succ_mul]
      exact Nat.mul_le_mul_right _ hlt

/-- One call keeps the invariant and adds its value if it returns `TRUE`. -/
theorem FixedLength.tryInsert (h : FixedLength catalog typLen s) (htyp : 0 < typLen)
    (hdat : typLen ≤ dat.length) :
    ∃ s' success, sortasortTryInsert catalog s dat s.typLen = .ok (s', success) ∧
      FixedLength catalog typLen s' ∧
      (success = 1 → ∀ d, d ∈ values catalog s' ↔
        d = datumValue typLen dat ∨ d ∈ values catalog s) ∧
      (success ≠ 1 → s' = s) ∧
      (success = 1 ∨ (success = 0 ∧ s.storageSz ≤ s.storageCur + typLen) ∨
        (success = -1 ∧ s.numVals = s.capacity)) := by
  have hd := h.datum htyp hdat
  have hlen : (datumValue typLen dat).length = typLen.toNat := by
    rw [datumValue, List.length_take]
    omega
  have ⟨s', success, hcall, hcases⟩ :=
    sortasortTryInsert_cases h.wellFormed hd (dat.drop typLen.toNat)
  rw [datumValue_append_drop] at hcall
  refine ⟨s', success, hcall, ?_⟩
  have hwithin := h.within
  rcases hcases with ⟨hin, hsucc, rfl⟩ | ⟨_, hsucc, rfl, hfull⟩ | ⟨_, hsucc, rfl, hcap⟩ |
    ⟨hnew, hsucc, hcap, hroom, hstore⟩
  · refine ⟨h, fun _ d => ⟨.inr, ?_⟩, fun _ => rfl, .inl hsucc⟩
    rintro (rfl | hmem)
    · exact hin
    · exact hmem
  · exact ⟨h, fun hone => by omega, fun _ => rfl, .inr (.inl ⟨hsucc, by omega⟩)⟩
  · exact ⟨h, fun hone => by omega, fun _ => rfl, .inr (.inr ⟨hsucc, by omega⟩)⟩
  · have ⟨hfixed, hperm⟩ := h.store hd hlen hnew hcap hroom hstore
    refine ⟨hfixed, fun _ d => ?_, fun hone => absurd hsucc hone, .inl hsucc⟩
    rw [hperm.mem_iff, List.mem_cons]

theorem FixedLength.tryInsertAll (htyp : 0 < typLen) {dats : List (List UInt8)}
    (hdats : ∀ dat ∈ dats, typLen ≤ dat.length) (h : FixedLength catalog typLen s) :
    ∃ s' successes, tryInsertAll catalog s dats = .ok (s', successes) ∧
      successes.length = dats.length ∧ FixedLength catalog typLen s' ∧
      ∀ d, d ∈ values catalog s' ↔
        d ∈ values catalog s ∨ d ∈ insertedValues typLen dats successes := by
  induction dats generalizing s with
  | nil => exact ⟨s, [], rfl, rfl, h, fun d => by simp [insertedValues]⟩
  | cons dat dats ih =>
      have ⟨s₁, success, hcall, h₁, hone, hother, _⟩ :=
        h.tryInsert htyp (hdats dat List.mem_cons_self)
      have ⟨s', successes, hrun, hlen, h', hmem⟩ :=
        ih (fun dat hdat => hdats dat (List.mem_cons_of_mem _ hdat)) h₁
      refine ⟨s', success :: successes, ?_, congrArg Nat.succ hlen, h', fun d => ?_⟩
      · rw [Sketch.tryInsertAll, hcall, ok_bind]
        dsimp only
        rw [hrun]
        rfl
      · rw [hmem, insertedValues]
        by_cases hsucc : success = 1
        · rw [if_pos hsucc, hone hsucc, List.mem_cons]
          tauto
        · rw [if_neg hsucc, hother hsucc]

/-- Whatever is inserted, and whether there is room for it or not, the sortasort is the set
of the values it accepted; the next call accepts its value or changes nothing. -/
theorem tryInsertAll_isSetOf (catalog : Catalog) {typLen : Int} (htyp : 0 < typLen)
    {capacity ssz : Nat} {typByVal : Bool} {s₀ : Sortasort}
    (hinit : sortasortInit capacity ssz typLen typByVal = .ok s₀) {dats : List (List UInt8)}
    (hdats : ∀ dat ∈ dats, typLen ≤ dat.length) :
    ∃ s successes, tryInsertAll catalog s₀ dats = .ok (s, successes) ∧
      successes.length = dats.length ∧ s.typLen = typLen ∧
      IsSetOf catalog s (insertedValues typLen dats successes) ∧
      ∀ dat : List UInt8, typLen ≤ dat.length →
        ∃ s' success, sortasortTryInsert catalog s dat s.typLen = .ok (s', success) ∧
          (success = 1 ∨ (success = 0 ∧ s' = s ∧ s.storageSz ≤ s.storageCur + typLen) ∨
            (success = -1 ∧ s' = s ∧ s.numVals = s.capacity)) := by
  have hfits : capacity * 4 < ssz - sizeofSortasort := by
    unfold sortasortInit at hinit
    split_ifs at hinit
    omega
  have ⟨s₁, hinit₁, hwf, hnil, htypLen, _, _, hcur⟩ :=
    sortasortInit_wellFormed catalog typLen typByVal hfits
  obtain rfl : s₀ = s₁ := Except.ok.inj (hinit.symm.trans hinit₁)
  have hdir : s₀.dir = [] := List.map_eq_nil_iff.mp hnil
  have hnum : s₀.numVals = 0 := congrArg List.length hdir
  have hstart : FixedLength catalog typLen s₀ := by
    refine ⟨hwf, htypLen, by omega, ?_, by rw [hcur, hnum, Nat.zero_mul]⟩
    rw [hdir, hnum]
    exact List.Perm.nil
  have ⟨s, successes, hrun, hlen, hfixed, hmem⟩ := FixedLength.tryInsertAll htyp hdats hstart
  refine ⟨s, successes, hrun, hlen, hfixed.typLen_eq, hfixed.isSetOf htyp fun d => ?_,
    fun dat hdat => ?_⟩
  · rw [hmem, hnil]
    simp
  · have ⟨s', success, hcall, _, _, hother, hcases⟩ := hfixed.tryInsert htyp hdat
    refine ⟨s', success, hcall, ?_⟩
    rcases hcases with hone | ⟨hzero, hfull⟩ | ⟨hneg, hcap⟩
    · exact .inl hone
    · exact .inr (.inl ⟨hzero, hother (by omega), hfull⟩)
    · exact .inr (.inr ⟨hneg, hother (by omega), hcap⟩)

theorem tryInsertAll_isSetOf_three : ∃ s successes,
    tryInsertAll int8Catalog ⟨2, 20, 8, true, [], []⟩
        [int64Bytes 5, int64Bytes 3, int64Bytes 5] = .ok (s, successes) ∧
      IsSetOf int8Catalog s
        (insertedValues 8 [int64Bytes 5, int64Bytes 3, int64Bytes 5] successes) := by
  have ⟨s, successes, hrun, _, _, hset, _⟩ := @tryInsertAll_isSetOf int8Catalog 8 (by decide)
    2 76 true _ rfl [int64Bytes 5, int64Bytes 3, int64Bytes 5] (by decide)
  exact ⟨s, successes, hrun, hset⟩

end Madlib.Sketch
