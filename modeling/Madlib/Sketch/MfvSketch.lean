import Madlib.Sketch.Datum

/-!
# Most frequent values

A transition value holds one CountMin sketch and an array of offsets and counts.  The values
themselves lie behind the array, and an offset counts from the top of the structure.  A value is
appended behind the ones that are there, in a larger copy of the structure where it does not fit.
-/

namespace Madlib.Sketch

open Madlib.Backend Madlib.Lib.MachineInt

structure OffsetCnt where
  offset : Nat
  cnt : UInt64
  deriving DecidableEq, Repr

/-- `mfvtransval`; `space` are the bytes behind the array, where the values are stored. -/
@[ext] structure MfvTransval where
  maxMfvs : Nat
  nextMfv : Nat
  nextOffset : Nat
  typOid : Nat
  typLen : Int
  typByVal : Bool
  outFuncOid : Nat
  sketch : Countmin
  mfvs : List OffsetCnt
  space : List UInt8

/-- `MFV_TRANSVAL_SZ`: four bytes of length word, 65568 of `mfvtransval`, 16 for each entry. -/
def mfvTransvalSz (i : Nat) : Nat := 65572 + 16 * i

/-- `VARSIZE` -/
def MfvTransval.varsize (tv : MfvTransval) : Nat := mfvTransvalSz tv.maxMfvs + tv.space.length

/-- The least offset a value can have. -/
def MfvTransval.valuesStart (tv : MfvTransval) : Nat := mfvTransvalSz tv.maxMfvs - 4

/-- `MFV_TRANSVAL_CAPACITY` -/
def MfvTransval.capacity (tv : MfvTransval) : Nat :=
  uint32 ((tv.varsize : Int) - 4 - tv.nextOffset)

def MfvTransval.setOffset (tv : MfvTransval) (i offset : Nat) : MfvTransval :=
  { tv with mfvs := tv.mfvs.modify i fun entry => { entry with offset } }

def MfvTransval.setCnt (tv : MfvTransval) (i : Nat) (cnt : UInt64) : MfvTransval :=
  { tv with mfvs := tv.mfvs.modify i fun entry => { entry with cnt } }

/-- A fixed length goes into the estimate twice. -/
def mfvInitialSize (typlen maxMfvs : Int) : Int :=
  if 0 < typlen then toInt32 (typlen * toInt32 (maxMfvs * typlen)) else toInt32 (maxMfvs * 16)

/-- What `mfv_init_transval` asks `palloc0` for. -/
def mfvInitialVarsize (catalog : Catalog) (maxMfvs : Int) (typOid : Nat) : Nat :=
  sizeT (65572 + 16 * maxMfvs + mfvInitialSize (catalog.typlen typOid) maxMfvs)

/-- The transition value without values in `size` zeroed bytes. -/
def mfvEmpty (catalog : Catalog) (maxMfvs typOid size : Nat) : MfvTransval :=
  { maxMfvs
    nextMfv := 0
    nextOffset := mfvTransvalSz maxMfvs - 4
    typOid
    typLen := catalog.typlen typOid
    typByVal := catalog.typbyval typOid
    outFuncOid := catalog.typOutput typOid
    sketch := fun _ _ => 0
    mfvs := List.replicate maxMfvs ⟨0, 0⟩
    space := List.replicate (size - mfvTransvalSz maxMfvs) 0 }

@[irreducible] def mfvInitTransval (catalog : Catalog) (maxMfvs : Int) (typOid : Nat) :
    Except Fault MfvTransval := do
  let size := mfvInitialVarsize catalog maxMfvs typOid
  palloc size
  if size < mfvTransvalSz (uint32 maxMfvs) then .error .outOfBounds
  else if catalog.typOutput typOid = 0 then .error (.elog s!"no outFunc for type {typOid}")
  else pure (mfvEmpty catalog (uint32 maxMfvs) typOid size)

/-- The place of value `i` in the space for the values. -/
def mfvTransvalGetval (catalog : Catalog) (tv : MfvTransval) (i : Nat) : Except Fault Nat :=
  match tv.mfvs[i]? with
  | none => .error .outOfBounds
  | some entry =>
      if tv.nextMfv < i then
        .error (.elog s!"attempt to get frequent value at illegal index {i} in mfv sketch")
      else if tv.varsize - 4 < entry.offset ∨ entry.offset < tv.valuesStart then
        .error (.elog s!"illegal offset {entry.offset} in mfv sketch")
      else do
        let pos := entry.offset - tv.valuesStart
        let len ← extractDatumLen catalog (tv.space.drop pos) tv.typLen
        if tv.varsize - 4 < entry.offset + len then
          .error (.elog "value overruns size of mfv sketch")
        else pure pos

/-- `memmove` into the space for the values. -/
def overwrite (space : List UInt8) (pos : Nat) (bytes : List UInt8) :
    Except Fault (List UInt8) :=
  if space.length < pos + bytes.length then .error .outOfBounds
  else .ok (space.take pos ++ (bytes ++ space.drop (pos + bytes.length)))

def mfvCopyDatum (catalog : Catalog) (tv : MfvTransval) (index : Nat) (dat : List UInt8) :
    Except Fault MfvTransval := do
  let datumLen ← extractDatumLen catalog dat tv.typLen
  let curval ← mfvTransvalGetval catalog tv index
  let datp ← readBytes dat datumLen
  let space ← overwrite tv.space curval datp
  pure { tv with space }

/-- A copy with room for a datum and twice the space for the values. -/
def enlargedFor (tv : MfvTransval) (datumLen : Nat) : Except Fault MfvTransval :=
  match tv.mfvs with
  | [] => .error .outOfBounds
  | first :: _ => do
      let curspace := uint32 ((tv.varsize : Int) - first.offset - 4)
      palloc (tv.varsize + curspace + datumLen)
      pure { tv with space := tv.space ++ List.replicate (curspace + datumLen) 0 }

def roomFor (tv : MfvTransval) (datumLen : Nat) : Except Fault MfvTransval :=
  if tv.capacity < datumLen then enlargedFor tv datumLen else .ok tv

def mfvTransvalInsertAt (catalog : Catalog) (tv : MfvTransval) (dat : List UInt8) (i : Nat) :
    Except Fault MfvTransval := do
  let datumLen ← extractDatumLen catalog dat tv.typLen
  if tv.nextMfv < i then
    .error (.elog s!"attempt to insert frequent value at illegal index {i} in mfv sketch")
  else do
    let tv ← roomFor tv datumLen
    let tv ← mfvCopyDatum catalog (tv.setOffset i tv.nextOffset) i dat
    pure { tv with nextOffset := uint32 (tv.nextOffset + datumLen) }

def mfvTransvalAppend (catalog : Catalog) (tv : MfvTransval) (dat : List UInt8) :
    Except Fault MfvTransval :=
  if tv.nextMfv = tv.maxMfvs then .error (.elog "attempt to append to a full mfv sketch")
  else do
    let retval ← mfvTransvalInsertAt catalog tv dat tv.nextMfv
    pure { retval with nextMfv := retval.nextMfv + 1 }

/-! ## The values that are listed -/

/-- The datum an entry stands for. -/
def MfvTransval.valueAt (catalog : Catalog) (tv : MfvTransval) (entry : OffsetCnt) :
    List UInt8 :=
  let bytes := tv.space.drop (entry.offset - tv.valuesStart)
  match extractDatumLen catalog bytes tv.typLen with
  | .ok n => bytes.take n
  | .error _ => []

def MfvTransval.listed (catalog : Catalog) (tv : MfvTransval) : List (List UInt8) :=
  (tv.mfvs.take tv.nextMfv).map (tv.valueAt catalog)

/-- What every transition value has that `mfv_init_transval` began and values were inserted
into. -/
structure MfvValid (catalog : Catalog) (tv : MfvTransval) : Prop where
  began : ∃ fresh, mfvInitTransval catalog tv.maxMfvs tv.typOid = .ok fresh
  typLen_eq : tv.typLen = catalog.typlen tv.typOid
  varsize_le : tv.varsize ≤ maxAllocSize
  length_mfvs : tv.mfvs.length = tv.maxMfvs
  next_le : tv.nextMfv ≤ tv.maxMfvs
  start_le : ∀ entry ∈ tv.mfvs.take tv.nextMfv, tv.valuesStart ≤ entry.offset
  isDatum : ∀ v ∈ tv.listed catalog, IsDatum catalog tv.typLen v

/-- A datum that is found in front of other bytes. -/
theorem take_isDatum {catalog : Catalog} {typLen : Int} {bytes : List UInt8} {n : Nat}
    (hlen : extractDatumLen catalog bytes typLen = .ok n)
    (h : IsDatum catalog typLen (bytes.take n)) : n ≤ bytes.length := by
  have hsize := extractDatumLen_append h (bytes.drop n)
  rw [List.take_append_drop, hlen, List.length_take] at hsize
  have heq := Except.ok.inj hsize
  omega

/-- An entry that stands for a datum is found, with the datum in front of what follows it. -/
theorem getval_eq {catalog : Catalog} {tv : MfvTransval} {i : Nat} {entry : OffsetCnt}
    (hentry : tv.mfvs[i]? = some entry) (hi : i ≤ tv.nextMfv)
    (hstart : tv.valuesStart ≤ entry.offset)
    (hdatum : IsDatum catalog tv.typLen (tv.valueAt catalog entry)) :
    mfvTransvalGetval catalog tv i = .ok (entry.offset - tv.valuesStart) ∧
      ∃ rest, tv.space.drop (entry.offset - tv.valuesStart) = tv.valueAt catalog entry ++ rest := by
  have hpos := hdatum.length_pos
  unfold MfvTransval.valueAt at hdatum hpos ⊢
  dsimp only at hdatum hpos ⊢
  cases hlen : extractDatumLen catalog (tv.space.drop (entry.offset - tv.valuesStart)) tv.typLen with
  | error e =>
      rw [hlen] at hpos
      cases hpos
  | ok n =>
      rw [hlen] at hdatum hpos
      dsimp only at hdatum hpos ⊢
      have hle := take_isDatum hlen hdatum
      rw [List.length_take] at hpos
      rw [List.length_drop] at hle hpos
      have hvarsize : tv.varsize - 4 = tv.valuesStart + tv.space.length := by
        unfold MfvTransval.varsize MfvTransval.valuesStart mfvTransvalSz
        omega
      refine ⟨?_, _, (List.take_append_drop n _).symm⟩
      unfold mfvTransvalGetval
      rw [hentry]
      dsimp only
      rw [if_neg (by omega), if_neg (by omega), hlen, ok_bind, if_neg (by omega)]
      rfl

/-! ## Values one behind the other -/

/-- The offsets of values that are stored one behind the other from `offset` on. -/
def entriesFrom : Nat → List (List UInt8 × UInt64) → List OffsetCnt
  | _, [] => []
  | offset, (v, cnt) :: pairs => ⟨offset, cnt⟩ :: entriesFrom (offset + v.length) pairs

def bytesOf (pairs : List (List UInt8 × UInt64)) : List UInt8 := (pairs.map Prod.fst).flatten

/-- The transition value with the header of `head` that holds these values and counts, with
`free` bytes behind them. -/
def MfvTransval.holding (head : MfvTransval) (pairs : List (List UInt8 × UInt64)) (free : Nat) :
    MfvTransval :=
  { head with
    nextMfv := pairs.length
    nextOffset := head.valuesStart + (bytesOf pairs).length
    mfvs := entriesFrom head.valuesStart pairs ++
      List.replicate (head.maxMfvs - pairs.length) ⟨0, 0⟩
    space := bytesOf pairs ++ List.replicate free 0 }

/-- Datums that fit, in a space that was at most doubled for each that did not. -/
structure MfvHolds (catalog : Catalog) (head : MfvTransval) (pairs : List (List UInt8 × UInt64))
    (free : Nat) : Prop where
  le_max : pairs.length ≤ head.maxMfvs
  isDatum : ∀ p ∈ pairs, IsDatum catalog head.typLen p.1
  varsize_le : (head.holding pairs free).varsize ≤ maxAllocSize
  fresh : pairs = [] → free = head.space.length
  growth : (head.holding pairs free).varsize + 4 ≤ 2 * head.varsize + 3 * (bytesOf pairs).length

/-- `tv` has the header of `head` and holds these values and counts. -/
def MfvBuilt (catalog : Catalog) (head : MfvTransval) (pairs : List (List UInt8 × UInt64))
    (tv : MfvTransval) : Prop :=
  ∃ free, tv = head.holding pairs free ∧ MfvHolds catalog head pairs free

/-- A header of zero bytes stands for the size zero. -/
def ZeroHeader (catalog : Catalog) : Prop :=
  ∀ n, 4 ≤ n → catalog.varsizeAny (List.replicate n 0) = some 0

theorem bytesOf_append (pairs : List (List UInt8 × UInt64)) (v : List UInt8) (cnt : UInt64) :
    bytesOf (pairs ++ [(v, cnt)]) = bytesOf pairs ++ v := by
  simp [bytesOf]

theorem length_entriesFrom (offset : Nat) (pairs : List (List UInt8 × UInt64)) :
    (entriesFrom offset pairs).length = pairs.length := by
  induction pairs generalizing offset with
  | nil => rfl
  | cons p pairs ih => rw [entriesFrom, List.length_cons, ih, List.length_cons]

theorem entriesFrom_append (offset : Nat) (pairs : List (List UInt8 × UInt64)) (v : List UInt8)
    (cnt : UInt64) :
    entriesFrom offset (pairs ++ [(v, cnt)]) =
      entriesFrom offset pairs ++ [⟨offset + (bytesOf pairs).length, cnt⟩] := by
  induction pairs generalizing offset with
  | nil => rfl
  | cons p pairs ih =>
      rw [List.cons_append, entriesFrom, ih, entriesFrom, List.cons_append]
      simp [bytesOf, Nat.add_assoc]

section Holding

variable {catalog : Catalog} {head : MfvTransval} {pairs : List (List UInt8 × UInt64)}
  {free : Nat}

theorem varsize_holding (head : MfvTransval) (pairs : List (List UInt8 × UInt64)) (free : Nat) :
    (head.holding pairs free).varsize =
      mfvTransvalSz head.maxMfvs + ((bytesOf pairs).length + free) := by
  unfold MfvTransval.varsize
  simp [MfvTransval.holding]

theorem valuesStart_add (head : MfvTransval) :
    head.valuesStart + 4 = mfvTransvalSz head.maxMfvs := by
  unfold MfvTransval.valuesStart mfvTransvalSz
  omega

theorem capacity_holding (h : (head.holding pairs free).varsize ≤ maxAllocSize) :
    (head.holding pairs free).capacity = free := by
  have hmax : maxAllocSize = 1073741823 := rfl
  have hstart := valuesStart_add head
  rw [varsize_holding] at h
  have heq : ((head.holding pairs free).varsize : Int) - 4 -
      (head.holding pairs free).nextOffset = free := by
    rw [varsize_holding]
    simp only [MfvTransval.holding]
    omega
  unfold MfvTransval.capacity
  rw [heq, uint32_of_mem (by omega)]

/-- A copy has the space behind the first offset twice. -/
theorem enlargedFor_ends (hsize : (head.holding pairs free).varsize ≤ maxAllocSize)
    {offset curspace : Nat} {cnt : UInt64} {rest : List OffsetCnt}
    (hfirst : (head.holding pairs free).mfvs = ⟨offset, cnt⟩ :: rest)
    (hcur : offset + 4 + curspace = (head.holding pairs free).varsize) (datumLen : Nat) :
    Ends (fun e => e = .elog "invalid memory alloc request size" ∧
        maxAllocSize < (head.holding pairs free).varsize + curspace + datumLen)
      (fun tv => tv = head.holding pairs (free + (curspace + datumLen)) ∧
        tv.varsize ≤ maxAllocSize)
      (enlargedFor (head.holding pairs free) datumLen) := by
  have hmax : maxAllocSize = 1073741823 := rfl
  have hcurspace : uint32 (((head.holding pairs free).varsize : Int) - offset - 4) = curspace := by
    have heq : ((head.holding pairs free).varsize : Int) - offset - 4 = curspace := by omega
    rw [heq, uint32_of_mem (by omega)]
  have hspace : (head.holding pairs free).space ++ List.replicate (curspace + datumLen) 0 =
      bytesOf pairs ++ List.replicate (free + (curspace + datumLen)) 0 := by
    show bytesOf pairs ++ List.replicate free 0 ++ List.replicate (curspace + datumLen) 0 = _
    rw [List.append_assoc, List.replicate_append_replicate]
  unfold enlargedFor
  rw [hfirst]
  dsimp only
  rw [hcurspace, hspace]
  by_cases hlarge : maxAllocSize < (head.holding pairs free).varsize + curspace + datumLen
  · rw [palloc_error hlarge]
    exact ⟨rfl, hlarge⟩
  · rw [palloc_ok (Nat.le_of_not_lt hlarge)]
    refine ⟨?_, ?_⟩
    · rw [← hfirst]
      rfl
    · have hvarsize := varsize_holding head pairs free
      show mfvTransvalSz head.maxMfvs + _ ≤ maxAllocSize
      rw [List.length_append, List.length_replicate]
      omega

/-- What a copy with more room is asked for. -/
theorem roomFor_ends (h : MfvHolds catalog head pairs free) (hlt : pairs.length < head.maxMfvs)
    (datumLen : Nat) :
    Ends (fun e => e = .elog "invalid memory alloc request size" ∧
        maxAllocSize < 2 * head.varsize + 3 * ((bytesOf pairs).length + datumLen))
      (fun tv => ∃ free', datumLen ≤ free' ∧ tv = head.holding pairs free' ∧
        tv.varsize ≤ maxAllocSize ∧
        tv.varsize + 4 ≤ 2 * head.varsize + 3 * ((bytesOf pairs).length + datumLen))
      (roomFor (head.holding pairs free) datumLen) := by
  have hsize := h.varsize_le
  have hgrowth := h.growth
  unfold roomFor
  rw [capacity_holding hsize]
  by_cases hroom : free < datumLen
  · rw [if_pos hroom]
    have hstart := valuesStart_add head
    have hhead : head.varsize = mfvTransvalSz head.maxMfvs + head.space.length := rfl
    have hvarsize := varsize_holding head pairs free
    -- the space that is doubled begins at the first value; before there is one, at the top
    have hfirst : ∃ offset cnt rest curspace,
        (head.holding pairs free).mfvs = ⟨offset, cnt⟩ :: rest ∧
        offset + 4 + curspace = (head.holding pairs free).varsize ∧
        (head.holding pairs free).varsize + curspace + datumLen + 4 ≤
          2 * head.varsize + 3 * ((bytesOf pairs).length + datumLen) := by
      cases pairs with
      | nil =>
          have hfree := h.fresh rfl
          have hreplicate : List.replicate head.maxMfvs (⟨0, 0⟩ : OffsetCnt) =
              ⟨0, 0⟩ :: List.replicate (head.maxMfvs - 1) ⟨0, 0⟩ := by
            have hpos : head.maxMfvs = head.maxMfvs - 1 + 1 := by
              rw [List.length_nil] at hlt
              omega
            rw [hpos, List.replicate_succ]
            rfl
          have hbytes : (bytesOf []).length = 0 := rfl
          refine ⟨0, 0, _, (head.holding [] free).varsize - 4, hreplicate, ?_, ?_⟩
          · omega
          · omega
      | cons p pairs =>
          exact ⟨head.valuesStart, p.2, _, (bytesOf (p :: pairs)).length + free, rfl, by omega,
            by omega⟩
    have ⟨offset, cnt, rest, curspace, hmfvs, hcur, hbound⟩ := hfirst
    have hends := enlargedFor_ends hsize hmfvs hcur datumLen
    cases henlarged : enlargedFor (head.holding pairs free) datumLen with
    | error e =>
        rw [henlarged] at hends
        exact ⟨hends.1, by have hlarge := hends.2; omega⟩
    | ok tv =>
        rw [henlarged] at hends
        have ⟨heq, hle⟩ := hends
        refine ⟨free + (curspace + datumLen), by omega, heq, hle, ?_⟩
        rw [heq, varsize_holding]
        omega
  · rw [if_neg hroom]
    refine ⟨free, Nat.le_of_not_lt hroom, rfl, hsize, ?_⟩
    omega

/-- The length that is found in fresh space stays inside it. -/
theorem extractDatumLen_zeros (hzero : ZeroHeader catalog) {typLen : Int} {v : List UInt8}
    (h : IsDatum catalog typLen v) (hle : v.length ≤ free)
    (hlong : typLen = -1 → 4 ≤ v.length) :
    ∃ n, n ≤ free ∧ extractDatumLen catalog (List.replicate free 0) typLen = .ok n := by
  unfold extractDatumLen
  rcases h with ⟨hpos, hlen⟩ | ⟨hvar, _, _⟩
  · rw [if_pos hpos]
    exact ⟨typLen.toNat, by omega, rfl⟩
  · have hfour := hlong hvar
    rw [if_neg (by omega), if_pos hvar, hzero free (by omega)]
    exact ⟨0, Nat.zero_le _, rfl⟩

theorem overwrite_zeros {pre v : List UInt8} (hle : v.length ≤ free) :
    overwrite (pre ++ List.replicate free 0) pre.length v =
      .ok (pre ++ v ++ List.replicate (free - v.length) 0) := by
  unfold overwrite
  rw [if_neg (by simp; omega), List.take_left, List.drop_append]
  simp

/-- The place of an entry is found, or its length is read from too little fresh space. -/
theorem getval_fresh (hzero : ZeroHeader catalog) {tv : MfvTransval} {v pre : List UInt8} {i : Nat}
    {cnt : UInt64} (hentry : tv.mfvs[i]? = some ⟨tv.valuesStart + pre.length, cnt⟩)
    (hi : i ≤ tv.nextMfv) (hspace : tv.space = pre ++ List.replicate free 0)
    (hv : IsDatum catalog tv.typLen v) (hle : v.length ≤ free) :
    Ends (fun _ => tv.typLen = -1 ∧ v.length < 4) (fun pos => pos = pre.length)
      (mfvTransvalGetval catalog tv i) := by
  have hpos := hv.length_pos
  have hvarsize : tv.varsize - 4 = tv.valuesStart + (pre.length + free) := by
    have hstart := valuesStart_add tv
    unfold MfvTransval.varsize
    rw [hspace, List.length_append, List.length_replicate]
    omega
  have hsub : tv.valuesStart + pre.length - tv.valuesStart = pre.length := by omega
  unfold mfvTransvalGetval
  rw [hentry]
  dsimp only
  rw [if_neg (by omega), if_neg (by omega), hsub, hspace, List.drop_left]
  by_cases hshort : tv.typLen = -1 ∧ v.length < 4
  · cases hlen : extractDatumLen catalog (List.replicate free 0) tv.typLen with
    | error e => exact hshort
    | ok n =>
        rw [ok_bind]
        split
        · exact hshort
        · exact rfl
  · have hlong : tv.typLen = -1 → 4 ≤ v.length := by
      intro hvar
      by_contra hlt
      exact hshort ⟨hvar, Nat.lt_of_not_le hlt⟩
    have ⟨n, hn, hlen⟩ := extractDatumLen_zeros hzero hv hle hlong
    rw [hlen, ok_bind, if_neg (by omega)]
    exact rfl

theorem mfvCopyDatum_fresh (hzero : ZeroHeader catalog) {tv : MfvTransval} {v pre : List UInt8}
    {i : Nat} {cnt : UInt64}
    (hentry : tv.mfvs[i]? = some ⟨tv.valuesStart + pre.length, cnt⟩) (hi : i ≤ tv.nextMfv)
    (hspace : tv.space = pre ++ List.replicate free 0) (hv : IsDatum catalog tv.typLen v)
    (hle : v.length ≤ free) (rest : List UInt8) :
    Ends (fun _ => tv.typLen = -1 ∧ v.length < 4)
      (fun out => out = { tv with space := pre ++ v ++ List.replicate (free - v.length) 0 })
      (mfvCopyDatum catalog tv i (v ++ rest)) := by
  unfold mfvCopyDatum
  rw [extractDatumLen_append hv, ok_bind]
  refine (getval_fresh hzero hentry hi hspace hv hle).bind fun pos hpos => ?_
  rw [hpos, readBytes_append, ok_bind, hspace, overwrite_zeros hle]
  exact rfl

theorem modify_append_length {α : Type} (l r : List α) (a : α) (f : α → α) :
    (l ++ a :: r).modify l.length f = l ++ f a :: r := by
  induction l with
  | nil => rfl
  | cons b l ih =>
      rw [List.length_cons, List.cons_append, List.modify_succ_cons, ih]
      rfl

theorem mfvs_holding (hlt : pairs.length < head.maxMfvs) (free : Nat) :
    (head.holding pairs free).mfvs = entriesFrom head.valuesStart pairs ++
      ⟨0, 0⟩ :: List.replicate (head.maxMfvs - (pairs.length + 1)) ⟨0, 0⟩ := by
  have hsucc : head.maxMfvs - pairs.length = head.maxMfvs - (pairs.length + 1) + 1 := by omega
  show entriesFrom head.valuesStart pairs ++ List.replicate (head.maxMfvs - pairs.length) _ = _
  rw [hsucc, List.replicate_succ]

theorem mfvs_holding_append (v : List UInt8) (cnt : UInt64) (free : Nat) :
    (head.holding (pairs ++ [(v, cnt)]) free).mfvs = entriesFrom head.valuesStart pairs ++
      ⟨head.valuesStart + (bytesOf pairs).length, cnt⟩ ::
        List.replicate (head.maxMfvs - (pairs.length + 1)) ⟨0, 0⟩ := by
  show entriesFrom head.valuesStart (pairs ++ [(v, cnt)]) ++
    List.replicate (head.maxMfvs - (pairs ++ [(v, cnt)]).length) _ = _
  rw [entriesFrom_append, List.append_assoc, List.length_append]
  rfl

/-- The array once the first entry that is not in use has the offset behind the values. -/
theorem setOffset_holding (head : MfvTransval) (free : Nat) (hlt : pairs.length < head.maxMfvs)
    (v : List UInt8) (n : Nat) :
    ((head.holding pairs free).setOffset pairs.length
        (head.holding pairs free).nextOffset).mfvs = (head.holding (pairs ++ [(v, 0)]) n).mfvs := by
  unfold MfvTransval.setOffset
  dsimp only
  rw [mfvs_holding hlt, mfvs_holding_append]
  have hmodify := modify_append_length (entriesFrom head.valuesStart pairs)
    (List.replicate (head.maxMfvs - (pairs.length + 1)) ⟨0, 0⟩) ⟨0, 0⟩
    fun entry => { entry with offset := (head.holding pairs free).nextOffset }
  rw [length_entriesFrom] at hmodify
  exact hmodify

theorem setCnt_holding (v : List UInt8) (cnt : UInt64) :
    (head.holding (pairs ++ [(v, 0)]) free).setCnt pairs.length cnt =
      head.holding (pairs ++ [(v, cnt)]) free := by
  have hmodify := modify_append_length (entriesFrom head.valuesStart pairs)
    (List.replicate (head.maxMfvs - (pairs.length + 1)) ⟨0, 0⟩)
    ⟨head.valuesStart + (bytesOf pairs).length, 0⟩ fun entry => { entry with cnt }
  rw [length_entriesFrom, ← mfvs_holding_append v 0 free] at hmodify
  have hmfvs : ((head.holding (pairs ++ [(v, 0)]) free).setCnt pairs.length cnt).mfvs =
      (head.holding (pairs ++ [(v, cnt)]) free).mfvs := by
    rw [mfvs_holding_append]
    exact hmodify
  have hbytes : bytesOf (pairs ++ [(v, 0)]) = bytesOf (pairs ++ [(v, cnt)]) := by
    rw [bytesOf_append, bytesOf_append]
  have hlength : (pairs ++ [(v, (0 : UInt64))]).length = (pairs ++ [(v, cnt)]).length := by
    rw [List.length_append, List.length_append]
    rfl
  unfold MfvTransval.setCnt at hmfvs ⊢
  rw [show (head.holding (pairs ++ [(v, 0)]) free).mfvs.modify pairs.length _ = _ from hmfvs]
  unfold MfvTransval.holding
  rw [hbytes, hlength]

theorem varsize_holding_append {v : List UInt8} (cnt : UInt64) (hle : v.length ≤ free) :
    (head.holding (pairs ++ [(v, cnt)]) (free - v.length)).varsize =
      (head.holding pairs free).varsize := by
  rw [varsize_holding, varsize_holding, bytesOf_append, List.length_append]
  omega

theorem MfvHolds.append {free' : Nat} (h : MfvHolds catalog head pairs free)
    (hlt : pairs.length < head.maxMfvs) {v : List UInt8} (hv : IsDatum catalog head.typLen v)
    (cnt : UInt64) (hle : v.length ≤ free')
    (hsize : (head.holding pairs free').varsize ≤ maxAllocSize)
    (hgrowth : (head.holding pairs free').varsize + 4 ≤
      2 * head.varsize + 3 * ((bytesOf pairs).length + v.length)) :
    MfvHolds catalog head (pairs ++ [(v, cnt)]) (free' - v.length) where
  le_max := by
    rw [List.length_append]
    exact hlt
  isDatum := by
    intro p hp
    rcases List.mem_append.mp hp with hp | hp
    · exact h.isDatum p hp
    · rw [List.mem_singleton.mp hp]
      exact hv
  varsize_le := by
    rw [varsize_holding_append cnt hle]
    exact hsize
  fresh := fun hnil => absurd hnil (by simp)
  growth := by
    rw [varsize_holding_append cnt hle, bytesOf_append, List.length_append]
    exact hgrowth

/-- The structure `mfv_transval_append` leaves once the datum is copied. -/
theorem holding_append (hlt : pairs.length < head.maxMfvs) {v : List UInt8}
    (hle : v.length ≤ free) (hsize : (head.holding pairs free).varsize ≤ maxAllocSize) :
    { (head.holding pairs free).setOffset pairs.length (head.holding pairs free).nextOffset with
      space := bytesOf pairs ++ v ++ List.replicate (free - v.length) 0
      nextOffset := uint32 (((head.holding pairs free).nextOffset : Int) + v.length)
      nextMfv := pairs.length + 1 } =
    head.holding (pairs ++ [(v, 0)]) (free - v.length) := by
  have hmax : maxAllocSize = 1073741823 := rfl
  have hstart := valuesStart_add head
  have hmfvs := setOffset_holding head free hlt v (free - v.length)
  have hbytes : (bytesOf (pairs ++ [(v, 0)])).length = (bytesOf pairs).length + v.length := by
    rw [bytesOf_append, List.length_append]
  have hnext : ((head.holding pairs free).nextOffset : Int) + v.length =
      ((head.valuesStart + (bytesOf (pairs ++ [(v, 0)])).length : Nat) : Int) := by
    show ((head.valuesStart + (bytesOf pairs).length : Nat) : Int) + v.length = _
    rw [hbytes]
    omega
  rw [varsize_holding] at hsize
  rw [hnext, uint32_of_mem (by omega)]
  ext : 1
  case mfvs => exact hmfvs
  case nextMfv =>
    show pairs.length + 1 = (pairs ++ [(v, (0 : UInt64))]).length
    rw [List.length_append, List.length_singleton]
  case space =>
    show _ = bytesOf (pairs ++ [(v, 0)]) ++ List.replicate (free - v.length) 0
    rw [bytesOf_append]
  all_goals rfl

/-- A datum is appended behind the values that are there. -/
theorem mfvTransvalAppend_ends (hzero : ZeroHeader catalog) (h : MfvHolds catalog head pairs free)
    (hlt : pairs.length < head.maxMfvs) {v : List UInt8} (hv : IsDatum catalog head.typLen v)
    (rest : List UInt8) :
    Ends (fun e => (e = .elog "invalid memory alloc request size" ∧
        maxAllocSize < 2 * head.varsize + 3 * ((bytesOf pairs).length + v.length)) ∨
          (head.typLen = -1 ∧ v.length < 4))
      (MfvBuilt catalog head (pairs ++ [(v, 0)]))
      (mfvTransvalAppend catalog (head.holding pairs free) (v ++ rest)) := by
  have hnotFull : (head.holding pairs free).nextMfv ≠ (head.holding pairs free).maxMfvs := hlt.ne
  have hlen : extractDatumLen catalog (v ++ rest) (head.holding pairs free).typLen =
      .ok v.length := extractDatumLen_append hv rest
  have hindex : (head.holding pairs free).nextMfv = pairs.length := rfl
  unfold mfvTransvalAppend mfvTransvalInsertAt
  rw [if_neg hnotFull, hlen, ok_bind, if_neg (Nat.lt_irrefl _), hindex]
  have hroom := roomFor_ends h hlt v.length
  cases hrun : roomFor (head.holding pairs free) v.length with
  | error e =>
      rw [hrun] at hroom
      exact .inl hroom
  | ok tv =>
      rw [hrun] at hroom
      have ⟨free', hle, htv, hsize, hgrowth⟩ := hroom
      rw [htv] at hsize hgrowth ⊢
      have hmfvs := setOffset_holding head free' hlt v (free' - v.length)
      have hentry : ((head.holding pairs free').setOffset pairs.length
          (head.holding pairs free').nextOffset).mfvs[pairs.length]? =
            some ⟨head.valuesStart + (bytesOf pairs).length, 0⟩ := by
        rw [hmfvs, mfvs_holding_append, List.getElem?_append_right (by rw [length_entriesFrom]),
          length_entriesFrom, Nat.sub_self]
        rfl
      have hcopy := mfvCopyDatum_fresh hzero hentry (le_refl _) rfl hv hle rest
      rw [ok_bind]
      cases hcopied : mfvCopyDatum catalog ((head.holding pairs free').setOffset pairs.length
          (head.holding pairs free').nextOffset) pairs.length (v ++ rest) with
      | error e =>
          rw [hcopied] at hcopy
          exact .inr hcopy
      | ok out =>
          rw [hcopied] at hcopy
          have hout : out = _ := hcopy
          rw [hout]
          exact ⟨free' - v.length, holding_append hlt hle hsize,
            h.append hlt hv 0 hle hsize hgrowth⟩

/-- The entries are read back as the values they were made for. -/
theorem map_valueAt_entriesFrom {tv : MfvTransval} {pre rest : List UInt8}
    (hspace : tv.space = pre ++ (bytesOf pairs ++ rest))
    (h : ∀ p ∈ pairs, IsDatum catalog tv.typLen p.1) :
    (entriesFrom (tv.valuesStart + pre.length) pairs).map (tv.valueAt catalog) =
      pairs.map Prod.fst := by
  induction pairs generalizing pre with
  | nil => rfl
  | cons p pairs ih =>
      have hdrop : tv.space.drop (tv.valuesStart + pre.length - tv.valuesStart) =
          p.1 ++ (bytesOf pairs ++ rest) := by
        rw [Nat.add_sub_cancel_left, hspace, List.drop_left]
        simp [bytesOf]
      have hread : tv.valueAt catalog ⟨tv.valuesStart + pre.length, p.2⟩ = p.1 := by
        unfold MfvTransval.valueAt
        dsimp only
        rw [hdrop, extractDatumLen_append (h p List.mem_cons_self)]
        exact List.take_left
      have htail : tv.space = (pre ++ p.1) ++ (bytesOf pairs ++ rest) := by
        rw [hspace]
        simp [bytesOf]
      have hrest := ih htail fun q hq => h q (List.mem_cons_of_mem p hq)
      rw [List.length_append, ← Nat.add_assoc] at hrest
      rw [entriesFrom, List.map_cons, List.map_cons, hread, hrest]

theorem take_mfvs_holding :
    (head.holding pairs free).mfvs.take (head.holding pairs free).nextMfv =
      entriesFrom head.valuesStart pairs :=
  List.take_left' (length_entriesFrom head.valuesStart pairs)

theorem MfvHolds.listed_eq (h : MfvHolds catalog head pairs free) :
    (head.holding pairs free).listed catalog = pairs.map Prod.fst := by
  have hspace : (head.holding pairs free).space =
      [] ++ (bytesOf pairs ++ List.replicate free 0) := rfl
  unfold MfvTransval.listed
  rw [take_mfvs_holding]
  exact map_valueAt_entriesFrom hspace h.isDatum

theorem le_offset_of_mem {offset : Nat} {entry : OffsetCnt}
    (h : entry ∈ entriesFrom offset pairs) : offset ≤ entry.offset := by
  induction pairs generalizing offset with
  | nil => cases h
  | cons p pairs ih =>
      rcases List.mem_cons.mp h with rfl | h
      · exact le_refl _
      · exact Nat.le_of_add_right_le (ih h)

/-- What was begun and appended to is a transition value. -/
theorem MfvHolds.valid (h : MfvHolds catalog head pairs free)
    (hbegan : ∃ fresh, mfvInitTransval catalog head.maxMfvs head.typOid = .ok fresh)
    (htypLen : head.typLen = catalog.typlen head.typOid) :
    MfvValid catalog (head.holding pairs free) where
  began := hbegan
  typLen_eq := htypLen
  varsize_le := h.varsize_le
  length_mfvs := by
    have hle := h.le_max
    show (entriesFrom head.valuesStart pairs ++ List.replicate _ _).length = head.maxMfvs
    rw [List.length_append, length_entriesFrom, List.length_replicate]
    omega
  next_le := h.le_max
  start_le := by
    intro entry hentry
    rw [take_mfvs_holding] at hentry
    exact le_offset_of_mem hentry
  isDatum := by
    intro v hv
    rw [h.listed_eq] at hv
    have ⟨p, hp, hpv⟩ := List.mem_map.mp hv
    exact hpv ▸ h.isDatum p hp

/-- A transition value begins without values. -/
theorem mfvInitTransval_holds {maxMfvs typOid : Nat} {fresh : MfvTransval}
    (hmax : maxMfvs < 4294967296)
    (h : mfvInitTransval catalog maxMfvs typOid = .ok fresh) :
    fresh = mfvEmpty catalog maxMfvs typOid (mfvInitialVarsize catalog maxMfvs typOid) ∧
      fresh.varsize = mfvInitialVarsize catalog maxMfvs typOid ∧
      fresh = fresh.holding [] fresh.space.length ∧
      MfvHolds catalog fresh [] fresh.space.length := by
  unfold mfvInitTransval at h
  dsimp only at h
  rw [uint32_of_mem hmax] at h
  have ⟨_, hpalloc, h⟩ := bind_eq_ok.mp h
  split at h
  case isTrue => cases h
  case isFalse hsz =>
    split at h
    case isTrue => cases h
    case isFalse =>
      generalize mfvInitialVarsize catalog maxMfvs typOid = size at hpalloc hsz h ⊢
      cases h
      have hsize : size ≤ maxAllocSize := by
        by_contra hlarge
        rw [palloc_error (Nat.lt_of_not_le hlarge)] at hpalloc
        cases hpalloc
      have hself : mfvEmpty catalog maxMfvs typOid size =
          (mfvEmpty catalog maxMfvs typOid size).holding []
            (mfvEmpty catalog maxMfvs typOid size).space.length := by
        ext : 1
        case space =>
          show List.replicate _ _ = [] ++ List.replicate (List.replicate _ _).length _
          rw [List.length_replicate, List.nil_append]
        all_goals rfl
      have hvarsize : (mfvEmpty catalog maxMfvs typOid size).varsize = size := by
        show mfvTransvalSz maxMfvs + (List.replicate _ _).length = size
        rw [List.length_replicate]
        omega
      have hsmall : 65572 ≤ mfvTransvalSz maxMfvs := Nat.le_add_right _ _
      exact ⟨rfl, hvarsize, hself,
        { le_max := Nat.zero_le _
          isDatum := fun p hp => by cases hp
          varsize_le := by rw [← hself, hvarsize]; exact hsize
          fresh := fun _ => rfl
          growth := by rw [← hself, hvarsize]; omega }⟩

end Holding

end Madlib.Sketch
