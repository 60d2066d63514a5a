import Madlib.Lib.FrequentEstimates
import Madlib.Sketch.CountminStream
import Madlib.Sketch.MfvSlots
import Madlib.Sketch.MfvMerge

/-!
# Tracking most frequent values

`__mfvsketch_trans` counts a value in the sketch and keeps it in the list of frequent
values: a listed value gets its new count, another one is appended while there is room,
and afterwards replaces the first listed value with a smaller count.
-/

namespace Madlib.Sketch

open Madlib.Backend Madlib.Lib Madlib.Lib.MachineInt

/-- The remaining rounds of the loop of `mfv_find`, from entry `i` on. -/
def mfvFindFrom (catalog : Catalog) (tv : MfvTransval) (val : List UInt8) :
    Nat → Nat → Except Fault (Option Nat)
  | 0, _ => .ok none
  | rounds + 1, i => do
      let datp ← mfvTransvalGetval catalog tv i
      let len ← extractDatumLen catalog (tv.space.drop datp) tv.typLen
      let valLen ← extractDatumLen catalog val tv.typLen
      if len = valLen then do
        let c ← memcmp (tv.space.drop datp) val len
        if c = 0 then pure (some i) else mfvFindFrom catalog tv val rounds (i + 1)
      else mfvFindFrom catalog tv val rounds (i + 1)

/-- `mfv_find`; `none` is its -1. -/
def mfvFind (catalog : Catalog) (tv : MfvTransval) (val : List UInt8) :
    Except Fault (Option Nat) :=
  mfvFindFrom catalog tv val tv.nextMfv 0

def mfvTransvalReplace (catalog : Catalog) (tv : MfvTransval) (dat : List UInt8) (i : Nat) :
    Except Fault MfvTransval := do
  let datumLen ← extractDatumLen catalog dat tv.typLen
  let tmpp ← mfvTransvalGetval catalog tv i
  let oldLen ← extractDatumLen catalog (tv.space.drop tmpp) tv.typLen
  if datumLen ≤ oldLen then mfvCopyDatum catalog tv i dat
  else mfvTransvalInsertAt catalog tv dat i

/-- The remaining rounds of the loop that looks for a place for a value, from entry `i` on. -/
def placeFrom (catalog : Catalog) (tv : MfvTransval) (newdatum : List UInt8) (tmpcnt : UInt64) :
    Nat → Nat → Except Fault MfvTransval
  | 0, _ => .ok tv
  | rounds + 1, i =>
      if i = tv.nextMfv then do
        let tv ← mfvTransvalAppend catalog tv newdatum
        pure (tv.setCnt i tmpcnt)
      else do
        let cnt ← cntAt tv i
        if cnt < tmpcnt then do
          let tv ← mfvTransvalReplace catalog tv newdatum i
          pure (tv.setCnt i tmpcnt)
        else placeFrom catalog tv newdatum tmpcnt rounds (i + 1)

/-- The list with a value whose estimated count is now `tmpcnt`. -/
def listValue (catalog : Catalog) (tv : MfvTransval) (newdatum : List UInt8) (tmpcnt : UInt64) :
    Except Fault MfvTransval := do
  let found ← mfvFind catalog tv newdatum
  match found with
  | some i => pure (tv.setCnt i tmpcnt)
  | none => placeFrom catalog tv newdatum tmpcnt (toInt32 tv.maxMfvs).toNat 0

/-- A value that is not NULL is counted and listed. -/
def countValue (catalog : Catalog) (md5 : Md5) (tv : MfvTransval) (newdatum : List UInt8) :
    Except Fault MfvTransval := do
  let md5Datum ← sketchMd5Datum catalog md5 newdatum tv.typOid
  let counted ← hashCountersIterate md5Datum tv.sketch 0 incrementCounter
  let tmpcnt ← cmsketchCountMd5Datum counted.1 md5Datum
  listValue catalog { tv with sketch := counted.1 } newdatum (UInt64.ofNat (sizeT tmpcnt))

/-- The first call finds a `transblob` too short to be initialised. -/
def begunTransval (catalog : Catalog) (typOid : Nat) (maxMfvs : Int) :
    Option MfvTransval → Except Fault MfvTransval
  | none => mfvInitTransval catalog maxMfvs typOid
  | some tv => .ok tv

/-- `__mfvsketch_trans`, whose `max_mfvs` is not NULL. -/
def mfvsketchTrans (catalog : Catalog) (md5 : Md5) (typOid : Nat) (maxMfvs : Int)
    (transblob : Option MfvTransval) (newdatum : Option (List UInt8)) :
    Except Fault MfvTransval := do
  let tv ← begunTransval catalog typOid maxMfvs transblob
  match newdatum with
  | none => pure tv
  | some datum => countValue catalog md5 tv datum

/-- The transition value after these arguments, some of which may be NULL. -/
def mfvState (catalog : Catalog) (md5 : Md5) (typOid : Nat) (maxMfvs : Int)
    (args : List (Option (List UInt8))) : Except Fault (Option MfvTransval) :=
  args.foldlM (fun transblob newdatum => do
    let tv ← mfvsketchTrans catalog md5 typOid maxMfvs transblob newdatum
    pure (some tv)) none

/-! ## Values with counts -/

/-- The entries hold these values with these counts. -/
structure Stores (catalog : Catalog) (init total : Nat) (tv : MfvTransval)
    (items : List (List UInt8 × Nat)) : Prop where
  slots : Slots catalog init total tv (items.map Prod.fst)
  next_eq : tv.nextMfv = items.length
  cnts : ∀ i p, items[i]? = some p → ∃ c, cntAt tv i = .ok c ∧ c.toNat = p.2

/-- The two are of one kind and have one sketch. -/
structure SameKind (tv out : MfvTransval) : Prop where
  maxMfvs_eq : out.maxMfvs = tv.maxMfvs
  typOid_eq : out.typOid = tv.typOid
  typLen_eq : out.typLen = tv.typLen
  sketch_eq : out.sketch = tv.sketch

section Items

variable {catalog : Catalog} {init total : Nat} {tv out : MfvTransval}
  {items : List (List UInt8 × Nat)} {v : List UInt8} {i : Nat}

theorem SameHeader.sameKind (h : SameHeader tv out) : SameKind tv out where
  maxMfvs_eq := by rw [h.eq]
  typOid_eq := by rw [h.eq]
  typLen_eq := by rw [h.eq]
  sketch_eq := by rw [h.eq]

theorem cntAt_eq (tv : MfvTransval) (i : Nat) :
    cntAt tv i = match (tv.mfvs.map OffsetCnt.cnt)[i]? with
      | none => .error .outOfBounds
      | some c => .ok c := by
  unfold cntAt
  rw [List.getElem?_map]
  cases tv.mfvs[i]? <;> rfl

theorem SameHeader.cntAt (h : SameHeader tv out) (i : Nat) :
    Sketch.cntAt out i = Sketch.cntAt tv i := by
  rw [cntAt_eq, cntAt_eq, h.cnts]

theorem cntAt_setCnt (hi : i < tv.mfvs.length) (c : UInt64) (j : Nat) :
    cntAt (tv.setCnt i c) j = if j = i then .ok c else cntAt tv j := by
  unfold cntAt MfvTransval.setCnt
  dsimp only
  rw [List.getElem?_modify]
  by_cases hj : j = i
  · subst hj
    rw [List.getElem?_eq_getElem hi]
    simp
  · simp only [Ne.symm hj, if_false, hj, id_map']

theorem Slots.setCnt {vals : List (List UInt8)} (h : Slots catalog init total tv vals) (i : Nat)
    (c : UInt64) : Slots catalog init total (tv.setCnt i c) vals where
  length_mfvs := by
    show (tv.mfvs.modify _ _).length = tv.maxMfvs
    rw [List.length_modify]
    exact h.length_mfvs
  le_max := h.le_max
  isDatum := h.isDatum
  varsize_le := h.varsize_le
  header_le := h.header_le
  growth := h.growth
  empty := by
    intro hnil
    rw [offsetAt_setCnt]
    exact h.empty hnil
  zeros := h.zeros
  slot := by
    intro j w hw
    rw [offsetAt_setCnt]
    exact h.slot j w hw
  apart := by
    intro j k a b hjk ha hb
    rw [offsetAt_setCnt, offsetAt_setCnt]
    exact h.apart j k a b hjk ha hb

/-- One entry has a new value and a new count, the others are as before. -/
theorem Stores.of_slots {total' : Nat} {old : MfvTransval} (h : Stores catalog init total old items)
    (hi : i ≤ items.length) (hcnts : ∀ j, cntAt out j = cntAt old j) (c : UInt64)
    (hslots : Slots catalog init total' out
      ((items.map Prod.fst).take i ++ v :: (items.map Prod.fst).drop (i + 1)))
    (hnext : out.nextMfv = (items.take i ++ (v, c.toNat) :: items.drop (i + 1)).length) :
    Stores catalog init total' (out.setCnt i c)
      (items.take i ++ (v, c.toNat) :: items.drop (i + 1)) where
  slots := by
    rw [List.map_append, List.map_cons, List.map_take, List.map_drop]
    exact hslots.setCnt i c
  next_eq := hnext
  cnts := by
    intro j p hp
    have hlt : i < out.mfvs.length := by
      have hle := hslots.le_max
      rw [List.length_append, List.length_cons, List.length_take, List.length_map] at hle
      rw [hslots.length_mfvs]
      omega
    rw [getElem?_put hi] at hp
    rw [cntAt_setCnt hlt]
    by_cases hj : j = i
    · rw [if_pos hj] at hp
      rw [if_pos hj, ← Option.some.inj hp]
      exact ⟨c, rfl, rfl⟩
    · rw [if_neg hj] at hp
      rw [if_neg hj, hcnts]
      exact h.cnts j p hp

theorem put_self {α : Type} {l : List α} {i : Nat} {a : α} (h : l[i]? = some a) :
    l.take i ++ a :: l.drop (i + 1) = l := by
  have hi : i < l.length := (List.getElem?_eq_some_iff.mp h).1
  apply List.ext_getElem?
  intro j
  rw [getElem?_put hi.le]
  by_cases hj : j = i
  · rw [if_pos hj, hj, h]
  · rw [if_neg hj]

theorem length_put {α : Type} {l : List α} {i : Nat} (hi : i < l.length) (a : α) :
    (l.take i ++ a :: l.drop (i + 1)).length = l.length := by
  rw [List.length_append, List.length_cons, List.length_take, List.length_drop]
  omega

theorem set_eq_put {α : Type} {l : List α} {i : Nat} (hi : i < l.length) (a : α) :
    l.set i a = l.take i ++ a :: l.drop (i + 1) := by
  rw [List.set_eq_take_append_cons_drop, if_pos hi]

/-- A listed value gets a new count. -/
theorem Stores.recount (h : Stores catalog init total tv items) {n : Nat}
    (hi : items[i]? = some (v, n)) (c : UInt64) :
    Stores catalog init total (tv.setCnt i c)
      (items.take i ++ (v, c.toNat) :: items.drop (i + 1)) := by
  have hlt : i < items.length := (List.getElem?_eq_some_iff.mp hi).1
  have hvalue : (items.map Prod.fst)[i]? = some v := by
    rw [List.getElem?_map, hi]
    rfl
  apply h.of_slots hlt.le (fun _ => rfl) c
  · rw [put_self hvalue]
    exact h.slots
  · rw [length_put hlt]
    exact h.next_eq

/-- A listed value gives its place to another one. -/
theorem Stores.replace (hzero : ZeroHeader catalog) (h : Stores catalog init total tv items)
    {p : List UInt8 × Nat} (hi : items[i]? = some p) (hv : IsDatum catalog tv.typLen v)
    (c : UInt64) :
    Ends (StoreFails init (total + v.length) tv.typLen v)
      (fun out => Stores catalog init (total + v.length) (out.setCnt i c)
          (items.take i ++ (v, c.toNat) :: items.drop (i + 1)) ∧ SameKind tv out)
      (mfvTransvalReplace catalog tv v i) := by
  have hlt : i < items.length := (List.getElem?_eq_some_iff.mp hi).1
  have hlt' : i < (items.map Prod.fst).length := by
    rw [List.length_map]
    exact hlt
  have hold : (items.map Prod.fst)[i]? = some p.1 := by
    rw [List.getElem?_map, hi]
    rfl
  have hnext : i ≤ tv.nextMfv := by
    rw [h.next_eq]
    exact hlt.le
  have ⟨hget, rest, hrest⟩ := h.slots.getval hold hnext
  have hdatum := h.slots.isDatum p.1 (List.mem_of_getElem? hold)
  have hstored : ∀ out, Slots catalog init (total + v.length) out
      ((items.map Prod.fst).take i ++ v :: (items.map Prod.fst).drop (i + 1)) →
      SameHeader tv out → Stores catalog init (total + v.length) (out.setCnt i c)
        (items.take i ++ (v, c.toNat) :: items.drop (i + 1)) := by
    intro out hslots hsame
    apply h.of_slots hlt.le hsame.cntAt c hslots
    rw [length_put hlt, ← h.next_eq, hsame.eq]
  unfold mfvTransvalReplace
  rw [extractDatumLen_self hv, ok_bind, hget, ok_bind, hrest, extractDatumLen_append hdatum,
    ok_bind]
  by_cases hle : v.length ≤ p.1.length
  · rw [if_pos hle]
    have ⟨out, hout, hslots, hsame⟩ := h.slots.copyDatum hold hnext hv hle
    rw [set_eq_put hlt'] at hslots
    rw [hout]
    exact ⟨hstored out (hslots.weaken (Nat.le_add_right _ _)) hsame, hsame.sameKind⟩
  · rw [if_neg hle]
    have hinsert := h.slots.insertAt hzero hlt'.le (hlt'.trans_le h.slots.le_max) hnext hv
    exact hinsert.imp (fun _ he => he)
      fun out ⟨hslots, hsame⟩ => ⟨hstored out hslots hsame, hsame.sameKind⟩

/-- A value is listed behind the others. -/
theorem Stores.append (hzero : ZeroHeader catalog) (h : Stores catalog init total tv items)
    (hroom : items.length < tv.maxMfvs) (hv : IsDatum catalog tv.typLen v) (c : UInt64) :
    Ends (StoreFails init (total + v.length) tv.typLen v)
      (fun out => Stores catalog init (total + v.length) (out.setCnt items.length c)
          (items ++ [(v, c.toNat)]) ∧ SameKind tv out)
      (mfvTransvalAppend catalog tv v) := by
  have hlength : (items.map Prod.fst).length = items.length := List.length_map _
  have hinsert := h.slots.insertAt hzero hlength.ge hroom h.next_eq.ge hv
  have hend : items.take items.length ++ (v, c.toNat) :: items.drop (items.length + 1) =
      items ++ [(v, c.toNat)] := by
    rw [List.take_length, List.drop_eq_nil_of_le (Nat.le_succ _)]
  unfold mfvTransvalAppend
  rw [if_neg (by rw [h.next_eq]; exact hroom.ne), h.next_eq]
  apply hinsert.bind
  intro out ⟨hslots, hsame⟩
  have hkind := hsame.sameKind
  have hcnts : ∀ j, cntAt { out with nextMfv := out.nextMfv + 1 } j = cntAt tv j := hsame.cntAt
  refine ⟨?_, ⟨hkind.maxMfvs_eq, hkind.typOid_eq, hkind.typLen_eq, hkind.sketch_eq⟩⟩
  rw [← hend]
  apply h.of_slots (le_refl _) hcnts c
  · exact { hslots with }
  · show out.nextMfv + 1 = _
    rw [hend, List.length_append, hsame.eq]
    exact congrArg Nat.succ h.next_eq

/-- `mfv_find` gives the entry of a listed value. -/
theorem Stores.findFrom (h : Stores catalog init total tv items)
    (hv : IsDatum catalog tv.typLen v) {rounds i : Nat} (hrounds : i + rounds = items.length) :
    ∃ found, mfvFindFrom catalog tv v rounds i = .ok found ∧
      (∀ j, found = some j → ∃ n, items[j]? = some (v, n)) ∧
      (found = none → ∀ p ∈ items.drop i, p.1 ≠ v) := by
  induction rounds generalizing i with
  | zero =>
      refine ⟨none, rfl, fun j hj => absurd hj (by simp), fun _ p hp => ?_⟩
      rw [List.drop_eq_nil_of_le (by omega)] at hp
      cases hp
  | succ rounds ih =>
      have hlt : i < items.length := by omega
      have hentry : items[i]? = some items[i] := List.getElem?_eq_getElem hlt
      have hvalue : (items.map Prod.fst)[i]? = some items[i].1 := by
        rw [List.getElem?_map, hentry]
        rfl
      have ⟨hget, rest, hrest⟩ := h.slots.getval hvalue (by rw [h.next_eq]; exact hlt.le)
      have hdatum := h.slots.isDatum _ (List.mem_of_getElem? hvalue)
      have hnext : items[i].1 ≠ v → ∃ found, mfvFindFrom catalog tv v rounds (i + 1) = .ok found ∧
          (∀ j, found = some j → ∃ n, items[j]? = some (v, n)) ∧
          (found = none → ∀ p ∈ items.drop i, p.1 ≠ v) := by
        intro hne
        have ⟨found, hrun, hsome, hnone⟩ := ih (i := i + 1) (by omega)
        refine ⟨found, hrun, hsome, fun hnot p hp => ?_⟩
        rw [List.drop_eq_getElem_cons hlt] at hp
        rcases List.mem_cons.mp hp with rfl | hp
        · exact hne
        · exact hnone hnot p hp
      have ⟨c, hc, hzero, _⟩ := memcmp_spec (hdatum.prefixFree hv) (.inl rfl) rest []
      rw [List.append_nil] at hc
      unfold mfvFindFrom
      rw [hget, ok_bind, hrest, extractDatumLen_append hdatum, ok_bind, extractDatumLen_self hv,
        ok_bind]
      by_cases hlen : items[i].1.length = v.length
      · rw [if_pos hlen, hc, ok_bind]
        by_cases hsame : items[i].1 = v
        · rw [if_pos (hzero.mpr hsame)]
          refine ⟨some i, rfl, fun j hj => ?_, fun hnot => by cases hnot⟩
          cases hj
          exact ⟨items[i].2, by rw [hentry, ← hsame]⟩
        · rw [if_neg fun heq => hsame (hzero.mp heq)]
          exact hnext hsame
      · rw [if_neg hlen]
        exact hnext fun heq => hlen (by rw [heq])

/-- The loop that looks for a place finds the one of the abstract list. -/
theorem Stores.placeFrom (hzero : ZeroHeader catalog) (h : Stores catalog init total tv items)
    (hv : IsDatum catalog tv.typLen v) (c : UInt64) {rounds i : Nat}
    (hrounds : i + rounds = tv.maxMfvs) (hi : i ≤ items.length) :
    Ends (StoreFails init (total + v.length) tv.typLen v)
      (fun out => Stores catalog init (total + v.length) out (items.take i ++
          FrequentList.place v c.toNat (tv.maxMfvs - items.length) (items.drop i)) ∧
        SameKind tv out)
      (Sketch.placeFrom catalog tv v c rounds i) := by
  have hle : items.length ≤ tv.maxMfvs := by
    have hmax := h.slots.le_max
    rwa [List.length_map] at hmax
  have hweak : Stores catalog init (total + v.length) tv items :=
    { h with slots := h.slots.weaken (Nat.le_add_right _ _) }
  induction rounds generalizing i with
  | zero =>
      have hall : i = items.length := by omega
      unfold Sketch.placeFrom
      rw [hall, List.take_length, List.drop_length, show tv.maxMfvs - items.length = 0 by omega,
        FrequentList.place, List.append_nil]
      exact ⟨hweak, ⟨rfl, rfl, rfl, rfl⟩⟩
  | succ rounds ih =>
      unfold Sketch.placeFrom
      by_cases hroom : i = tv.nextMfv
      · rw [if_pos hroom]
        rw [h.next_eq] at hroom
        rw [hroom, List.take_length, List.drop_length,
          show tv.maxMfvs - items.length = rounds + 1 by omega, FrequentList.place]
        apply (h.append hzero (by omega) hv c).bind
        rintro out ⟨hstores, hkind⟩
        exact ⟨hstores, ⟨hkind.maxMfvs_eq, hkind.typOid_eq, hkind.typLen_eq, hkind.sketch_eq⟩⟩
      · rw [if_neg hroom]
        rw [h.next_eq] at hroom
        have hlt : i < items.length := by omega
        have hentry : items[i]? = some items[i] := List.getElem?_eq_getElem hlt
        obtain ⟨cnt, hcnt, hnat⟩ := h.cnts i _ hentry
        have hlt_iff : cnt < c ↔ items[i].2 < c.toNat := by rw [UInt64.lt_iff_toNat_lt, hnat]
        rw [hcnt, ok_bind, List.drop_eq_getElem_cons hlt, FrequentList.place]
        by_cases hsmaller : items[i].2 < c.toNat
        · rw [if_pos hsmaller, if_pos (hlt_iff.mpr hsmaller)]
          apply (h.replace hzero hentry hv c).bind
          rintro out ⟨hstores, hkind⟩
          exact ⟨hstores, ⟨hkind.maxMfvs_eq, hkind.typOid_eq, hkind.typLen_eq, hkind.sketch_eq⟩⟩
        · rw [if_neg hsmaller, if_neg fun hlt => hsmaller (hlt_iff.mp hlt)]
          have hrest := ih (i := i + 1) (by omega) (by omega)
          rw [List.take_succ_eq_append_getElem hlt, List.append_assoc] at hrest
          exact hrest

theorem recount_eq_put (hnodup : (items.map Prod.fst).Nodup) {n : Nat}
    (hi : items[i]? = some (v, n)) (c : Nat) :
    FrequentList.recount v c items = items.take i ++ (v, c) :: items.drop (i + 1) := by
  have hlt : i < items.length := (List.getElem?_eq_some_iff.mp hi).1
  apply List.ext_getElem?
  intro j
  unfold FrequentList.recount
  rw [List.getElem?_map, getElem?_put hlt.le]
  by_cases hj : j = i
  · rw [if_pos hj, hj, hi]
    simp
  · rw [if_neg hj]
    cases hentry : items[j]? with
    | none => rfl
    | some p =>
        have hne : p.1 ≠ v := by
          intro heq
          have hlt' : j < (items.map Prod.fst).length := by
            rw [List.length_map]
            exact (List.getElem?_eq_some_iff.mp hentry).1
          apply hj
          apply (List.getElem?_inj hlt' hnodup).mp
          rw [List.getElem?_map, List.getElem?_map, hentry, hi]
          exact congrArg some heq
        simp [hne]

/-- The list goes on as the abstract one does. -/
theorem Stores.listValue (hzero : ZeroHeader catalog) (h : Stores catalog init total tv items)
    (hnodup : (items.map Prod.fst).Nodup) (hmax : tv.maxMfvs < 2147483648)
    (hv : IsDatum catalog tv.typLen v) (c : UInt64) :
    Ends (StoreFails init (total + v.length) tv.typLen v)
      (fun out => Stores catalog init (total + v.length) out
          (FrequentList.observe tv.maxMfvs items v c.toNat) ∧ SameKind tv out)
      (Sketch.listValue catalog tv v c) := by
  have ⟨found, hfound, hsome, hnone⟩ := h.findFrom hv (Nat.zero_add items.length)
  unfold Sketch.listValue mfvFind FrequentList.observe
  rw [h.next_eq, hfound, ok_bind]
  cases found with
  | some i =>
      have ⟨n, hi⟩ := hsome i rfl
      have hlisted : v ∈ items.map Prod.fst := List.mem_map_of_mem (List.mem_of_getElem? hi)
      rw [if_pos hlisted, recount_eq_put hnodup hi]
      have hstores := h.recount hi c
      exact ⟨{ hstores with slots := hstores.slots.weaken (Nat.le_add_right _ _) },
        ⟨rfl, rfl, rfl, rfl⟩⟩
  | none =>
      have hunlisted : v ∉ items.map Prod.fst := by
        intro hmem
        have ⟨p, hp, hpv⟩ := List.mem_map.mp hmem
        exact hnone rfl p hp hpv
      have hrounds : (toInt32 tv.maxMfvs).toNat = tv.maxMfvs := by
        rw [toInt32_of_mem (by omega) (by omega), Int.toNat_natCast]
      have hplaced := h.placeFrom hzero hv c (Nat.zero_add tv.maxMfvs) (Nat.zero_le _)
      rw [if_neg hunlisted]
      dsimp only
      rw [hrounds]
      exact hplaced

end Items

/-! ## Streams -/

/-- The values a transition value lists, with their counts. -/
def MfvTransval.counted (catalog : Catalog) (tv : MfvTransval) : List (List UInt8 × Nat) :=
  (tv.mfvs.take tv.nextMfv).map fun entry => (tv.valueAt catalog entry, entry.cnt.toNat)

def countedOf (catalog : Catalog) : Option MfvTransval → List (List UInt8 × Nat)
  | none => []
  | some tv => tv.counted catalog

/-- Why a stream of values is not tracked: there is no room to begin with, a request for more
is refused, a value is shorter than the header that is read where it goes, or a counter of
the sketch is full. -/
def TrackFails (catalog : Catalog) (typOid maxMfvs : Nat) (s : List (List UInt8)) (e : Fault) :
    Prop :=
  mfvInitTransval catalog maxMfvs typOid = .error e ∨
    (e = .elog "invalid memory alloc request size" ∧
      maxAllocSize < 2 * mfvInitialVarsize catalog maxMfvs typOid + 3 * s.flatten.length) ∨
    (catalog.typlen typOid = -1 ∧ ∃ v ∈ s, v.length < 4) ∨
    (e = .elog "maximum count exceeded in sketch" ∧ int64Max.toNat ≤ s.length)

section Streams

variable {catalog : Catalog} {md5 : Md5} {typOid maxMfvs : Nat} {s : List (List UInt8)}
  {tv : MfvTransval} {v : List UInt8}

theorem TrackFails.snoc {e : Fault} (h : TrackFails catalog typOid maxMfvs s e)
    (v : List UInt8) : TrackFails catalog typOid maxMfvs (s ++ [v]) e := by
  rcases h with hbegin | ⟨halloc, hlarge⟩ | ⟨hvar, u, hu, hshort⟩ | ⟨hfull, hlong⟩
  · exact .inl hbegin
  · refine .inr (.inl ⟨halloc, ?_⟩)
    rw [List.flatten_append, List.length_append]
    omega
  · exact .inr (.inr (.inl ⟨hvar, u, List.mem_append_left _ hu, hshort⟩))
  · refine .inr (.inr (.inr ⟨hfull, ?_⟩))
    rw [List.length_append]
    omega

/-- The transition value of a stream, whose list is kept with the estimates of the sketch. -/
structure MfvFollows (catalog : Catalog) (md5 : Md5) (typOid maxMfvs : Nat)
    (s : List (List UInt8)) (tv : MfvTransval) : Prop where
  typOid_eq : tv.typOid = typOid
  typLen_eq : tv.typLen = catalog.typlen typOid
  maxMfvs_eq : tv.maxMfvs = maxMfvs
  sketched : CountsStream md5 s tv.sketch
  listed : Stores catalog (mfvInitialVarsize catalog maxMfvs typOid) s.flatten.length tv
    (FrequentList.listing maxMfvs (estimate md5) s)

/-- The transition value of a stream without collisions. -/
structure MfvTracked (catalog : Catalog) (md5 : Md5) (typOid maxMfvs : Nat)
    (s : List (List UInt8)) (tv : MfvTransval) : Prop where
  typOid_eq : tv.typOid = typOid
  typLen_eq : tv.typLen = catalog.typlen typOid
  maxMfvs_eq : tv.maxMfvs = maxMfvs
  sketched : CountsStream md5 s tv.sketch
  listed : ∃ items, Stores catalog (mfvInitialVarsize catalog maxMfvs typOid) s.flatten.length tv
    items ∧ FrequentList.Tracks maxMfvs s items

theorem Stores.counted_eq {init total : Nat} {items : List (List UInt8 × Nat)}
    (h : Stores catalog init total tv items) : tv.counted catalog = items := by
  have hlength : items.length ≤ tv.mfvs.length := by
    have hle := h.slots.le_max
    rw [List.length_map] at hle
    rw [h.slots.length_mfvs]
    exact hle
  unfold MfvTransval.counted
  apply List.ext_getElem?
  intro i
  rw [List.getElem?_map, List.getElem?_take, h.next_eq]
  by_cases hi : i < items.length
  · have hentry : tv.mfvs[i]? = some tv.mfvs[i] := List.getElem?_eq_getElem (by omega)
    have hitem : items[i]? = some items[i] := List.getElem?_eq_getElem hi
    have hvalue : (items.map Prod.fst)[i]? = some items[i].1 := by
      rw [List.getElem?_map, hitem]
      rfl
    have ⟨c, hc, hnat⟩ := h.cnts i _ hitem
    have ⟨_, rest, hrest⟩ := h.slots.getval hvalue (by rw [h.next_eq]; exact hi.le)
    have hdatum := h.slots.isDatum _ (List.mem_of_getElem? hvalue)
    have hcnt : tv.mfvs[i].cnt = c := by
      unfold cntAt at hc
      rw [hentry] at hc
      exact Except.ok.inj hc
    have hstored : tv.valueAt catalog tv.mfvs[i] = items[i].1 := by
      unfold MfvTransval.valueAt
      dsimp only
      rw [← offsetAt_eq hentry, hrest, extractDatumLen_append hdatum]
      exact List.take_left
    rw [if_pos hi, hentry, hitem, Option.map_some, hstored, hcnt, hnat]
  · rw [if_neg hi, List.getElem?_eq_none (by omega)]
    rfl

/-- A transition value begins without values. -/
theorem mfvInitTransval_follows (hmax : maxMfvs < 4294967296)
    (h : mfvInitTransval catalog maxMfvs typOid = .ok tv) :
    MfvFollows catalog md5 typOid maxMfvs [] tv := by
  have ⟨hempty, hvarsize, hself, hholds⟩ := mfvInitTransval_holds hmax h
  have hsmall : 65572 ≤ mfvTransvalSz maxMfvs := Nat.le_add_right _ _
  have hmaxMfvs : tv.maxMfvs = maxMfvs := by rw [hempty]; rfl
  have hheader : mfvTransvalSz tv.maxMfvs ≤ mfvInitialVarsize catalog maxMfvs typOid := by
    rw [← hvarsize]
    exact Nat.le_add_right _ _
  have hlimit := hholds.varsize_le
  rw [← hself] at hlimit
  have hslots : Slots catalog (mfvInitialVarsize catalog maxMfvs typOid) 0 tv [] :=
    { length_mfvs := by
        rw [hempty]
        exact List.length_replicate
      le_max := Nat.zero_le _
      isDatum := fun v hv => absurd hv List.not_mem_nil
      varsize_le := hlimit
      header_le := hheader
      growth := by
        rw [hmaxMfvs] at hheader
        omega
      empty := by
        intro _
        refine ⟨hvarsize, ?_⟩
        rw [hempty]
        unfold MfvTransval.offsetAt mfvEmpty
        dsimp only
        rw [List.getElem?_replicate]
        split <;> rfl
      zeros := by
        refine ⟨[], tv.space.length, ?_, ?_, Nat.zero_le _⟩
        · rw [hempty]
          simp [mfvEmpty]
        · rw [hempty]
          rfl
      slot := fun i v hv => by cases hv
      apart := fun i j u v _ hu => by cases hu }
  exact
    { typOid_eq := by rw [hempty]; rfl
      typLen_eq := by rw [hempty]; rfl
      maxMfvs_eq := hmaxMfvs
      sketched := by
        rw [hempty]
        exact countsStream_nil md5
      listed := by
        refine ⟨hslots, ?_, fun i p hp => by cases hp⟩
        rw [hempty]
        rfl }

/-- One more value. -/
theorem MfvFollows.countValue (hzero : ZeroHeader catalog) (hmax : maxMfvs < 2147483648)
    (h : MfvFollows catalog md5 typOid maxMfvs s tv)
    (hv : IsDatum catalog (catalog.typlen typOid) v) :
    Ends (TrackFails catalog typOid maxMfvs (s ++ [v]))
      (MfvFollows catalog md5 typOid maxMfvs (s ++ [v]))
      (Sketch.countValue catalog md5 tv v) := by
  have hhash : sketchMd5Datum catalog md5 v tv.typOid = .ok (sketchMd5Bytea md5 v) := by
    have happend : sketchMd5Datum catalog md5 (v ++ []) typOid = .ok (sketchMd5Bytea md5 v) :=
      sketchMd5Datum_append hv []
    rw [List.append_nil] at happend
    rw [h.typOid_eq, happend]
  have hincrement := increment_ends h.sketched v
  unfold Sketch.countValue
  rw [hhash, ok_bind]
  cases hrun : hashCountersIterate (sketchMd5Bytea md5 v) tv.sketch 0 incrementCounter with
  | error e =>
      rw [hrun] at hincrement
      refine .inr (.inr (.inr ⟨hincrement.1, ?_⟩))
      rw [List.length_append]
      exact hincrement.2.trans (Nat.le_add_right _ _)
  | ok counted =>
      rw [hrun] at hincrement
      have ⟨_, hcounts⟩ := hincrement
      have hbelow := hcounts.estimate_below v
      have hval : int64Max.toNat = 9223372036854775807 := rfl
      have hnat : (UInt64.ofNat (sizeT (estimate md5 (s ++ [v]) v : Int))).toNat =
          estimate md5 (s ++ [v]) v := by
        unfold sizeT
        rw [UInt64.toNat_ofNat']
        omega
      have hstores : Stores catalog (mfvInitialVarsize catalog maxMfvs typOid) s.flatten.length
          { tv with sketch := counted.1 } (FrequentList.listing maxMfvs (estimate md5) s) :=
        ⟨{ h.listed.slots with }, h.listed.next_eq, h.listed.cnts⟩
      have hlisted := hstores.listValue hzero (FrequentList.nodup_listing _ _ s)
        (h.maxMfvs_eq ▸ hmax) (h.typLen_eq ▸ hv)
        (UInt64.ofNat (sizeT (estimate md5 (s ++ [v]) v : Int)))
      have hflatten : (s ++ [v]).flatten.length = s.flatten.length + v.length := by simp
      rw [ok_bind, hcounts.count_estimate v, ok_bind]
      apply hlisted.imp
      · rintro e (⟨halloc, hlarge⟩ | ⟨hvar, hshort⟩)
        · exact .inr (.inl ⟨halloc, by rw [hflatten]; exact hlarge⟩)
        · exact .inr (.inr (.inl ⟨h.typLen_eq ▸ hvar, v, by simp, hshort⟩))
      · intro out ⟨hout, hkind⟩
        have hobserve : FrequentList.observe tv.maxMfvs (FrequentList.listing maxMfvs (estimate md5) s)
            v (estimate md5 (s ++ [v]) v) =
              FrequentList.listing maxMfvs (estimate md5) (s ++ [v]) := by
          rw [h.maxMfvs_eq, FrequentList.listing_snoc]
        rw [hnat, ← hflatten] at hout
        exact
          { typOid_eq := hkind.typOid_eq.trans h.typOid_eq
            typLen_eq := hkind.typLen_eq.trans h.typLen_eq
            maxMfvs_eq := hkind.maxMfvs_eq.trans h.maxMfvs_eq
            sketched := by
              rw [hkind.sketch_eq]
              exact hcounts
            listed := hobserve ▸ hout }

theorem mfvsketchTrans_ends (hzero : ZeroHeader catalog) (hmax : maxMfvs < 2147483648)
    {transblob : Option MfvTransval}
    (hblob : ∀ tv, transblob = some tv → MfvFollows catalog md5 typOid maxMfvs s tv)
    (hfirst : transblob = none → s = []) {newdatum : Option (List UInt8)}
    (hdatum : ∀ v ∈ newdatum.toList, IsDatum catalog (catalog.typlen typOid) v) :
    Ends (TrackFails catalog typOid maxMfvs (s ++ newdatum.toList))
      (MfvFollows catalog md5 typOid maxMfvs (s ++ newdatum.toList))
      (mfvsketchTrans catalog md5 typOid maxMfvs transblob newdatum) := by
  have hbegun : Ends (TrackFails catalog typOid maxMfvs (s ++ newdatum.toList))
      (MfvFollows catalog md5 typOid maxMfvs s)
      (begunTransval catalog typOid maxMfvs transblob) := by
    cases transblob with
    | none =>
        rw [hfirst rfl, begunTransval]
        cases hinit : mfvInitTransval catalog maxMfvs typOid with
        | error e => exact .inl hinit
        | ok tv => exact mfvInitTransval_follows (by omega) hinit
    | some tv => exact hblob tv rfl
  unfold mfvsketchTrans
  apply hbegun.bind
  intro tv htv
  cases newdatum with
  | none =>
      show MfvFollows catalog md5 typOid maxMfvs (s ++ []) tv
      rw [List.append_nil]
      exact htv
  | some v =>
      have hmem : v ∈ (some v).toList := List.mem_singleton.mpr rfl
      exact htv.countValue hzero hmax (hdatum v hmem)

theorem Alone.mono {t : List (List UInt8)} (h : Alone md5 t v) (hsub : s ⊆ t) : Alone md5 s v := by
  have ⟨i, hi⟩ := h
  exact ⟨i, fun w hw => hi w (hsub hw)⟩

/-- Without collisions the estimates are the counts. -/
theorem MfvFollows.tracked (h : MfvFollows catalog md5 typOid maxMfvs s tv)
    (halone : ∀ v ∈ s, Alone md5 s v) : MfvTracked catalog md5 typOid maxMfvs s tv where
  typOid_eq := h.typOid_eq
  typLen_eq := h.typLen_eq
  maxMfvs_eq := h.maxMfvs_eq
  sketched := h.sketched
  listed := by
    refine ⟨_, h.listed, FrequentList.tracks_listing fun t v ht => ?_⟩
    have hv : v ∈ s := ht.subset (List.mem_append_right t (List.mem_singleton.mpr rfl))
    rw [estimate_of_alone ((halone v hv).mono ht.subset), FrequentList.count_snoc, if_pos rfl]

/-- The run of a stream of arguments. -/
theorem mfvState_ends (hzero : ZeroHeader catalog) (hmax : maxMfvs < 2147483648)
    {args : List (Option (List UInt8))}
    (hdatum : ∀ v ∈ args.reduceOption, IsDatum catalog (catalog.typlen typOid) v) :
    Ends (TrackFails catalog typOid maxMfvs args.reduceOption)
      (fun blob => (∀ tv, blob = some tv →
          MfvFollows catalog md5 typOid maxMfvs args.reduceOption tv) ∧
        (blob = none → args.reduceOption = []))
      (mfvState catalog md5 typOid maxMfvs args) := by
  induction args using List.reverseRecOn with
  | nil => exact ⟨fun tv htv => absurd htv (by simp), fun _ => rfl⟩
  | append_singleton args newdatum ih =>
      have hreduce : (args ++ [newdatum]).reduceOption =
          args.reduceOption ++ newdatum.toList := by
        rw [List.reduceOption_append]
        cases newdatum <;> rfl
      have hsub : args.reduceOption ⊆ args.reduceOption ++ newdatum.toList :=
        List.subset_append_left _ _
      rw [hreduce] at hdatum ⊢
      have hbefore := ih fun v hv => hdatum v (hsub hv)
      unfold mfvState at hbefore ⊢
      rw [List.foldlM_append]
      have hfails : ∀ e, TrackFails catalog typOid maxMfvs args.reduceOption e →
          TrackFails catalog typOid maxMfvs (args.reduceOption ++ newdatum.toList) e := by
        intro e he
        cases newdatum with
        | none =>
            show TrackFails catalog typOid maxMfvs (args.reduceOption ++ []) e
            rwa [List.append_nil]
        | some v => exact he.snoc v
      apply (hbefore.imp hfails fun _ h => h).bind
      intro blob ⟨hfollows, hfirst⟩
      have hstep := mfvsketchTrans_ends hzero hmax hfollows hfirst
        fun v hv => hdatum v (List.mem_append_right _ hv)
      rw [List.foldlM_cons]
      simp only [List.foldlM_nil, bind_pure]
      apply hstep.bind
      intro tv htv
      exact ⟨fun tv' htv' => Option.some.inj htv' ▸ htv, fun hnone => by cases hnone⟩

/-- The digests of the values 5 and 7 of type `int4`. -/
def digests : Md5 := fun bytes i =>
  if bytes = [5, 0, 0, 0] then
    [203, 226, 61, 150, 85, 252, 205, 67, 17, 172, 221, 98, 97, 200, 27, 216].getD i 0
  else [115, 3, 240, 23, 254, 54, 159, 156, 229, 175, 99, 13, 169, 59, 168, 103].getD i 0

end Streams

end Madlib.Sketch
