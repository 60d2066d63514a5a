import Madlib.Sketch.MfvSketch

/-!
# Values in slots

Once values have been replaced, the values of a transition value no longer lie one behind
the other: a shorter value goes into the slot of the one it replaces, a longer one into
new space.  What stays is that every entry's slot holds its value, that the slots do not
overlap, and that the space behind them is zero.
-/

namespace Madlib.Sketch

open Madlib.Backend Madlib.Lib.MachineInt

/-- The offset of entry `i`. -/
def MfvTransval.offsetAt (tv : MfvTransval) (i : Nat) : Nat :=
  (tv.mfvs[i]?.map OffsetCnt.offset).getD 0

/-- The entries have slots for these values.  The space was begun with `init` bytes, header
included, and `total` bytes of values were stored into it. -/
structure Slots (catalog : Catalog) (init total : Nat) (tv : MfvTransval)
    (vals : List (List UInt8)) : Prop where
  length_mfvs : tv.mfvs.length = tv.maxMfvs
  le_max : vals.length ≤ tv.maxMfvs
  isDatum : ∀ v ∈ vals, IsDatum catalog tv.typLen v
  varsize_le : tv.varsize ≤ maxAllocSize
  header_le : mfvTransvalSz tv.maxMfvs ≤ init
  growth : tv.varsize + 4 ≤ 2 * init + 3 * total
  empty : vals = [] → tv.varsize = init ∧ tv.offsetAt 0 = 0
  zeros : ∃ used free, tv.space = used ++ List.replicate free 0 ∧
    tv.nextOffset = tv.valuesStart + used.length ∧ used.length ≤ total
  slot : ∀ i v, vals[i]? = some v → tv.valuesStart ≤ tv.offsetAt i ∧
    tv.offsetAt i + v.length ≤ tv.nextOffset ∧
    v <+: tv.space.drop (tv.offsetAt i - tv.valuesStart)
  apart : ∀ i j u v, i ≠ j → vals[i]? = some u → vals[j]? = some v →
    tv.offsetAt i + u.length ≤ tv.offsetAt j ∨ tv.offsetAt j + v.length ≤ tv.offsetAt i

/-- The two differ in where their values lie, and in nothing else. -/
structure SameHeader (tv out : MfvTransval) : Prop where
  eq : out = { tv with mfvs := out.mfvs, space := out.space, nextOffset := out.nextOffset }
  cnts : out.mfvs.map OffsetCnt.cnt = tv.mfvs.map OffsetCnt.cnt

/-! ## Bytes in a buffer -/

section Buffer

variable {v w used rest rest' space : List UInt8} {pos pos' : Nat}

theorem prefix_drop_of_append (rest : List UInt8) (hle : pos + w.length ≤ used.length)
    (h : w <+: (used ++ rest).drop pos) : w <+: (used ++ rest').drop pos := by
  rw [List.drop_append_of_le_length (by omega)] at h ⊢
  have hused : w <+: used.drop pos := by
    apply List.prefix_of_prefix_length_le h (List.prefix_append _ _)
    rw [List.length_drop]
    omega
  exact hused.trans (List.prefix_append _ _)

theorem prefix_overwrite_before (hle : pos' + w.length ≤ pos) (hpos : pos ≤ space.length)
    (h : w <+: space.drop pos') : w <+: (space.take pos ++ rest).drop pos' := by
  apply prefix_drop_of_append (space.drop pos)
  · rw [List.length_take]
    omega
  · rwa [List.take_append_drop]

theorem drop_overwrite_after (hle : pos + v.length ≤ pos') (hpos : pos ≤ space.length) :
    (space.take pos ++ (v ++ space.drop (pos + v.length))).drop pos' = space.drop pos' := by
  have hlength : (space.take pos ++ v).length = pos + v.length := by
    rw [List.length_append, List.length_take]
    omega
  rw [← List.append_assoc, List.drop_append, List.drop_eq_nil_of_le (by omega), List.nil_append,
    List.drop_drop, hlength]
  congr 1
  omega

theorem overwrite_eq (hle : pos + v.length ≤ used.length) (free : Nat) :
    overwrite (used ++ List.replicate free 0) pos v =
      .ok ((used.take pos ++ (v ++ used.drop (pos + v.length))) ++ List.replicate free 0) := by
  unfold overwrite
  rw [if_neg (by rw [List.length_append]; omega), List.take_append_of_le_length (by omega),
    List.drop_append_of_le_length (by omega)]
  simp

end Buffer

/-- A list with a new element in place `i`, or behind it. -/
theorem getElem?_put {α : Type} {l : List α} {i : Nat} (hi : i ≤ l.length) (a : α) (j : Nat) :
    (l.take i ++ a :: l.drop (i + 1))[j]? = if j = i then some a else l[j]? := by
  have hlength : (l.take i).length = i := by
    rw [List.length_take]
    omega
  rcases Nat.lt_trichotomy j i with hlt | heq | hgt
  · rw [List.getElem?_append_left (by omega), List.getElem?_take, if_pos hlt, if_neg hlt.ne]
  · rw [heq, List.getElem?_append_right (by omega), hlength, Nat.sub_self, if_pos rfl]
    rfl
  · rw [List.getElem?_append_right (by omega), hlength, if_neg hgt.ne']
    have hsucc : j - i = (j - i - 1) + 1 := by omega
    rw [hsucc, List.getElem?_cons_succ, List.getElem?_drop]
    congr 1
    omega

/-- Where one entry is changed, the others stay apart: it is only compared with them. -/
theorem apart_changed {offset offset' : Nat → Nat} {vals vals' : List (List UInt8)} {i p : Nat}
    {v : List UInt8} (hvals : ∀ j, vals'[j]? = if j = i then some v else vals[j]?)
    (hoffset : ∀ j, offset' j = if j = i then p else offset j)
    (hold : ∀ j k a b, j ≠ k → vals[j]? = some a → vals[k]? = some b →
      offset j + a.length ≤ offset k ∨ offset k + b.length ≤ offset j)
    (hnew : ∀ j w, j ≠ i → vals[j]? = some w →
      p + v.length ≤ offset j ∨ offset j + w.length ≤ p) :
    ∀ j k a b, j ≠ k → vals'[j]? = some a → vals'[k]? = some b →
      offset' j + a.length ≤ offset' k ∨ offset' k + b.length ≤ offset' j := by
  intro j k a b hjk ha hb
  rw [hvals] at ha hb
  rw [hoffset, hoffset]
  by_cases hj : j = i
  · have hk : k ≠ i := fun heq => hjk (hj.trans heq.symm)
    rw [if_pos hj] at ha
    rw [if_neg hk] at hb
    rw [if_pos hj, if_neg hk, ← Option.some.inj ha]
    exact hnew k b hk hb
  · rw [if_neg hj] at ha
    rw [if_neg hj]
    by_cases hk : k = i
    · rw [if_pos hk] at hb
      rw [if_pos hk, ← Option.some.inj hb]
      exact (hnew j a hj ha).symm
    · rw [if_neg hk] at hb
      rw [if_neg hk]
      exact hold j k a b hjk ha hb

/-! ## Reading and writing a slot -/

section Store

variable {catalog : Catalog} {init total : Nat} {tv : MfvTransval} {vals : List (List UInt8)}
  {u v : List UInt8} {i : Nat}

theorem offsetAt_eq {entry : OffsetCnt} (h : tv.mfvs[i]? = some entry) :
    tv.offsetAt i = entry.offset := by
  unfold MfvTransval.offsetAt
  rw [h]
  rfl

theorem offsetAt_setOffset (hi : i < tv.mfvs.length) (offset j : Nat) :
    (tv.setOffset i offset).offsetAt j = if j = i then offset else tv.offsetAt j := by
  unfold MfvTransval.offsetAt MfvTransval.setOffset
  dsimp only
  rw [List.getElem?_modify]
  by_cases hj : j = i
  · subst hj
    rw [List.getElem?_eq_getElem hi]
    simp
  · simp [hj, Ne.symm hj]

theorem offsetAt_setCnt (cnt : UInt64) (j : Nat) :
    (tv.setCnt i cnt).offsetAt j = tv.offsetAt j := by
  unfold MfvTransval.offsetAt MfvTransval.setCnt
  dsimp only
  rw [List.getElem?_modify]
  cases tv.mfvs[j]? with
  | none => rfl
  | some entry =>
      by_cases hj : i = j
      · simp [hj]
      · simp [hj]

theorem cnts_setOffset (i offset : Nat) :
    (tv.setOffset i offset).mfvs.map OffsetCnt.cnt = tv.mfvs.map OffsetCnt.cnt := by
  unfold MfvTransval.setOffset
  dsimp only
  apply List.ext_getElem?
  intro j
  rw [List.getElem?_map, List.getElem?_map, List.getElem?_modify]
  cases tv.mfvs[j]? with
  | none => rfl
  | some entry =>
      by_cases hj : i = j
      · simp [hj]
      · simp [hj]

theorem Slots.entry (h : Slots catalog init total tv vals) (hi : i < tv.maxMfvs) :
    ∃ entry, tv.mfvs[i]? = some entry ∧ tv.offsetAt i = entry.offset := by
  have hlt : i < tv.mfvs.length := by
    rw [h.length_mfvs]
    exact hi
  exact ⟨_, List.getElem?_eq_getElem hlt, offsetAt_eq (List.getElem?_eq_getElem hlt)⟩

/-- The value of a slot is found where its entry says. -/
theorem Slots.getval (h : Slots catalog init total tv vals) (hv : vals[i]? = some v)
    (hi : i ≤ tv.nextMfv) :
    mfvTransvalGetval catalog tv i = .ok (tv.offsetAt i - tv.valuesStart) ∧
      ∃ rest, tv.space.drop (tv.offsetAt i - tv.valuesStart) = v ++ rest := by
  have hlt : i < vals.length := (List.getElem?_eq_some_iff.mp hv).1
  have hdatum := h.isDatum v (List.mem_of_getElem? hv)
  have ⟨entry, hentry, hoffset⟩ := h.entry (hlt.trans_le h.le_max)
  have ⟨hstart, _, rest, hrest⟩ := h.slot i v hv
  rw [hoffset] at hstart hrest ⊢
  have hvalue : tv.valueAt catalog entry = v := by
    unfold MfvTransval.valueAt
    dsimp only
    rw [← hrest, extractDatumLen_append hdatum]
    exact List.take_left
  exact ⟨(getval_eq hentry hi hstart (hvalue ▸ hdatum)).1, rest, hrest.symm⟩

theorem Slots.weaken {total' : Nat} (h : Slots catalog init total tv vals) (hle : total ≤ total') :
    Slots catalog init total' tv vals :=
  { h with
    growth := by
      have hgrowth := h.growth
      omega
    zeros := by
      have ⟨used, free, hspace, hnext, hused⟩ := h.zeros
      exact ⟨used, free, hspace, hnext, hused.trans hle⟩ }

theorem varsize_congr (out tv : MfvTransval) (hmax : out.maxMfvs = tv.maxMfvs)
    (hspace : out.space.length = tv.space.length) : out.varsize = tv.varsize := by
  unfold MfvTransval.varsize
  rw [hmax, hspace]

/-- The slots once a shorter value is written into one of them. -/
theorem Slots.overwritten (h : Slots catalog init total tv vals) (hu : vals[i]? = some u)
    (hv : IsDatum catalog tv.typLen v) (hle : v.length ≤ u.length) {used : List UInt8} {free : Nat}
    (hspace : tv.space = used ++ List.replicate free 0)
    (hnext : tv.nextOffset = tv.valuesStart + used.length) (hused : used.length ≤ total) :
    Slots catalog init total
      { tv with
        space := (used.take (tv.offsetAt i - tv.valuesStart) ++
          (v ++ used.drop (tv.offsetAt i - tv.valuesStart + v.length))) ++ List.replicate free 0 }
      (vals.set i v) := by
  have ⟨hstart, hend, _⟩ := h.slot i u hu
  have hlt : i < vals.length := (List.getElem?_eq_some_iff.mp hu).1
  have hlength : (used.take (tv.offsetAt i - tv.valuesStart) ++
      (v ++ used.drop (tv.offsetAt i - tv.valuesStart + v.length))).length = used.length := by
    rw [List.length_append, List.length_append, List.length_take, List.length_drop]
    omega
  have hwritten : (used.take (tv.offsetAt i - tv.valuesStart) ++
      (v ++ used.drop (tv.offsetAt i - tv.valuesStart + v.length))) ++ List.replicate free 0 =
        tv.space.take (tv.offsetAt i - tv.valuesStart) ++
          (v ++ tv.space.drop (tv.offsetAt i - tv.valuesStart + v.length)) := by
    rw [hspace, List.take_append_of_le_length (by omega), List.drop_append_of_le_length (by omega)]
    simp
  have hinside : tv.offsetAt i - tv.valuesStart ≤ tv.space.length := by
    rw [hspace, List.length_append]
    omega
  have hsize := varsize_congr
    { tv with
      space := (used.take (tv.offsetAt i - tv.valuesStart) ++
        (v ++ used.drop (tv.offsetAt i - tv.valuesStart + v.length))) ++ List.replicate free 0 }
    tv rfl (by rw [List.length_append, hlength, hspace, List.length_append])
  exact
    { length_mfvs := h.length_mfvs
      le_max := by
        rw [List.length_set]
        exact h.le_max
      isDatum := by
        intro w hw
        rcases List.mem_or_eq_of_mem_set hw with hw | hw
        · exact h.isDatum w hw
        · rw [hw]
          exact hv
      varsize_le := hsize ▸ h.varsize_le
      header_le := h.header_le
      growth := by
        rw [hsize]
        exact h.growth
      empty := by
        intro hnil
        rw [List.set_eq_nil_iff] at hnil
        rw [hnil] at hlt
        cases hlt
      zeros := ⟨_, free, rfl, by rw [hlength]; exact hnext, by rw [hlength]; exact hused⟩
      slot := by
        intro j w hw
        rw [List.getElem?_set] at hw
        dsimp only
        rw [hwritten]
        by_cases hj : i = j
        · rw [if_pos hj, if_pos hlt] at hw
          rw [← hj, ← Option.some.inj hw]
          refine ⟨hstart, le_trans (Nat.add_le_add_left hle _) hend, ?_⟩
          show v <+: List.drop (tv.offsetAt i - tv.valuesStart) _
          rw [List.drop_left' (by rw [List.length_take]; omega)]
          exact List.prefix_append _ _
        · rw [if_neg hj] at hw
          have ⟨hstart', hend', hprefix⟩ := h.slot j w hw
          refine ⟨hstart', hend', ?_⟩
          show w <+: List.drop (tv.offsetAt j - tv.valuesStart) _
          rcases h.apart i j u w hj hu hw with hafter | hbefore
          · rw [drop_overwrite_after (by omega) hinside]
            exact hprefix
          · exact prefix_overwrite_before (by omega) hinside hprefix
      apart := by
        have hset : ∀ j, (vals.set i v)[j]? = if j = i then some v else vals[j]? := by
          intro j
          rw [List.getElem?_set, if_pos hlt]
          exact if_congr eq_comm rfl rfl
        have hsame : ∀ j, tv.offsetAt j = if j = i then tv.offsetAt i else tv.offsetAt j := by
          intro j
          split_ifs with hj
          · rw [hj]
          · rfl
        refine apart_changed hset hsame h.apart fun j w hj hw => ?_
        have hold := h.apart i j u w hj.symm hu hw
        omega }

/-- A shorter value goes into the slot of the value it replaces. -/
theorem Slots.copyDatum (h : Slots catalog init total tv vals) (hu : vals[i]? = some u)
    (hi : i ≤ tv.nextMfv) (hv : IsDatum catalog tv.typLen v) (hle : v.length ≤ u.length) :
    ∃ out, mfvCopyDatum catalog tv i v = .ok out ∧ Slots catalog init total out (vals.set i v) ∧
      SameHeader tv out := by
  have ⟨hget, _⟩ := h.getval hu hi
  have ⟨hstart, hend, _⟩ := h.slot i u hu
  have ⟨used, free, hspace, hnext, hused⟩ := h.zeros
  have hfits : tv.offsetAt i - tv.valuesStart + v.length ≤ used.length := by omega
  have hwrite := overwrite_eq hfits free
  have hread : readBytes v v.length = .ok v := by simpa using readBytes_append v []
  rw [← hspace] at hwrite
  refine ⟨_, ?_, h.overwritten hu hv hle hspace hnext hused, ⟨rfl, rfl⟩⟩
  unfold mfvCopyDatum
  rw [extractDatumLen_self hv, ok_bind, hget, ok_bind, hread, ok_bind, hwrite, ok_bind]
  rfl

/-! ## New space -/

/-- Why a value is not stored: the request for room is refused, or the value is shorter than
the header that is read where it goes. -/
def StoreFails (init total : Nat) (typLen : Int) (v : List UInt8) (e : Fault) : Prop :=
  (e = .elog "invalid memory alloc request size" ∧ maxAllocSize < 2 * init + 3 * total) ∨
    (typLen = -1 ∧ v.length < 4)

theorem capacity_eq {used : List UInt8} {free : Nat} (hsize : tv.varsize ≤ maxAllocSize)
    (hspace : tv.space = used ++ List.replicate free 0)
    (hnext : tv.nextOffset = tv.valuesStart + used.length) : tv.capacity = free := by
  have hmax : maxAllocSize = 1073741823 := rfl
  have hstart := valuesStart_add tv
  have hvarsize : tv.varsize = mfvTransvalSz tv.maxMfvs + (used.length + free) := by
    unfold MfvTransval.varsize
    rw [hspace, List.length_append, List.length_replicate]
  have heq : (tv.varsize : Int) - 4 - tv.nextOffset = free := by omega
  unfold MfvTransval.capacity
  rw [heq, uint32_of_mem (by omega)]

/-- The space that a copy has twice begins at the first entry's value; before there is one,
at the top. -/
theorem Slots.doubled_le (h : Slots catalog init total tv vals) {used : List UInt8} {free : Nat}
    (hspace : tv.space = used ++ List.replicate free 0)
    (hnext : tv.nextOffset = tv.valuesStart + used.length) (hused : used.length ≤ total)
    {n : Nat} (hroom : free < n) :
    tv.offsetAt 0 + 4 ≤ tv.varsize ∧
      tv.varsize + (tv.varsize - (tv.offsetAt 0 + 4)) + n + 4 ≤ 2 * init + 3 * (total + n) := by
  have hheader := h.header_le
  have hstart := valuesStart_add tv
  have hvarsize : tv.varsize = mfvTransvalSz tv.maxMfvs + (used.length + free) := by
    unfold MfvTransval.varsize
    rw [hspace, List.length_append, List.length_replicate]
  have hsmall : 65572 ≤ mfvTransvalSz tv.maxMfvs := Nat.le_add_right _ _
  cases hvals : vals with
  | nil =>
      have ⟨hbegan, hoffset⟩ := h.empty hvals
      omega
  | cons v vals =>
      have ⟨hfirst, hend, _⟩ := h.slot 0 v (by rw [hvals]; rfl)
      omega

theorem enlargedFor_eq {first : OffsetCnt} (h : tv.mfvs[0]? = some first) (n : Nat) :
    enlargedFor tv n =
      (palloc (tv.varsize + uint32 ((tv.varsize : Int) - first.offset - 4) + n) >>= fun _ =>
        pure { tv with
          space := tv.space ++
            List.replicate (uint32 ((tv.varsize : Int) - first.offset - 4) + n) 0 }) := by
  unfold enlargedFor
  cases hmfvs : tv.mfvs with
  | nil =>
      rw [hmfvs] at h
      cases h
  | cons entry rest =>
      rw [hmfvs] at h
      have hentry : entry = first := Option.some.inj h
      rw [hentry]

theorem Slots.roomFor (h : Slots catalog init total tv vals) (hpos : 0 < tv.maxMfvs)
    {used : List UInt8} {free : Nat} (hspace : tv.space = used ++ List.replicate free 0)
    (hnext : tv.nextOffset = tv.valuesStart + used.length) (hused : used.length ≤ total)
    (n : Nat) :
    Ends (fun e => e = .elog "invalid memory alloc request size" ∧
        maxAllocSize < 2 * init + 3 * (total + n))
      (fun out => ∃ free', n ≤ free' ∧
        out = { tv with space := used ++ List.replicate free' 0 } ∧
        out.varsize ≤ maxAllocSize ∧ out.varsize + 4 ≤ 2 * init + 3 * (total + n))
      (Sketch.roomFor tv n) := by
  have hsize := h.varsize_le
  have hgrowth := h.growth
  have hmax : maxAllocSize = 1073741823 := rfl
  unfold Sketch.roomFor
  rw [capacity_eq hsize hspace hnext]
  by_cases hroom : free < n
  · have ⟨hfirst, hdouble⟩ := h.doubled_le hspace hnext hused hroom
    have ⟨entry, hentry, hoffset⟩ := h.entry hpos
    have hcur : uint32 ((tv.varsize : Int) - entry.offset - 4) =
        tv.varsize - (tv.offsetAt 0 + 4) := by
      have heq : (tv.varsize : Int) - entry.offset - 4 =
          ((tv.varsize - (tv.offsetAt 0 + 4) : Nat) : Int) := by omega
      rw [heq, uint32_of_mem (by omega)]
    rw [if_pos hroom, enlargedFor_eq hentry, hcur]
    generalize tv.varsize - (tv.offsetAt 0 + 4) = curspace at hdouble ⊢
    by_cases hlarge : maxAllocSize < tv.varsize + curspace + n
    · rw [palloc_error hlarge]
      exact ⟨rfl, by omega⟩
    · have hnew : ({ tv with space := used ++ List.replicate (free + (curspace + n)) 0 } :
          MfvTransval).varsize = tv.varsize + curspace + n := by
        unfold MfvTransval.varsize
        rw [hspace]
        simp only [List.length_append, List.length_replicate]
        omega
      rw [palloc_ok (Nat.le_of_not_lt hlarge), ok_bind, hspace, List.append_assoc,
        List.replicate_append_replicate]
      refine ⟨free + (curspace + n), by omega, rfl, ?_⟩
      rw [hnew]
      omega
  · rw [if_neg hroom]
    refine ⟨free, Nat.le_of_not_lt hroom, ?_, hsize, by omega⟩
    rw [← hspace]

/-- The slots once a value is written behind them and entry `i` points to it. -/
theorem Slots.put (h : Slots catalog init total tv vals) (hi : i ≤ vals.length)
    (hlt : i < tv.maxMfvs) (hv : IsDatum catalog tv.typLen v) {used : List UInt8} {free : Nat}
    (hnext : tv.nextOffset = tv.valuesStart + used.length)
    (hspace : ∃ free', tv.space = used ++ List.replicate free' 0) (hused : used.length ≤ total)
    (hsize : mfvTransvalSz tv.maxMfvs + (used.length + v.length + free) ≤ maxAllocSize)
    (hgrowth : mfvTransvalSz tv.maxMfvs + (used.length + v.length + free) + 4 ≤
      2 * init + 3 * (total + v.length)) :
    Slots catalog init (total + v.length)
      { tv.setOffset i tv.nextOffset with
        space := used ++ v ++ List.replicate free 0
        nextOffset := tv.nextOffset + v.length }
      (vals.take i ++ v :: vals.drop (i + 1)) := by
  have ⟨free', hspace⟩ := hspace
  have hlength : i < tv.mfvs.length := by
    rw [h.length_mfvs]
    exact hlt
  have hoffset := offsetAt_setOffset hlength tv.nextOffset
  have hvarsize : (MfvTransval.varsize { tv.setOffset i tv.nextOffset with
      space := used ++ v ++ List.replicate free 0
      nextOffset := tv.nextOffset + v.length }) =
        mfvTransvalSz tv.maxMfvs + (used.length + v.length + free) := by
    show mfvTransvalSz tv.maxMfvs + _ = _
    rw [List.length_append, List.length_append, List.length_replicate]
  exact
    { length_mfvs := by
        show (tv.mfvs.modify _ _).length = tv.maxMfvs
        rw [List.length_modify]
        exact h.length_mfvs
      le_max := by
        have hle := h.le_max
        rw [List.length_append, List.length_cons, List.length_take, List.length_drop]
        show _ ≤ tv.maxMfvs
        omega
      isDatum := by
        intro w hw
        rcases List.mem_append.mp hw with hw | hw
        · exact h.isDatum w (List.mem_of_mem_take hw)
        · rcases List.mem_cons.mp hw with hw | hw
          · rw [hw]
            exact hv
          · exact h.isDatum w (List.mem_of_mem_drop hw)
      varsize_le := by
        rw [hvarsize]
        exact hsize
      header_le := h.header_le
      growth := by
        rw [hvarsize]
        exact hgrowth
      empty := by
        intro hnil
        exact absurd hnil (by simp)
      zeros := by
        refine ⟨used ++ v, free, rfl, ?_, ?_⟩
        · show tv.nextOffset + v.length = tv.valuesStart + _
          rw [hnext, List.length_append]
          omega
        · rw [List.length_append]
          omega
      slot := by
        intro j w hw
        rw [getElem?_put hi] at hw
        show tv.valuesStart ≤ (tv.setOffset i tv.nextOffset).offsetAt j ∧
          (tv.setOffset i tv.nextOffset).offsetAt j + _ ≤ tv.nextOffset + v.length ∧
          w <+: List.drop ((tv.setOffset i tv.nextOffset).offsetAt j - tv.valuesStart) _
        rw [hoffset]
        by_cases hj : j = i
        · rw [if_pos hj] at hw
          rw [if_pos hj, ← Option.some.inj hw]
          refine ⟨by omega, le_refl _, ?_⟩
          rw [List.append_assoc, List.drop_left' (by omega)]
          exact List.prefix_append _ _
        · rw [if_neg hj] at hw
          have ⟨hstart, hend, hprefix⟩ := h.slot j w hw
          rw [if_neg hj]
          refine ⟨hstart, by omega, ?_⟩
          rw [List.append_assoc]
          rw [hspace] at hprefix
          exact prefix_drop_of_append _ (by omega) hprefix
      apart := by
        refine apart_changed (getElem?_put hi v) hoffset h.apart fun j w _ hw => ?_
        exact .inr (h.slot j w hw).2.1 }

theorem Slots.insertAt (hzero : ZeroHeader catalog) (h : Slots catalog init total tv vals)
    (hi : i ≤ vals.length) (hlt : i < tv.maxMfvs) (hnext : i ≤ tv.nextMfv)
    (hv : IsDatum catalog tv.typLen v) :
    Ends (StoreFails init (total + v.length) tv.typLen v)
      (fun out => Slots catalog init (total + v.length) out
          (vals.take i ++ v :: vals.drop (i + 1)) ∧ SameHeader tv out)
      (mfvTransvalInsertAt catalog tv v i) := by
  have ⟨used, free, hspace, hoffset, hused⟩ := h.zeros
  unfold mfvTransvalInsertAt
  rw [extractDatumLen_self hv, ok_bind, if_neg (Nat.not_lt.mpr hnext)]
  have hroom := h.roomFor (Nat.zero_lt_of_lt hlt) hspace hoffset hused v.length
  cases hrun : Sketch.roomFor tv v.length with
  | error e =>
      rw [hrun] at hroom
      exact .inl hroom
  | ok tv' =>
      rw [hrun] at hroom
      have ⟨free', hle, htv', hsize, hgrowth⟩ := hroom
      have ⟨entry, hentry, _⟩ := h.entry hlt
      have hpointed : (tv'.setOffset i tv'.nextOffset).mfvs[i]? =
          some ⟨(tv'.setOffset i tv'.nextOffset).valuesStart + used.length, entry.cnt⟩ := by
        rw [htv']
        show (tv.mfvs.modify i _)[i]? = _
        rw [List.getElem?_modify, hentry]
        simp [hoffset, MfvTransval.setOffset, MfvTransval.valuesStart]
      have hvarsize : tv'.varsize = mfvTransvalSz tv.maxMfvs + (used.length + free') := by
        rw [htv']
        show mfvTransvalSz tv.maxMfvs + _ = _
        rw [List.length_append, List.length_replicate]
      have hmax : maxAllocSize = 1073741823 := rfl
      have hstart := valuesStart_add tv
      have hput := h.put hi hlt hv hoffset ⟨free, hspace⟩ hused
        (show mfvTransvalSz tv.maxMfvs + (used.length + v.length + (free' - v.length)) ≤ _ by omega)
        (by omega)
      have hcopy : Ends (fun _ => tv.typLen = -1 ∧ v.length < 4)
          (fun out => out = { tv.setOffset i tv.nextOffset with
            space := used ++ v ++ List.replicate (free' - v.length) 0 })
          (mfvCopyDatum catalog (tv'.setOffset i tv'.nextOffset) i (v ++ [])) := by
        have hfresh := mfvCopyDatum_fresh hzero hpointed (by rw [htv']; exact hnext)
          (by rw [htv']; rfl) (by rw [htv']; exact hv) hle []
        rw [htv'] at hfresh ⊢
        exact hfresh
      have hwrap : uint32 ((tv.nextOffset : Int) + v.length) = tv.nextOffset + v.length := by
        have heq : (tv.nextOffset : Int) + v.length = ((tv.nextOffset + v.length : Nat) : Int) := by
          omega
        rw [heq, uint32_of_mem (by omega)]
      rw [List.append_nil] at hcopy
      rw [ok_bind]
      cases hcopied : mfvCopyDatum catalog (tv'.setOffset i tv'.nextOffset) i v with
      | error e =>
          rw [hcopied] at hcopy
          exact .inr hcopy
      | ok out =>
          rw [hcopied] at hcopy
          have hout : out = _ := hcopy
          rw [ok_bind, hout]
          show Slots _ _ _ { tv.setOffset i tv.nextOffset with
              space := used ++ v ++ List.replicate (free' - v.length) 0
              nextOffset := uint32 ((tv.nextOffset : Int) + v.length) } _ ∧ SameHeader tv _
          rw [hwrap]
          exact ⟨hput, rfl, cnts_setOffset i tv.nextOffset⟩

end Store

end Madlib.Sketch
