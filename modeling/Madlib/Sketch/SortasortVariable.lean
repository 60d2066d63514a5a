import Madlib.Sketch.SortasortRuns

/-!
# The sortasort for types of variable length

Here the storage is all the bytes behind the directory, with whatever they held before anything was
copied to them: a comparison reads as many bytes as the datum has that is searched for, also behind
the last one that was stored.  A varlena has its size in its first bytes, so no other one is its
beginning.  A string is stored without the zero byte behind it, so every beginning of what is
stored is found.
-/

namespace Madlib.Sketch

open Madlib.Backend Madlib.Lib.MachineInt

/-- A sortasort with all `storage_sz` bytes of its storage. -/
structure SortasortBlock where
  capacity : Nat
  typLen : Int
  typByVal : Bool
  dir : List Nat
  storageCur : Nat
  storage : List UInt8
  deriving DecidableEq

namespace SortasortBlock

def numVals (b : SortasortBlock) : Nat := b.dir.length

/-- What the search and the comparison read, which is not limited by `storage_cur`. -/
def view (b : SortasortBlock) : Sortasort where
  capacity := b.capacity
  storageSz := b.storage.length + 1
  typLen := b.typLen
  typByVal := b.typByVal
  dir := b.dir
  data := b.storage

/-- `memcpy` to the storage, with the new entry of the directory. -/
def append (b : SortasortBlock) (datp : List UInt8) : SortasortBlock :=
  { b with
    dir := b.dir ++ [b.storageCur]
    storageCur := b.storageCur + datp.length
    storage := b.storage.take b.storageCur ++ datp ++ b.storage.drop (b.storageCur + datp.length) }

/-- The directory, sorted if it is time to. -/
def sortDir (catalog : Catalog) (b : SortasortBlock) : Except Fault (List Nat) :=
  if b.numVals % sortaSlop = 0 then qsortArg (sortaCmp catalog b.view) b.dir else .ok b.dir

/-- The datum is copied behind the others, and the directory sorted if it is time to. -/
def storeDatum (catalog : Catalog) (b : SortasortBlock) (datp : List UInt8) :
    Except Fault SortasortBlock :=
  let b := b.append datp
  if b.storage.length < b.storageCur then
    .error (.elog "went off the end of sortasort storage")
  else (b.sortDir catalog).map fun dir => { b with dir := dir }

def find (catalog : Catalog) (b : SortasortBlock) (dat : List UInt8) : Except Fault Int :=
  sortasortFind catalog b.view dat

/-- `sortasort_try_insert` -/
def tryInsert (catalog : Catalog) (b : SortasortBlock) (dat : List UInt8) (len : Int) :
    Except Fault (SortasortBlock × Int) := do
  let found ← b.find catalog dat
  if 0 ≤ found ∧ found < b.numVals then pure (b, 1)
  else do
    let len ← extractDatumLen catalog dat len
    if found < -1 ∨ (b.numVals : Int) ≤ found then
      .error (.elog s!"invalid offset {found} returned by sortasort_find")
    else if b.storage.length ≤ b.storageCur + len then pure (b, 0)
    else if b.capacity ≤ b.numVals then pure (b, -1)
    else do
      let datp ← readBytes dat len
      let b ← b.storeDatum catalog datp
      pure (b, 1)

/-- `sortasort_init` in a block whose bytes are left as they are. -/
def init (capacity : Nat) (typLen : Int) (typByVal : Bool) (storage : List UInt8) :
    Except Fault SortasortBlock :=
  if storage = [] then .error (.elog "sortasort initialized too small to hold its own directory")
  else .ok ⟨capacity, typLen, typByVal, [], 0, storage⟩

end SortasortBlock

/-! ## Values -/

/-- A string without its zero byte, or the bytes of a varlena. -/
def IsValue (catalog : Catalog) (typLen : Int) (v : List UInt8) : Prop :=
  if typLen = -2 then 0 ∉ v else IsDatum catalog typLen v

/-- The bytes behind a pointer to a value. -/
def pointee (typLen : Int) (v rest : List UInt8) : List UInt8 :=
  if typLen = -2 then v ++ 0 :: rest else v ++ rest

/-- The calls of `sortasort_try_insert` one after the other, with what each of them returns. -/
def insertValues (catalog : Catalog) (b : SortasortBlock) :
    List (List UInt8 × List UInt8) → Except Fault (SortasortBlock × List Int)
  | [] => .ok (b, [])
  | (v, rest) :: dats => do
      let (b, success) ← b.tryInsert catalog (pointee b.typLen v rest) b.typLen
      let (b, successes) ← insertValues catalog b dats
      pure (b, success :: successes)

/-- The values of the calls that returned `TRUE`. -/
def acceptedValues : List (List UInt8 × List UInt8) → List Int → List (List UInt8)
  | (v, _) :: dats, success :: successes =>
      if success = 1 then v :: acceptedValues dats successes else acceptedValues dats successes
  | _, _ => []

/-- The search finds the inserted values and no others, and each of them is stored once. -/
structure IsSetOfValues (catalog : Catalog) (b : SortasortBlock) (inserted : List (List UInt8)) :
    Prop where
  find : ∀ v rest, IsValue catalog b.typLen v →
    ∃ found, b.find catalog (pointee b.typLen v rest) = .ok found ∧
      (v ∈ inserted → 0 ≤ found ∧ found < b.numVals) ∧ (v ∉ inserted → found = -1)
  once : b.numVals = inserted.dedup.length

variable {catalog : Catalog} {b b' : SortasortBlock} {v rest : List UInt8}
  {inserted : List (List UInt8)}

/-! ## One call -/

theorem strlen_eq (h : 0 ∉ v) (rest : List UInt8) : strlen (v ++ 0 :: rest) = .ok v.length := by
  induction v with
  | nil => rfl
  | cons c v ih =>
      rw [List.mem_cons, not_or] at h
      rw [List.cons_append, strlen, if_neg (Ne.symm h.1), ih h.2]
      rfl

theorem extractDatumLen_pointee {typLen : Int} (h : IsValue catalog typLen v)
    (rest : List UInt8) : extractDatumLen catalog (pointee typLen v rest) typLen = .ok v.length := by
  unfold IsValue at h
  unfold pointee
  split_ifs at h ⊢ with hstring
  · subst hstring
    exact strlen_eq h rest
  · exact extractDatumLen_append h rest

theorem readBytes_pointee (typLen : Int) (v rest : List UInt8) :
    readBytes (pointee typLen v rest) v.length = .ok v := by
  unfold pointee
  split_ifs
  · exact readBytes_append v (0 :: rest)
  · exact readBytes_append v rest

/-- What a call does if the search tells what is in the set. -/
theorem tryInsert_of_isSet (h : IsSetOfValues catalog b inserted)
    (hv : IsValue catalog b.typLen v) (rest : List UInt8) :
    b.tryInsert catalog (pointee b.typLen v rest) b.typLen =
      if v ∈ inserted then .ok (b, 1)
      else if b.storage.length ≤ b.storageCur + v.length then .ok (b, 0)
      else if b.capacity ≤ b.numVals then .ok (b, -1)
      else (b.storeDatum catalog v).map (·, 1) := by
  obtain ⟨found, hfound, hin, hout⟩ := h.find v rest hv
  unfold SortasortBlock.tryInsert
  rw [hfound, ok_bind]
  by_cases hmem : v ∈ inserted
  · rw [if_pos hmem, if_pos (hin hmem)]
    rfl
  · have hnone := hout hmem
    rw [if_neg hmem, if_neg (by omega), extractDatumLen_pointee hv, ok_bind, if_neg (by omega)]
    split_ifs
    · rfl
    · rfl
    · rw [readBytes_pointee, ok_bind]
      cases b.storeDatum catalog v <;> rfl

/-! ## Datums that are not the beginning of one another -/

/-- Every value lies in front of `storage_cur`. -/
structure BlockOf (catalog : Catalog) (b : SortasortBlock) (inserted : List (List UInt8)) :
    Prop where
  typLen_eq : b.typLen = -1
  wellFormed : WellFormed catalog b.view
  cur : b.storageCur ≤ b.storage.length
  below : ∀ offset ∈ b.dir, offset + (valueAt catalog b.view offset).length ≤ b.storageCur
  mem : ∀ d, d ∈ values catalog b.view ↔ d ∈ inserted

theorem length_append_storage (hroom : b.storageCur + v.length ≤ b.storage.length) :
    (b.append v).storage.length = b.storage.length := by
  unfold SortasortBlock.append
  rw [List.length_append, List.length_append, List.length_take, List.length_drop]
  omega

/-- What lies in front of `storage_cur` is not written to. -/
theorem stored_append_block {offset : Nat} (hstored : Stored catalog b.view offset)
    (hcur : b.storageCur ≤ b.storage.length)
    (hbelow : offset + (valueAt catalog b.view offset).length ≤ b.storageCur) (v : List UInt8) :
    Stored catalog (b.append v).view offset ∧
      valueAt catalog (b.append v).view offset = valueAt catalog b.view offset := by
  obtain ⟨hle, rest, hdatum, hdrop⟩ := hstored
  have hfront : b.storage.take b.storageCur = (b.storage.take offset ++
      valueAt catalog b.view offset) ++
        ((b.storage.drop offset).drop (valueAt catalog b.view offset).length).take
          (b.storageCur - (offset + (valueAt catalog b.view offset).length)) := by
    have hbegins : b.storage.take offset ++ valueAt catalog b.view offset =
        b.storage.take (offset + (valueAt catalog b.view offset).length) := by
      rw [List.take_add]
      congr 1
      have hview : b.view.data = b.storage := rfl
      rw [← hview, hdrop, List.take_left]
    rw [hbegins, List.drop_drop, ← List.take_add]
    congr 1
    omega
  have hlen : (b.storage.take offset).length = offset := by
    rw [List.length_take]
    exact Nat.min_eq_left hle
  have hdrop' : ∃ rest', (b.append v).view.data.drop offset =
      valueAt catalog b.view offset ++ rest' := by
    change ∃ rest', (b.storage.take b.storageCur ++ v ++
      b.storage.drop (b.storageCur + v.length)).drop offset = valueAt catalog b.view offset ++ rest'
    rw [hfront]
    simp only [List.append_assoc]
    rw [List.drop_append_of_le_length hlen.ge, List.drop_eq_nil_of_le hlen.le, List.nil_append]
    exact ⟨_, rfl⟩
  obtain ⟨rest', hrest'⟩ := hdrop'
  have hval : valueAt catalog (b.append v).view offset = valueAt catalog b.view offset :=
    valueAt_eq hdatum hrest'
  refine ⟨⟨?_, rest', ?_, ?_⟩, hval⟩
  · change offset ≤ (b.storage.take b.storageCur ++ v ++ _).length
    rw [List.length_append, List.length_append, List.length_take]
    omega
  · rw [hval]
    exact hdatum
  · rw [hval]
    exact hrest'

theorem stored_end_block (hv : IsDatum catalog b.typLen v)
    (hcur : b.storageCur ≤ b.storage.length) :
    Stored catalog (b.append v).view b.storageCur ∧
      valueAt catalog (b.append v).view b.storageCur = v := by
  have hlen : (b.storage.take b.storageCur).length = b.storageCur := by
    rw [List.length_take]
    exact Nat.min_eq_left hcur
  have hdrop : (b.append v).view.data.drop b.storageCur =
      v ++ b.storage.drop (b.storageCur + v.length) := by
    change (b.storage.take b.storageCur ++ v ++ b.storage.drop (b.storageCur + v.length)).drop
      b.storageCur = _
    rw [List.append_assoc, List.drop_append_of_le_length hlen.ge, List.drop_eq_nil_of_le hlen.le,
      List.nil_append]
  have hval : valueAt catalog (b.append v).view b.storageCur = v := valueAt_eq hv hdrop
  refine ⟨⟨?_, b.storage.drop (b.storageCur + v.length), ?_, ?_⟩, hval⟩
  · change b.storageCur ≤ (b.storage.take b.storageCur ++ v ++ _).length
    rw [List.length_append, List.length_append, List.length_take]
    omega
  · rw [hval]
    exact hv
  · rw [hval]
    exact hdrop

theorem BlockOf.isSet (h : BlockOf catalog b inserted) : IsSetOfValues catalog b inserted where
  find v rest hv := by
    have hnot : ¬b.typLen = -2 := by rw [h.typLen_eq]; decide
    have hdatum : IsDatum catalog b.view.typLen v := by
      unfold IsValue at hv
      rwa [if_neg hnot] at hv
    obtain ⟨found, hfound, hspec⟩ := sortasortFind_spec h.wellFormed hdatum rest
    refine ⟨found, ?_, ?_, ?_⟩
    · unfold SortasortBlock.find pointee
      rw [if_neg hnot]
      exact hfound
    · intro hin
      rcases hspec with ⟨hlo, hhi, -⟩ | ⟨-, hout⟩
      · exact ⟨hlo, hhi⟩
      · exact absurd ((h.mem v).mpr hin) hout
    · intro hout
      rcases hspec with ⟨-, -, hat⟩ | ⟨hneg, -⟩
      · exact absurd ((h.mem v).mp (List.mem_of_getElem? hat)) hout
      · exact hneg
  once := by
    have hperm : (values catalog b.view).Perm inserted.dedup := by
      rw [List.perm_ext_iff_of_nodup h.wellFormed.distinct inserted.nodup_dedup]
      intro d
      rw [List.mem_dedup, h.mem]
    exact (length_values catalog b.view).symm.trans hperm.length_eq

/-- A new varlena becomes one of the set. -/
theorem BlockOf.store (h : BlockOf catalog b inserted) (hv : IsDatum catalog b.typLen v)
    (hnew : v ∉ inserted) (hroom : b.storageCur + v.length < b.storage.length) :
    ∃ b', b.storeDatum catalog v = .ok b' ∧ BlockOf catalog b' (v :: inserted) := by
  have hlen := length_append_storage hroom.le
  have hend := stored_end_block hv h.cur
  have hold : ∀ offset ∈ b.dir, Stored catalog (b.append v).view offset ∧
      valueAt catalog (b.append v).view offset = valueAt catalog b.view offset :=
    fun offset hoffset => stored_append_block (h.wellFormed.stored offset hoffset) h.cur
      (h.below offset hoffset) v
  have hstored : ∀ offset ∈ (b.append v).view.dir, Stored catalog (b.append v).view offset := by
    intro offset hoffset
    rcases List.mem_append.mp hoffset with hin | hlast
    · exact (hold offset hin).1
    · rw [List.mem_singleton.mp hlast]
      exact hend.1
  have hvalues : values catalog (b.append v).view = values catalog b.view ++ [v] := by
    unfold values
    change (b.dir ++ [b.storageCur]).map _ = b.dir.map _ ++ [v]
    rw [List.map_append, List.map_singleton, hend.2]
    congr 1
    exact List.map_congr_left fun offset hoffset => (hold offset hoffset).2
  have hsorted := h.wellFormed.sorted
  rw [← length_values catalog] at hsorted
  obtain ⟨dir, hdir, hdirPerm, hwf, hperm⟩ := sortDir_spec hstored hvalues
    (fun hmem => hnew ((h.mem v).mp hmem)) h.wellFormed.distinct hsorted
    (Nat.lt_succ_self (b.append v).storage.length)
  refine ⟨{ b.append v with dir := dir }, ?_, h.typLen_eq, hwf, ?_, ?_, ?_⟩
  · have hcur : ¬(b.append v).storage.length < (b.append v).storageCur := by
      rw [hlen]
      exact Nat.not_lt_of_le hroom.le
    have hdir' : (b.append v).sortDir catalog = .ok dir := hdir
    unfold SortasortBlock.storeDatum
    dsimp only
    rw [if_neg hcur, hdir']
    rfl
  · change (b.append v).storageCur ≤ (b.append v).storage.length
    rw [hlen]
    exact hroom.le
  · intro offset hoffset
    rcases List.mem_append.mp (hdirPerm.mem_iff.mp hoffset) with hin | hlast
    · have hbelow := h.below offset hin
      rw [← (hold offset hin).2] at hbelow
      exact hbelow.trans (Nat.le_add_right _ _)
    · rw [List.mem_singleton.mp hlast]
      exact (congrArg (b.storageCur + ·.length) hend.2).le
  · intro d
    have hmem : d ∈ v :: values catalog b.view ↔ d ∈ v :: inserted := by
      rw [List.mem_cons, List.mem_cons, h.mem]
    exact hperm.mem_iff.trans hmem

theorem BlockOf.tryInsert (h : BlockOf catalog b inserted) (hv : IsValue catalog b.typLen v)
    (rest : List UInt8) :
    ∃ b' success, b.tryInsert catalog (pointee b.typLen v rest) b.typLen = .ok (b', success) ∧
      BlockOf catalog b' (if success = 1 then v :: inserted else inserted) := by
  rw [tryInsert_of_isSet h.isSet hv]
  split_ifs with hmem hroom hcap
  · refine ⟨b, 1, rfl, ?_⟩
    rw [if_pos rfl]
    refine ⟨h.typLen_eq, h.wellFormed, h.cur, h.below, fun d => ?_⟩
    rw [h.mem, List.mem_cons]
    exact ⟨.inr, fun hd => hd.elim (fun heq => heq ▸ hmem) id⟩
  · exact ⟨b, 0, rfl, h⟩
  · exact ⟨b, -1, rfl, h⟩
  · have hdatum : IsDatum catalog b.typLen v := by
      unfold IsValue at hv
      rwa [if_neg (by rw [h.typLen_eq]; decide)] at hv
    obtain ⟨b', hstore, hb'⟩ := h.store hdatum hmem (Nat.lt_of_not_le hroom)
    rw [hstore]
    exact ⟨b', 1, rfl, hb'⟩

/-! ## Strings -/

/-- A beginning of what is stored is equal to it over its own length. -/
theorem memcmp_beginning (p x y : List UInt8) : memcmp (p ++ x) (p ++ y) p.length = .ok 0 := by
  induction p with
  | nil => rw [List.length_nil, memcmp]
  | cons c p ih => simpa [memcmp] using ih

/-- In front of a zero byte exactly the beginnings of a string are equal to it. -/
theorem memcmp_terminated {p : List UInt8} (hv : 0 ∉ v) (tail rest : List UInt8) :
    ∃ diff, memcmp (p ++ 0 :: tail) (v ++ 0 :: rest) v.length = .ok diff ∧
      (diff = 0 ↔ v <+: p) := by
  induction v generalizing p with
  | nil => exact ⟨0, by rw [List.length_nil, memcmp], iff_of_true rfl List.nil_prefix⟩
  | cons y v ih =>
      rw [List.mem_cons, not_or] at hv
      have hdiff : ∀ z : UInt8, z ≠ y → (z.toNat : Int) - y.toNat ≠ 0 := by
        intro z hz heq
        exact hz (UInt8.toNat_inj.mp (by omega))
      cases p with
      | nil =>
          refine ⟨(0 : UInt8).toNat - y.toNat, ?_, iff_of_false (hdiff 0 hv.1) (by simp)⟩
          simp [memcmp, hv.1]
      | cons z p =>
          by_cases hzy : z = y
          · subst hzy
            obtain ⟨diff, hmem, hiff⟩ := ih (p := p) hv.2
            refine ⟨diff, ?_, ?_⟩
            · simpa [memcmp] using hmem
            · rw [hiff, List.prefix_cons_inj]
          · refine ⟨z.toNat - y.toNat, ?_, iff_of_false (hdiff z hzy) ?_⟩
            · simp [memcmp, hzy]
            · rw [List.cons_prefix_cons]
              exact fun h => hzy h.1.symm

/-- What is not found is no beginning of any entry. -/
theorem findTail_none {s : Sortasort} {dat : List UInt8} {len : Nat} {is : List Nat}
    (h : findTail s dat len is = .ok (-1)) {i : Nat} (hi : i ∈ is) {x : List UInt8}
    (hx : getval s i = .ok x) : memcmp x dat len ≠ .ok 0 := by
  induction is with
  | nil => cases hi
  | cons j is ih =>
      rw [findTail] at h
      obtain ⟨y, hy, h⟩ := bind_eq_ok.mp h
      obtain ⟨diff, hdiff, h⟩ := bind_eq_ok.mp h
      split_ifs at h with hzero
      · have hneg := Except.ok.inj h
        omega
      · rcases List.mem_cons.mp hi with rfl | hi
        · rw [hx] at hy
          cases hy
          intro heq
          rw [hdiff] at heq
          exact hzero (Except.ok.inj heq)
        · exact ih h hi

/-- Entries for the same bytes. -/
theorem findTail_same {s : Sortasort} {dat x : List UInt8} {len : Nat} {is : List Nat} {diff : Int}
    (hget : ∀ i ∈ is, getval s i = .ok x) (hcmp : memcmp x dat len = .ok diff) :
    findTail s dat len is = .ok (if diff = 0 then (is.head?.map (Int.ofNat ·)).getD (-1) else -1) := by
  induction is with
  | nil =>
      rw [findTail]
      split_ifs <;> rfl
  | cons i is ih =>
      rw [findTail, hget i List.mem_cons_self, ok_bind, hcmp, ok_bind]
      split_ifs with hzero
      · rfl
      · rw [ih fun j hj => hget j (List.mem_cons_of_mem i hj), if_neg hzero]

/-- Fewer than `SORTA_SLOP` entries are searched one by one. -/
theorem find_few (hfew : b.numVals < sortaSlop) (hv : IsValue catalog b.typLen v)
    (rest : List UInt8) :
    b.find catalog (pointee b.typLen v rest) =
      findTail b.view (pointee b.typLen v rest) v.length (List.range b.numVals) := by
  have hnum : b.view.numVals = b.numVals := rfl
  have hlen : extractDatumLen catalog (pointee b.typLen v rest) b.view.typLen = .ok v.length :=
    extractDatumLen_pointee hv rest
  have hrun : Lib.Loop.run (bisect b.view (pointee b.typLen v rest) v.length)
      (b.numVals + 1) ⟨0, ((0 / 2 : Nat) : Int), ((0 : Nat) : Int) - 1⟩ = some (.ok none) := by
    rw [Lib.Loop.run, bisect, if_neg (by dsimp only; omega)]
    rfl
  unfold SortasortBlock.find sortasortFind
  rw [hnum, Nat.div_eq_of_lt hfew, Nat.zero_mul]
  dsimp only
  rw [hlen, ok_bind, if_neg (by omega), hrun, Nat.sub_zero, List.range_eq_range']

/-- The three contents a sortasort of strings is a set with: nothing, the empty string, and a
string of one byte behind the empty string, with a zero byte behind it in the storage. -/
inductive StringsOf (b : SortasortBlock) (inserted : List (List UInt8)) : Prop where
  | none (hdir : b.dir = []) (hcur : b.storageCur = 0) (hmem : ∀ v, v ∉ inserted)
  | empty (hdir : b.dir = [0]) (hcur : b.storageCur = 0) (tail : List UInt8)
      (hstorage : b.storage = 0 :: tail) (hmem : ∀ v, v ∈ inserted ↔ v = [])
  | one (hdir : b.dir = [0, 0]) (c : UInt8) (hc : c ≠ 0) (tail : List UInt8)
      (hstorage : b.storage = c :: 0 :: tail) (hcur : b.storageCur = 1)
      (hmem : ∀ v, v ∈ inserted ↔ v = [] ∨ v = [c])

theorem StringsOf.few (h : StringsOf b inserted) : b.numVals < sortaSlop := by
  unfold SortasortBlock.numVals
  cases h with
  | none hdir => rw [hdir]; decide
  | empty hdir => rw [hdir]; decide
  | one hdir => rw [hdir]; decide

theorem IsValue.zero_notMem (h : IsValue catalog (-2) v) : 0 ∉ v := by
  unfold IsValue at h
  rwa [if_pos rfl] at h

/-- The length of a list is that of its distinct members. -/
theorem length_dedup_of_mem {l k : List (List UInt8)} (hk : k.Nodup) (h : ∀ v, v ∈ l ↔ v ∈ k) :
    l.dedup.length = k.length := by
  have hperm : l.dedup.Perm k := by
    rw [List.perm_ext_iff_of_nodup l.nodup_dedup hk]
    intro v
    rw [List.mem_dedup, h]
  exact hperm.length_eq

theorem StringsOf.isSet (h : StringsOf b inserted) (htyp : b.typLen = -2) :
    IsSetOfValues catalog b inserted where
  find v rest hv := by
    rw [find_few h.few hv rest]
    rw [htyp] at hv ⊢
    have hzero := hv.zero_notMem
    have hdat : pointee (-2) v rest = v ++ 0 :: rest := if_pos rfl
    rw [hdat]
    unfold SortasortBlock.numVals
    cases h with
    | none hdir hcur hmem =>
        rw [hdir]
        exact ⟨-1, rfl, fun hin => absurd hin (hmem v), fun _ => rfl⟩
    | empty hdir hcur tail hstorage hmem =>
        have hget : ∀ i ∈ [0], getval b.view (i : Nat) = .ok ([] ++ 0 :: tail) := by
          simp [getval, SortasortBlock.view, hdir, hstorage]
        obtain ⟨diff, hcmp, hiff⟩ := memcmp_terminated (p := []) hzero tail rest
        rw [List.prefix_nil] at hiff
        rw [hmem, hdir, ← hiff]
        refine ⟨_, findTail_same hget hcmp, ?_, ?_⟩
        · intro heq
          rw [if_pos heq]
          decide
        · intro hne
          rw [if_neg hne]
    | one hdir c hc tail hstorage hcur hmem =>
        have hget : ∀ i ∈ [0, 1], getval b.view (i : Nat) = .ok ([c] ++ 0 :: tail) := by
          simp [getval, SortasortBlock.view, hdir, hstorage]
        obtain ⟨diff, hcmp, hiff⟩ := memcmp_terminated (p := [c]) hzero tail rest
        have hbegins : v <+: [c] ↔ v = [] ∨ v = [c] := by
          rw [List.prefix_cons_iff]
          simp
        rw [hmem, hdir, ← hbegins, ← hiff]
        refine ⟨_, findTail_same hget hcmp, ?_, ?_⟩
        · intro heq
          rw [if_pos heq]
          decide
        · intro hne
          rw [if_neg hne]
  once := by
    unfold SortasortBlock.numVals
    cases h with
    | none hdir hcur hmem =>
        rw [hdir, List.eq_nil_iff_forall_not_mem.mpr hmem]
        rfl
    | empty hdir hcur tail hstorage hmem =>
        have hsame : ∀ v, v ∈ inserted ↔ v ∈ [([] : List UInt8)] := by simp [hmem]
        rw [hdir, length_dedup_of_mem (List.nodup_singleton []) hsame]
        rfl
    | one hdir c hc tail hstorage hcur hmem =>
        have hnodup : [[], [c]].Nodup := by simp
        have hsame : ∀ v, v ∈ inserted ↔ v ∈ [[], [c]] := by simp [hmem]
        rw [hdir, length_dedup_of_mem hnodup hsame]
        rfl

theorem StringsOf.congr {other : List (List UInt8)} (h : StringsOf b inserted)
    (hsame : ∀ w, w ∈ other ↔ w ∈ inserted) : StringsOf b other := by
  cases h with
  | none hdir hcur hmem => exact .none hdir hcur fun w hw => hmem w ((hsame w).mp hw)
  | empty hdir hcur tail hstorage hmem =>
      exact .empty hdir hcur tail hstorage fun w => (hsame w).trans (hmem w)
  | one hdir c hc tail hstorage hcur hmem =>
      exact .one hdir c hc tail hstorage hcur fun w => (hsame w).trans (hmem w)

/-- What the claimed set excludes: the beginning of an entry that was not inserted. -/
theorem IsSetOfValues.mem_of_beginning (h : IsSetOfValues catalog b inserted)
    (htyp : b.typLen = -2) (hfew : b.numVals < sortaSlop) {i offset : Nat}
    (hdir : b.dir[i]? = some offset) {p x : List UInt8} (hdrop : b.storage.drop offset = p ++ x)
    (hp : 0 ∉ p) : p ∈ inserted := by
  by_contra hnot
  have hvalue : IsValue catalog b.typLen p := by
    unfold IsValue
    rwa [if_pos htyp]
  have hi : i < b.numVals := by
    rw [List.getElem?_eq_some_iff] at hdir
    exact hdir.1
  obtain ⟨found, hfound, -, hout⟩ := h.find p [] hvalue
  rw [hout hnot, find_few hfew hvalue] at hfound
  have hget : getval b.view (i : Nat) = .ok (p ++ x) := by
    have hdir' : b.view.dir[((i : Nat) : Int).toNat]? = some offset := hdir
    unfold getval
    rw [if_neg (by omega), hdir']
    exact congrArg Except.ok hdrop
  have hpointee : pointee b.typLen p [] = p ++ 0 :: [] := if_pos htyp
  rw [hpointee] at hfound
  exact findTail_none hfound (List.mem_range.mpr hi) hget (memcmp_beginning p x _)

/-- A byte that would make a longer string of an entry is a terminator. -/
theorem IsSetOfValues.eq_zero_behind (h : IsSetOfValues catalog b inserted)
    (htyp : b.typLen = -2) (hfew : b.numVals < sortaSlop) {i offset : Nat}
    (hdir : b.dir[i]? = some offset) {p x : List UInt8} {y : UInt8}
    (hdrop : b.storage.drop offset = p ++ y :: x) (hp : 0 ∉ p) (hlong : p ++ [y] ∉ inserted) :
    y = 0 := by
  by_contra hne
  have hdrop' : b.storage.drop offset = (p ++ [y]) ++ x := by
    rw [hdrop, List.append_assoc, List.singleton_append]
  have hfree : 0 ∉ p ++ [y] := by
    rw [List.mem_append, List.mem_singleton, not_or]
    exact ⟨hp, fun heq => hne heq.symm⟩
  exact hlong (h.mem_of_beginning htyp hfew hdir hdrop' hfree)

/-- The condition on the state before a call and on its string: it is refused or there already, or
it is the empty string for an empty sortasort, or a string of one byte after the empty one, each
with a zero byte behind it in the storage. -/
def KeepsSet (b : SortasortBlock) (inserted : List (List UInt8)) (v : List UInt8) : Prop :=
  v ∈ inserted ∨ b.storage.length ≤ b.storageCur + v.length ∨ b.capacity ≤ b.numVals ∨
    (b.numVals = 0 ∧ v = [] ∧ b.storage[0]? = some 0) ∨
    (b.numVals = 1 ∧ b.storageCur = 0 ∧ v.length = 1 ∧ b.storage[1]? = some 0)

theorem storeDatum_few (hfew : b.numVals + 1 < sortaSlop)
    (hroom : b.storageCur + v.length < b.storage.length) :
    b.storeDatum catalog v = .ok (b.append v) := by
  have hnum : (b.append v).numVals = b.numVals + 1 := List.length_append
  have hmod : ¬(b.append v).numVals % sortaSlop = 0 := by
    rw [hnum, Nat.mod_eq_of_lt hfew]
    exact Nat.succ_ne_zero _
  have hcur : ¬(b.append v).storage.length < (b.append v).storageCur := by
    rw [length_append_storage hroom.le]
    exact Nat.not_lt_of_le hroom.le
  unfold SortasortBlock.storeDatum SortasortBlock.sortDir
  dsimp only
  rw [if_neg hcur, if_neg hmod]
  rfl

theorem StringsOf.numVals_le (h : StringsOf b inserted) : b.numVals ≤ 2 := by
  unfold SortasortBlock.numVals
  cases h with
  | none hdir => rw [hdir]; decide
  | empty hdir => rw [hdir]; decide
  | one hdir => rw [hdir]; decide

/-- A stored string that leaves a set is one of the two. -/
theorem StringsOf.keeps_of_append (h : StringsOf b inserted) (htyp : b.typLen = -2)
    (hv : 0 ∉ v) (hnew : v ∉ inserted) (hroom : b.storageCur + v.length < b.storage.length)
    (hset : IsSetOfValues catalog (b.append v) (v :: inserted)) : KeepsSet b inserted v := by
  have hfew : (b.append v).numVals < sortaSlop := by
    have hle := h.numVals_le
    have hnum : (b.append v).numVals = b.numVals + 1 := List.length_append
    rw [hnum]
    exact Nat.lt_of_le_of_lt (Nat.succ_le_succ hle) (by decide)
  have hbegins : ∀ {i offset : Nat}, (b.append v).dir[i]? = some offset → ∀ {p x : List UInt8},
      (b.append v).storage.drop offset = p ++ x → 0 ∉ p → p = v ∨ p ∈ inserted :=
    fun hdir _ _ hdrop hp => List.mem_cons.mp (hset.mem_of_beginning htyp hfew hdir hdrop hp)
  cases h with
  | none hdir hcur hmem =>
      have hstorage : (b.append v).storage = v ++ b.storage.drop v.length := by
        simp [SortasortBlock.append, hcur]
      have hfirst : (b.append v).dir[0]? = some 0 := by
        simp [SortasortBlock.append, hdir, hcur]
      have hempty : v = [] := by
        have hnil := hbegins hfirst (p := []) (x := v ++ b.storage.drop v.length)
          (by rw [hstorage]; rfl) (by simp)
        exact (hnil.resolve_right (hmem [])).symm
      subst hempty
      rw [hcur, List.length_nil] at hroom
      obtain ⟨y, tail, hbytes⟩ := List.exists_cons_of_length_pos hroom
      refine .inr (.inr (.inr (.inl ⟨by rw [SortasortBlock.numVals, hdir]; rfl, rfl, ?_⟩)))
      have hlong : [] ++ [y] ∉ [] :: inserted := by
        rw [List.mem_cons, not_or]
        exact ⟨List.cons_ne_nil y [], hmem [y]⟩
      have hy := hset.eq_zero_behind htyp hfew hfirst (x := tail)
        (by rw [hstorage, hbytes]; rfl) List.not_mem_nil hlong
      rw [hbytes, List.getElem?_cons_zero, hy]
  | empty hdir hcur tail hstorage hmem =>
      have hnil : v ≠ [] := fun heq => hnew ((hmem v).mpr heq)
      obtain ⟨c, w, rfl⟩ := List.exists_cons_of_ne_nil hnil
      rw [List.mem_cons, not_or] at hv
      have hstorage' : (b.append (c :: w)).storage = c :: (w ++ tail.drop w.length) := by
        simp [SortasortBlock.append, hcur, hstorage]
      have hfirst : (b.append (c :: w)).dir[0]? = some 0 := by
        simp [SortasortBlock.append, hdir, hcur]
      have hc : (0 : UInt8) ∉ [c] := by
        rw [List.mem_singleton]
        exact hv.1
      have hone := hbegins hfirst (p := [c]) (x := w ++ tail.drop w.length)
        (by rw [hstorage']; rfl) hc
      have hw : w = [] := by
        rcases hone with heq | hin
        · exact ((List.cons.inj heq).2).symm
        · exact absurd ((hmem [c]).mp hin) (List.cons_ne_nil c [])
      subst hw
      rw [hcur, hstorage] at hroom
      obtain ⟨y, tail', rfl⟩ := List.exists_cons_of_length_pos (l := tail) (by simpa using hroom)
      refine .inr (.inr (.inr (.inr
        ⟨by rw [SortasortBlock.numVals, hdir]; rfl, hcur, rfl, ?_⟩)))
      have hlong : [c] ++ [y] ∉ [c] :: inserted := by
        rw [List.mem_cons, not_or, hmem]
        exact ⟨by simp, List.cons_ne_nil c [y]⟩
      have hy := hset.eq_zero_behind htyp hfew hfirst (x := tail')
        (by rw [hstorage']; rfl) hc hlong
      rw [hstorage, hy]
      rfl
  | one hdir c hc tail hstorage hcur hmem =>
      have hstorage' : (b.append v).storage = (c :: v) ++ (0 :: tail).drop v.length := by
        simp [SortasortBlock.append, hcur, hstorage, Nat.add_comm 1]
      have hfirst : (b.append v).dir[0]? = some 0 := by
        simp [SortasortBlock.append, hdir]
      have hlong : (0 : UInt8) ∉ c :: v := by
        rw [List.mem_cons, not_or]
        exact ⟨hc.symm, hv⟩
      have hnot := hbegins hfirst (p := c :: v) (x := (0 :: tail).drop v.length)
        (by rw [hstorage']; rfl) hlong
      rcases hnot with heq | hin
      · exact absurd heq (List.cons_ne_self c v)
      · rcases (hmem _).mp hin with heq | heq
        · exact absurd heq (List.cons_ne_nil c v)
        · exact absurd ((hmem v).mpr (.inl (List.cons.inj heq).2)) hnew

/-- One of the two strings leaves a set. -/
theorem StringsOf.append (h : StringsOf b inserted) (hv : 0 ∉ v)
    (hstring : (b.numVals = 0 ∧ v = [] ∧ b.storage[0]? = some 0) ∨
      (b.numVals = 1 ∧ b.storageCur = 0 ∧ v.length = 1 ∧ b.storage[1]? = some 0)) :
    StringsOf (b.append v) (v :: inserted) := by
  cases h with
  | none hdir hcur hmem =>
      have hnum : b.numVals = 0 := by rw [SortasortBlock.numVals, hdir]; rfl
      obtain ⟨-, rfl, hzero⟩ := hstring.resolve_right fun hone => by omega
      obtain ⟨hpos, hget⟩ := List.getElem?_eq_some_iff.mp hzero
      obtain ⟨y, tail, hbytes⟩ := List.exists_cons_of_length_pos hpos
      have hy : y = 0 := by simpa [hbytes] using hget
      refine .empty ?_ ?_ tail ?_ ?_
      · simp [SortasortBlock.append, hdir, hcur]
      · simp [SortasortBlock.append, hcur]
      · simp [SortasortBlock.append, hcur, hbytes, hy]
      · intro w
        rw [List.mem_cons]
        exact ⟨fun hw => hw.resolve_right (hmem w), .inl⟩
  | empty hdir hcur tail hstorage hmem =>
      have hnum : b.numVals = 1 := by rw [SortasortBlock.numVals, hdir]; rfl
      obtain ⟨-, -, hlen, hzero⟩ := hstring.resolve_left fun hnone => by omega
      obtain ⟨c, rfl⟩ := List.length_eq_one_iff.mp hlen
      have hc : c ≠ 0 := fun heq => hv (List.mem_singleton.mpr heq.symm)
      rw [hstorage, List.getElem?_cons_succ] at hzero
      obtain ⟨hpos, hget⟩ := List.getElem?_eq_some_iff.mp hzero
      obtain ⟨y, tail', rfl⟩ := List.exists_cons_of_length_pos hpos
      have hy : y = 0 := by simpa using hget
      refine .one ?_ c hc tail' ?_ ?_ ?_
      · simp [SortasortBlock.append, hdir, hcur]
      · simp [SortasortBlock.append, hcur, hstorage, hy]
      · simp [SortasortBlock.append, hcur]
      · intro w
        rw [List.mem_cons, hmem]
        exact or_comm
  | one hdir c hc tail hstorage hcur hmem =>
      have hnum : b.numVals = 2 := by rw [SortasortBlock.numVals, hdir]; rfl
      omega

theorem StringsOf.tryInsert (h : StringsOf b inserted) (htyp : b.typLen = -2)
    (hv : IsValue catalog b.typLen v) (rest : List UInt8) (hkeeps : KeepsSet b inserted v) :
    ∃ b' success, b.tryInsert catalog (pointee b.typLen v rest) b.typLen = .ok (b', success) ∧
      b'.typLen = -2 ∧ StringsOf b' (if success = 1 then v :: inserted else inserted) := by
  have hzero : 0 ∉ v := by
    rw [htyp] at hv
    exact hv.zero_notMem
  rw [tryInsert_of_isSet (h.isSet htyp) hv]
  split_ifs with hmem hroom hcap
  · refine ⟨b, 1, rfl, htyp, h.congr fun w => ?_⟩
    rw [if_pos rfl, List.mem_cons]
    exact ⟨fun hw => hw.elim (fun heq => heq ▸ hmem) id, .inr⟩
  · exact ⟨b, 0, rfl, htyp, h⟩
  · exact ⟨b, -1, rfl, htyp, h⟩
  · have hfew : b.numVals + 1 < sortaSlop :=
      Nat.lt_of_le_of_lt (Nat.succ_le_succ h.numVals_le) (by decide)
    rw [storeDatum_few hfew (Nat.lt_of_not_le hroom)]
    have hstring := ((hkeeps.resolve_left hmem).resolve_left hroom).resolve_left hcap
    exact ⟨b.append v, 1, rfl, htyp, h.append hzero hstring⟩

/-- A call that leaves a set meets the condition. -/
theorem StringsOf.keeps_of_tryInsert (h : StringsOf b inserted) (htyp : b.typLen = -2)
    (hv : IsValue catalog b.typLen v) {success : Int}
    (hcall : b.tryInsert catalog (pointee b.typLen v rest) b.typLen = .ok (b', success))
    (hset : IsSetOfValues catalog b' (if success = 1 then v :: inserted else inserted)) :
    KeepsSet b inserted v := by
  have hzero : 0 ∉ v := by
    rw [htyp] at hv
    exact hv.zero_notMem
  rw [tryInsert_of_isSet (h.isSet htyp) hv] at hcall
  split_ifs at hcall with hmem hroom hcap
  · exact .inl hmem
  · exact .inr (.inl hroom)
  · exact .inr (.inr (.inl hcap))
  · have hfew : b.numVals + 1 < sortaSlop :=
      Nat.lt_of_le_of_lt (Nat.succ_le_succ h.numVals_le) (by decide)
    have hroom' := Nat.lt_of_not_le hroom
    rw [storeDatum_few hfew hroom'] at hcall
    cases hcall
    exact h.keeps_of_append htyp hzero hmem hroom' hset

/-! ## Runs -/

theorem IsSetOfValues.congr {other : List (List UInt8)} (h : IsSetOfValues catalog b inserted)
    (hsame : ∀ w, w ∈ other ↔ w ∈ inserted) : IsSetOfValues catalog b other where
  find v rest hv := by
    simp only [hsame]
    exact h.find v rest hv
  once := by
    have hdedup : ∀ w, w ∈ other ↔ w ∈ inserted.dedup := by simp [hsame]
    rw [length_dedup_of_mem inserted.nodup_dedup hdedup]
    exact h.once

theorem KeepsSet.congr {other : List (List UInt8)} (h : KeepsSet b inserted v)
    (hsame : ∀ w, w ∈ other ↔ w ∈ inserted) : KeepsSet b other v := by
  unfold KeepsSet at h ⊢
  rwa [hsame]

theorem BlockOf.congr {other : List (List UInt8)} (h : BlockOf catalog b inserted)
    (hsame : ∀ w, w ∈ other ↔ w ∈ inserted) : BlockOf catalog b other :=
  ⟨h.typLen_eq, h.wellFormed, h.cur, h.below, fun d => (h.mem d).trans (hsame d).symm⟩

/-- The first value comes before or behind the others. -/
theorem mem_acceptedValues_cons (v rest : List UInt8) (dats : List (List UInt8 × List UInt8))
    (success : Int) (successes : List Int) (inserted : List (List UInt8)) (w : List UInt8) :
    w ∈ acceptedValues ((v, rest) :: dats) (success :: successes) ++ inserted ↔
      w ∈ acceptedValues dats successes ++ (if success = 1 then v :: inserted else inserted) := by
  have hcons : acceptedValues ((v, rest) :: dats) (success :: successes) =
      if success = 1 then v :: acceptedValues dats successes
      else acceptedValues dats successes := rfl
  rw [hcons]
  split_ifs
  · simp only [List.cons_append, List.mem_cons, List.mem_append]
    exact or_left_comm
  · rfl

theorem insertValues_cons {dats : List (List UInt8 × List UInt8)} {success : Int}
    (hcall : b.tryInsert catalog (pointee b.typLen v rest) b.typLen = .ok (b', success)) :
    insertValues catalog b ((v, rest) :: dats) =
      (insertValues catalog b' dats).map fun run => (run.1, success :: run.2) := by
  rw [insertValues, hcall, ok_bind]
  dsimp only
  cases insertValues catalog b' dats <;> rfl

/-- The calls return, and the sortasort is the set of the values they accepted. -/
def SetAfter (catalog : Catalog) (b : SortasortBlock) (inserted : List (List UInt8))
    (dats : List (List UInt8 × List UInt8)) : Prop :=
  ∃ b' successes, insertValues catalog b dats = .ok (b', successes) ∧
    IsSetOfValues catalog b' (acceptedValues dats successes ++ inserted)

/-- Every call meets the condition in the state before it. -/
def EachKeepsSet (catalog : Catalog) (b : SortasortBlock) (inserted : List (List UInt8))
    (dats : List (List UInt8 × List UInt8)) : Prop :=
  ∀ pre v rest post, dats = pre ++ (v, rest) :: post → ∀ b' successes,
    insertValues catalog b pre = .ok (b', successes) →
      KeepsSet b' (acceptedValues pre successes ++ inserted) v

theorem setAfter_cons {dats : List (List UInt8 × List UInt8)} {success : Int}
    (hcall : b.tryInsert catalog (pointee b.typLen v rest) b.typLen = .ok (b', success)) :
    SetAfter catalog b inserted ((v, rest) :: dats) ↔
      SetAfter catalog b' (if success = 1 then v :: inserted else inserted) dats := by
  unfold SetAfter
  rw [insertValues_cons hcall]
  constructor
  · rintro ⟨last, successes, hrun, hset⟩
    cases hrest : insertValues catalog b' dats with
    | error e =>
        rw [hrest] at hrun
        cases hrun
    | ok run =>
        rw [hrest] at hrun
        cases hrun
        exact ⟨run.1, run.2, rfl,
          hset.congr fun w => (mem_acceptedValues_cons v rest dats _ _ inserted w).symm⟩
  · rintro ⟨last, successes, hrun, hset⟩
    refine ⟨last, success :: successes, by rw [hrun]; rfl, hset.congr ?_⟩
    exact mem_acceptedValues_cons v rest dats _ _ inserted

theorem eachKeepsSet_cons {dats : List (List UInt8 × List UInt8)} {success : Int}
    (hcall : b.tryInsert catalog (pointee b.typLen v rest) b.typLen = .ok (b', success)) :
    EachKeepsSet catalog b inserted ((v, rest) :: dats) ↔ KeepsSet b inserted v ∧
      EachKeepsSet catalog b' (if success = 1 then v :: inserted else inserted) dats := by
  constructor
  · intro h
    refine ⟨h [] v rest dats rfl b [] rfl, ?_⟩
    rintro pre w rest' post rfl last successes hrun
    have hkeeps := h ((v, rest) :: pre) w rest' post rfl last (success :: successes)
      (by rw [insertValues_cons hcall, hrun]; rfl)
    exact hkeeps.congr fun d => (mem_acceptedValues_cons v rest pre _ _ inserted d).symm
  · rintro ⟨hfirst, hrest⟩ pre w rest' post hsplit last successes hrun
    cases pre with
    | nil =>
        cases hsplit
        cases hrun
        exact hfirst
    | cons d pre =>
        rw [List.cons_append, List.cons.injEq] at hsplit
        obtain ⟨rfl, rfl⟩ := hsplit
        rw [insertValues_cons hcall] at hrun
        cases hpre : insertValues catalog b' pre with
        | error e =>
            rw [hpre] at hrun
            cases hrun
        | ok run =>
            rw [hpre] at hrun
            cases hrun
            exact (hrest pre w rest' post rfl _ _ hpre).congr
              (mem_acceptedValues_cons v rest pre _ _ inserted)

/-- Strings are a set all the time exactly if every call meets the condition. -/
theorem StringsOf.setAfter_iff {dats : List (List UInt8 × List UInt8)}
    (h : StringsOf b inserted) (htyp : b.typLen = -2)
    (hdats : ∀ d ∈ dats, IsValue catalog (-2) d.1) :
    (∀ pre, pre <+: dats → SetAfter catalog b inserted pre) ↔
      EachKeepsSet catalog b inserted dats := by
  induction dats generalizing b inserted with
  | nil =>
      constructor
      · intro _ pre v rest post hsplit
        simp at hsplit
      · intro _ pre hpre
        rw [List.prefix_nil.mp hpre]
        exact ⟨b, [], rfl, h.isSet htyp⟩
  | cons d dats ih =>
      obtain ⟨v, rest⟩ := d
      have hv : IsValue catalog b.typLen v := by
        rw [htyp]
        exact hdats (v, rest) List.mem_cons_self
      have hrest : ∀ d ∈ dats, IsValue catalog (-2) d.1 :=
        fun d hd => hdats d (List.mem_cons_of_mem _ hd)
      constructor
      · intro hall
        have hfirst := hall [(v, rest)] (by simp)
        have hkeeps : KeepsSet b inserted v := by
          cases hcall : b.tryInsert catalog (pointee b.typLen v rest) b.typLen with
          | error e =>
              obtain ⟨_, _, hrun, _⟩ := hfirst
              rw [insertValues, hcall] at hrun
              cases hrun
          | ok run =>
              obtain ⟨last, successes, hrun, hset⟩ := (setAfter_cons hcall).mp hfirst
              cases hrun
              exact h.keeps_of_tryInsert htyp hv hcall hset
        obtain ⟨b', success, hcall, htyp', h'⟩ := h.tryInsert htyp hv rest hkeeps
        refine (eachKeepsSet_cons hcall).mpr ⟨hkeeps, (ih h' htyp' hrest).mp ?_⟩
        intro pre hpre
        exact (setAfter_cons hcall).mp (hall _ (List.cons_prefix_cons.mpr ⟨rfl, hpre⟩))
      · intro heach
        have hkeeps : KeepsSet b inserted v := heach [] v rest dats rfl b [] rfl
        obtain ⟨b', success, hcall, htyp', h'⟩ := h.tryInsert htyp hv rest hkeeps
        have hall := (ih h' htyp' hrest).mpr ((eachKeepsSet_cons hcall).mp heach).2
        intro pre hpre
        rcases pre with _ | ⟨d, pre⟩
        · exact ⟨b, [], rfl, h.isSet htyp⟩
        · rw [List.cons_prefix_cons] at hpre
          obtain ⟨rfl, hpre⟩ := hpre
          exact (setAfter_cons hcall).mpr (hall pre hpre)

/-- Varlenas are a set all the time. -/
theorem BlockOf.setAfter {dats : List (List UInt8 × List UInt8)} (h : BlockOf catalog b inserted)
    (hdats : ∀ d ∈ dats, IsValue catalog (-1) d.1) : SetAfter catalog b inserted dats := by
  induction dats generalizing b inserted with
  | nil => exact ⟨b, [], rfl, h.isSet⟩
  | cons d dats ih =>
      obtain ⟨v, rest⟩ := d
      have hv : IsValue catalog b.typLen v := by
        rw [h.typLen_eq]
        exact hdats (v, rest) List.mem_cons_self
      obtain ⟨b', success, hcall, h'⟩ := h.tryInsert hv rest
      exact (setAfter_cons hcall).mpr (ih h' fun d hd => hdats d (List.mem_cons_of_mem _ hd))

/-- Whatever is inserted, a sortasort of varlenas is the set of what it accepted.  One of strings
is after every call exactly if the condition is met before every call. -/
theorem insertValues_setAfter_iff (catalog : Catalog) {typLen : Int}
    (htyp : typLen = -1 ∨ typLen = -2) {capacity : Nat} {typByVal : Bool} {storage : List UInt8}
    {b₀ : SortasortBlock} (hinit : SortasortBlock.init capacity typLen typByVal storage = .ok b₀)
    {dats : List (List UInt8 × List UInt8)} (hdats : ∀ d ∈ dats, IsValue catalog typLen d.1) :
    (∀ pre, pre <+: dats → SetAfter catalog b₀ [] pre) ↔
      typLen = -1 ∨ EachKeepsSet catalog b₀ [] dats := by
  unfold SortasortBlock.init at hinit
  split_ifs at hinit with hstorage
  cases hinit
  rcases htyp with rfl | rfl
  · refine iff_of_true (fun pre hpre => ?_) (.inl rfl)
    have hblock : BlockOf catalog ⟨capacity, -1, typByVal, [], 0, storage⟩ [] :=
      ⟨rfl, ⟨nofun, List.nodup_nil, by simp [values, SortasortBlock.view], Nat.lt_succ_self _⟩,
        Nat.zero_le _, nofun, fun d => Iff.rfl⟩
    exact hblock.setAfter fun d hd => hdats d (hpre.subset hd)
  · have hstrings : StringsOf ⟨capacity, -2, typByVal, [], 0, storage⟩ [] :=
      .none rfl rfl fun v => List.not_mem_nil
    rw [hstrings.setAfter_iff rfl hdats, or_iff_right (by decide)]

/-- The size of a varlena in the 4 bytes of its header, least significant first, above two bits
that are flags. -/
def varsize4B (x : List UInt8) : Option Nat :=
  if x.length < 4 then none else some (ofLeBytes (x.take 4) / 4)

theorem varsize4B_append (d rest : List UInt8) (h : varsize4B d = some d.length) :
    varsize4B (d ++ rest) = some d.length := by
  unfold varsize4B at h ⊢
  split_ifs at h with hshort
  rw [List.length_append, if_neg (by omega), List.take_append_of_le_length (by omega)]
  exact h

/-- Types of variable length. -/
def varlenaCatalog : Catalog where
  typlen _ := -1
  typbyval _ := false
  typOutput _ := 0
  varsizeAny := varsize4B
  varsizeAny_append := varsize4B_append

theorem eachKeepsSet_nil (catalog : Catalog) (b : SortasortBlock)
    (inserted : List (List UInt8)) : EachKeepsSet catalog b inserted [] := by
  intro pre v rest post hsplit
  simp at hsplit

/-- Two varlenas of which one has the first bytes of the other, and the empty string with a string
of one byte behind it. -/
theorem insertValues_setAfter_iff_two :
    (∀ pre, pre <+: [([20, 0, 0, 0, 97], []), ([24, 0, 0, 0, 97, 98], [])] →
      SetAfter varlenaCatalog ⟨10, -1, false, [], 0, List.replicate 50 7⟩ [] pre) ∧
    ∀ pre, pre <+: [([], []), ([97], [])] →
      SetAfter varlenaCatalog ⟨10, -2, false, [], 0, List.replicate 50 0⟩ [] pre := by
  have hvarlena : SortasortBlock.init 10 (-1) false (List.replicate 50 7) =
      .ok ⟨10, -1, false, [], 0, List.replicate 50 7⟩ := rfl
  have hstring : SortasortBlock.init 10 (-2) false (List.replicate 50 0) =
      .ok ⟨10, -2, false, [], 0, List.replicate 50 0⟩ := rfl
  have hfirst : (⟨10, -2, false, [], 0, List.replicate 50 0⟩ : SortasortBlock).tryInsert
      varlenaCatalog (pointee (-2) [] []) (-2) =
        .ok (⟨10, -2, false, [0], 0, List.replicate 50 0⟩, 1) := rfl
  have hsecond : (⟨10, -2, false, [0], 0, List.replicate 50 0⟩ : SortasortBlock).tryInsert
      varlenaCatalog (pointee (-2) [97] []) (-2) =
        .ok (⟨10, -2, false, [0, 0], 1, 97 :: List.replicate 49 0⟩, 1) := rfl
  constructor
  · exact (insertValues_setAfter_iff varlenaCatalog (.inl rfl) hvarlena
      (by simp [IsValue, IsDatum, varlenaCatalog, varsize4B, ofLeBytes])).mpr (.inl rfl)
  · refine (insertValues_setAfter_iff varlenaCatalog (.inr rfl) hstring
      (by simp [IsValue])).mpr (.inr ?_)
    refine (eachKeepsSet_cons hfirst).mpr ⟨?_, (eachKeepsSet_cons hsecond).mpr
      ⟨?_, eachKeepsSet_nil _ _ _⟩⟩
    · exact .inr (.inr (.inr (.inl ⟨rfl, rfl, rfl⟩)))
    · exact .inr (.inr (.inr (.inr ⟨rfl, rfl, rfl, rfl⟩)))

/-- After "ab" the search finds "a". -/
theorem insertValues_finds_beginning : ¬∀ (storage : List UInt8) (b₀ : SortasortBlock)
    (dats : List (List UInt8 × List UInt8)),
    SortasortBlock.init 10 (-2) false storage = .ok b₀ →
    (∀ d ∈ dats, IsValue varlenaCatalog (-2) d.1) → SetAfter varlenaCatalog b₀ [] dats := by
  intro h
  obtain ⟨b, successes, hrun, hset⟩ := h (List.replicate 50 0)
    ⟨10, -2, false, [], 0, List.replicate 50 0⟩ [([97, 98], [])] rfl (by simp [IsValue])
  have hcall : insertValues varlenaCatalog ⟨10, -2, false, [], 0, List.replicate 50 0⟩
      [([97, 98], [])] =
        .ok (⟨10, -2, false, [0], 2, [97, 98] ++ List.replicate 48 0⟩, [1]) := rfl
  rw [hcall] at hrun
  cases hrun
  have hmem := hset.mem_of_beginning rfl (by decide) (i := 0) rfl (p := [97])
    (x := 98 :: List.replicate 48 0) rfl (by decide)
  simp [acceptedValues] at hmem

end Madlib.Sketch
