import Madlib.Cart.IntArray
import Madlib.Lib.Bitmap
import Madlib.Lib.MachineInt

/-!
# Features to split a node by

`dt_get_node_split_fids` chooses features that no ancestor of a node uses: as many as requested,
drawn at random, or all that are left.  A bitmap has a bit for each feature, and the counter of the
features that are left is also the index the last loop stores at.
-/

namespace Madlib.Cart

open Madlib.Backend Madlib.Lib.Bitmap Madlib.Lib.MachineInt

def powerUint32 : Nat := 5

/-- `dt_fid_mask` -/
def dtFidMask (val : Int) (power : Nat) : BitVec 32 :=
  1#32 <<< (val - ((val >>> power) <<< power)).toNat

/-- `bitmap[val >> power_uint32] & dt_fid_mask(val, power_uint32)` -/
def maskedWord (bitmap : List (BitVec 32)) (val : Int) : Except Fault (BitVec 32) := do
  let word ← readAt bitmap (val >>> powerUint32)
  pure (word &&& dtFidMask val powerUint32)

/-- `bitmap[val >> power_uint32] |= dt_fid_mask(val, power_uint32)` -/
def markFeature (bitmap : List (BitVec 32)) (val : Int) : Except Fault (List (BitVec 32)) := do
  let word ← readAt bitmap (val >>> powerUint32)
  writeAt bitmap (val >>> powerUint32) (word ||| dtFidMask val powerUint32)

/-- `n_bitmap` -/
def nBitmap (numFeatures : Int) : Nat :=
  uint32 (toInt32 (toInt32 (numFeatures + 32) - 1) >>> powerUint32)

structure Remaining where
  bitmap : List (BitVec 32)
  nRemainFids : Int

/-- The bitmap with the features of the ancestors, and how many features are left. -/
def remainingFids (numFeatures : Int) (dpFids : Option IntArray) : Except Fault Remaining := do
  palloc (nBitmap numFeatures * 4)
  let bitmap := List.replicate (nBitmap numFeatures) 0#32
  match dpFids with
  | none => pure ⟨bitmap, numFeatures⟩
  | some array => do
      dtCheckError (1 = array.ndim)
        (s!"invalid array dimension: {array.ndim}. " ++
          "The dimension of the array must be equal to 1")
      dtCheckError (array.data.length ≤ numFeatures) s!"invalid array length: {array.data.length}"
      let bitmap ←
        array.data.foldlM (fun bitmap fid => markFeature bitmap (toInt32 (fid - 1))) bitmap
      pure ⟨bitmap, numFeatures - array.data.length⟩

structure Draw where
  fid : Int
  draws : List Nat

/-- The retry loop, with what `random` returns; it does not end when all of that is used up. -/
def drawFeature (numFeatures : Int) (bitmap : List (BitVec 32)) : List Nat → Except Fault Draw
  | [] => .error .unfinished
  | draw :: draws => do
      let fid := Int.tmod draw numFeatures
      let bit ← maskedWord bitmap fid
      if 0#32 < bit then drawFeature numFeatures bitmap draws else pure ⟨fid, draws⟩

structure Sampling where
  bitmap : List (BitVec 32)
  result : List Int
  draws : List Nat

/-- The round `i` of the loop that samples. -/
def sampleRound (numFeatures : Int) (s : Sampling) (i : Nat) : Except Fault Sampling := do
  let draw ← drawFeature numFeatures s.bitmap s.draws
  let result ← writeAt s.result i (draw.fid + 1)
  let bitmap ← markFeature s.bitmap draw.fid
  pure ⟨bitmap, result, draw.draws⟩

structure Taking where
  result : List Int
  nRemainFids : Int

/-- The round `i` of the loop that takes all features. -/
def takeRound (bitmap : List (BitVec 32)) (s : Taking) (i : Nat) : Except Fault Taking := do
  let bit ← maskedWord bitmap i
  if 0#32 = bit then do
    let result ← writeAt s.result (s.nRemainFids - 1) (i + 1)
    pure ⟨result, s.nRemainFids - 1⟩
  else pure s

structure Chosen where
  numReqFeatures : Int
  result : List Int

/-- The length of the result. -/
def resultLength (numReqFeatures nRemainFids : Int) : Int :=
  if nRemainFids > numReqFeatures then numReqFeatures
  else if nRemainFids ≠ 0 then nRemainFids
  else 1

def chooseFids (numReqFeatures numFeatures : Int) (remaining : Remaining) (draws : List Nat) :
    Except Fault Chosen := do
  palloc (sizeT (resultLength numReqFeatures remaining.nRemainFids * 8))
  let result := List.replicate (resultLength numReqFeatures remaining.nRemainFids).toNat 0
  if remaining.nRemainFids > numReqFeatures then do
    let s ← (List.range numReqFeatures.toNat).foldlM (sampleRound numFeatures)
      ⟨remaining.bitmap, result, draws⟩
    pure ⟨numReqFeatures, s.result⟩
  else if 0 = remaining.nRemainFids then do
    let result ← writeAt result 0 1
    pure ⟨1, result⟩
  else do
    let s ← (List.range numFeatures.toNat).foldlM (takeRound remaining.bitmap)
      ⟨result, remaining.nRemainFids⟩
    dtCheckError (0 = s.nRemainFids)
      s!"the number of random chosen features is wrong, total:{s.nRemainFids}"
    pure ⟨remaining.nRemainFids, s.result⟩

/-- `dt_get_node_split_fids` -/
def dtGetNodeSplitFids (numReqFeatures numFeatures nid : Option Int) (dpFids : Option IntArray)
    (draws : List Nat) : Except Fault IntArray := do
  let numReqFeatures := numReqFeatures.getD 0
  let numFeatures := numFeatures.getD 0
  let nid := nid.getD 0
  dtCheckError (numReqFeatures > 0 ∧ numFeatures > 0 ∧ nid > 0)
    "the first three arguments can not be null"
  let remaining ← remainingFids numFeatures dpFids
  let chosen ← chooseFids numReqFeatures numFeatures remaining draws
  dtCheckError (chosen.numReqFeatures > 0)
    s!"the number of chosen features for node {nid} is zero"
  if chosen.numReqFeatures ≤ chosen.result.length then
    constructArray 4 (chosen.result.take chosen.numReqFeatures.toNat)
  else .error .outOfBounds

/-! ## The bitmap -/

variable {n v : ℕ} {bitmap : List (BitVec 32)}

/-- Every feature has its bit. -/
def Covers (bitmap : List (BitVec 32)) (n : ℕ) : Prop := n ≤ 32 * bitmap.length

theorem Covers.div_lt (h : Covers bitmap n) (hv : v < n) : v / 32 < bitmap.length := by
  unfold Covers at h
  omega

theorem shiftRight_natCast (v : ℕ) : (v : Int) >>> powerUint32 = (v / 32 : ℕ) := by
  rw [Int.shiftRight_eq_div_pow]
  rfl

theorem dtFidMask_natCast (v : ℕ) : dtFidMask v powerUint32 = BitVec.twoPow 32 (v % 32) := by
  have hrest : ((v : Int) - ((v : Int) >>> powerUint32) <<< powerUint32).toNat = v % 32 := by
    rw [shiftRight_natCast, Int.shiftLeft_eq]
    norm_num [powerUint32]
    omega
  rw [dtFidMask, hrest, BitVec.twoPow_eq]

theorem maskedWord_natCast (h : Covers bitmap n) (hv : v < n) :
    maskedWord bitmap v = .ok (if bitOf bitmap v then BitVec.twoPow 32 (v % 32) else 0#32) := by
  have hlt := h.div_lt hv
  unfold maskedWord bitOf
  rw [shiftRight_natCast, readAt_natCast hlt, dtFidMask_natCast, List.getElem?_eq_getElem hlt,
    ok_bind, BitVec.and_twoPow]
  rfl

theorem markFeature_natCast (h : Covers bitmap n) (hv : v < n) :
    markFeature bitmap v = .ok (setBit bitmap v) := by
  have hlt := h.div_lt hv
  unfold markFeature setBit
  rw [shiftRight_natCast, readAt_natCast hlt, dtFidMask_natCast, ok_bind, writeAt_natCast hlt,
    List.modify_eq_set_getElem?, List.getElem?_eq_getElem hlt]
  rfl

theorem twoPow_ne_zero (v : ℕ) : BitVec.twoPow 32 (v % 32) ≠ 0#32 := by
  intro hzero
  have hbit : (BitVec.twoPow 32 (v % 32)).getLsbD (v % 32) = false := by rw [hzero]; simp
  simp [Nat.mod_lt] at hbit

theorem maskedWord_eq_zero_iff (h : Covers bitmap n) (hv : v < n) :
    maskedWord bitmap v = .ok 0#32 ↔ bitOf bitmap v = false := by
  rw [maskedWord_natCast h hv]
  cases hbit : bitOf bitmap v with
  | false => simp
  | true => simpa using twoPow_ne_zero v

theorem covers_setBit (h : Covers bitmap n) (v : ℕ) : Covers (setBit bitmap v) n := by
  unfold Covers
  rwa [length_setBit]

theorem members_mark (h : Covers bitmap n) (hv : v < n) :
    members (setBit bitmap v) n = insert v (members bitmap n) :=
  members_setBit (by norm_num) hv (h.div_lt hv)

/-! ## The features of the ancestors -/

/-- The ids of the array, if there is one. -/
def fidsOf (dpFids : Option IntArray) : List Int :=
  match dpFids with
  | none => []
  | some array => array.data

/-- The positions of features in the bitmap. -/
def positions (fids : List Int) : Finset ℕ := (fids.map fun fid => (fid - 1).toNat).toFinset

/-- Pairwise distinct features out of `1..n`. -/
structure AreFeatures (n : ℕ) (fids : List Int) : Prop where
  nodup : fids.Nodup
  mem : ∀ fid ∈ fids, 1 ≤ fid ∧ fid ≤ n

theorem mem_positions {fids : List Int} (h : AreFeatures n fids) :
    v ∈ positions fids ↔ (v : Int) + 1 ∈ fids := by
  simp only [positions, List.mem_toFinset, List.mem_map]
  constructor
  · rintro ⟨fid, hfid, rfl⟩
    have hmem := h.mem fid hfid
    rwa [show (((fid - 1).toNat : ℕ) : Int) + 1 = fid by omega]
  · intro hv
    exact ⟨_, hv, by omega⟩

theorem positions_subset {fids : List Int} (h : AreFeatures n fids) :
    positions fids ⊆ Finset.range n := by
  intro v hv
  have hmem := h.mem _ ((mem_positions h).mp hv)
  apply Finset.mem_range.mpr
  omega

theorem card_positions {fids : List Int} (h : AreFeatures n fids) :
    (positions fids).card = fids.length := by
  have hnodup : (fids.map fun fid => (fid - 1).toNat).Nodup := by
    apply List.Nodup.map_on _ h.nodup
    intro fid hfid fid' hfid' heq
    have hmem := h.mem fid hfid
    have hmem' := h.mem fid' hfid'
    omega
  rw [positions, List.toFinset_card_of_nodup hnodup, List.length_map]

/-- Marking features adds them to the bitmap, in bounds. -/
theorem markFeatures_ok {fids : List Int} (hfids : ∀ fid ∈ fids, 1 ≤ fid ∧ fid ≤ n)
    (hn : n < 2147483648) (h : Covers bitmap n) :
    ∃ bitmap', fids.foldlM (fun bitmap fid => markFeature bitmap (toInt32 (fid - 1))) bitmap =
        .ok bitmap' ∧ Covers bitmap' n ∧
      members bitmap' n = members bitmap n ∪ positions fids := by
  induction fids generalizing bitmap with
  | nil => exact ⟨bitmap, rfl, h, by simp [positions]⟩
  | cons fid fids ih =>
      obtain ⟨hpos, hle⟩ := hfids fid List.mem_cons_self
      have hv : (fid - 1).toNat < n := by omega
      have hcast : toInt32 (fid - 1) = ((fid - 1).toNat : Int) := by
        rw [toInt32_of_mem (by omega) (by omega)]
        omega
      obtain ⟨bitmap', hrun, hcovers, hmembers⟩ :=
        ih (fun f hf => hfids f (List.mem_cons_of_mem fid hf)) (covers_setBit h _)
      refine ⟨bitmap', ?_, hcovers, ?_⟩
      · rw [List.foldlM_cons, hcast, markFeature_natCast h hv]
        exact hrun
      · rw [hmembers, members_mark h hv]
        simp [positions, Finset.insert_union]

/-- The arrays the bitmap is made of. -/
theorem nBitmap_natCast (hn : n ≤ 2147483616) : nBitmap n = (n + 31) / 32 := by
  have hsum : toInt32 (toInt32 ((n : Int) + 32) - 1) = ((n + 31 : ℕ) : Int) := by
    unfold toInt32 wrapAt
    omega
  unfold nBitmap
  rw [hsum, shiftRight_natCast, uint32_of_mem (by omega)]

theorem covers_replicate (hn : n ≤ 2147483616) :
    Covers (List.replicate (nBitmap n) 0#32) n := by
  unfold Covers
  rw [List.length_replicate, nBitmap_natCast hn]
  omega

theorem palloc_nBitmap (hn : n ≤ 2147483616) : palloc (nBitmap n * 4) = .ok () := by
  apply palloc_ok
  rw [nBitmap_natCast hn]
  unfold maxAllocSize
  omega

/-- What is known of the bitmap and of the counter before features are chosen. -/
structure Marked (n : ℕ) (fids : List Int) (remaining : Remaining) : Prop where
  covers : Covers remaining.bitmap n
  members_eq : members remaining.bitmap n = positions fids
  nRemainFids_eq : remaining.nRemainFids = (n - fids.length : ℕ)

theorem AreFeatures.length_le {fids : List Int} (h : AreFeatures n fids) : fids.length ≤ n := by
  have hle := Finset.card_le_card (positions_subset h)
  rwa [card_positions h, Finset.card_range] at hle

theorem remainingFids_ok (hn : n ≤ 2147483616) {dpFids : Option IntArray}
    (hdim : ∀ array, dpFids = some array → array.ndim = 1) (h : AreFeatures n (fidsOf dpFids)) :
    ∃ remaining, remainingFids n dpFids = .ok remaining ∧ Marked n (fidsOf dpFids) remaining := by
  have hcovers := covers_replicate hn
  have hempty : members (List.replicate (nBitmap n) 0#32) n = ∅ := members_replicate_zero _
  unfold remainingFids
  rw [palloc_nBitmap hn, ok_bind]
  generalize List.replicate (nBitmap n) 0#32 = bitmap at hcovers hempty ⊢
  cases dpFids with
  | none =>
      refine ⟨⟨bitmap, n⟩, rfl, hcovers, ?_, ?_⟩
      · rw [hempty]
        rfl
      · simp [fidsOf]
  | some array =>
      have hlength := h.length_le
      obtain ⟨bitmap', hrun, hcovers', hmembers⟩ :=
        markFeatures_ok h.mem (by omega) hcovers
      simp only [fidsOf] at hlength hrun
      refine ⟨⟨bitmap', (n : Int) - array.data.length⟩, ?_, hcovers', ?_, ?_⟩
      · simp only
        rw [dtCheckError_ok (hdim array rfl).symm, ok_bind, dtCheckError_ok (by omega), ok_bind,
          hrun]
        rfl
      · rw [hmembers, hempty, Finset.empty_union]
      · simp only [fidsOf]
        omega

/-! ## Drawing features -/

/-- The retry loop ends only with a feature that is not used yet. -/
theorem drawFeature_ends (h : Covers bitmap n) (hn : 0 < n) (draws : List ℕ) :
    Ends (· = .unfinished) (fun draw => ∃ v < n, draw.fid = (v : Int) ∧ bitOf bitmap v = false)
      (drawFeature n bitmap draws) := by
  induction draws with
  | nil => rfl
  | cons draw draws ih =>
      have hlt : draw % n < n := Nat.mod_lt draw hn
      have hfid : Int.tmod (draw : Int) (n : Int) = ((draw % n : ℕ) : Int) :=
        (Int.natCast_mod draw n).symm ▸ Int.tmod_eq_emod_of_nonneg (Int.natCast_nonneg draw)
      unfold drawFeature
      simp only
      rw [hfid, maskedWord_natCast h hlt, ok_bind]
      cases hbit : bitOf bitmap (draw % n) with
      | false => exact ⟨draw % n, hlt, rfl, hbit⟩
      | true =>
          have hpos : 0#32 < BitVec.twoPow 32 (draw % n % 32) := by
            exact (BitVec.pos_iff_ne_zero _).mpr (twoPow_ne_zero (draw % n))
          simp only [if_true]
          rw [if_pos hpos]
          exact ih

/-- A feature that is not used ends the retry loop when it is drawn. -/
theorem drawFeature_of_unused (h : Covers bitmap n) (hv : v < n) (hbit : bitOf bitmap v = false)
    (draws : List ℕ) : drawFeature n bitmap (v :: draws) = .ok ⟨v, draws⟩ := by
  have hfid : Int.tmod (v : Int) (n : Int) = (v : Int) := by
    rw [Int.tmod_eq_emod_of_nonneg (Int.natCast_nonneg v)]
    exact Int.emod_eq_of_lt (by omega) (by omega)
  unfold drawFeature
  simp only
  rw [hfid, maskedWord_natCast h hv, ok_bind, hbit]
  rfl

/-- The features chosen so far, by their positions. -/
def featureIds (picks : List ℕ) : List Int := picks.map fun v : ℕ => (v : Int) + 1

@[simp] theorem length_featureIds (picks : List ℕ) : (featureIds picks).length = picks.length := by
  simp [featureIds]

/-- The state of the loop that samples when these features have been drawn. -/
structure Sampled (n numReq : ℕ) (taken : Finset ℕ) (picks : List ℕ) (s : Sampling) : Prop where
  covers : Covers s.bitmap n
  members_eq : members s.bitmap n = taken ∪ picks.toFinset
  nodup : picks.Nodup
  fresh : ∀ v ∈ picks, v < n ∧ v ∉ taken
  result_eq : s.result = featureIds picks ++ List.replicate (numReq - picks.length) 0

section Sample

variable {numReq : ℕ} {taken : Finset ℕ} {picks : List ℕ} {s : Sampling}

theorem Sampled.card_members (h : Sampled n numReq taken picks s) :
    (members s.bitmap n).card ≤ taken.card + picks.length := by
  rw [h.members_eq, ← List.toFinset_card_of_nodup h.nodup]
  exact Finset.card_union_le ..

/-- A feature is left as long as fewer than `n` are used. -/
theorem Sampled.exists_unused (h : Sampled n numReq taken picks s)
    (hlt : taken.card + picks.length < n) : ∃ v < n, bitOf s.bitmap v = false :=
  exists_not_mem (h.card_members.trans_lt hlt)

/-- The state after a round that draws `v`. -/
def Sampling.pick (s : Sampling) (i v : ℕ) (draws : List ℕ) : Sampling :=
  ⟨setBit s.bitmap v, s.result.set i ((v : Int) + 1), draws⟩

theorem Sampled.length_result (h : Sampled n numReq taken picks s) (hle : picks.length ≤ numReq) :
    s.result.length = numReq := by
  rw [h.result_eq, List.length_append, length_featureIds, List.length_replicate]
  omega

theorem Sampled.pick (h : Sampled n numReq taken picks s) (hlt : picks.length < numReq)
    (hv : v < n) (hbit : bitOf s.bitmap v = false) (draws : List ℕ) :
    Sampled n numReq taken (picks ++ [v]) (s.pick picks.length v draws) := by
  have hnot : v ∉ taken ∪ picks.toFinset := by
    rw [← h.members_eq]
    simp [hbit]
  rw [Finset.mem_union, List.mem_toFinset, not_or] at hnot
  have hrest : numReq - picks.length = (numReq - (picks.length + 1)) + 1 := by omega
  constructor
  · exact covers_setBit h.covers v
  · calc
      members (setBit s.bitmap v) n = insert v (taken ∪ picks.toFinset) := by
        rw [members_mark h.covers hv, h.members_eq]
      _ = taken ∪ (picks ++ [v]).toFinset := by
        ext u
        simp
  · exact h.nodup.append (List.nodup_singleton v) (by simpa using hnot.2)
  · intro u hu
    rcases List.mem_append.mp hu with hu | hu
    · exact h.fresh u hu
    · rw [List.mem_singleton.mp hu]
      exact ⟨hv, hnot.1⟩
  · rw [Sampling.pick, h.result_eq, hrest, List.replicate_succ]
    simp [featureIds]

theorem Sampled.sampleRound_eq (h : Sampled n numReq taken picks s) (hlt : picks.length < numReq)
    (hv : v < n) {draws : List ℕ} (hdraw : drawFeature n s.bitmap s.draws = .ok ⟨v, draws⟩) :
    sampleRound n s picks.length = .ok (s.pick picks.length v draws) := by
  have hlength : picks.length < s.result.length := by
    rwa [h.length_result hlt.le]
  unfold sampleRound
  rw [hdraw, ok_bind, writeAt_natCast hlength, ok_bind, markFeature_natCast h.covers hv]
  rfl

theorem Sampled.round (h : Sampled n numReq taken picks s) (hlt : picks.length < numReq)
    (hn : 0 < n) :
    Ends (· = .unfinished) (fun s' => ∃ v, Sampled n numReq taken (picks ++ [v]) s')
      (sampleRound n s picks.length) := by
  have hends := drawFeature_ends h.covers hn s.draws
  cases hdraw : drawFeature n s.bitmap s.draws with
  | error e =>
      rw [hdraw] at hends
      unfold sampleRound
      rw [hdraw, error_bind]
      exact hends
  | ok draw =>
      rw [hdraw] at hends
      obtain ⟨v, hv, hfid, hbit⟩ := hends
      have hround : sampleRound n s picks.length = .ok (s.pick picks.length v draw.draws) :=
        h.sampleRound_eq hlt hv (by rw [hdraw, ← hfid])
      rw [hround]
      exact ⟨v, h.pick hlt hv hbit draw.draws⟩

/-- The rounds before round `i`. -/
theorem Sampled.rounds (h : Sampled n numReq taken [] s) (hn : 0 < n) {i : ℕ} (hi : i ≤ numReq) :
    Ends (· = .unfinished) (fun s' => ∃ picks, picks.length = i ∧ Sampled n numReq taken picks s')
      ((List.range i).foldlM (sampleRound n) s) := by
  induction i with
  | zero => exact ⟨[], rfl, h⟩
  | succ i ih =>
      rw [List.range_succ, List.foldlM_append]
      apply (ih (by omega)).bind
      rintro s' ⟨picks, hlength, hs'⟩
      rw [List.foldlM_cons, ← hlength]
      apply (hs'.round (by omega) hn).bind
      rintro s'' ⟨v, hs''⟩
      exact ⟨picks ++ [v], by simp, hs''⟩

/-- Some draws let the remaining rounds end. -/
theorem Sampled.exists_draws {m : ℕ} (h : Sampled n numReq taken picks s)
    (hm : picks.length + m = numReq) (hcard : taken.card + numReq ≤ n) :
    ∃ draws s', (List.range' picks.length m).foldlM (sampleRound n) { s with draws := draws } =
      .ok s' := by
  induction m generalizing picks s with
  | zero => exact ⟨[], _, rfl⟩
  | succ m ih =>
      obtain ⟨v, hv, hbit⟩ := h.exists_unused (by omega)
      have hnext := h.pick (by omega) hv hbit []
      obtain ⟨draws, s', hrest⟩ := ih hnext (by simp; omega)
      have hstart : Sampled n numReq taken picks { s with draws := v :: draws } :=
        ⟨h.covers, h.members_eq, h.nodup, h.fresh, h.result_eq⟩
      refine ⟨v :: draws, s', ?_⟩
      rw [List.range'_succ, List.foldlM_cons, hstart.sampleRound_eq (by omega) hv
        (drawFeature_of_unused h.covers hv hbit draws), ok_bind]
      rw [List.length_append] at hrest
      exact hrest

end Sample

/-! ## Taking all features -/

/-- The unused ones of the features before `i`, the last one first. -/
def unusedBelow (bitmap : List (BitVec 32)) (i : ℕ) : List ℕ :=
  ((List.range i).filter fun v => bitOf bitmap v = false).reverse

theorem mem_unusedBelow {i : ℕ} : v ∈ unusedBelow bitmap i ↔ v < i ∧ bitOf bitmap v = false := by
  simp [unusedBelow]

theorem nodup_unusedBelow (bitmap : List (BitVec 32)) (i : ℕ) : (unusedBelow bitmap i).Nodup :=
  List.nodup_reverse.mpr (List.nodup_range.filter _)

theorem unusedBelow_succ (i : ℕ) :
    unusedBelow bitmap (i + 1) =
      if bitOf bitmap i = false then i :: unusedBelow bitmap i else unusedBelow bitmap i := by
  unfold unusedBelow
  rw [List.range_succ, List.filter_append, List.reverse_append]
  by_cases hbit : bitOf bitmap i = false
  · simp [hbit]
  · simp [hbit]

theorem length_unusedBelow_succ_le {i : ℕ} :
    (unusedBelow bitmap i).length ≤ (unusedBelow bitmap (i + 1)).length := by
  rw [unusedBelow_succ]
  split_ifs
  · exact Nat.le_succ _
  · exact le_rfl

theorem length_unusedBelow_le (bitmap : List (BitVec 32)) {i : ℕ} (hi : i ≤ n) :
    (unusedBelow bitmap i).length ≤ (unusedBelow bitmap n).length :=
  monotone_nat_of_le_succ (f := fun i => (unusedBelow bitmap i).length)
    (fun _ => length_unusedBelow_succ_le) hi

/-- All but the members are unused. -/
theorem length_unusedBelow (bitmap : List (BitVec 32)) (n : ℕ) :
    (unusedBelow bitmap n).length = n - (members bitmap n).card := by
  have hset : (unusedBelow bitmap n).toFinset = Finset.range n \ members bitmap n := by
    ext v
    simp only [List.mem_toFinset, mem_unusedBelow, Finset.mem_sdiff, Finset.mem_range, mem_members]
    grind
  rw [← List.toFinset_card_of_nodup (nodup_unusedBelow bitmap n), hset,
    Finset.card_sdiff_of_subset members_subset, Finset.card_range]

/-- The state of the loop before round `i`. -/
def takingAt (bitmap : List (BitVec 32)) (total i : ℕ) : Taking where
  result := List.replicate (total - (unusedBelow bitmap i).length) 0 ++
    featureIds (unusedBelow bitmap i)
  nRemainFids := (total - (unusedBelow bitmap i).length : ℕ)

/-- The counter is a place in the result as long as an unused feature comes. -/
theorem takeRound_takingAt (h : Covers bitmap n) {i : ℕ} (hi : i < n) {total : ℕ}
    (htotal : total = (unusedBelow bitmap n).length) :
    takeRound bitmap (takingAt bitmap total i) i = .ok (takingAt bitmap total (i + 1)) := by
  have hle := length_unusedBelow_le bitmap (Nat.succ_le_of_lt hi)
  unfold takeRound
  rw [maskedWord_natCast h hi, ok_bind]
  unfold takingAt
  rw [Nat.succ_eq_add_one, unusedBelow_succ] at hle
  rw [unusedBelow_succ]
  cases hbit : bitOf bitmap i with
  | true =>
      simp only [if_true, Bool.true_eq_false, if_false]
      rw [if_neg (twoPow_ne_zero i).symm]
      rfl
  | false =>
      rw [hbit, if_pos rfl, List.length_cons] at hle
      obtain ⟨rest, hrest⟩ : ∃ rest, total = rest + 1 + (unusedBelow bitmap i).length :=
        ⟨total - (unusedBelow bitmap i).length - 1, by omega⟩
      have hnow : total - (unusedBelow bitmap i).length = rest + 1 := by omega
      have hnext : total - (i :: unusedBelow bitmap i).length = rest := by
        rw [List.length_cons]
        omega
      have hindex : ((rest + 1 : ℕ) : Int) - 1 = (rest : ℕ) := by omega
      have hset : (List.replicate (rest + 1) (0 : Int) ++ featureIds (unusedBelow bitmap i)).set
          rest ((i : Int) + 1) =
            List.replicate rest 0 ++ featureIds (i :: unusedBelow bitmap i) := by
        rw [List.replicate_succ', List.append_assoc]
        simp [featureIds]
      have hlt : rest < (List.replicate (rest + 1) (0 : Int) ++
          featureIds (unusedBelow bitmap i)).length := by
        rw [List.length_append, List.length_replicate]
        omega
      simp only [Bool.false_eq_true, if_false, if_true]
      rw [hnow, hnext, hindex, writeAt_natCast hlt, ok_bind, hset]
      rfl

theorem takeRounds_ok (h : Covers bitmap n) {total : ℕ}
    (htotal : total = (unusedBelow bitmap n).length) {i : ℕ} (hi : i ≤ n) :
    (List.range i).foldlM (takeRound bitmap) ⟨List.replicate total 0, total⟩ =
      .ok (takingAt bitmap total i) := by
  induction i with
  | zero => simp [takingAt, unusedBelow, featureIds]
  | succ i ih =>
      rw [List.range_succ, List.foldlM_append, ih (by omega), ok_bind, List.foldlM_cons,
        takeRound_takingAt h (by omega) htotal]
      rfl

/-! ## The features that are chosen -/

/-- As many features as requested and left, pairwise distinct and none of them used. -/
structure Fresh (numReq n : ℕ) (fids result : List Int) : Prop where
  length_eq : result.length = min numReq (n - fids.length)
  nodup : result.Nodup
  fresh : ∀ fid ∈ result, 1 ≤ fid ∧ fid ≤ n ∧ fid ∉ fids

/-- The features that are chosen when those of the ancestors are `fids`. -/
structure Chooses (numReq n : ℕ) (fids result : List Int) : Prop where
  of_unused : (∃ fid : Int, 1 ≤ fid ∧ fid ≤ n ∧ fid ∉ fids) → Fresh numReq n fids result
  of_all_used : (∀ fid : Int, 1 ≤ fid → fid ≤ n → fid ∈ fids) → result = [1]

section Choose

variable {numReq : ℕ} {fids : List Int} {remaining : Remaining}

theorem exists_unused_iff (h : AreFeatures n fids) :
    (∃ fid : Int, 1 ≤ fid ∧ fid ≤ n ∧ fid ∉ fids) ↔ fids.length < n := by
  constructor
  · rintro ⟨fid, hpos, hle, hnot⟩
    have hssubset : positions fids ⊂ Finset.range n := by
      apply (Finset.ssubset_iff_of_subset (positions_subset h)).mpr
      refine ⟨(fid - 1).toNat, Finset.mem_range.mpr (by omega), ?_⟩
      rw [mem_positions h, show (((fid - 1).toNat : ℕ) : Int) + 1 = fid by omega]
      exact hnot
    have hlt := Finset.card_lt_card hssubset
    rwa [card_positions h, Finset.card_range] at hlt
  · intro hlt
    have hcard : (positions fids).card < (Finset.range n).card := by
      rwa [card_positions h, Finset.card_range]
    obtain ⟨v, hv, hnot⟩ := Finset.exists_mem_notMem_of_card_lt_card hcard
    have hlt := Finset.mem_range.mp hv
    exact ⟨(v : Int) + 1, by omega, by omega, fun hmem => hnot ((mem_positions h).mpr hmem)⟩

theorem chooses_of_fresh (h : AreFeatures n fids) (hlt : fids.length < n) {result : List Int}
    (hfresh : Fresh numReq n fids result) : Chooses numReq n fids result where
  of_unused := fun _ => hfresh
  of_all_used := by
    intro hall
    obtain ⟨fid, hpos, hle, hnot⟩ := (exists_unused_iff h).mpr hlt
    exact absurd (hall fid hpos hle) hnot

theorem chooses_one (h : AreFeatures n fids) (hall : n ≤ fids.length) :
    Chooses numReq n fids [1] where
  of_unused := fun hex => absurd ((exists_unused_iff h).mp hex) (not_lt.mpr hall)
  of_all_used := fun _ => rfl

/-- Distinct positions of unused features are fresh features. -/
theorem fresh_featureIds (h : AreFeatures n fids) {picks : List ℕ} (hnodup : picks.Nodup)
    (hlength : picks.length = min numReq (n - fids.length))
    (hfresh : ∀ v ∈ picks, v < n ∧ v ∉ positions fids) :
    Fresh numReq n fids (featureIds picks) where
  length_eq := by rw [length_featureIds, hlength]
  nodup := by
    apply List.Nodup.map _ hnodup
    intro u v (heq : (u : Int) + 1 = v + 1)
    omega
  fresh := by
    intro fid hfid
    obtain ⟨v, hv, rfl⟩ := List.mem_map.mp hfid
    obtain ⟨hlt, hnot⟩ := hfresh v hv
    exact ⟨by omega, by omega, fun hmem => hnot ((mem_positions h).mpr hmem)⟩

theorem Marked.sampled (hm : Marked n fids remaining) (numReq : ℕ) (draws : List ℕ) :
    Sampled n numReq (positions fids) []
      ⟨remaining.bitmap, List.replicate numReq 0, draws⟩ where
  covers := hm.covers
  members_eq := by simp [hm.members_eq]
  nodup := List.nodup_nil
  fresh := by simp
  result_eq := by simp [featureIds]

/-- Sampling, when more features are left than requested. -/
theorem Marked.sample (h : AreFeatures n fids) (hm : Marked n fids remaining)
    (hlt : numReq < n - fids.length) (draws : List ℕ) :
    Ends (· = .unfinished) (fun s => Fresh numReq n fids s.result)
      ((List.range numReq).foldlM (sampleRound n)
        ⟨remaining.bitmap, List.replicate numReq 0, draws⟩) := by
  apply ((hm.sampled numReq draws).rounds (by omega) le_rfl).imp
  · exact fun e he => he
  · rintro s ⟨picks, hlength, hs⟩
    have hresult : s.result = featureIds picks := by
      rw [hs.result_eq, hlength, Nat.sub_self, List.replicate_zero, List.append_nil]
    rw [hresult]
    exact fresh_featureIds h hs.nodup (by omega) hs.fresh

/-- Taking all features that are left. -/
theorem Marked.take (h : AreFeatures n fids) (hm : Marked n fids remaining)
    (hle : n - fids.length ≤ numReq) :
    ∃ result, (List.range n).foldlM (takeRound remaining.bitmap)
        ⟨List.replicate (n - fids.length) 0, remaining.nRemainFids⟩ = .ok ⟨result, 0⟩ ∧
      Fresh numReq n fids result := by
  have hlength : n - fids.length = (unusedBelow remaining.bitmap n).length := by
    rw [length_unusedBelow, hm.members_eq, card_positions h]
  refine ⟨featureIds (unusedBelow remaining.bitmap n), ?_, ?_⟩
  · rw [hm.nRemainFids_eq, takeRounds_ok hm.covers hlength le_rfl, takingAt, hlength, Nat.sub_self]
    rfl
  · apply fresh_featureIds h (nodup_unusedBelow _ _)
    · omega
    · intro v hv
      obtain ⟨hlt, hbit⟩ := mem_unusedBelow.mp hv
      refine ⟨hlt, ?_⟩
      rw [← hm.members_eq, mem_members, hbit]
      simp

theorem resultLength_natCast (hpos : 0 < numReq) (left : ℕ) :
    resultLength numReq left = (max 1 (min numReq left) : ℕ) := by
  unfold resultLength
  split_ifs <;> omega

/-- The backend allocates the array for the result, eight bytes for each feature. -/
def ResultFits (numReq n : ℕ) (fids : List Int) : Prop :=
  8 * max 1 (min numReq (n - fids.length)) ≤ maxAllocSize

theorem palloc_result (hpos : 0 < numReq) (hfit : ResultFits numReq n fids) :
    palloc (sizeT (resultLength numReq (n - fids.length : ℕ) * 8)) = .ok () := by
  apply palloc_ok
  rw [resultLength_natCast hpos]
  unfold ResultFits maxAllocSize at hfit
  unfold sizeT maxAllocSize
  omega

/-- The result is filled, and holds the features to choose. -/
structure Filled (numReq n : ℕ) (fids : List Int) (chosen : Chosen) : Prop where
  count_eq : chosen.numReqFeatures = chosen.result.length
  length_eq : chosen.result.length = max 1 (min numReq (n - fids.length))
  chooses : Chooses numReq n fids chosen.result

theorem filled_of_fresh (h : AreFeatures n fids) (hpos : 0 < numReq) (hlt : fids.length < n)
    {chosen : Chosen} (hcount : chosen.numReqFeatures = (min numReq (n - fids.length) : ℕ))
    (hfresh : Fresh numReq n fids chosen.result) : Filled numReq n fids chosen where
  count_eq := by rw [hcount, hfresh.length_eq]
  length_eq := by
    rw [hfresh.length_eq]
    omega
  chooses := chooses_of_fresh h hlt hfresh

/-- More features are left than requested. -/
theorem Marked.choose_sample (hm : Marked n fids remaining) (hpos : 0 < numReq)
    (hfit : ResultFits numReq n fids) (hlt : numReq < n - fids.length) (draws : List ℕ) :
    chooseFids numReq n remaining draws =
      (do
        let s ← (List.range numReq).foldlM (sampleRound n)
          ⟨remaining.bitmap, List.replicate numReq 0, draws⟩
        pure ⟨numReq, s.result⟩) := by
  have hmax : max 1 (min numReq (n - fids.length)) = numReq := by omega
  have hmore : ((n - fids.length : ℕ) : Int) > numReq := by omega
  unfold chooseFids
  rw [hm.nRemainFids_eq, palloc_result hpos hfit, ok_bind, resultLength_natCast hpos, hmax]
  simp only [Int.toNat_natCast]
  rw [if_pos hmore]

/-- No more features are left than requested, or none. -/
theorem Marked.choose_rest (h : AreFeatures n fids) (hm : Marked n fids remaining)
    (hpos : 0 < numReq) (hfit : ResultFits numReq n fids) (hle : n - fids.length ≤ numReq)
    (draws : List ℕ) :
    ∃ chosen, chooseFids numReq n remaining draws = .ok chosen ∧ Filled numReq n fids chosen := by
  have hleft := hm.nRemainFids_eq
  have hmore : ¬((n - fids.length : ℕ) : Int) > numReq := by omega
  unfold chooseFids
  rw [hleft, palloc_result hpos hfit, ok_bind, resultLength_natCast hpos]
  simp only [Int.toNat_natCast]
  rw [if_neg hmore]
  by_cases hnone : 0 = ((n - fids.length : ℕ) : Int)
  · have hmax : max 1 (min numReq (n - fids.length)) = 1 := by omega
    rw [if_pos hnone, hmax]
    exact ⟨⟨1, [1]⟩, rfl, rfl, hmax.symm, chooses_one h (by omega)⟩
  · have hmax : max 1 (min numReq (n - fids.length)) = n - fids.length := by omega
    obtain ⟨result, hrun, hfresh⟩ := hm.take h hle
    rw [hleft] at hrun
    rw [if_neg hnone, hmax, hrun, ok_bind, dtCheckError_ok rfl, ok_bind, pure_eq_ok]
    refine ⟨_, rfl, filled_of_fresh h hpos (by omega) ?_ hfresh⟩
    rw [Nat.min_eq_right hle]

theorem Marked.choose (h : AreFeatures n fids) (hm : Marked n fids remaining) (hpos : 0 < numReq)
    (hfit : ResultFits numReq n fids) (draws : List ℕ) :
    Ends (· = .unfinished) (Filled numReq n fids) (chooseFids numReq n remaining draws) := by
  by_cases hlt : numReq < n - fids.length
  · rw [hm.choose_sample hpos hfit hlt]
    apply (hm.sample h hlt draws).bind
    intro s hs
    apply filled_of_fresh h hpos (by omega) _ hs
    rw [Nat.min_eq_left hlt.le]
  · obtain ⟨chosen, hchosen, hfilled⟩ := hm.choose_rest h hpos hfit (not_lt.mp hlt) draws
    rw [hchosen]
    exact hfilled

end Choose

/-! ## Calls -/

/-- The retry loop of a call is entered in this state. -/
def EntersRetry (numReqFeatures numFeatures : Int) (dpFids : Option IntArray) (draws : List ℕ)
    (s : Sampling) : Prop :=
  ∃ remaining, remainingFids numFeatures dpFids = .ok remaining ∧
    remaining.nRemainFids > numReqFeatures ∧
    ∃ i < numReqFeatures.toNat, (List.range i).foldlM (sampleRound numFeatures)
      ⟨remaining.bitmap, List.replicate numReqFeatures.toNat 0, draws⟩ = .ok s

/-- Whatever is drawn, a call chooses features unless a retry loop does not end, and it enters a
retry loop only while there is a feature that is neither one of the ancestors' nor chosen. -/
def SamplesFeatures (numReq n : ℕ) (nid : Int) (dpFids : Option IntArray) : Prop :=
  ∀ draws : List ℕ,
    Ends (· = .unfinished)
      (fun array => array.ndim = 1 ∧ Chooses numReq n (fidsOf dpFids) array.data)
      (dtGetNodeSplitFids (some (numReq : Int)) (some (n : Int)) (some nid) dpFids draws) ∧
    ∀ s, EntersRetry numReq n dpFids draws s →
      ∃ fid : Int, 1 ≤ fid ∧ fid ≤ n ∧ fid ∉ fidsOf dpFids ∧ fid ∉ s.result ∧
        maskedWord s.bitmap (fid - 1) = .ok 0#32

section Call

variable {numReq : ℕ} {nid : Int} {dpFids : Option IntArray}

/-- What a call does after its checks. -/
theorem dtGetNodeSplitFids_eq (hpos : 0 < numReq) (hn : 0 < n) (hnid : 0 < nid)
    (draws : List ℕ) :
    dtGetNodeSplitFids (some (numReq : Int)) (some (n : Int)) (some nid) dpFids draws =
      (do
        let remaining ← remainingFids n dpFids
        let chosen ← chooseFids numReq n remaining draws
        dtCheckError (chosen.numReqFeatures > 0)
          s!"the number of chosen features for node {nid} is zero"
        if chosen.numReqFeatures ≤ chosen.result.length then
          constructArray 4 (chosen.result.take chosen.numReqFeatures.toNat)
        else .error .outOfBounds) := by
  unfold dtGetNodeSplitFids
  simp only [Option.getD_some]
  rw [dtCheckError_ok (by omega), ok_bind]

/-- What a call returns when the result is filled. -/
theorem call_of_filled (hpos : 0 < numReq) (hn : 0 < n) (hnid : 0 < nid)
    (hfit : ResultFits numReq n (fidsOf dpFids)) {remaining : Remaining}
    (hremaining : remainingFids n dpFids = .ok remaining) {draws : List ℕ} {chosen : Chosen}
    (hchosen : chooseFids numReq n remaining draws = .ok chosen)
    (hfilled : Filled numReq n (fidsOf dpFids) chosen) :
    dtGetNodeSplitFids (some (numReq : Int)) (some (n : Int)) (some nid) dpFids draws =
      .ok ⟨1, chosen.result⟩ := by
  have hlength := hfilled.length_eq
  have hcount := hfilled.count_eq
  have hne : chosen.result ≠ [] := List.ne_nil_of_length_pos (by omega)
  have hsize : 24 + 4 * chosen.result.length ≤ maxAllocSize := by
    unfold ResultFits maxAllocSize at hfit
    unfold maxAllocSize
    omega
  rw [dtGetNodeSplitFids_eq hpos hn hnid, hremaining, ok_bind, hchosen, ok_bind,
    dtCheckError_ok (by omega), ok_bind, hcount, if_pos le_rfl, Int.toNat_natCast,
    List.take_length, constructArray_ok hne hsize]

theorem call_ends (hpos : 0 < numReq) (hn : 0 < n) (hn' : n ≤ 2147483616) (hnid : 0 < nid)
    (hdim : ∀ array, dpFids = some array → array.ndim = 1) (h : AreFeatures n (fidsOf dpFids))
    (hfit : ResultFits numReq n (fidsOf dpFids)) (draws : List ℕ) :
    Ends (· = .unfinished)
      (fun array => array.ndim = 1 ∧ Chooses numReq n (fidsOf dpFids) array.data)
      (dtGetNodeSplitFids (some (numReq : Int)) (some (n : Int)) (some nid) dpFids draws) := by
  obtain ⟨remaining, hremaining, hm⟩ := remainingFids_ok hn' hdim h
  have hends := hm.choose h hpos hfit draws
  cases hchosen : chooseFids numReq n remaining draws with
  | error e =>
      rw [hchosen] at hends
      rw [dtGetNodeSplitFids_eq hpos hn hnid, hremaining, ok_bind, hchosen, error_bind]
      exact hends
  | ok chosen =>
      rw [hchosen] at hends
      rw [call_of_filled hpos hn hnid hfit hremaining hchosen hends]
      exact ⟨rfl, hends.chooses⟩

theorem retry_unused (hn : 0 < n) (hn' : n ≤ 2147483616)
    (hdim : ∀ array, dpFids = some array → array.ndim = 1) (h : AreFeatures n (fidsOf dpFids))
    {draws : List ℕ} {s : Sampling} (hs : EntersRetry numReq n dpFids draws s) :
    ∃ fid : Int, 1 ≤ fid ∧ fid ≤ n ∧ fid ∉ fidsOf dpFids ∧ fid ∉ s.result ∧
      maskedWord s.bitmap (fid - 1) = .ok 0#32 := by
  obtain ⟨remaining, hremaining, hmore, i, hi, hrun⟩ := hs
  obtain ⟨remaining', hremaining', hm⟩ := remainingFids_ok hn' hdim h
  obtain rfl : remaining = remaining' := Except.ok.inj (hremaining.symm.trans hremaining')
  rw [Int.toNat_natCast] at hi hrun
  rw [hm.nRemainFids_eq] at hmore
  have hrounds := (hm.sampled numReq draws).rounds hn hi.le
  rw [hrun] at hrounds
  obtain ⟨picks, hlength, hsampled⟩ := hrounds
  have hcard := card_positions h
  obtain ⟨v, hv, hbit⟩ := hsampled.exists_unused (by omega)
  have hnot : v ∉ positions (fidsOf dpFids) ∪ picks.toFinset := by
    rw [← hsampled.members_eq]
    simp [hbit]
  rw [Finset.mem_union, mem_positions h, List.mem_toFinset, not_or] at hnot
  refine ⟨(v : Int) + 1, by omega, by omega, hnot.1, ?_, ?_⟩
  · rw [hsampled.result_eq, List.mem_append, featureIds, List.mem_map, List.mem_replicate]
    rintro (⟨u, hu, heq⟩ | ⟨-, hzero⟩)
    · obtain rfl : u = v := by omega
      exact hnot.2 hu
    · omega
  · rw [add_sub_cancel_right]
    exact (maskedWord_eq_zero_iff hsampled.covers hv).mpr hbit

theorem samplesFeatures_of_fit (hpos : 1 ≤ numReq) (hn : 1 ≤ n) (hn' : n ≤ 2147483616)
    (hnid : 0 < nid) (hdim : ∀ array, dpFids = some array → array.ndim = 1)
    (h : AreFeatures n (fidsOf dpFids)) (hfit : ResultFits numReq n (fidsOf dpFids)) :
    SamplesFeatures numReq n nid dpFids :=
  fun draws => ⟨call_ends hpos hn hn' hnid hdim h hfit draws,
    fun _ hs => retry_unused hn hn' hdim h hs⟩

/-- One of the two features that are left of three. -/
theorem samplesFeatures_of_fit_three : SamplesFeatures 1 3 1 (some ⟨1, [2]⟩) := by
  apply samplesFeatures_of_fit
  · decide
  · decide
  · norm_num
  · decide
  · rintro array ⟨⟩
    rfl
  · exact ⟨by simp [fidsOf], by simp [fidsOf]⟩
  · norm_num [ResultFits, fidsOf, maxAllocSize]

example : dtGetNodeSplitFids (some 2) (some 40) (some 1) (some ⟨1, [33, 2]⟩) [32, 72, 33, 33, 39] =
    .ok ⟨1, [34, 40]⟩ := by
  rfl

/-- Some draws let the retry loops of a call end. -/
theorem exists_draws (hpos : 0 < numReq) (hn : 0 < n) (hn' : n ≤ 2147483616) (hnid : 0 < nid)
    (hdim : ∀ array, dpFids = some array → array.ndim = 1) (h : AreFeatures n (fidsOf dpFids))
    (hfit : ResultFits numReq n (fidsOf dpFids)) :
    ∃ draws array, dtGetNodeSplitFids (some (numReq : Int)) (some (n : Int)) (some nid) dpFids
      draws = .ok array := by
  obtain ⟨remaining, hremaining, hm⟩ := remainingFids_ok hn' hdim h
  have hchoose : ∃ draws chosen, chooseFids numReq n remaining draws = .ok chosen := by
    by_cases hlt : numReq < n - (fidsOf dpFids).length
    · have hcard := card_positions h
      obtain ⟨draws, s', hrun⟩ :=
        (hm.sampled numReq []).exists_draws (m := numReq) (by simp) (by omega)
      refine ⟨draws, ⟨numReq, s'.result⟩, ?_⟩
      rw [hm.choose_sample hpos hfit hlt, List.range_eq_range', ← List.length_nil, hrun]
      rfl
    · obtain ⟨chosen, hchosen, -⟩ := hm.choose_rest h hpos hfit (not_lt.mp hlt) []
      exact ⟨[], chosen, hchosen⟩
  obtain ⟨draws, chosen, hchosen⟩ := hchoose
  have hfilled := hm.choose h hpos hfit draws
  rw [hchosen] at hfilled
  exact ⟨draws, _, call_of_filled hpos hn hnid hfit hremaining hchosen hfilled⟩

/-! ## Calls that fail -/

theorem not_samplesFeatures {e : Fault} (hne : e ≠ .unfinished)
    (hcall : dtGetNodeSplitFids (some (numReq : Int)) (some (n : Int)) (some nid) dpFids [] =
      .error e) : ¬SamplesFeatures numReq n nid dpFids := by
  intro hsamples
  have hends := (hsamples []).1
  rw [hcall] at hends
  exact hne hends

/-- A result that is too long is not allocated. -/
theorem call_error_of_large (hpos : 0 < numReq) (hreq : numReq < 2147483648) (hn : 0 < n)
    (hn' : n ≤ 2147483616) (hnid : 0 < nid) (hdim : ∀ array, dpFids = some array → array.ndim = 1)
    (h : AreFeatures n (fidsOf dpFids)) (hfit : ¬ResultFits numReq n (fidsOf dpFids))
    (draws : List ℕ) :
    dtGetNodeSplitFids (some (numReq : Int)) (some (n : Int)) (some nid) dpFids draws =
      .error (.elog "invalid memory alloc request size") := by
  obtain ⟨remaining, hremaining, hm⟩ := remainingFids_ok hn' hdim h
  have hlarge : maxAllocSize < sizeT (resultLength numReq remaining.nRemainFids * 8) := by
    rw [hm.nRemainFids_eq, resultLength_natCast hpos]
    unfold ResultFits maxAllocSize at hfit
    unfold sizeT maxAllocSize
    omega
  rw [dtGetNodeSplitFids_eq hpos hn hnid, hremaining, ok_bind, chooseFids, palloc_error hlarge]
  rfl

/-- An array without elements, which has no dimension; a node whose id is not positive; a number of
features for which the length of the bitmap overflows; and a result that is too long. -/
theorem not_samplesFeatures_beyond : ¬SamplesFeatures 1 1 1 (some ⟨0, []⟩) ∧
    ¬SamplesFeatures 1 1 0 none ∧ ¬SamplesFeatures 1 2147483647 1 none ∧
    ¬SamplesFeatures 134217728 2147483616 1 none := by
  refine ⟨?_, ?_, ?_, ?_⟩
  · apply not_samplesFeatures (e := .ereport .raiseException
      "invalid array dimension: 0. The dimension of the array must be equal to 1")
    · simp
    · rfl
  · apply not_samplesFeatures (e := .ereport .raiseException
      "the first three arguments can not be null")
    · simp
    · rfl
  · apply not_samplesFeatures (e := .elog "invalid memory alloc request size")
    · simp
    · have hlarge : maxAllocSize < nBitmap ((2147483647 : ℕ) : Int) * 4 := by
        decide
      rw [dtGetNodeSplitFids_eq (by norm_num) (by norm_num) (by norm_num), remainingFids,
        palloc_error hlarge]
      rfl
  · apply not_samplesFeatures (e := .elog "invalid memory alloc request size")
    · simp
    · apply call_error_of_large (by norm_num) (by norm_num) (by norm_num) (by norm_num)
        (by norm_num)
      · simp
      · exact ⟨by simp [fidsOf], by simp [fidsOf]⟩
      · norm_num [ResultFits, fidsOf, maxAllocSize]

end Call

end Madlib.Cart
