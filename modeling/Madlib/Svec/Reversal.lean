import Madlib.Svec.Splice

/-!
# Reversing

`reverse` goes back from the last entry of the index, each time by the size of the entry it
stands on, not by that of the entry in front.  What it copies are the counts it meets on the way.
-/

namespace Madlib.Svec

open Madlib.Backend Madlib.Lib.MachineInt Madlib.Lib.RunLength CountCode

def svecReverse (svec : SvecType) : Except Fault SvecType := do
  svecFromSparsedata (← reverse (sdataFromSvec svec)) true

def svecSubvec (svec : SvecType) (start stop : Int32) : Except Fault SvecType := do
  svecFromSparsedata (← subarr (sdataFromSvec svec) start.toInt stop.toInt) true

/-! ## Going back -/

/-- Going back from `offset` by the size of each entry met, these are the counts. -/
def CountsBack (index : IndexPtr) : Int → List Int → Prop
  | _, [] => True
  | offset, n :: counts => ∃ ix size, pointerAt index offset = .ok ix ∧
      compwordToInt8 ix = .ok n ∧ int8compstoragesize ix = .ok size ∧
      CountsBack index (offset - size) counts

/-- The index that is written for these counts. -/
def writtenIndex : List Int → Except Fault (List UInt8)
  | [] => .ok []
  | n :: counts => do
      let entry ← rleIndexBytes n
      let rest ← writtenIndex counts
      return entry ++ rest

/-- `s` is `ret` with these values and counts added to it, for which `entries` is written. -/
structure Extends (ret s : SparseData) (vals : List Float8) (counts : List Int)
    (entries : List UInt8) : Prop where
  vals_eq : s.vals = ret.vals ++ vals
  index_eq : s.index.data = some (ret.index.data.getD [] ++ entries)
  unique_eq : s.uniqueValueCount = ret.uniqueValueCount + vals.length
  total_eq : s.totalValueCount.toInt = toInt32 (ret.totalValueCount.toInt + counts.sum)

theorem Extends.refl {ret : SparseData} (h : ret.index.data ≠ none) :
    Extends ret ret [] [] [] := by
  have ⟨bytes, hbytes⟩ := Option.ne_none_iff_exists'.mp h
  have hmem := int32_mem ret.totalValueCount
  constructor
  · rw [List.append_nil]
  · rw [hbytes, List.append_nil, Option.getD_some]
  · rfl
  · rw [List.sum_nil, Int.add_zero, toInt32_of_mem hmem.1 hmem.2]

theorem Extends.trans_add {ret mid s : SparseData} {v : Float8} {n : Int} {entry : List UInt8}
    {vals : List Float8} {counts : List Int} {entries : List UInt8}
    (hmid : Extends ret mid [v] [n] entry) (h : Extends mid s vals counts entries) :
    Extends ret s (v :: vals) (n :: counts) (entry ++ entries) := by
  constructor
  · rw [h.vals_eq, hmid.vals_eq, List.append_assoc, List.singleton_append]
  · rw [h.index_eq, hmid.index_eq, Option.getD_some, List.append_assoc]
  · rw [h.unique_eq, hmid.unique_eq, List.length_singleton, List.length_cons, Nat.add_assoc,
      Nat.add_comm 1]
  · rw [h.total_eq, hmid.total_eq, toInt32_toInt32_add, List.sum_singleton, List.sum_cons,
      Int.add_assoc]

theorem addRunToSdata_extends {v : Float8} {n : Int} {ret : SparseData} {entry : List UInt8}
    (hret : ret.index.data ≠ none) (hentry : rleIndexBytes n = .ok entry) :
    ∃ s, addRunToSdata v n ret = .ok s ∧ Extends ret s [v] [n] entry := by
  have ⟨bytes, hbytes⟩ := Option.ne_none_iff_exists'.mp hret
  have ⟨s, hadd, hvals, hindex, hunique, htotal⟩ := addRunToSdata_eq v hbytes hentry
  refine ⟨s, hadd, hvals, ?_, hunique, ?_⟩
  · rw [hindex, hbytes, Option.getD_some]
  · rw [htotal, List.sum_singleton]

theorem addRunToSdata_written {v : Float8} {n : Int} {ret s : SparseData}
    (h : addRunToSdata v n ret = .ok s) : ∃ entry, rleIndexBytes n = .ok entry := by
  have ⟨index, hindex, _⟩ := bind_eq_ok.mp h
  have ⟨entry, hentry, _⟩ := bind_eq_ok.mp hindex
  exact ⟨entry, hentry⟩

theorem Extends.index_ne {ret s : SparseData} {vals : List Float8} {counts : List Int}
    {entries : List UInt8} (h : Extends ret s vals counts entries) : s.index.data ≠ none := by
  rw [h.index_eq]
  exact Option.some_ne_none _

theorem valref_eq_ok {s : SparseData} {i : Nat} {v : Float8} (h : valref s i = .ok v) :
    s.vals[i]? = some v := by
  unfold valref at h
  cases hvalue : s.vals[i]? with
  | none => simp [hvalue] at h
  | some w =>
      rw [hvalue] at h
      rw [Except.ok.inj h]

theorem take_succ_reverse {vals : List Float8} {j : Nat} {v : Float8} (h : vals[j]? = some v) :
    (vals.take (j + 1)).reverse = v :: (vals.take j).reverse := by
  rw [List.take_add_one, h, Option.toList_some, List.reverse_append, List.reverse_singleton,
    List.singleton_append]

/-- What is copied are the counts met going back. -/
theorem copyBackwards_reads {sdata ret s : SparseData} {j : Nat} {offset : Int}
    (hret : ret.index.data ≠ none) (h : copyBackwards sdata j offset ret = .ok s) :
    ∃ counts entries, CountsBack sdata.index.data offset counts ∧ counts.length = j ∧
      writtenIndex counts = .ok entries ∧
      Extends ret s (sdata.vals.take j).reverse counts entries := by
  induction j generalizing ret offset with
  | zero =>
      cases h
      refine ⟨[], [], trivial, rfl, rfl, ?_⟩
      rw [List.take_zero, List.reverse_nil]
      exact .refl hret
  | succ j ih =>
      have ⟨ix, hix, h⟩ := bind_eq_ok.mp h
      have ⟨v, hv, h⟩ := bind_eq_ok.mp h
      have ⟨n, hn, h⟩ := bind_eq_ok.mp h
      have ⟨mid, hadd, h⟩ := bind_eq_ok.mp h
      have ⟨size, hsize, h⟩ := bind_eq_ok.mp h
      have ⟨entry, hentry⟩ := addRunToSdata_written hadd
      have ⟨mid', hadd', hmid⟩ := addRunToSdata_extends (v := v) hret hentry
      rw [Except.ok.inj (hadd'.symm.trans hadd)] at hmid
      have ⟨counts, entries, hback, hlength, hwritten, hextends⟩ := ih hmid.index_ne h
      refine ⟨n :: counts, entry ++ entries, ⟨ix, size, hix, hn, hsize, hback⟩, ?_, ?_, ?_⟩
      · rw [List.length_cons, hlength]
      · rw [writtenIndex, hentry, ok_bind, hwritten, ok_bind, pure_eq_ok]
      · rw [take_succ_reverse (valref_eq_ok hv)]
        exact hmid.trans_add hextends

/-- Counts that are met going back and can be written are copied. -/
theorem copyBackwards_of_reads {sdata ret : SparseData} {counts : List Int} {offset : Int}
    {entries : List UInt8} (hret : ret.index.data ≠ none)
    (hlength : counts.length ≤ sdata.vals.length)
    (hback : CountsBack sdata.index.data offset counts)
    (hwritten : writtenIndex counts = .ok entries) :
    ∃ s, copyBackwards sdata counts.length offset ret = .ok s ∧
      Extends ret s (sdata.vals.take counts.length).reverse counts entries := by
  induction counts generalizing ret offset entries with
  | nil =>
      cases hwritten
      refine ⟨ret, rfl, ?_⟩
      rw [List.length_nil, List.take_zero, List.reverse_nil]
      exact .refl hret
  | cons n counts ih =>
      have ⟨ix, size, hix, hn, hsize, hback⟩ := hback
      have ⟨entry, hentry, hwritten⟩ := bind_eq_ok.mp hwritten
      have ⟨rest, hrest, hwritten⟩ := bind_eq_ok.mp hwritten
      have hlt : counts.length < sdata.vals.length := hlength
      have hvalue := List.getElem?_eq_getElem hlt
      have hread : valref sdata counts.length = .ok sdata.vals[counts.length] := by
        unfold valref
        rw [hvalue]
      have ⟨mid, hadd, hmid⟩ :=
        addRunToSdata_extends (v := sdata.vals[counts.length]) hret hentry
      have ⟨s, hs, hextends⟩ := ih hmid.index_ne hlt.le hback hrest
      refine ⟨s, ?_, ?_⟩
      · rw [List.length_cons, copyBackwards, hix, ok_bind, hread, ok_bind, hn, ok_bind, hadd,
          ok_bind, hsize, ok_bind, hs]
      · rw [List.length_cons, take_succ_reverse hvalue, ← Except.ok.inj hwritten]
        exact hmid.trans_add hextends

/-! ## The counts that give the vector back -/

/-- The counts met going back from the last entry, once written, are positive runs that give the
same vector, and the result fits into a datum. -/
def GivesBack (index : IndexPtr) (runs : List Nat) (vals : List Float8) : Prop :=
  ∃ (offset : Nat) (counts : List Int) (entries : List UInt8) (met : List Nat),
    skipEntries (vals.length - 1) index = .ok offset ∧ CountsBack index offset counts ∧
    counts.length = vals.length ∧ toInt32 counts.sum = (runs.sum : Nat) ∧
    writtenIndex counts = .ok entries ∧ Walks entries met ∧ met.length = vals.length ∧
    (∀ n ∈ met, 0 < n) ∧ expand met.reverse vals = expand runs vals ∧
    svecSize (8 * vals.length) entries.length ≤ maxAllocSize

/-- What `reverse` returns is the vector in reverse. -/
structure Reversed (s r : SparseData) : Prop where
  wellFormed : WellFormed r
  dense_eq : r.dense = s.dense.reverse

theorem reverse_reversed_iff {s : SparseData} {runs : List Nat} (h : HasRuns s runs)
    (htotal : s.totalValueCount.toInt = (runs.sum : Nat)) (hone : 1 ≤ s.totalValueCount.toInt) :
    (∃ r, reverse s = .ok r ∧ Reversed s r ∧ r.trimmedSize ≤ maxAllocSize) ↔
      GivesBack s.index.data runs s.vals := by
  have hunique := h.length_vals
  have hempty : makeSparseData.index.data ≠ none := Option.some_ne_none _
  have hlength : runs.length = s.vals.length := h.length_runs.trans hunique.symm
  constructor
  · rintro ⟨r, hr, hreversed, hfits⟩
    have ⟨offset, hoffset, hcopy⟩ := bind_eq_ok.mp hr
    have ⟨counts, entries, hback, hcounts, hwritten, hextends⟩ :=
      copyBackwards_reads hempty hcopy
    have ⟨met, hmet, hpositive, hsum⟩ := hreversed.wellFormed.exists_runs
    have hvals : r.vals = s.vals.reverse := by
      rw [hextends.vals_eq, ← hunique, List.take_length]
      rfl
    have hindex : r.index.data = some entries := hextends.index_eq
    have hdense := hreversed.dense_eq
    have hmetlen : met.length = s.vals.length := by
      rw [hmet.length_runs, ← hmet.length_vals, hvals, List.length_reverse]
    have hlen := congrArg List.length hdense
    rw [hmet.length_dense, List.length_reverse, h.length_dense] at hlen
    refine ⟨offset, counts, entries, met, ?_, hback, hcounts.trans hunique.symm, ?_, hwritten, ?_,
      hmetlen, hpositive, ?_, ?_⟩
    · rw [hunique]
      exact hoffset
    · have htotal' := hextends.total_eq
      rw [show makeSparseData.totalValueCount.toInt = 0 from rfl, Int.zero_add] at htotal'
      rw [← htotal', hsum, hlen]
    · have hruns := hmet.index
      rw [hindex] at hruns
      exact hruns
    · rw [hmet.dense_eq, h.dense_eq, hvals, ← List.reverse_inj, List.reverse_reverse,
        reverse_expand (by rw [hmetlen, List.length_reverse]), List.reverse_reverse] at hdense
      exact hdense
    · have hsize : r.trimmedSize = svecSize (8 * s.vals.length) entries.length := by
        unfold SparseData.trimmedSize SparseData.valsLen StringInfo.len
        rw [hvals, hindex, List.length_reverse, Option.getD_some]
      rw [← hsize]
      exact hfits
  · rintro ⟨offset, counts, entries, met, hoffset, hback, hcounts, hsum, hwritten, hwalks, hmetlen,
      hpositive, hexpand, hfits⟩
    have ⟨r, hcopy, hextends⟩ := copyBackwards_of_reads hempty hcounts.le hback hwritten
    have hvals : r.vals = s.vals.reverse := by
      rw [hextends.vals_eq, hcounts, List.take_length]
      rfl
    have hindex : r.index.data = some entries := hextends.index_eq
    have hrunique : r.uniqueValueCount = s.vals.length := by
      rw [hextends.unique_eq, hcounts, List.take_length, List.length_reverse]
      exact Nat.zero_add _
    have hmet : HasRuns r met := by
      refine ⟨?_, hmetlen.trans hrunique.symm, ?_⟩
      · rw [hindex]
        exact hwalks
      · rw [hvals, List.length_reverse, hrunique]
    have hdense : r.dense = s.dense.reverse := by
      rw [hmet.dense_eq, h.dense_eq, hvals, ← hexpand,
        reverse_expand (by rw [List.length_reverse, hmetlen]), List.reverse_reverse]
    have hrtotal : r.totalValueCount.toInt = s.totalValueCount.toInt := by
      rw [hextends.total_eq, show makeSparseData.totalValueCount.toInt = 0 from rfl, Int.zero_add,
        hsum, htotal]
    have hlen := congrArg List.length hdense
    rw [hmet.length_dense, List.length_reverse, h.length_dense] at hlen
    refine ⟨r, ?_, ⟨⟨⟨met, hmet, hpositive, ?_⟩, ?_⟩, hdense⟩, ?_⟩
    · unfold reverse
      rw [← hunique, hoffset, ok_bind, ← hcounts]
      exact hcopy
    · rw [hrtotal, htotal, hlen]
    · rw [hrtotal]
      exact hone
    · unfold SparseData.trimmedSize SparseData.valsLen StringInfo.len
      rw [hvals, hindex, List.length_reverse, Option.getD_some]
      exact hfits

/-! ## Entries of one width -/

/-- All entries of the index have the same width. -/
def OneWidth : IndexPtr → List Nat → Prop
  | none, runs => ∀ n ∈ runs, n = 1
  | some bytes, runs => ∃ (width : Nat) (pairs : List (List UInt8 × Nat)),
      bytes = (pairs.map Prod.fst).flatten ∧ runs = pairs.map Prod.snd ∧
      ∀ pair ∈ pairs, IsEntry pair.1 pair.2 ∧ pair.1.length = width

theorem writtenIndex_of_runs {runs : List Nat} (h : ∀ n ∈ runs, n < 9223372036854775808) :
    writtenIndex (runs.map fun n : Nat => (n : Int)) = .ok (rleBytes runs) := by
  induction runs with
  | nil => rfl
  | cons n runs ih =>
      have hn := h n List.mem_cons_self
      rw [List.map_cons, writtenIndex, rleIndexBytes_eq (by omega) (by omega), ok_bind,
        ih fun m hm => h m (List.mem_cons_of_mem n hm), ok_bind, pure_eq_ok]
      rfl

theorem countsBack_null (offset : Int) (k : Nat) : CountsBack none offset (List.replicate k 1) := by
  induction k generalizing offset with
  | zero => exact trivial
  | succ k ih => exact ⟨none, 0, rfl, rfl, rfl, ih _⟩

theorem length_flatten_of_width {width : Nat} {pairs : List (List UInt8 × Nat)}
    (h : ∀ pair ∈ pairs, pair.1.length = width) :
    (pairs.map Prod.fst).flatten.length = pairs.length * width := by
  have hwidths : (pairs.map Prod.fst).map List.length = pairs.map fun _ => width := by
    rw [List.map_map]
    exact List.map_congr_left h
  rw [List.length_flatten, hwidths, List.map_const', List.sum_replicate, smul_eq_mul]

theorem walks_pairs {pairs : List (List UInt8 × Nat)}
    (h : ∀ pair ∈ pairs, IsEntry pair.1 pair.2) :
    Walks (pairs.map Prod.fst).flatten (pairs.map Prod.snd) := by
  induction pairs with
  | nil => exact .nil
  | cons pair pairs ih =>
      exact .cons (h pair List.mem_cons_self) (ih fun p hp => h p (List.mem_cons_of_mem _ hp))

/-- Going back over entries of one width meets each of them. -/
theorem countsBack_of_width {width : Nat} {pairs : List (List UInt8 × Nat)}
    (h : ∀ pair ∈ pairs, IsEntry pair.1 pair.2 ∧ pair.1.length = width) (rest : List UInt8) :
    CountsBack (some ((pairs.map Prod.fst).flatten ++ rest)) ((pairs.length : Int) * width - width)
      (pairs.map fun pair => (pair.2 : Int)).reverse := by
  induction pairs using List.reverseRecOn generalizing rest with
  | nil => exact trivial
  | append_singleton pairs pair ih =>
      have hpair := h pair (by simp)
      have hpairs : ∀ p ∈ pairs, IsEntry p.1 p.2 ∧ p.1.length = width :=
        fun p hp => h p (List.mem_append_left _ hp)
      have hlen := length_flatten_of_width fun p hp => (hpairs p hp).2
      have hoffset : ((pairs ++ [pair]).length : Int) * width - width =
          ((pairs.length * width : Nat) : Int) := by
        rw [List.length_append, List.length_singleton]
        push_cast
        ring
      have hbytes : ((pairs ++ [pair]).map Prod.fst).flatten ++ rest =
          (pairs.map Prod.fst).flatten ++ (pair.1 ++ rest) := by
        simp
      rw [hoffset, hbytes, List.map_append, List.reverse_append, List.map_singleton,
        List.reverse_singleton, List.singleton_append]
      refine ⟨some (pair.1 ++ rest), pair.1.length, ?_, (hpair.1 _).1, hpair.1.size _, ?_⟩
      · unfold pointerAt
        dsimp only
        rw [if_neg (by omega), Int.toNat_natCast, ← hlen, List.drop_left]
      · rw [hpair.2]
        exact ih hpairs (pair.1 ++ rest)

/-- An index of one width, or none at all, gives the vector back. -/
theorem OneWidth.givesBack {index : IndexPtr} {runs : List Nat} {vals : List Float8}
    (h : OneWidth index runs) (hlength : runs.length = vals.length)
    (hpositive : ∀ n ∈ runs, 0 < n) (hsum : runs.sum < 2147483648)
    (hfits : svecSize (8 * vals.length) (rleBytes runs.reverse).length ≤ maxAllocSize) :
    GivesBack index runs vals := by
  have hmax : ∀ n ∈ runs.reverse, n < 9223372036854775808 := by
    intro n hn
    have hle := List.le_sum_of_mem (List.mem_reverse.mp hn)
    omega
  have hcast : ((runs.reverse.map fun n : Nat => (n : Int)).sum : Int) = (runs.sum : Nat) := by
    rw [List.map_reverse, List.sum_reverse, Nat.cast_list_sum]
  have hback : ∃ offset : Nat, skipEntries (vals.length - 1) index = .ok offset ∧
      CountsBack index offset (runs.reverse.map fun n : Nat => (n : Int)) := by
    cases index with
    | none =>
        have hones : runs = List.replicate vals.length 1 :=
          List.eq_replicate_iff.mpr ⟨hlength, h⟩
        refine ⟨0, skipEntries_none _, ?_⟩
        rw [hones, List.reverse_replicate, List.map_replicate]
        exact countsBack_null _ _
    | some bytes =>
        have ⟨width, pairs, hbytes, hruns, hentries⟩ := h
        rw [hbytes]
        cases pairs using List.reverseRecOn with
        | nil =>
            rw [hruns] at hlength
            rw [← hlength, hruns]
            exact ⟨0, rfl, trivial⟩
        | append_singleton pairs pair =>
            have hinit : ∀ p ∈ pairs, IsEntry p.1 p.2 ∧ p.1.length = width :=
              fun p hp => hentries p (List.mem_append_left _ hp)
            have hcount : vals.length - 1 = (pairs.map Prod.snd).length := by
              rw [← hlength, hruns]
              simp
            have hlen := length_flatten_of_width fun p hp => (hinit p hp).2
            have hskip := skipEntries_walks (walks_pairs fun p hp => (hinit p hp).1) pair.1
            have hback := countsBack_of_width hentries []
            have hoffset : ((pairs ++ [pair]).length : Int) * width - width =
                ((pairs.map Prod.fst).flatten.length : Nat) := by
              rw [hlen, List.length_append, List.length_singleton]
              push_cast
              ring
            have hcounts : runs.reverse.map (fun n : Nat => (n : Int)) =
                ((pairs ++ [pair]).map fun pair => (pair.2 : Int)).reverse := by
              rw [hruns, List.map_reverse, List.map_map]
              rfl
            rw [hoffset, List.append_nil, ← hcounts] at hback
            refine ⟨(pairs.map Prod.fst).flatten.length, ?_, hback⟩
            rw [hcount, ← hskip]
            simp
  have ⟨offset, hoffset, hcounts⟩ := hback
  refine ⟨offset, _, rleBytes runs.reverse, runs.reverse, hoffset, hcounts, ?_, ?_,
    writtenIndex_of_runs hmax, walks_rleBytes hmax, ?_, ?_, ?_, hfits⟩
  · rw [List.length_map, List.length_reverse, hlength]
  · rw [hcast, toInt32_of_mem (by omega) (by omega)]
  · rw [List.length_reverse, hlength]
  · exact fun n hn => hpositive n (List.mem_reverse.mp hn)
  · rw [List.reverse_reverse]

/-! ## svec_reverse and svec_subvec -/

theorem SameData.symm {s t : SparseData} (h : SameData s t) : SameData t s :=
  ⟨h.unique.symm, h.total.symm, h.vals.symm, h.index.symm⟩

/-- A SparseData that is serialized as the reverse is the reverse, and fits into a datum. -/
theorem serialized_reversed_iff {x : Except Fault SparseData} {s : SparseData}
    (hindex : ∀ ret, x = .ok ret → ∃ bytes, ret.index.data = some bytes ∧ bytes ≠ []) :
    (∃ r, (x >>= fun ret => svecFromSparsedata ret true) = .ok r ∧
      Reversed s (sdataFromSvec r)) ↔
      ∃ ret, x = .ok ret ∧ Reversed s ret ∧ ret.trimmedSize ≤ maxAllocSize := by
  constructor
  · rintro ⟨r, hr, hreversed⟩
    have ⟨ret, hret, hserial⟩ := bind_eq_ok.mp hr
    have hfits : ret.trimmedSize ≤ maxAllocSize := by
      by_contra hlarge
      rw [svecFromSparsedata_trim_error (Nat.lt_of_not_le hlarge)] at hserial
      cases hserial
    have ⟨svec, hsvec, _, hback⟩ := svecFromSparsedata_trim hfits
    rw [Except.ok.inj (hsvec.symm.trans hserial)] at hback
    have ⟨bytes, hbytes, hne⟩ := hindex ret hret
    have hsame : SameData ret (sdataFromSvec r) := by
      rw [hback, hbytes, Option.getD_some, trimIndex_of_ne hne]
      exact ⟨rfl, rfl, rfl, hbytes⟩
    refine ⟨ret, hret, ⟨hsame.wellFormed hreversed.wellFormed, ?_⟩, hfits⟩
    rw [hsame.dense_eq, hreversed.dense_eq]
  · rintro ⟨ret, hret, hreversed, hfits⟩
    have ⟨svec, hsvec, _, hsame⟩ := svecFromSparsedata_wellFormed hreversed.wellFormed hfits
    refine ⟨svec, ?_, hsame.wellFormed hreversed.wellFormed, ?_⟩
    · rw [hret, ok_bind, hsvec]
    · rw [hsame.dense_eq, hreversed.dense_eq]

theorem reverse_index {s ret : SparseData} (hunique : s.uniqueValueCount ≠ 0)
    (h : reverse s = .ok ret) : ∃ bytes, ret.index.data = some bytes ∧ bytes ≠ [] := by
  have ⟨offset, _, hcopy⟩ := bind_eq_ok.mp h
  have ⟨counts, entries, _, hcounts, hwritten, hextends⟩ :=
    copyBackwards_reads (Option.some_ne_none _) hcopy
  refine ⟨entries, hextends.index_eq, ?_⟩
  cases counts with
  | nil => exact absurd hcounts.symm hunique
  | cons n counts =>
      have ⟨entry, hentry, hrest⟩ := bind_eq_ok.mp hwritten
      have ⟨rest, _, hrest⟩ := bind_eq_ok.mp hrest
      rw [← Except.ok.inj hrest]
      exact List.append_ne_nil_of_left_ne_nil (entryIn_ne_nil hentry) rest

theorem WellFormed.unique_ne_zero {s : SparseData} (h : WellFormed s) : s.uniqueValueCount ≠ 0 := by
  have ⟨runs, hruns, _, htotal⟩ := h.exists_runs
  have hone := h.one_le_total
  intro hzero
  rw [← hruns.length_runs, List.length_eq_zero_iff] at hzero
  rw [hzero, List.sum_nil] at htotal
  omega

/-- The call returns the vector in reverse. -/
def Reverses (v : SvecType) : Prop :=
  ∃ r, svecReverse v = .ok r ∧ Reversed (sdataFromSvec v) (sdataFromSvec r)

/-- The counts met going back over the index of the svec give the vector back. -/
def SvecGivesBack (v : SvecType) : Prop :=
  GivesBack (sdataFromSvec v).index.data v.runs v.vals

theorem reverses_iff {v : SvecType} (h : WellFormed (sdataFromSvec v)) :
    Reverses v ↔ SvecGivesBack v := by
  have ⟨runs, hruns, _, htotal⟩ := h.exists_runs
  have hreverse := reverse_reversed_iff hruns htotal h.one_le_total
  unfold SvecGivesBack
  rw [hruns.svec_runs_eq]
  exact (serialized_reversed_iff fun ret hret => reverse_index h.unique_ne_zero hret).trans hreverse

/-- The call returns the elements from `stop` to `start` in reverse. -/
def SubvecReverses (v : SvecType) (start stop : Int32) : Prop :=
  ∃ r, svecSubvec v start stop = .ok r ∧ WellFormed (sdataFromSvec r) ∧
    (sdataFromSvec r).dense = (((sdataFromSvec v).dense.drop (stop.toInt - 1).toNat).take
      (start.toInt - stop.toInt + 1).toNat).reverse

/-- The counts met going back over the index of the slice give it back. -/
def SliceGivesBack (v : SvecType) (start stop : Int) : Prop :=
  let pairs := slicePiece (sdataFromSvec v) start stop
  GivesBack (some (rleBytes (pairs.map Prod.fst))) (pairs.map Prod.fst) (pairs.map Prod.snd)

theorem subvecReverses_iff {v : SvecType} (h : WellFormed (sdataFromSvec v)) {start stop : Int32}
    (hlo : 1 ≤ stop.toInt) (hlt : stop.toInt < start.toInt)
    (hhi : start.toInt ≤ v.totalValueCount.toInt) :
    SubvecReverses v start stop ↔ SliceGivesBack v stop.toInt start.toInt := by
  have ⟨runs, hruns, hpositive, htotal⟩ := h.exists_runs
  have ⟨ret, hret, hbuilt⟩ := subarrForward_spec hruns hpositive htotal hlo hlt.le hhi
  have hdense : ret.dense = _ := hbuilt.dense_eq.trans (flat_sliceRuns hruns _ _)
  have hlen := hbuilt.proper.truthful.length_dense
  have hvlen := h.truthful.length_dense
  have hvtotal : (sdataFromSvec v).totalValueCount.toInt = v.totalValueCount.toInt := rfl
  rw [hdense, List.length_take, List.length_drop] at hlen
  have hwell : WellFormed ret := ⟨hbuilt.proper, by omega⟩
  have hsubarr : subarr (sdataFromSvec v) start.toInt stop.toInt = reverse ret := by
    unfold subarr
    rw [if_pos hlt, hret, ok_bind]
  have hreverse := reverse_reversed_iff hbuilt.hasRuns hbuilt.total_eq hwell.one_le_total
  have hserialized := serialized_reversed_iff (x := reverse ret) (s := ret)
    fun out hout => reverse_index hwell.unique_ne_zero hout
  unfold SubvecReverses SliceGivesBack slicePiece svecSubvec
  rw [hruns.runLengths_eq, Option.getD_some, hsubarr, ← hdense]
  rw [hbuilt.index_eq, hbuilt.vals_eq] at hreverse
  refine Iff.trans ⟨?_, ?_⟩ (hserialized.trans hreverse)
  · rintro ⟨r, hr, hwf, hd⟩
    exact ⟨r, hr, hwf, hd⟩
  · rintro ⟨r, hr, hwf, hd⟩
    exact ⟨r, hr, hwf, hd⟩

theorem svecSubvec_outside {v : SvecType} {start stop : Int32} (hlt : stop.toInt < start.toInt)
    (houtside : stop.toInt < 1 ∨ v.totalValueCount.toInt < start.toInt) :
    svecSubvec v start stop =
      .error (.ereport .invalidParameterValue "Array index out of bounds.") := by
  have hrefused : 0 ≥ stop.toInt ∨ stop.toInt > start.toInt ∨
      start.toInt > (sdataFromSvec v).totalValueCount.toInt := by
    rcases houtside with hlow | hhigh
    · exact .inl (by omega)
    · exact .inr (.inr hhigh)
  unfold svecSubvec subarr subarrForward
  rw [if_pos hlt, if_pos hrefused]
  rfl

end Madlib.Svec
