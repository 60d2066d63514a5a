import Mathlib
import Madlib.Sketch.FmMerge

/-!
# Merging two small FM states

The merge counts the values of both states before it knows which of them are the same.
It stays exact when they would fit into one directory all different, and sketches them
otherwise, however few of them are distinct.
-/

namespace Madlib.Sketch

open Madlib.Backend Madlib.Lib.MachineInt

/-- A small state of a type: its sortasort is sound and within its directory. -/
structure SmallValue (catalog : Catalog) (elementType : Nat) (s : Sortasort) : Prop where
  wellFormed : WellFormed catalog s
  typLen : s.typLen = catalog.typlen elementType
  capacity : s.capacity = minvals
  within : s.numVals ≤ minvals

/-- The values of the shorter state that the other one does not have. -/
def newValues (catalog : Catalog) (sortashort sortabig : Sortasort) : List (List UInt8) :=
  (values catalog sortashort).filter (· ∉ values catalog sortabig)

/-- The used and the whole storage after some more datums. -/
def growStorage (storage : Nat × Nat) (vals : List (List UInt8)) : Option (Nat × Nat) :=
  vals.foldlM (fun storage d => storageStep storage d.length) storage

/-- The longer state's storage can be made large enough for the other one's new values. -/
def MergeFits (catalog : Catalog) (s1 s2 : Sortasort) : Prop :=
  if s2.numVals < s1.numVals then
    (growStorage (s1.storageCur, s1.storageSz) (newValues catalog s2 s1)).isSome
  else (growStorage (s2.storageCur, s2.storageSz) (newValues catalog s1 s2)).isSome

/-- The number of distinct values of two states. -/
def unionSize (catalog : Catalog) (s1 s2 : Sortasort) : Nat :=
  distinctCount (values catalog s1 ++ values catalog s2)

/-- The merge of two small states is the small state of the union of their values, and the
number counted in it is the size of the union. -/
def MergesExactly (catalog : Catalog) (md5 : Md5) (elementType : Nat) (s1 s2 : Sortasort) :
    Prop :=
  ∃ s, fmsketchMerge catalog md5 (some (.small (fmInfo catalog elementType) s1))
      (some (.small (fmInfo catalog elementType) s2)) =
        .ok (some (.small (fmInfo catalog elementType) s)) ∧
    SmallValue catalog elementType s ∧
    (∀ d, d ∈ values catalog s ↔ d ∈ values catalog s1 ∨ d ∈ values catalog s2) ∧
    observe (some (.small (fmInfo catalog elementType) s)) = .small (unionSize catalog s1 s2)

variable {catalog : Catalog} {md5 : Md5} {elementType : Nat} {s s1 s2 : Sortasort}
  {stream : List (List UInt8)}

/-- The small states the transitions make. -/
theorem smallValue_of_state (htype : elementType ≠ 0)
    (h : ∀ d ∈ stream, IsDatum catalog (catalog.typlen elementType) d) {info : FmInfo}
    (hstate : fmsketchState catalog md5 elementType stream = .ok (some (.small info s))) :
    info = fmInfo catalog elementType ∧ SmallValue catalog elementType s ∧
      ∀ d, d ∈ values catalog s ↔ d ∈ stream := by
  have hout : Outcome catalog md5 elementType stream _ := outcome_state htype h
  rw [hstate] at hout
  cases hout with
  | @small _ _ hne hfits hcount hsmall =>
      refine ⟨rfl, ⟨hsmall.wellFormed, hsmall.typLen, hsmall.capacity, ?_⟩,
        fun d => hsmall.mem_values⟩
      rw [hsmall.numVals]
      rcases distinctCount_dropLast hne with ⟨heq, _⟩ | ⟨heq, _⟩ <;> omega

theorem distinctCount_of_nodup (h : stream.Nodup) : distinctCount stream = stream.length := by
  unfold distinctCount firstSeen
  rw [List.length_reverse, (List.nodup_reverse.mpr h).dedup, List.length_reverse]

theorem SmallValue.datum (h : SmallValue catalog elementType s) {i : Nat}
    (hi : i < (values catalog s).length) :
    IsDatum catalog (catalog.typlen elementType) (values catalog s)[i] ∧
      ∃ rest, getval s i = .ok ((values catalog s)[i] ++ rest) := by
  have hget := getval_ok h.wellFormed hi
  rwa [h.typLen] at hget

/-! ## Within the directory -/

/-- A state that took some of the other one's values into its own. -/
structure Took (catalog : Catalog) (elementType : Nat) (sortabig : Sortasort)
    (vals : List (List UInt8)) (storage : Nat × Nat) (s : Sortasort) : Prop where
  wellFormed : WellFormed catalog s
  typLen : s.typLen = catalog.typlen elementType
  capacity : s.capacity = minvals
  mem : ∀ d, d ∈ values catalog s ↔ d ∈ values catalog sortabig ∨ d ∈ vals
  count : s.numVals ≤ sortabig.numVals + vals.length
  storage_eq : (s.storageCur, s.storageSz) = storage

theorem growStorage_append (storage : Nat × Nat) (vals : List (List UInt8)) (d : List UInt8) :
    growStorage storage (vals ++ [d]) =
      (growStorage storage vals).bind (storageStep · d.length) := by
  unfold growStorage
  simp only [List.foldlM_append, List.foldlM_cons, List.foldlM_nil, bind_pure]
  rfl

/-- One more value is taken if it is a new one, in storage made for it if need be. -/
theorem Took.insert {sortabig : Sortasort} {vals : List (List UInt8)} {storage : Nat × Nat}
    {d : List UInt8} (h : Took catalog elementType sortabig vals storage s)
    (hd : IsDatum catalog (catalog.typlen elementType) d) (rest : List UInt8)
    (hfresh : d ∉ vals) (hnum : sortabig.numVals + vals.length < minvals) :
    (d ∈ values catalog sortabig →
      ∃ s', fmsketchSortasortInsert catalog (fmInfo catalog elementType) s (d ++ rest) d.length =
          .ok s' ∧
        Took catalog elementType sortabig (vals ++ [d]) storage s') ∧
    (d ∉ values catalog sortabig →
      (storageStep storage d.length = none →
        fmsketchSortasortInsert catalog (fmInfo catalog elementType) s (d ++ rest) d.length =
          .error tooLarge) ∧
      ∀ storage', storageStep storage d.length = some storage' →
        ∃ s', fmsketchSortasortInsert catalog (fmInfo catalog elementType) s (d ++ rest)
            d.length = .ok s' ∧
          Took catalog elementType sortabig (vals ++ [d]) storage' s') := by
  have hcount := h.count
  have hd' : IsDatum catalog s.typLen d := h.typLen ▸ hd
  have ⟨hpresent, hnew⟩ := fmsketchSortasortInsert_spec (fmInfo catalog elementType) h.wellFormed
    hd' rest h.typLen.symm h.capacity (by omega)
  have hin : d ∈ values catalog s ↔ d ∈ values catalog sortabig := by
    rw [h.mem, or_iff_left hfresh]
  refine ⟨fun hold => ⟨s, hpresent (hin.mpr hold), ?_⟩, fun hout => ?_⟩
  · refine ⟨h.wellFormed, h.typLen, h.capacity, fun d' => ?_, ?_, h.storage_eq⟩
    · rw [h.mem, List.mem_append, List.mem_singleton]
      constructor
      · exact Or.imp_right .inl
      · rintro (hbig | hvals | rfl)
        · exact .inl hbig
        · exact .inr hvals
        · exact .inl hold
    · rw [List.length_append]
      omega
  · have ⟨hfull, hroom⟩ := hnew (fun hold => hout (hin.mp hold))
    rw [h.storage_eq] at hfull hroom
    refine ⟨hfull, fun storage' hstep => ?_⟩
    have ⟨s', hinsert, hwf, hperm, hlen, hcap, hstorage⟩ := hroom storage' hstep
    refine ⟨s', hinsert, hwf, hlen.trans h.typLen, hcap.trans h.capacity, fun d' => ?_, ?_,
      hstorage⟩
    · rw [hperm.mem_iff, List.mem_cons, h.mem, List.mem_append, List.mem_singleton, or_comm,
        or_assoc]
    · rw [← length_values catalog, hperm.length_eq, List.length_cons, length_values,
        List.length_append, List.length_singleton]
      omega

theorem getElem_notMem_take {β : Type} {l : List β} (h : l.Nodup) {i : Nat} (hi : i < l.length) :
    l[i] ∉ l.take i := by
  have hnodup := h.sublist (List.take_sublist (i + 1) l)
  rw [List.take_succ_eq_append_getElem hi, List.nodup_append] at hnodup
  exact fun hmem => hnodup.2.2 _ hmem _ (List.mem_singleton_self _) rfl

/-- The values of the shorter state are taken one after the other. -/
theorem insertAll_spec {sortashort sortabig : Sortasort}
    (hshort : SmallValue catalog elementType sortashort)
    (hbig : SmallValue catalog elementType sortabig)
    (hsum : sortabig.numVals + sortashort.numVals ≤ minvals) :
    match growStorage (sortabig.storageCur, sortabig.storageSz)
        (newValues catalog sortashort sortabig) with
    | none => insertAll catalog (catalog.typlen elementType) (fmInfo catalog elementType)
        sortashort sortabig = .error tooLarge
    | some storage => ∃ s, insertAll catalog (catalog.typlen elementType)
          (fmInfo catalog elementType) sortashort sortabig = .ok s ∧
        Took catalog elementType sortabig (values catalog sortashort) storage s := by
  have hlen := length_values catalog sortashort
  unfold insertAll newValues
  generalize hstep : (fun (s : Sortasort) (i : Nat) => do
    let x ← getval sortashort i
    let len ← extractDatumLen catalog x (catalog.typlen elementType)
    fmsketchSortasortInsert catalog (fmInfo catalog elementType) s x len) = step
  suffices hprefix : ∀ count ≤ sortashort.numVals,
      match growStorage (sortabig.storageCur, sortabig.storageSz)
          (((values catalog sortashort).take count).filter (· ∉ values catalog sortabig)) with
      | none => (List.range count).foldlM step sortabig = .error tooLarge
      | some storage => ∃ s, (List.range count).foldlM step sortabig = .ok s ∧
          Took catalog elementType sortabig ((values catalog sortashort).take count) storage s by
    have hall := hprefix sortashort.numVals le_rfl
    rwa [List.take_of_length_le hlen.le] at hall
  intro count hcount
  induction count with
  | zero =>
      refine ⟨sortabig, rfl, hbig.wellFormed, hbig.typLen, hbig.capacity, fun d => ?_, ?_, rfl⟩
      · simp
      · simp
  | succ count ih =>
      have hi : count < (values catalog sortashort).length := by omega
      have ⟨hd, rest, hget⟩ := hshort.datum hi
      have hfresh : (values catalog sortashort)[count] ∉ (values catalog sortashort).take count :=
        getElem_notMem_take hshort.wellFormed.distinct hi
      have hbefore : ((values catalog sortashort).take count).length = count := by
        rw [List.length_take]
        omega
      have hbound : sortabig.numVals + ((values catalog sortashort).take count).length <
          minvals := by omega
      have hrun : ∀ s, step s count = fmsketchSortasortInsert catalog
          (fmInfo catalog elementType) s ((values catalog sortashort)[count] ++ rest)
          (values catalog sortashort)[count].length := by
        intro s
        rw [← hstep]
        dsimp only
        rw [hget, ok_bind, extractDatumLen_append hd, ok_bind]
      have ih := ih (by omega)
      rw [List.range_succ, List.foldlM_append, List.take_succ_eq_append_getElem hi,
        List.filter_append]
      generalize (values catalog sortashort).take count = before at *
      generalize (values catalog sortashort)[count] = d at *
      simp only [List.foldlM_cons, List.foldlM_nil, bind_pure]
      by_cases hold : d ∈ values catalog sortabig
      · have hnone : [d].filter (· ∉ values catalog sortabig) = [] := by simp [hold]
        rw [hnone, List.append_nil]
        generalize growStorage _ (before.filter _) = grown at ih ⊢
        cases grown with
        | none => rw [ih, error_bind]
        | some storage =>
            have ⟨s, hs, htook⟩ := ih
            rw [hs, ok_bind, hrun]
            exact (htook.insert hd rest hfresh hbound).1 hold
      · have hone : [d].filter (· ∉ values catalog sortabig) = [d] := by simp [hold]
        rw [hone, growStorage_append]
        generalize growStorage _ (before.filter _) = grown at ih ⊢
        cases grown with
        | none =>
            rw [ih, error_bind]
            rfl
        | some storage =>
            have ⟨s, hs, htook⟩ := ih
            have ⟨hfull, hroom⟩ := (htook.insert hd rest hfresh hbound).2 hold
            rw [hs, ok_bind, hrun, Option.bind_some]
            cases hnext : storageStep storage d.length with
            | none => exact hfull hnext
            | some storage' => exact hroom storage' hnext

theorem Took.smallValue {sortashort sortabig : Sortasort} {storage : Nat × Nat}
    (h : Took catalog elementType sortabig (values catalog sortashort) storage s)
    (hsum : sortabig.numVals + sortashort.numVals ≤ minvals) :
    SmallValue catalog elementType s := by
  have hcount := h.count
  rw [length_values] at hcount
  exact ⟨h.wellFormed, h.typLen, h.capacity, by omega⟩

theorem numVals_eq_unionSize (h : WellFormed catalog s)
    (hmem : ∀ d, d ∈ values catalog s ↔ d ∈ values catalog s1 ∨ d ∈ values catalog s2) :
    s.numVals = unionSize catalog s1 s2 := by
  unfold unionSize
  rw [← length_values catalog, ← distinctCount_of_nodup h.distinct]
  refine distinctCount_congr fun d => ?_
  rw [hmem, List.mem_append]

/-! ## Past the directory -/

theorem catchUp_all (h : SmallValue catalog elementType s) (md5 : Md5) (bitmaps : Bitmaps) :
    catchUp catalog md5 (fmInfo catalog elementType) s s.numVals bitmaps =
      if AllHit md5 (values catalog s) then .ok (orHits md5 bitmaps (values catalog s))
      else .error noBit := by
  have hcatch : catchUp catalog md5 (fmInfo catalog elementType) s s.numVals bitmaps = _ :=
    catchUp_eq h.wellFormed h.typLen le_rfl bitmaps
  rwa [List.take_of_length_le (length_values catalog s).le] at hcatch

/-- With more values than a directory holds, the same ones counted twice, the merge is a big
state of the bits of all values. -/
theorem mergeSmall_past (h1 : SmallValue catalog elementType s1)
    (h2 : SmallValue catalog elementType s2) (hsum : minvals < s1.numVals + s2.numVals) :
    mergeSmall catalog md5 (fmInfo catalog elementType) (fmInfo catalog elementType) s1 s2 =
      if AllHit md5 (values catalog s1 ++ values catalog s2) then
        .ok (.big (fmInfo catalog elementType)
          (orHits md5 zeroBitmaps (values catalog s1 ++ values catalog s2)))
      else .error noBit := by
  have hcap1 := h1.capacity
  have hcap2 := h2.capacity
  have hcatch1 := catchUp_all h1 md5 zeroBitmaps
  have hcatch2 := catchUp_all h2 md5
  have hdrop : mergeSmall catalog md5 (fmInfo catalog elementType) (fmInfo catalog elementType)
      s1 s2 = (do
        let bitmaps ← catchUp catalog md5 (fmInfo catalog elementType) s1 s1.numVals zeroBitmaps
        let bitmaps ← catchUp catalog md5 (fmInfo catalog elementType) s2 s2.numVals bitmaps
        pure (.big (fmInfo catalog elementType) bitmaps)) := by
    unfold mergeSmall
    by_cases hlt : s2.numVals < s1.numVals
    · rw [if_pos hlt]
      exact if_neg (by omega)
    · rw [if_neg hlt]
      exact if_neg (by omega)
  rw [hdrop, hcatch1]
  by_cases hall1 : AllHit md5 (values catalog s1)
  · rw [if_pos hall1, ok_bind, hcatch2]
    by_cases hall2 : AllHit md5 (values catalog s2)
    · rw [if_pos hall2, ok_bind, orHits_orHits, if_pos (allHit_append.mpr ⟨hall1, hall2⟩)]
      rfl
    · rw [if_neg hall2, error_bind, if_neg fun hall => hall2 (allHit_append.mp hall).2]
  · rw [if_neg hall1, error_bind, if_neg fun hall => hall1 (allHit_append.mp hall).1]

theorem mergeSmall_within (md5 : Md5) (h1 : SmallValue catalog elementType s1)
    (h2 : SmallValue catalog elementType s2) (hsum : s1.numVals + s2.numVals ≤ minvals) :
    mergeSmall catalog md5 (fmInfo catalog elementType) (fmInfo catalog elementType) s1 s2 =
      (if s2.numVals < s1.numVals then
        insertAll catalog (catalog.typlen elementType) (fmInfo catalog elementType) s2 s1
      else insertAll catalog (catalog.typlen elementType) (fmInfo catalog elementType) s1 s2) >>=
        fun s => pure (.small (fmInfo catalog elementType) s) := by
  have hcap1 := h1.capacity
  have hcap2 := h2.capacity
  unfold mergeSmall
  by_cases hlt : s2.numVals < s1.numVals
  · rw [if_pos hlt, if_pos hlt]
    exact if_pos (by omega)
  · rw [if_neg hlt, if_neg hlt]
    exact if_pos (by omega)

/-! ## Exact merges -/

theorem fmsketchMerge_small (md5 : Md5) (s1 s2 : Sortasort) :
    fmsketchMerge catalog md5 (some (.small (fmInfo catalog elementType) s1))
        (some (.small (fmInfo catalog elementType) s2)) =
      mergeSmall catalog md5 (fmInfo catalog elementType) (fmInfo catalog elementType) s1 s2 >>=
        fun transval => pure (some transval) := rfl

/-- The values of one state, inserted into the other one, are the union if there is storage. -/
theorem mergesExactly_iff_of_insertAll {sortashort sortabig : Sortasort}
    (hmerge : mergeSmall catalog md5 (fmInfo catalog elementType) (fmInfo catalog elementType)
      s1 s2 = insertAll catalog (catalog.typlen elementType) (fmInfo catalog elementType)
        sortashort sortabig >>= fun s => pure (.small (fmInfo catalog elementType) s))
    (hunion : ∀ d, d ∈ values catalog sortabig ∨ d ∈ values catalog sortashort ↔
      d ∈ values catalog s1 ∨ d ∈ values catalog s2)
    (hshort : SmallValue catalog elementType sortashort)
    (hbig : SmallValue catalog elementType sortabig)
    (hsum : sortabig.numVals + sortashort.numVals ≤ minvals) :
    MergesExactly catalog md5 elementType s1 s2 ↔
      (growStorage (sortabig.storageCur, sortabig.storageSz)
        (newValues catalog sortashort sortabig)).isSome := by
  have hspec := insertAll_spec hshort hbig hsum
  unfold MergesExactly
  rw [fmsketchMerge_small, hmerge]
  generalize growStorage _ _ = grown at hspec ⊢
  cases grown with
  | none =>
      rw [hspec]
      simp
  | some storage =>
      have ⟨s, hs, htook⟩ := hspec
      have hmem : ∀ d, d ∈ values catalog s ↔ d ∈ values catalog s1 ∨ d ∈ values catalog s2 :=
        fun d => (htook.mem d).trans (hunion d)
      rw [hs]
      refine iff_of_true ⟨s, rfl, htook.smallValue hsum, hmem, ?_⟩ rfl
      exact congrArg FmObserved.small (numVals_eq_unionSize htook.wellFormed hmem)

theorem not_mergesExactly (h1 : SmallValue catalog elementType s1)
    (h2 : SmallValue catalog elementType s2) (hsum : minvals < s1.numVals + s2.numVals) :
    ¬ MergesExactly catalog md5 elementType s1 s2 := by
  intro ⟨s, hs, _⟩
  rw [fmsketchMerge_small, mergeSmall_past h1 h2 hsum] at hs
  split_ifs at hs
  · cases hs
  · cases hs

/-- The merge of two small states is exact if and only if their sizes, and not only that of
their union, add up to no more than `MINVALS`, and the storage can be had. -/
theorem fmsketchMerge_small_iff (md5 : Md5) (h1 : SmallValue catalog elementType s1)
    (h2 : SmallValue catalog elementType s2) :
    MergesExactly catalog md5 elementType s1 s2 ↔
      s1.numVals + s2.numVals ≤ minvals ∧ MergeFits catalog s1 s2 := by
  by_cases hsum : s1.numVals + s2.numVals ≤ minvals
  · have hmerge := mergeSmall_within md5 h1 h2 hsum
    rw [and_iff_right hsum]
    unfold MergeFits
    by_cases hlt : s2.numVals < s1.numVals
    · rw [if_pos hlt] at hmerge ⊢
      exact mergesExactly_iff_of_insertAll hmerge (fun d => Iff.rfl) h2 h1 hsum
    · rw [if_neg hlt] at hmerge ⊢
      exact mergesExactly_iff_of_insertAll hmerge (fun d => or_comm) h1 h2 (by omega)
  · exact iff_of_false (not_mergesExactly h1 h2 (by omega)) fun h => hsum h.1

/-! ## Two segments that show it -/

theorem fmsketchState_small (md5 : Md5) (htype : elementType ≠ 0)
    (h : ∀ d ∈ stream, IsDatum catalog (catalog.typlen elementType) d) (hne : stream ≠ [])
    (hfits : Fits stream) (hcount : distinctCount stream.dropLast < minvals) :
    ∃ s, fmsketchState catalog md5 elementType stream =
      .ok (some (.small (fmInfo catalog elementType) s)) := by
  have hout : Outcome catalog md5 elementType stream _ := outcome_state htype h
  generalize fmsketchState catalog md5 elementType stream = r at hout
  cases hout with
  | empty => exact absurd rfl hne
  | tooLarge hnot => exact absurd hfits hnot
  | @small _ s _ _ _ _ => exact ⟨s, rfl⟩
  | big _ hle _ => omega
  | noBit _ hle _ => omega

theorem numVals_eq_distinctCount (h : SmallValue catalog elementType s)
    (hmem : ∀ d, d ∈ values catalog s ↔ d ∈ stream) : s.numVals = distinctCount stream := by
  rw [← distinctCount_congr hmem, distinctCount_of_nodup h.wellFormed.distinct, length_values]

theorem int64_isDatum (n : Int) :
    ∀ d ∈ [int64Bytes n], IsDatum int8Catalog (int8Catalog.typlen 20) d := by
  intro d hd
  rw [List.mem_singleton.mp hd]
  exact int8_isDatum (length_leBytes 8 _)

/-- The state of one number. -/
theorem int64_small (n : Int) : ∃ s,
    fmsketchState int8Catalog (fun _ _ => 1) 20 [int64Bytes n] =
      .ok (some (.small (fmInfo int8Catalog 20) s)) := by
  refine fmsketchState_small _ (by decide) (int64_isDatum n) (by simp) ?_ ?_
  · refine fits_of_length_le fun d hd => ?_
    rw [List.mem_singleton.mp hd, int64Bytes, length_leBytes]
    decide
  · exact Nat.lt_of_lt_of_eq (Nat.succ_pos 12287) rfl

/-- Merged with itself, the state of one number stays as it is. -/
theorem fmsketchMerge_small_same : ∃ s,
    fmsketchState int8Catalog (fun _ _ => 1) 20 [int64Bytes 1] =
        .ok (some (.small (fmInfo int8Catalog 20) s)) ∧
      MergesExactly int8Catalog (fun _ _ => 1) 20 s s := by
  have ⟨s, hstate⟩ := int64_small 1
  have ⟨_, hsmall, hmem⟩ := smallValue_of_state (by decide) (int64_isDatum 1) hstate
  have hnum : s.numVals = 1 := numVals_eq_distinctCount hsmall hmem
  have hnone : newValues int8Catalog s s = [] := by
    unfold newValues
    simp
  refine ⟨s, hstate, (fmsketchMerge_small_iff _ hsmall hsmall).mpr ⟨?_, ?_⟩⟩
  · rw [hnum]
    decide
  · unfold MergeFits
    rw [hnone]
    simp [growStorage]

/-- `MINVALS` numbers in one segment and one of them in the other: the union has `MINVALS`
values, and the merge is not exact. -/
theorem fmsketchMerge_small_overlap : ∃ s1 s2,
    fmsketchState int8Catalog (fun _ _ => 1) 20 minvalsNumbers =
        .ok (some (.small (fmInfo int8Catalog 20) s1)) ∧
      fmsketchState int8Catalog (fun _ _ => 1) 20 [int64Bytes 0] =
        .ok (some (.small (fmInfo int8Catalog 20) s2)) ∧
      unionSize int8Catalog s1 s2 ≤ minvals ∧
      ¬ MergesExactly int8Catalog (fun _ _ => 1) 20 s1 s2 := by
  have hdatum : ∀ d ∈ minvalsNumbers, IsDatum int8Catalog (int8Catalog.typlen 20) d :=
    fun d hd => int8_isDatum (length_of_mem_minvalsNumbers hd)
  have hdistinct : distinctCount minvalsNumbers = minvals := distinctCount_minvalsNumbers
  have hlen : minvalsNumbers.length = minvals := by
    rw [← distinctCount_of_nodup nodup_minvalsNumbers, hdistinct]
  have hne : minvalsNumbers ≠ [] := by
    intro hnil
    rw [hnil] at hlen
    exact absurd hlen (by decide)
  have hlast : distinctCount minvalsNumbers.dropLast < minvals := by
    rw [distinctCount_of_nodup (nodup_minvalsNumbers.sublist (List.dropLast_sublist _)),
      List.length_dropLast, hlen]
    decide
  have hfits : Fits minvalsNumbers := fits_of_length_le fun d hd => by
    rw [length_of_mem_minvalsNumbers hd]
    decide
  have ⟨s1, hs1⟩ := fmsketchState_small (fun _ _ => 1) (by decide) hdatum hne hfits hlast
  have ⟨s2, hs2⟩ := int64_small 0
  have ⟨_, hsmall1, hmem1⟩ := smallValue_of_state (by decide) hdatum hs1
  have ⟨_, hsmall2, hmem2⟩ := smallValue_of_state (by decide) (int64_isDatum 0) hs2
  have hnum1 : s1.numVals = minvals := (numVals_eq_distinctCount hsmall1 hmem1).trans hdistinct
  have hnum2 : s2.numVals = 1 := numVals_eq_distinctCount hsmall2 hmem2
  refine ⟨s1, s2, hs1, hs2, ?_, not_mergesExactly hsmall1 hsmall2 (by omega)⟩
  · have hzero : int64Bytes 0 ∈ minvalsNumbers := by
      unfold minvalsNumbers
      exact List.mem_map.mpr ⟨0, List.mem_range.mpr (by decide), rfl⟩
    have hunion : unionSize int8Catalog s1 s2 = distinctCount minvalsNumbers := by
      refine distinctCount_congr fun d => ?_
      rw [List.mem_append, hmem1, hmem2, List.mem_singleton, or_iff_left_iff_imp]
      rintro rfl
      exact hzero
    omega

end Madlib.Sketch
