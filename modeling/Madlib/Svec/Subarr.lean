import Madlib.Svec.Slices

/-!
# What a slice holds

`subarr` finds the block the range starts in and copies blocks up to its end.  A SparseData
that was built run by run holds these runs, each in the shortest entry that fits it.
-/

namespace Madlib.Svec

open Madlib.Backend Madlib.Lib.MachineInt Madlib.Lib.RunLength CountCode

/-! ## BuiltFrom run by run -/

/-- `s` was built from these runs and values. -/
structure BuiltFrom (s : SparseData) (pairs : List (Nat × Float8)) : Prop where
  hasRuns : HasRuns s (pairs.map Prod.fst)
  vals_eq : s.vals = pairs.map Prod.snd
  positive : ∀ pair ∈ pairs, 0 < pair.1
  index_eq : s.index.data = some (rleBytes (pairs.map Prod.fst))
  total_eq : s.totalValueCount.toInt = ((pairs.map Prod.fst).sum : Nat)

theorem builtFrom_makeSparseData : BuiltFrom makeSparseData [] where
  hasRuns := hasRuns_makeSparseData
  vals_eq := rfl
  positive := by simp
  index_eq := rfl
  total_eq := rfl

theorem BuiltFrom.dense_eq {s : SparseData} {pairs : List (Nat × Float8)} (h : BuiltFrom s pairs) :
    s.dense = flat pairs := by
  rw [h.hasRuns.dense_eq, h.vals_eq, flat]

theorem BuiltFrom.proper {s : SparseData} {pairs : List (Nat × Float8)} (h : BuiltFrom s pairs) :
    Proper s := by
  refine ⟨pairs.map Prod.fst, h.hasRuns, ?_, h.total_eq⟩
  rw [List.forall_mem_map]
  exact h.positive

theorem BuiltFrom.add {s : SparseData} {pairs : List (Nat × Float8)} (h : BuiltFrom s pairs)
    (v : Float8) {n : Int} (hn : 0 < n) (hfit : s.totalValueCount.toInt + n < 2147483648) :
    ∃ s', addRunToSdata v n s = .ok s' ∧ BuiltFrom s' (pairs ++ [(n.toNat, v)]) := by
  have htotal := h.total_eq
  have hdata : s.index.data ≠ none := by
    rw [h.index_eq]
    exact Option.some_ne_none _
  have ⟨s', hadd, hruns, hvals, _, htotal'⟩ :=
    addRunToSdata_hasRuns v n h.hasRuns hdata hn.le (by omega)
  have hindex := addRunToSdata_rleBytes h.index_eq hn.le (by omega) hadd
  refine ⟨s', hadd, ?_, ?_, ?_, ?_, ?_⟩
  · rw [List.map_append]
    exact hruns
  · rw [List.map_append, hvals, h.vals_eq]
    rfl
  · intro pair hpair
    rcases List.mem_append.mp hpair with hold | hnew
    · exact h.positive pair hold
    · rw [List.mem_singleton.mp hnew]
      exact Int.lt_toNat.mpr hn
  · rw [List.map_append]
    exact hindex
  · rw [htotal', toInt32_of_mem (by omega) (by omega), htotal, List.map_append, List.sum_append,
      List.map_singleton, List.sum_singleton]
    push_cast
    omega

/-! ## Blocks -/

/-- The block `i` of `n` times `v`, at the pointer `ix`, ends after `read` elements, and `rest`
is behind it. -/
structure BlockAt (s : SparseData) (i : Nat) (ix : IndexPtr) (read : Int) (n : Nat) (v : Float8)
    (rest : List (Nat × Float8)) : Prop where
  index : IndexRuns ix (n :: rest.map Prod.fst)
  drop_vals : s.vals.drop i = v :: rest.map Prod.snd
  one_le : 0 < n
  positive : ∀ pair ∈ rest, 0 < pair.1
  le_read : n ≤ read
  total_eq : read + ((rest.map Prod.fst).sum : Nat) = s.totalValueCount.toInt

theorem BlockAt.value {s : SparseData} {i : Nat} {ix : IndexPtr} {read : Int} {n : Nat}
    {v : Float8} {rest : List (Nat × Float8)} (h : BlockAt s i ix read n v rest) :
    valref s i = .ok v :=
  (valref_of_drop h.drop_vals).1

theorem BlockAt.next {s : SparseData} {i : Nat} {ix : IndexPtr} {read : Int} {n m : Nat}
    {v w : Float8} {rest : List (Nat × Float8)} (h : BlockAt s i ix read n v ((m, w) :: rest)) :
    ∃ ix', advance ix = .ok ix' ∧ compwordToInt8 ix' = .ok (m : Int) ∧ toInt32 m = m ∧
      toInt32 (read + m) = read + m ∧ BlockAt s (i + 1) ix' (read + m) m w rest := by
  have ⟨_, ix', hadvance, hindex⟩ := h.index.read
  rw [List.map_cons] at hindex
  have hm := h.positive (m, w) List.mem_cons_self
  have hle := h.le_read
  have htotal := h.total_eq
  have hmax := (int32_mem s.totalValueCount).2
  rw [List.map_cons, List.sum_cons, Nat.cast_add] at htotal
  dsimp only at hm htotal
  refine ⟨ix', hadvance, hindex.read.1, toInt32_of_mem (by omega) (by omega),
    toInt32_of_mem (by omega) (by omega), hindex, ?_, hm, ?_, by omega, by omega⟩
  · exact (valref_of_drop h.drop_vals).2
  · exact fun pair hpair => h.positive pair (List.mem_cons_of_mem _ hpair)

/-- The start block is the one the first element of the range lies in. -/
theorem findBlock_spec {s : SparseData} (start : Int) {rounds i : Nat} {ix : IndexPtr}
    {read : Int} {n : Nat} {v : Float8} {rest : List (Nat × Float8)}
    (h : BlockAt s i ix read n v rest) (hrounds : rest.length < rounds)
    (hlo : read - n < start) (hhi : start ≤ s.totalValueCount.toInt) :
    ∃ i' ix' read' n' v' rest', findBlock start rounds i ix read = .ok (i', ix', read') ∧
      BlockAt s i' ix' read' n' v' rest' ∧ start ≤ read' ∧ read' - n' < start ∧
      dropRuns (start - 1 - (read - n)).toNat ((n, v) :: rest) =
        ((read' - start + 1).toNat, v') :: rest' := by
  induction rest generalizing rounds i ix read n v with
  | nil =>
      have htotal := h.total_eq
      rw [List.map_nil, List.sum_nil] at htotal
      have hn := h.one_le
      cases rounds with
      | zero => simp at hrounds
      | succ rounds =>
          refine ⟨i, ix, read, n, v, [], ?_, h, by omega, hlo, ?_⟩
          · rw [findBlock, if_neg (by omega)]
          · rw [dropRuns, if_pos (by omega)]
            have hcount : n - (start - 1 - (read - n)).toNat = (read - start + 1).toNat := by omega
            rw [hcount]
  | cons pair rest ih =>
      have hsplit : pair = (pair.1, pair.2) := rfl
      rw [hsplit] at h ⊢
      cases rounds with
      | zero => simp at hrounds
      | succ rounds =>
          rw [findBlock]
          by_cases hlt : read < start
          · obtain ⟨ix', hadvance, hrun, _, hwrap, hnext⟩ := h.next
            have hrest : rest.length < rounds := by simpa using hrounds
            have hn := h.one_le
            rw [if_pos hlt, hadvance, ok_bind, hrun, ok_bind, hwrap]
            obtain ⟨i', ix'', read', n', v', rest', hfind, hblock, hle, hgt, hdrop⟩ :=
              ih hnext hrest (by omega)
            refine ⟨i', ix'', read', n', v', rest', hfind, hblock, hle, hgt, ?_⟩
            have hskip : (start - 1 - (read - n)).toNat - n =
                (start - 1 - (read + pair.1 - pair.1)).toNat := by omega
            rw [dropRuns, if_neg (by omega), hskip]
            exact hdrop
          · rw [if_neg hlt]
            refine ⟨i, ix, read, n, v, (pair.1, pair.2) :: rest, rfl, h, by omega, hlo, ?_⟩
            have hn := h.one_le
            rw [dropRuns, if_pos (by omega)]
            have hcount : n - (start - 1 - (read - n)).toNat = (read - start + 1).toNat := by omega
            rw [hcount]

/-- Behind the start block the runs are copied up to the end of the range. -/
theorem copyBlocks_spec {s ret : SparseData} {stop : Int} {i : Nat} {ix : IndexPtr} {read : Int}
    {n : Nat} {v : Float8} {rest pairs : List (Nat × Float8)} (h : BlockAt s i ix read n v rest)
    (hret : BuiltFrom ret pairs) (hlo : read < stop) (hhi : stop ≤ s.totalValueCount.toInt)
    (hfit : ret.totalValueCount.toInt + (stop - read) < 2147483648) :
    ∃ ret', copyBlocks s stop rest.length (i + 1) ix read ret = .ok ret' ∧
      BuiltFrom ret' (pairs ++ takeRuns (stop - read).toNat rest) := by
  induction rest generalizing ret i ix read n v pairs with
  | nil =>
      have htotal := h.total_eq
      rw [List.map_nil, List.sum_nil] at htotal
      omega
  | cons pair rest ih =>
      have hsplit : pair = (pair.1, pair.2) := rfl
      rw [hsplit] at h ⊢
      obtain ⟨ix', hadvance, hrun, hword, hwrap, hnext⟩ := h.next
      have hm := hnext.one_le
      have hle := h.le_read
      have hmax := (int32_mem s.totalValueCount).2
      rw [List.length_cons, copyBlocks, hadvance, ok_bind, hrun, ok_bind]
      dsimp only
      rw [hnext.value, ok_bind, hword, hwrap, takeRuns]
      by_cases hover : read + pair.1 > stop
      · have hcount : toInt32 (stop - read) = stop - read :=
          toInt32_of_mem (by omega) (by omega)
        rw [if_pos hover, if_neg (by omega), if_pos (by omega), hcount]
        exact hret.add pair.2 (by omega) hfit
      · obtain ⟨ret', hadd, hbuilt⟩ := hret.add pair.2 (n := pair.1) (by omega) (by omega)
        rw [if_neg hover, hadd, ok_bind, if_neg (show ¬ (stop - read).toNat = 0 by omega)]
        rw [Int.toNat_natCast] at hbuilt
        by_cases hend : read + pair.1 = stop
        · have hcount : (stop - read).toNat = pair.1 := by omega
          rw [if_pos hend, hcount, if_pos (le_refl _)]
          exact ⟨ret', rfl, hbuilt⟩
        · have htotal := hbuilt.total_eq
          have htotal' := hret.total_eq
          rw [List.map_append, List.sum_append, List.map_singleton, List.sum_singleton,
            Nat.cast_add] at htotal
          obtain ⟨out, hout, hbuilt'⟩ := ih hnext hbuilt (by omega) (by omega)
          have hcount : (stop - (read + pair.1)).toNat = (stop - read).toNat - pair.1 := by omega
          rw [List.append_assoc, hcount] at hbuilt'
          rw [if_neg hend, if_neg (by omega)]
          exact ⟨out, hout, hbuilt'⟩

/-- The first block. -/
theorem blockAt_first {s : SparseData} {runs : List Nat} (h : HasRuns s runs)
    (hpositive : ∀ n ∈ runs, 0 < n) (htotal : s.totalValueCount.toInt = (runs.sum : Nat))
    (hne : runs ≠ []) :
    ∃ n v rest, runs.zip s.vals = (n, v) :: rest ∧ compwordToInt8 s.index.data = .ok (n : Int) ∧
      toInt32 n = n ∧ rest.length + 1 = s.uniqueValueCount ∧
      BlockAt s 0 s.index.data n n v rest := by
  have hlen := h.length_runs.trans h.length_vals.symm
  have ⟨n, tail, hruns⟩ := List.exists_cons_of_ne_nil hne
  subst hruns
  have ⟨v, vtail, hvals⟩ := List.exists_of_length_succ s.vals hlen.symm
  have hn := hpositive n List.mem_cons_self
  have htail : tail.length = vtail.length := by
    rw [hvals] at hlen
    simpa using hlen
  have hmax := (int32_mem s.totalValueCount).2
  rw [List.sum_cons, Nat.cast_add] at htotal
  refine ⟨n, v, tail.zip vtail, by rw [hvals]; rfl, h.index.read.1,
    toInt32_of_mem (by omega) (by omega), ?_, ?_, ?_, hn, ?_, le_refl _, ?_⟩
  · rw [List.length_zip, ← htail, Nat.min_self, ← h.length_runs]
    rfl
  · rw [List.map_fst_zip htail.le]
    exact h.index
  · rw [List.map_snd_zip htail.ge, List.drop_zero, hvals]
  · intro pair hpair
    exact hpositive pair.1 (List.mem_cons_of_mem _ (List.of_mem_zip hpair).1)
  · rw [List.map_fst_zip htail.le]
    omega

/-- The pairs of runs and values of the elements from `start` to `stop`. -/
def sliceRuns (s : SparseData) (runs : List Nat) (start stop : Int) : List (Nat × Float8) :=
  takeRuns (stop - start + 1).toNat (dropRuns (start - 1).toNat (runs.zip s.vals))

theorem subarrForward_spec {s : SparseData} {runs : List Nat} (h : HasRuns s runs)
    (hpositive : ∀ n ∈ runs, 0 < n) (htotal : s.totalValueCount.toInt = (runs.sum : Nat))
    {start stop : Int} (hlo : 1 ≤ start) (hle : start ≤ stop)
    (hhi : stop ≤ s.totalValueCount.toInt) :
    ∃ ret, subarrForward s start stop = .ok ret ∧ BuiltFrom ret (sliceRuns s runs start stop) := by
  have hne : runs ≠ [] := by
    rintro rfl
    rw [List.sum_nil] at htotal
    omega
  have hmax := (int32_mem s.totalValueCount).2
  obtain ⟨n, v, rest, hzip, hrun, hword, hunique, hfirst⟩ := blockAt_first h hpositive htotal hne
  have hrounds : rest.length < s.totalValueCount.toInt.toNat + s.index.len + 1 := by
    have hcount := length_le_sum hpositive
    rw [h.length_runs] at hcount
    omega
  obtain ⟨i, ix, read, m, w, tail, hfind, hblock, hread, hstart, hdrop⟩ :=
    findBlock_spec start hfirst hrounds (by omega) (by omega)
  rw [Int.sub_self, Int.sub_zero, ← hzip] at hdrop
  have hm := hblock.one_le
  have hend := hblock.total_eq
  have hempty : makeSparseData.totalValueCount.toInt = 0 := rfl
  unfold subarrForward sliceRuns
  rw [if_neg (by omega), hrun, ok_bind, hword]
  dsimp only
  rw [hfind, ok_bind]
  dsimp only
  rw [hblock.value, ok_bind, hdrop, takeRuns]
  by_cases hin : stop ≤ read
  · rw [if_pos hin, if_neg (by omega), if_pos (by omega)]
    exact builtFrom_makeSparseData.add w (by omega) (by omega)
  · have hcount : toInt32 (read - start + 1) = read - start + 1 :=
      toInt32_of_mem (by omega) (by omega)
    obtain ⟨ret, hadd, hbuilt⟩ :=
      builtFrom_makeSparseData.add w (n := read - start + 1) (by omega) (by omega)
    have hblocks : s.uniqueValueCount - (i + 1) = tail.length := by
      have hlen := congrArg List.length hblock.drop_vals
      rw [List.length_drop, h.length_vals, List.length_cons, List.length_map] at hlen
      omega
    have htotal' := hbuilt.total_eq
    rw [List.nil_append, List.map_singleton, List.sum_singleton] at htotal'
    obtain ⟨ret', hcopy, hbuilt'⟩ := copyBlocks_spec hblock hbuilt (by omega) hhi (by omega)
    have hrest : (stop - start + 1).toNat - (read - start + 1).toNat = (stop - read).toNat := by
      omega
    rw [if_neg hin, hcount, hadd, ok_bind, hblocks, if_neg (by omega), if_neg (by omega), hrest]
    exact ⟨ret', hcopy, hbuilt'⟩

/-- The slice is that of the dense array. -/
theorem flat_sliceRuns {s : SparseData} {runs : List Nat} (h : HasRuns s runs) (start stop : Int) :
    flat (sliceRuns s runs start stop) =
      (s.dense.drop (start - 1).toNat).take (stop - start + 1).toNat := by
  unfold sliceRuns
  rw [flat_takeRuns, flat_dropRuns, flat_zip (h.length_runs.trans h.length_vals.symm), h.dense_eq]

/-! ## Slices of the dense array -/

theorem BuiltFrom.wellFormed {s : SparseData} {pairs : List (Nat × Float8)}
    (h : BuiltFrom s pairs) (hne : s.dense ≠ []) : WellFormed s := by
  refine ⟨h.proper, ?_⟩
  have hlength := h.proper.truthful.length_dense
  have hpos := List.length_pos_of_ne_nil hne
  omega

theorem subarr_outOfBounds_iff {s : SparseData} (h : WellFormed s) {start stop : Int}
    (hle : start ≤ stop) :
    subarr s start stop =
        .error (.ereport .invalidParameterValue "Array index out of bounds.") ↔
      start < 1 ∨ s.totalValueCount.toInt < stop := by
  unfold subarr
  rw [if_neg (not_lt.mpr hle)]
  constructor
  · intro herror
    by_contra hin
    rw [not_or, not_lt, not_lt] at hin
    have ⟨runs, hruns, hpositive, htotal⟩ := h.exists_runs
    have ⟨ret, hret, _⟩ := subarrForward_spec hruns hpositive htotal hin.1 hle hin.2
    rw [hret] at herror
    cases herror
  · intro hout
    unfold subarrForward
    rw [if_pos (by omega)]

theorem subarr_wellFormed {s : SparseData} (h : WellFormed s) {start stop : Int}
    (hlo : 1 ≤ start) (hle : start ≤ stop) (hhi : stop ≤ s.totalValueCount.toInt) :
    ∃ ret, subarr s start stop = .ok ret ∧ WellFormed ret ∧
      ret.dense = (s.dense.drop (start - 1).toNat).take (stop - start + 1).toNat := by
  have ⟨runs, hruns, hpositive, htotal⟩ := h.exists_runs
  have ⟨ret, hret, hbuilt⟩ := subarrForward_spec hruns hpositive htotal hlo hle hhi
  have hdense := hbuilt.dense_eq.trans (flat_sliceRuns hruns start stop)
  refine ⟨ret, ?_, hbuilt.wellFormed ?_, hdense⟩
  · unfold subarr
    rw [if_neg (not_lt.mpr hle)]
    exact hret
  · apply List.ne_nil_of_length_pos
    have hlength := h.truthful.length_dense
    rw [hdense, List.length_take, List.length_drop]
    omega

/-- Slicing a SparseData slices the array it stands for, and fails only outside of it. -/
theorem subarr_slices {s : SparseData} (h : WellFormed s) {start stop : Int}
    (hle : start ≤ stop) :
    (subarr s start stop =
        .error (.ereport .invalidParameterValue "Array index out of bounds.") ↔
      start < 1 ∨ (s.dense.length : Int) < stop) ∧
    (1 ≤ start → stop ≤ s.dense.length →
      ∃ ret, subarr s start stop = .ok ret ∧ WellFormed ret ∧
        ret.dense = (s.dense.drop (start - 1).toNat).take (stop - start + 1).toNat) := by
  rw [h.truthful.length_dense]
  exact ⟨subarr_outOfBounds_iff h hle, fun hlo hhi => subarr_wellFormed h hlo hle hhi⟩

/-- The runs of three and two, from inside the first to the end of the second. -/
theorem subarr_slices_border :
    ∃ ret, subarr (sdataFromSvec (tightSvec 6 6 [5, 7, 9] [253, 254, 255] (by decide))) 2 5 =
        .ok ret ∧
      WellFormed ret ∧ ret.dense = [5, 5, 7, 7] := by
  have hwell : WellFormed
      (sdataFromSvec (tightSvec 6 6 [5, 7, 9] [253, 254, 255] (by decide))) :=
    ⟨⟨[3, 2, 1], HasRuns.of_runLengths (by decide) rfl, by decide, by decide⟩, by decide⟩
  exact (subarr_slices hwell (by decide)).2 (by decide) (by decide)

end Madlib.Svec
