import Madlib.Svec.Pivot

/-!
# What svec_agg accumulates

Between two calls of `svec_pivot` the state holds the values seen so far in maximal runs, each
count in the shortest entry that fits it.  One call rewrites the last entry or puts one behind it,
and neither leaves the buffers.
-/

namespace Madlib.Svec

open Madlib.Backend Madlib.Lib.MachineInt Madlib.Lib.RunLength CountCode

/-- The value `value` is kept as `kept`. -/
def KeptAs (kept value : Float8) : Prop := kept = value ∨ repeats kept value = true

/-- The SparseData holds the values in these runs. -/
structure Accumulates (sdata : SparseData) (values : List Float8) (runs : List Nat) : Prop where
  hasRuns : HasRuns sdata runs
  positive : ∀ n ∈ runs, 0 < n
  decodes : List.Forall₂ KeptAs sdata.dense values
  separate : sdata.vals.IsChain fun x y => repeats x y = false
  total_eq : sdata.totalValueCount.toInt = (values.length : Nat)
  index_eq : sdata.index.data = some (rleBytes runs)
  len_eq : sdata.index.len = (runs.map fun n : Nat => (int8ToCompword n).length).sum
  cursor : sdata.index.cursor = 0 ∨ sdata.index.cursor = (rleBytes runs.dropLast).length

/-- After at most one reallocation the next step writes inside the buffers, whatever the value. -/
def WritesInside (svec : SvecType) : Prop :=
  makeRoom svec = .error allocError ∨
  ∃ roomy, makeRoom svec = .ok roomy ∧ (roomy = svec ∨ reallocSvec svec = .ok roomy) ∧
    HasRoom roomy ∧ ∀ value, ∃ s svec', addValue (sdataFromSvec roomy) value = .ok s ∧
      FitsIn s (sdataFromSvec roomy) ∧ writeBack roomy s = .ok svec'

/-! ## One value -/

/-- The values in the runs in front of the last one, which has `last` elements. -/
structure Gathered (sdata : SparseData) (values : List Float8) (runs : List Nat) (last : Nat) :
    Prop where
  last_run : LastRunAt sdata values.length (rleBytes runs) runs last
  positive : ∀ n ∈ runs, 0 < n
  decodes : List.Forall₂ KeptAs (expand (runs ++ [last]) sdata.vals) values
  separate : sdata.vals.IsChain fun x y => repeats x y = false
  total_eq : sdata.totalValueCount.toInt = (values.length : Nat)

theorem rleBytes_append (runs : List Nat) (n : Nat) :
    rleBytes (runs ++ [n]) = rleBytes runs ++ int8ToCompword n := by
  rw [rleBytes, rleBytes, List.flatMap_append, List.flatMap_singleton]

theorem length_rleBytes (runs : List Nat) :
    (rleBytes runs).length = (runs.map fun n : Nat => (int8ToCompword n).length).sum := by
  rw [rleBytes, List.length_flatMap]

theorem Gathered.accumulates {sdata : SparseData} {values : List Float8} {runs : List Nat}
    {last : Nat} (h : Gathered sdata values runs last)
    (hlength : values.length < 9223372036854775808) :
    Accumulates sdata values (runs ++ [last]) := by
  have hat := h.last_run
  have hsum := hat.sum_eq
  have hindex : sdata.index.data = some (rleBytes (runs ++ [last])) := by
    rw [rleBytes_append]
    exact hat.data
  have hruns : HasRuns sdata (runs ++ [last]) := by
    refine ⟨?_, ?_, ?_⟩
    · rw [hindex, rleBytes_append]
      exact hat.walks.append (walks_entry (isEntry_int8ToCompword (by omega) (by omega)))
    · rw [List.length_append, List.length_singleton, hat.unique]
    · rw [hat.vals, hat.unique]
  constructor
  · exact hruns
  · rw [List.forall_mem_append, List.forall_mem_singleton]
    exact ⟨h.positive, hat.last_pos⟩
  · rw [hruns.dense_eq]
    exact h.decodes
  · exact h.separate
  · exact h.total_eq
  · exact hindex
  · rw [← length_rleBytes, StringInfo.len, hindex, Option.getD_some]
  · rw [List.dropLast_concat]
    exact hat.cursor

theorem Gathered.congr {sdata s : SparseData} {values : List Float8} {runs : List Nat} {last : Nat}
    (h : Gathered sdata values runs last) (hsame : SameData s sdata)
    (hcursor : s.index.cursor = sdata.index.cursor) : Gathered s values runs last := by
  have hat := h.last_run
  constructor
  · refine ⟨?_, hat.walks, hat.last_pos, hat.sum_eq, ?_, ?_, ?_⟩
    · rw [hsame.index]
      exact hat.data
    · rw [hsame.unique]
      exact hat.unique
    · rw [hsame.vals]
      exact hat.vals
    · rw [hcursor]
      exact hat.cursor
  · exact h.positive
  · rw [hsame.vals]
    exact h.decodes
  · rw [hsame.vals]
    exact h.separate
  · rw [hsame.total]
    exact h.total_eq

theorem Gathered.add {sdata : SparseData} {values : List Float8} {runs : List Nat} {last : Nat}
    (value : Float8) (h : Gathered sdata values runs last) (hroom : Roomy sdata)
    (hlength : values.length + 1 < 2147483648) :
    ∃ s, addValue sdata value = .ok s ∧ FitsIn s sdata ∧
      ∃ runs' last', Gathered s (values ++ [value]) runs' last' := by
  have hat := h.last_run
  have ⟨s, lastValue, hs, hfits, hlast, hcases⟩ := addValue_cases value hat hroom (by omega)
  have ⟨init, hvals⟩ := List.getLast?_eq_some_iff.mp hlast
  have hlen : runs.length = init.length := by
    have hcount := hat.vals
    rw [hvals, List.length_append, List.length_singleton] at hcount
    omega
  have htotal : s.totalValueCount.toInt = ((values ++ [value]).length : Nat) := by
    rw [(addValue_ok hs).1, h.total_eq, toInt32_of_mem (by omega) (by omega), List.length_append,
      List.length_singleton]
    push_cast
    rfl
  have hsplit : expand (runs ++ [last]) sdata.vals =
      expand runs init ++ List.replicate last lastValue := by
    rw [hvals, expand_append hlen, expand_singleton]
  have hdecodes := h.decodes
  rw [hsplit] at hdecodes
  have hcount : (values ++ [value]).length = values.length + 1 := List.length_append
  refine ⟨s, hs, hfits, ?_⟩
  rcases hcases with ⟨hrepeats, hold, hsvals⟩ | ⟨hnew, hat', hsvals⟩
  · refine ⟨runs, last + 1, ?_, h.positive, ?_, ?_, htotal⟩
    · rw [hcount]
      exact hold
    · rw [hsvals, hvals, expand_append hlen, expand_singleton, List.replicate_succ',
        ← List.append_assoc]
      exact List.rel_append hdecodes (.cons (.inr hrepeats) .nil)
    · rw [hsvals]
      exact h.separate
  · refine ⟨runs ++ [last], 1, ?_, ?_, ?_, ?_, htotal⟩
    · rw [hcount, rleBytes_append]
      exact hat'
    · rw [List.forall_mem_append, List.forall_mem_singleton]
      exact ⟨h.positive, hat.last_pos⟩
    · have hruns : (runs ++ [last]).length = sdata.vals.length := by
        rw [List.length_append, List.length_singleton, hat.vals]
      rw [hsvals, expand_append hruns, expand_singleton, List.replicate_one, hsplit]
      exact List.rel_append hdecodes (.cons (.inl rfl) .nil)
    · rw [hsvals, List.isChain_append]
      refine ⟨h.separate, List.isChain_singleton _, ?_⟩
      intro x hx y hy
      rw [hlast, Option.mem_some_iff] at hx
      rw [List.head?_cons, Option.mem_some_iff] at hy
      rw [← hx, ← hy]
      exact hnew

/-- The first value of an empty state is its only run. -/
theorem gathered_first {sdata s : SparseData} {value : Float8}
    (hempty : sdata =
      { uniqueValueCount := 0, totalValueCount := 0, vals := [], valsMaxlen := 9,
        index := { data := some [], maxlen := 10, cursor := 0 } })
    (h : addNewRun sdata value = .ok s) (hat : LastRunAt s 1 [] [] 1) :
    Gathered s [value] [] 1 := by
  have ⟨htotal, hvals⟩ := addNewRun_ok h
  rw [hempty] at htotal hvals
  constructor
  · exact hat
  · simp
  · rw [hvals]
    exact .cons (.inl rfl) .nil
  · rw [hvals]
    exact List.isChain_singleton _
  · have hone : toInt32 ((0 : Int32).toInt + 1) = 1 := by decide
    exact htotal.trans hone

/-! ## Any number of values -/

/-- The state of the aggregate after these values. -/
structure Gathers (svec : SvecType) (values : List Float8) : Prop where
  gathered : ∃ runs last, Gathered (sdataFromSvec svec) values runs last
  vals_room : 9 ≤ svec.valsMaxlen
  index_room : 10 ≤ svec.indexMaxlen

theorem Gathers.pivotState {svec : SvecType} {values : List Float8} (h : Gathers svec values) :
    PivotState svec values.length := by
  have ⟨runs, last, hgathered⟩ := h.gathered
  exact ⟨⟨_, _, _, hgathered.last_run⟩, h.vals_room, h.index_room⟩

/-- The state that is written back after a value. -/
theorem Gathers.write {svec : SvecType} {values : List Float8} (h : Gathers svec values)
    (hroom : HasRoom svec) (hlength : values.length + 1 < 2147483648) (value : Float8) :
    ∃ s svec', addValue (sdataFromSvec svec) value = .ok s ∧ FitsIn s (sdataFromSvec svec) ∧
      writeBack svec s = .ok svec' ∧ Gathers svec' (values ++ [value]) := by
  have ⟨runs, last, hgathered⟩ := h.gathered
  have ⟨s, hs, hfits, runs', last', hnext⟩ :=
    hgathered.add value ⟨hroom.1, hroom.2⟩ hlength
  have ⟨svec', hwrite, hsame⟩ := writeBack_spec hfits ⟨_, _, _, hnext.last_run⟩
  have hvmax : svec'.valsMaxlen = svec.valsMaxlen :=
    (congrArg SparseData.valsMaxlen hsame).trans hfits.valsMaxlen
  have himax : svec'.indexMaxlen = svec.indexMaxlen :=
    (congrArg (fun sdata => sdata.index.maxlen) hsame).trans hfits.indexMaxlen
  refine ⟨s, svec', hs, hfits, hwrite, ⟨runs', last', ?_⟩, ?_, ?_⟩
  · rw [hsame]
    exact hnext
  · rw [hvmax]
    exact h.vals_room
  · rw [himax]
    exact h.index_room

theorem Gathers.makeRoom {svec : SvecType} {values : List Float8} (h : Gathers svec values) :
    makeRoom svec = .error allocError ∨
    ∃ roomy, Svec.makeRoom svec = .ok roomy ∧ (roomy = svec ∨ reallocSvec svec = .ok roomy) ∧
      HasRoom roomy ∧ Gathers roomy values := by
  unfold Svec.makeRoom
  by_cases hroom : HasRoom svec
  · rw [if_pos hroom]
    exact .inr ⟨svec, rfl, .inl rfl, hroom, h⟩
  · rw [if_neg hroom]
    have ⟨runs, last, hgathered⟩ := h.gathered
    rcases reallocSvec_spec h.pivotState with herror | ⟨roomy, hrealloc, hstate, hroomy, hsame, hcur⟩
    · exact .inl herror
    · exact .inr ⟨roomy, hrealloc, .inr hrealloc, ⟨hroomy.vals, hroomy.index⟩,
        ⟨⟨runs, last, hgathered.congr hsame hcur⟩, hstate.vals_room, hstate.index_room⟩⟩

theorem Gathers.writesInside {svec : SvecType} {values : List Float8} (h : Gathers svec values)
    (hlength : values.length + 1 < 2147483648) : WritesInside svec := by
  rcases h.makeRoom with herror | ⟨roomy, hmake, horigin, hroom, hroomy⟩
  · exact .inl herror
  · refine .inr ⟨roomy, hmake, horigin, hroom, fun value => ?_⟩
    have ⟨s, svec', hs, hfits, hwrite, _⟩ := hroomy.write hroom hlength value
    exact ⟨s, svec', hs, hfits, hwrite⟩

/-- One call keeps what the state says about the values. -/
theorem svecPivot_gathers {svec : SvecType} {values : List Float8} (value : Option Float8)
    (h : Gathers svec values) (hlength : values.length + 1 < 2147483648) :
    svecPivot (some svec) value = .error allocError ∨
    ∃ svec', svecPivot (some svec) value = .ok svec' ∧
      Gathers svec' (values ++ [value.getD NVP]) := by
  unfold svecPivot pivotState
  rw [ok_bind]
  rcases h.makeRoom with herror | ⟨roomy, hmake, _, hroom, hroomy⟩
  · rw [herror]
    exact .inl rfl
  · have ⟨s, svec', hs, _, hwrite, hnext⟩ := hroomy.write hroom hlength (value.getD NVP)
    refine .inr ⟨svec', ?_, hnext⟩
    rw [hmake, ok_bind, hs, ok_bind, hwrite]

theorem svecPivot_first_gathers (value : Option Float8) :
    ∃ svec, svecPivot none value = .ok svec ∧ Gathers svec [value.getD NVP] := by
  have ⟨empty, hempty, _, hback⟩ := makeEmptySvec_one
  have hvmax : empty.valsMaxlen = 9 := congrArg SparseData.valsMaxlen hback
  have himax : empty.indexMaxlen = 10 := congrArg (fun s => s.index.maxlen) hback
  have hroomy : Roomy (sdataFromSvec empty) := by
    rw [hback]
    exact ⟨by decide, by decide⟩
  have hroom : HasRoom empty := ⟨by rw [hvmax]; exact hvmax ▸ hroomy.vals,
    by rw [himax]; exact himax ▸ hroomy.index⟩
  have hdata : (sdataFromSvec empty).index.data = some [] := by rw [hback]
  have hlen : (sdataFromSvec empty).index.len = 0 := by
    rw [hback]
    rfl
  have ⟨s, hs, hat, hfits⟩ := addNewRun_spec (value.getD NVP) hdata .nil (by rw [hback]; rfl)
    (by rw [hback]; rfl) hroomy
  have ⟨svec, hwrite, hsame⟩ := writeBack_spec hfits ⟨_, _, _, hat⟩
  have hvmax' : svec.valsMaxlen = empty.valsMaxlen :=
    (congrArg SparseData.valsMaxlen hsame).trans hfits.valsMaxlen
  have himax' : svec.indexMaxlen = empty.indexMaxlen :=
    (congrArg (fun s => s.index.maxlen) hsame).trans hfits.indexMaxlen
  refine ⟨svec, ?_, ⟨[], 1, ?_⟩, by omega, by omega⟩
  · unfold svecPivot pivotState Svec.makeRoom addValue
    rw [hempty, ok_bind, if_pos hroom, ok_bind, if_pos hlen, hs, ok_bind, hwrite]
  · rw [hsame]
    exact gathered_first hback hs hat

/-- Whatever number of values the state has taken in, it holds them, or the aggregate has
stopped because its state has outgrown one allocation. -/
theorem svecAgg_gathers {values : List (Option Float8)} (hne : values ≠ [])
    (hlength : values.length < 2147483648) :
    svecAgg values = .error allocError ∨
    ∃ svec, svecAgg values = .ok (some svec) ∧
      Gathers svec (values.map fun value => value.getD NVP) := by
  induction values using List.reverseRecOn with
  | nil => exact absurd rfl hne
  | append_singleton values value ih =>
      rw [List.length_append, List.length_singleton] at hlength
      rw [svecAgg_append, List.map_append, List.map_singleton]
      by_cases hnil : values = []
      · have ⟨svec, hsvec, hgathers⟩ := svecPivot_first_gathers value
        subst hnil
        refine .inr ⟨svec, ?_, hgathers⟩
        show (svecPivot none value).map some = _
        rw [hsvec]
        rfl
      · rcases ih hnil (by omega) with herror | ⟨svec, hsvec, hgathers⟩
        · rw [herror]
          exact .inl rfl
        · have hcount : (values.map fun value => value.getD NVP).length + 1 < 2147483648 := by
            rwa [List.length_map]
          rw [hsvec, ok_bind]
          rcases svecPivot_gathers value hgathers hcount with herror | ⟨svec', hnext, hgathers'⟩
          · rw [herror]
            exact .inl rfl
          · rw [hnext]
            exact .inr ⟨svec', rfl, hgathers'⟩

/-- The state after `n` sevens, from the second one on. -/
structure Sevens (svec : SvecType) (n : Nat) : Prop where
  last_run : LastRunAt (sdataFromSvec svec) n [] [] n
  vals_eq : svec.vals = [7]
  valsMaxlen_eq : svec.valsMaxlen = 18
  indexMaxlen_eq : svec.indexMaxlen = 20

theorem sevens_two : ∃ svec, svecAgg [some 7, some 7] = .ok (some svec) ∧ Sevens svec 2 :=
  ⟨_, rfl, ⟨rfl, .nil, by decide, rfl, rfl, rfl, .inl rfl⟩, rfl, rfl, rfl⟩

theorem Sevens.next {svec : SvecType} {n : Nat} (h : Sevens svec n)
    (hn : (n : Int) + 1 < 9223372036854775808) :
    ∃ svec', svecPivot (some svec) (some 7) = .ok svec' ∧ Sevens svec' (n + 1) := by
  have hnine := length_int8ToCompword_le n
  have hlen : (sdataFromSvec svec).index.len = (int8ToCompword n).length := by
    rw [StringInfo.len, h.last_run.data, List.nil_append, Option.getD_some]
  have hvals : (sdataFromSvec svec).valsLen = 8 := by
    show 8 * svec.vals.length = 8
    rw [h.vals_eq]
    rfl
  have hroom : HasRoom svec := by
    rw [HasRoom, h.valsMaxlen_eq, h.indexMaxlen_eq]
    omega
  obtain ⟨s, lastValue, hs, hfits, hlast, hcases⟩ :=
    addValue_cases 7 h.last_run ⟨hroom.1, hroom.2⟩ hn
  have hseven : lastValue = 7 := by
    rw [show (sdataFromSvec svec).vals = [7] from h.vals_eq] at hlast
    exact (Option.some.inj hlast).symm
  rcases hcases with ⟨_, hat, hsvals⟩ | ⟨hnew, _⟩
  · obtain ⟨svec', hwrite, hsame⟩ := writeBack_spec hfits ⟨_, _, _, hat⟩
    refine ⟨svec', ?_, ?_, ?_, ?_, ?_⟩
    · unfold svecPivot pivotState Svec.makeRoom
      rw [ok_bind, if_pos hroom, ok_bind, Option.getD_some, hs, ok_bind, hwrite]
    · rw [hsame]
      exact hat
    · exact (congrArg SparseData.vals hsame).trans (hsvals.trans h.vals_eq)
    · exact (congrArg SparseData.valsMaxlen hsame).trans (hfits.valsMaxlen.trans h.valsMaxlen_eq)
    · exact (congrArg (fun s => s.index.maxlen) hsame).trans
        (hfits.indexMaxlen.trans h.indexMaxlen_eq)
  · rw [hseven] at hnew
    exact absurd hnew (by decide)

theorem svecAgg_sevens (k : Nat) (hk : (k : Int) + 2 < 9223372036854775808) :
    ∃ svec, svecAgg (List.replicate (k + 2) (some 7)) = .ok (some svec) ∧ Sevens svec (k + 2) := by
  induction k with
  | zero => exact sevens_two
  | succ k ih =>
      have ⟨svec, hsvec, hsevens⟩ := ih (by omega)
      have ⟨svec', hnext, hsevens'⟩ := hsevens.next (by omega)
      refine ⟨svec', ?_, hsevens'⟩
      rw [show k + 1 + 2 = k + 2 + 1 from rfl, List.replicate_succ', svecAgg_append, hsvec, ok_bind,
        hnext]
      rfl

end Madlib.Svec
