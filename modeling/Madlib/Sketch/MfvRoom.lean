import Madlib.Sketch.MfvTrans

/-!
# Lists with room for every value

The loop of `__mfvsketch_trans` compares a new value with the entries before it gets to the free
places.  A value whose estimate is raised by collisions therefore pushes out a listed value
although there is room for both; where no newcomer is estimated above the values before it, the
list stays complete.
-/

namespace Madlib.Sketch

open Madlib.Backend Madlib.Lib

section

variable {catalog : Catalog} {md5 : Md5} {typOid maxMfvs : Nat}

/-- The list of a state is the one of the values so far. -/
theorem countedOf_eq {s : List (List UInt8)} {blob : Option MfvTransval}
    (hfollows : ∀ tv, blob = some tv → MfvFollows catalog md5 typOid maxMfvs s tv)
    (hfirst : blob = none → s = []) :
    countedOf catalog blob = FrequentList.listing maxMfvs (estimate md5) s := by
  cases blob with
  | none =>
      rw [hfirst rfl]
      rfl
  | some tv => exact (hfollows tv rfl).listed.counted_eq

/-- A run that ends well has passed through states that list the values so far. -/
theorem mfvState_prefix (hzero : ZeroHeader catalog) (hmax : maxMfvs < 2147483648)
    {args seen : List (Option (List UInt8))} {blob : Option MfvTransval}
    (hdatum : ∀ v ∈ args.reduceOption, IsDatum catalog (catalog.typlen typOid) v)
    (hrun : mfvState catalog md5 typOid maxMfvs args = .ok blob) (hseen : seen <+: args) :
    ∃ state, mfvState catalog md5 typOid maxMfvs seen = .ok state ∧
      countedOf catalog state = FrequentList.listing maxMfvs (estimate md5) seen.reduceOption := by
  have ⟨rest, hrest⟩ := hseen
  have hsub : seen.reduceOption ⊆ args.reduceOption := by
    rw [← hrest, List.reduceOption_append]
    exact List.subset_append_left _ _
  have hends : Ends _ _ (mfvState catalog md5 typOid maxMfvs seen) :=
    mfvState_ends hzero hmax fun v hv => hdatum v (hsub hv)
  cases hstate : mfvState catalog md5 typOid maxMfvs seen with
  | error e =>
      unfold mfvState at hrun hstate
      rw [← hrest, List.foldlM_append, hstate] at hrun
      cases hrun
  | ok state =>
      rw [hstate] at hends
      exact ⟨state, rfl, countedOf_eq hends.1 hends.2⟩

/-- The prefixes of the values are those of the prefixes of the arguments. -/
theorem exists_prefix_reduceOption {α : Type} {args : List (Option α)} {t : List α}
    (h : t <+: args.reduceOption) : ∃ seen, seen <+: args ∧ seen.reduceOption = t := by
  induction args generalizing t with
  | nil =>
      have ht : t = [] := List.prefix_nil.mp h
      exact ⟨[], List.prefix_refl [], ht.symm⟩
  | cons arg args ih =>
      cases arg with
      | none =>
          have ⟨seen, hseen, heq⟩ := ih h
          exact ⟨none :: seen, List.cons_prefix_cons.mpr ⟨rfl, hseen⟩, heq⟩
      | some v =>
          cases t with
          | nil => exact ⟨[], List.nil_prefix, rfl⟩
          | cons w t =>
              have ⟨hw, ht⟩ := List.cons_prefix_cons.mp h
              have ⟨seen, hseen, heq⟩ := ih ht
              refine ⟨some w :: seen, List.cons_prefix_cons.mpr ⟨congrArg some hw, hseen⟩, ?_⟩
              exact congrArg (List.cons w) heq

end

/-- In every state of a run with room for all values, each of the values so far is listed once,
just where no newcomer is estimated above a value before it. -/
theorem mfvsketchTrans_complete_iff (catalog : Catalog) (md5 : Md5) (typOid maxMfvs : Nat)
    (args : List (Option (List UInt8))) (hzero : ZeroHeader catalog) (hmax : maxMfvs < 2147483648)
    (hdatum : ∀ v ∈ args.reduceOption, IsDatum catalog (catalog.typlen typOid) v)
    (hfew : args.reduceOption.dedup.length ≤ maxMfvs) :
    Ends (TrackFails catalog typOid maxMfvs args.reduceOption)
      (fun _ => (∀ seen, seen <+: args → ∃ blob,
          mfvState catalog md5 typOid maxMfvs seen = .ok blob ∧
          FrequentList.ListsOnce seen.reduceOption ((countedOf catalog blob).map Prod.fst)) ↔
        FrequentList.NewcomersLight (estimate md5) args.reduceOption)
      (mfvState catalog md5 typOid maxMfvs args) := by
  have hends : Ends _ _ (mfvState catalog md5 typOid maxMfvs args) :=
    mfvState_ends hzero hmax hdatum
  cases hrun : mfvState catalog md5 typOid maxMfvs args with
  | error e =>
      rw [hrun] at hends
      exact hends
  | ok blob =>
      show _ ↔ _
      rw [← FrequentList.listing_listsOnce_iff hfew]
      constructor
      · intro hall t ht
        have ⟨seen, hseen, heq⟩ := exists_prefix_reduceOption ht
        have ⟨state, hstate, hlists⟩ := hall seen hseen
        have ⟨state', hstate', hcounted⟩ := mfvState_prefix hzero hmax hdatum hrun hseen
        have hsame : state = state' := Except.ok.inj (hstate.symm.trans hstate')
        rw [hsame, hcounted, heq] at hlists
        exact hlists
      · intro hall seen hseen
        have ⟨state, hstate, hcounted⟩ := mfvState_prefix hzero hmax hdatum hrun hseen
        have ⟨rest, hrest⟩ := hseen
        have hvalues : seen.reduceOption <+: args.reduceOption := by
          rw [← hrest, List.reduceOption_append]
          exact List.prefix_append _ _
        refine ⟨state, hstate, ?_⟩
        rw [hcounted]
        exact hall seen.reduceOption hvalues

/-- The values 5 and 7 of type `int4`. -/
def fiveAndSeven : List (Option (List UInt8)) := [some [5, 0, 0, 0], some [7, 0, 0, 0]]

theorem fiveAndSeven_isDatum : ∀ v ∈ fiveAndSeven.reduceOption,
    IsDatum int4Catalog (int4Catalog.typlen 23) v := by
  intro v hv
  have hcases : v = [5, 0, 0, 0] ∨ v = [7, 0, 0, 0] := by simpa [fiveAndSeven] using hv
  rcases hcases with rfl | rfl
  · exact .inl ⟨by decide, rfl⟩
  · exact .inl ⟨by decide, rfl⟩

theorem mfvsketchTrans_complete_iff_two :
    Ends (TrackFails int4Catalog 23 2 fiveAndSeven.reduceOption)
      (fun _ => (∀ seen, seen <+: fiveAndSeven → ∃ blob,
          mfvState int4Catalog digests 23 2 seen = .ok blob ∧
          FrequentList.ListsOnce seen.reduceOption ((countedOf int4Catalog blob).map Prod.fst)) ↔
        FrequentList.NewcomersLight (estimate digests) fiveAndSeven.reduceOption)
      (mfvState int4Catalog digests 23 2 fiveAndSeven) :=
  mfvsketchTrans_complete_iff int4Catalog digests 23 2 fiveAndSeven int4_zeroHeader (by decide)
    fiveAndSeven_isDatum (by decide)

/-- A hash function that lets all values collide. -/
theorem mfvsketchTrans_pushes_out : ∃ blob,
    mfvState int4Catalog (fun _ _ => 0) 23 2 fiveAndSeven = .ok blob ∧
      countedOf int4Catalog blob = [([7, 0, 0, 0], 2)] ∧
      ¬ FrequentList.ListsOnce fiveAndSeven.reduceOption
        ((countedOf int4Catalog blob).map Prod.fst) := by
  have hends : Ends _ _ (mfvState int4Catalog (fun _ _ => 0) 23 2 fiveAndSeven) :=
    mfvState_ends int4_zeroHeader (by decide) fiveAndSeven_isDatum
  have hlisting : FrequentList.listing 2 (estimate fun _ _ => 0) fiveAndSeven.reduceOption =
      [([7, 0, 0, 0], 2)] := by decide +kernel
  cases hrun : mfvState int4Catalog (fun _ _ => 0) 23 2 fiveAndSeven with
  | error e =>
      rw [hrun] at hends
      rcases hends with hbegin | ⟨_, hlarge⟩ | ⟨hvar, _⟩ | ⟨_, hlong⟩
      · rw [int4_init] at hbegin
        cases hbegin
      · rw [int4_initialVarsize] at hlarge
        exact absurd hlarge (by decide)
      · exact absurd hvar (by decide)
      · exact absurd hlong (by decide)
  | ok blob =>
      rw [hrun] at hends
      have hcounted := countedOf_eq hends.1 hends.2
      rw [hlisting] at hcounted
      refine ⟨blob, rfl, hcounted, fun hlists => ?_⟩
      have hfive := (hlists.2 [5, 0, 0, 0]).mpr (by decide)
      rw [hcounted] at hfive
      exact absurd hfive (by decide)

end Madlib.Sketch
