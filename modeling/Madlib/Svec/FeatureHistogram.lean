import Madlib.Svec.WholeNumbers
import Madlib.Svec.ArrayCast

/-!
# The feature histogram

`gp_extract_feature_histogram` checks that the dictionary is strictly ascending, looks every word
of the document up in it, and compresses the counts.
-/

namespace Madlib.Svec

open Madlib.Backend Madlib.Lib.MachineInt Madlib.Lib.RunLength CountCode

def textOid : Int := 25

/-- An array of texts.  It has a bitmap of its NULLs if any element is NULL; the number of its
elements is bounded as that of an array of datums. -/
structure TextArray where
  elemtype : Int
  dims : List Nat
  hasNull : Bool
  elements : List (Option String)
  dims_pos : ∀ n ∈ dims, 0 < n
  length_elements : elements.length = arrayGetNItems dims
  dims_le : 8 * arrayGetNItems dims ≤ maxAllocSize
  no_null : hasNull = false → ∀ e ∈ elements, e ≠ none

/-- The C strings of the elements; a NULL element is a NULL pointer. -/
def getTextArrayContents (array : TextArray) : Except Fault (List (Option String)) :=
  if array.elemtype ≠ textOid then .ok []
  else do
    palloc (8 * arrayGetNItems array.dims)
    pure array.elements

/-- The string `values[i]` points to. -/
def stringAt (values : List (Option String)) (i : Int) : Except Fault String :=
  if i < 0 then .error .outOfBounds
  else
    match values[i.toNat]? with
    | none => .error .outOfBounds
    | some none => .error .nullPointer
    | some (some word) => .ok word

section Collation

-- the collation of the database
variable (strcoll : String → String → Int)

/-- The remaining rounds of the loop that compares neighbours. -/
def checkSorted (features : List (Option String)) : Nat → Int → Except Fault Unit
  | 0, _ => .ok ()
  | rounds + 1, i => do
      let word ← stringAt features i
      let next ← stringAt features (i + 1)
      let result := strcoll word next
      if 0 < result then
        .error (.elog s!"Dictionary is unsorted: '{next}' is out of order.\n")
      else if result = 0 then .error (.elog s!"Dictionary has duplicated word: '{next}'\n")
      else checkSorted features rounds (i + 1)

/-- The loop of the binary search; a word that is not found is at -5. -/
def strBsearch (word : String) (features : List (Option String)) :
    Nat → Int → Int → Except Fault Int
  | 0, _, _ => .error .unfinished
  | rounds + 1, low, high =>
      if high < low then .ok (-5)
      else do
        let mid := low + Int.tdiv (high - low) 2
        let feature ← stringAt features mid
        let cmpResult := strcoll word feature
        if cmpResult = 0 then .ok mid
        else if 0 < cmpResult then strBsearch word features rounds (mid + 1) high
        else strBsearch word features rounds low (mid - 1)

/-- `histogram[idx]++`; the 1 added is a double. -/
def increment (arith : Float8Arith) (histogram : List Float8) (idx : Int) :
    Except Fault (List Float8) :=
  match histogram[idx.toNat]? with
  | none => .error .outOfBounds
  | some count => .ok (histogram.set idx.toNat (arith.add count (arith.ofInt64 1)))

/-- One round of the loop over the document. -/
def countWordIn (arith : Float8Arith) (features : List (Option String)) (histogram : List Float8)
    (word : Option String) : Except Fault (List Float8) :=
  match word with
  | none => .ok histogram
  | some word => do
      let idx ← strBsearch strcoll word features (features.length + 1) 0 (features.length - 1)
      if 0 ≤ idx then increment arith histogram idx else .ok histogram

def svecFromFloat8arr (array : List Float8) : Except Fault SvecType := do
  let sdata ← float8arrToSdata array
  svecFromSparsedata sdata true

def classifyDocument (arith : Float8Arith) (features document : List (Option String)) :
    Except Fault SvecType := do
  palloc (8 * features.length)
  let histogram ← document.foldlM (countWordIn strcoll arith features)
    (List.replicate features.length 0)
  svecFromFloat8arr histogram

/-- `gp_extract_feature_histogram_errout` -/
def featureHistogramErrout (msg : String) : Fault :=
  .ereport .externalRoutineException s!"{msg}\ngp_extract_feature_histogram internal error."

/-- The function of two arguments, of which a first one that is NULL is answered with NULL. -/
def gpExtractFeatureHistogram (arith : Float8Arith) (arg0 arg1 : Option TextArray) :
    Except Fault (Option SvecType) :=
  match arg0, arg1 with
  | none, _ => .ok none
  | some _, none => .error .nullPointer
  | some arr0, some arr1 =>
      if arr0.hasNull then
        .error (featureHistogramErrout "dictionary argument contains a null entry")
      else if arr0.dims.length = 0 then
        .error (featureHistogramErrout "dictionary argument is empty")
      else do
        let features ← getTextArrayContents arr0
        let document ← getTextArrayContents arr1
        checkSorted strcoll features (features.length - 1) 0
        let returnval ← classifyDocument strcoll arith features document
        pure (some returnval)

end Collation

/-! ## Collations -/

/-- Being smaller is a strict weak order, and 0 says that neither string is smaller. -/
structure Collates (strcoll : String → String → Int) : Prop where
  swap : ∀ a b, strcoll a b < 0 ↔ 0 < strcoll b a
  lt_trans : ∀ a b c, strcoll a b < 0 → strcoll b c < 0 → strcoll a c < 0
  equal_trans : ∀ a b c, strcoll a b = 0 → strcoll b c = 0 → strcoll a c = 0

section Collates

variable {strcoll : String → String → Int} (h : Collates strcoll) {a b c : String}

include h

theorem Collates.symm (hab : strcoll a b = 0) : strcoll b a = 0 := by
  have hswap := h.swap a b
  have hswap' := h.swap b a
  omega

theorem Collates.lt_of_equal_of_lt (hab : strcoll a b = 0) (hbc : strcoll b c < 0) :
    strcoll a c < 0 := by
  by_contra hac
  rcases lt_or_eq_of_le (not_lt.mp hac) with hgreater | hequal
  · have hba := h.lt_trans b c a hbc ((h.swap c a).mpr hgreater)
    have hzero := h.symm hab
    omega
  · have hzero := h.equal_trans b a c (h.symm hab) hequal.symm
    omega

theorem Collates.lt_of_le_of_lt (hab : strcoll a b ≤ 0) (hbc : strcoll b c < 0) :
    strcoll a c < 0 := by
  rcases lt_or_eq_of_le hab with hless | hequal
  · exact h.lt_trans a b c hless hbc
  · exact h.lt_of_equal_of_lt hequal hbc

end Collates

/-- The words are strictly ascending. -/
def Ascending (strcoll : String → String → Int) (features : List String) : Prop :=
  features.Pairwise fun f g => strcoll f g < 0

theorem stringAt_map {features : List String} {i : Nat} (hi : i < features.length) :
    stringAt (features.map some) i = .ok features[i] := by
  unfold stringAt
  rw [if_neg (by omega), Int.toNat_natCast, List.getElem?_map, List.getElem?_eq_getElem hi]
  rfl

/-! ## The order of the dictionary -/

theorem checkSorted_spec (strcoll : String → String → Int) {features : List String}
    {rounds i : Nat} (hrounds : i + rounds + 1 = features.length) :
    ((features.drop i).IsChain (fun f g => strcoll f g < 0) →
      checkSorted strcoll (features.map some) rounds i = .ok ()) ∧
    (¬ (features.drop i).IsChain (fun f g => strcoll f g < 0) →
      ∃ e, checkSorted strcoll (features.map some) rounds i = .error e ∧ e.isRaised) := by
  induction rounds generalizing i with
  | zero =>
      have hsingle : (features.drop i).IsChain fun f g => strcoll f g < 0 := by
        rw [List.drop_eq_getElem_cons (by omega), List.drop_eq_nil_of_le (by omega)]
        exact List.isChain_singleton _
      exact ⟨fun _ => rfl, fun hnot => absurd hsingle hnot⟩
  | succ rounds ih =>
      have hi : i < features.length := by omega
      have hnext : i + 1 < features.length := by omega
      have hrest := @ih (i + 1) (by omega)
      have hcast : (i : Int) + 1 = ((i + 1 : Nat) : Int) := by omega
      have hchain : (features.drop i).IsChain (fun f g => strcoll f g < 0) ↔
          strcoll features[i] features[i + 1] < 0 ∧
            (features.drop (i + 1)).IsChain fun f g => strcoll f g < 0 := by
        rw [List.drop_eq_getElem_cons hi, List.drop_eq_getElem_cons hnext]
        exact List.isChain_cons_cons
      rw [checkSorted, stringAt_map hi, ok_bind, hcast, stringAt_map hnext, ok_bind, hchain]
      dsimp only
      by_cases hless : strcoll features[i] features[i + 1] < 0
      · rw [if_neg (by omega), if_neg (by omega), and_iff_right hless]
        exact hrest
      · refine ⟨fun hboth => absurd hboth.1 hless, fun _ => ?_⟩
        by_cases hgreater : 0 < strcoll features[i] features[i + 1]
        · rw [if_pos hgreater]
          exact ⟨_, rfl, rfl⟩
        · rw [if_neg hgreater, if_pos (by omega)]
          exact ⟨_, rfl, rfl⟩

/-! ## The search -/

/-- The word is found where it compares equal, or compares equal to no feature.  Up to the next
place the words below `low` are smaller and those above `high` greater. -/
theorem strBsearch_spec {strcoll : String → String → Int} (h : Collates strcoll)
    {features : List String} (hsorted : Ascending strcoll features) (word : String) {rounds : Nat}
    {low high : Int} (hlow : 0 ≤ low) (hhigh : high < features.length)
    (hbelow : ∀ i (hi : i < features.length), (i : Int) < low → 0 < strcoll word features[i])
    (habove : ∀ i (hi : i < features.length), high < (i : Int) → strcoll word features[i] < 0)
    (hrounds : max 0 (high - low + 1) < rounds) :
    (∃ i, ∃ hi : i < features.length,
      strBsearch strcoll word (features.map some) rounds low high = .ok (i : Int) ∧
        strcoll word features[i] = 0) ∨
    (strBsearch strcoll word (features.map some) rounds low high = .ok (-5) ∧
      ∀ f ∈ features, strcoll word f ≠ 0) := by
  induction rounds generalizing low high with
  | zero => omega
  | succ rounds ih =>
      rw [strBsearch]
      by_cases hempty : high < low
      · rw [if_pos hempty]
        refine .inr ⟨rfl, fun f hf => ?_⟩
        have ⟨i, hi, hget⟩ := List.getElem_of_mem hf
        rw [← hget]
        by_cases hside : (i : Int) < low
        · exact (hbelow i hi hside).ne'
        · exact (habove i hi (by omega)).ne
      · have hdiv : Int.tdiv (high - low) 2 = (high - low) / 2 := by
          rw [Int.tdiv_eq_ediv_of_nonneg (by omega)]
        obtain ⟨mid, hmid⟩ := Int.eq_ofNat_of_zero_le (show 0 ≤ low + (high - low) / 2 by omega)
        have hin : mid < features.length := by omega
        rw [if_neg hempty, hdiv, hmid]
        dsimp only
        rw [stringAt_map hin, ok_bind]
        by_cases hequal : strcoll word features[mid] = 0
        · rw [if_pos hequal]
          exact .inl ⟨mid, hin, rfl, hequal⟩
        · rw [if_neg hequal]
          by_cases hgreater : 0 < strcoll word features[mid]
          · rw [if_pos hgreater]
            -- every feature up to the middle is smaller than the word
            refine ih (by omega) hhigh (fun i hi hlt => ?_) habove (by omega)
            by_cases hsame : i = mid
            · subst hsame
              exact hgreater
            · have hpair := List.pairwise_iff_getElem.mp hsorted i mid hi hin (by omega)
              have hmore := (h.swap features[mid] word).mpr hgreater
              exact (h.swap _ _).mp (h.lt_trans _ _ _ hpair hmore)
          · rw [if_neg hgreater]
            have hless : strcoll word features[mid] < 0 := by omega
            refine ih hlow (by omega) hbelow (fun i hi hlt => ?_) (by omega)
            by_cases hsame : i = mid
            · subst hsame
              exact hless
            · have hpair := List.pairwise_iff_getElem.mp hsorted mid i hin hi (by omega)
              exact h.lt_trans _ _ _ hless hpair

/-! ## Counting -/

/-- How many words of a document compare equal to a feature. -/
def occurrences (strcoll : String → String → Int) (feature : String)
    (document : List (Option String)) : Nat :=
  document.countP fun word => word.any fun w => strcoll w feature = 0

/-- The counts as doubles, one for each feature. -/
def histogramOf (strcoll : String → String → Int) (arith : Float8Arith) (features : List String)
    (document : List (Option String)) : List Float8 :=
  features.map fun f => arith.ofInt64 (occurrences strcoll f document)

theorem occurrences_append_null (strcoll : String → String → Int) (feature : String)
    (seen : List (Option String)) :
    occurrences strcoll feature (seen ++ [none]) = occurrences strcoll feature seen := by
  unfold occurrences
  rw [List.countP_append]
  rfl

theorem occurrences_append_word (strcoll : String → String → Int) (feature word : String)
    (seen : List (Option String)) :
    occurrences strcoll feature (seen ++ [some word]) =
      occurrences strcoll feature seen + if strcoll word feature = 0 then 1 else 0 := by
  unfold occurrences
  rw [List.countP_append, List.countP_singleton]
  simp

theorem occurrences_le (strcoll : String → String → Int) (feature : String)
    (document : List (Option String)) :
    occurrences strcoll feature document ≤ document.length :=
  List.countP_le_length

/-- A word that compares equal to one feature compares equal to no other. -/
theorem Ascending.ne_of_equal {strcoll : String → String → Int} (h : Collates strcoll)
    {features : List String} (hsorted : Ascending strcoll features) {word : String} {i j : Nat}
    (hi : i < features.length) (hj : j < features.length) (hij : i ≠ j)
    (hequal : strcoll word features[i] = 0) : strcoll word features[j] ≠ 0 := by
  intro hzero
  rcases Nat.lt_or_gt_of_ne hij with hlt | hlt
  · have hpair := List.pairwise_iff_getElem.mp hsorted i j hi hj hlt
    have hless := h.lt_of_equal_of_lt hequal hpair
    omega
  · have hpair := List.pairwise_iff_getElem.mp hsorted j i hj hi hlt
    have hless := h.lt_of_equal_of_lt hzero hpair
    omega

theorem set_histogramOf {strcoll : String → String → Int} (h : Collates strcoll)
    {arith : Float8Arith} {features : List String} (hsorted : Ascending strcoll features)
    (seen : List (Option String)) {word : String} {i : Nat} (hi : i < features.length)
    (hequal : strcoll word features[i] = 0) :
    (histogramOf strcoll arith features seen).set i
        (arith.ofInt64 (occurrences strcoll features[i] seen + 1 : Nat)) =
      histogramOf strcoll arith features (seen ++ [some word]) := by
  unfold histogramOf
  ext j : 1
  rw [List.getElem?_set, List.getElem?_map, List.getElem?_map]
  by_cases hij : i = j
  · subst hij
    rw [if_pos rfl, List.length_map, if_pos hi, List.getElem?_eq_getElem hi, Option.map_some,
      occurrences_append_word, if_pos hequal]
  · rw [if_neg hij]
    by_cases hj : j < features.length
    · rw [List.getElem?_eq_getElem hj, Option.map_some, Option.map_some, occurrences_append_word,
        if_neg (hsorted.ne_of_equal h hi hj hij hequal), Nat.add_zero]
    · rw [List.getElem?_eq_none (not_lt.mp hj)]
      rfl

section Counting

variable {strcoll : String → String → Int} (h : Collates strcoll) {arith : Float8Arith} {m : Nat}
  (hcounts : Counts arith m) {features : List String} (hsorted : Ascending strcoll features)

include h hcounts hsorted

/-- A word is counted at the one feature it compares equal to, if there is one. -/
theorem countWordIn_spec (seen : List (Option String)) (word : Option String)
    (hroom : seen.length + 1 ≤ m) :
    countWordIn strcoll arith (features.map some) (histogramOf strcoll arith features seen) word =
      .ok (histogramOf strcoll arith features (seen ++ [word])) := by
  cases word with
  | none =>
      unfold histogramOf
      simp only [occurrences_append_null]
      rfl
  | some word =>
      have hsearch := @strBsearch_spec strcoll h features hsorted word
        ((features.map some).length + 1) 0 ((features.map some).length - 1) (le_refl 0)
        (by rw [List.length_map]; omega) (fun i _ hlt => by omega)
        (fun i hi hlt => by rw [List.length_map] at hlt; omega)
        (by rw [List.length_map]; omega)
      unfold countWordIn
      dsimp only
      rcases hsearch with ⟨i, hi, hfound, hequal⟩ | ⟨hmiss, hnone⟩
      · rw [hfound, ok_bind, if_pos (by omega)]
        have hget : (histogramOf strcoll arith features seen)[i]? =
            some (arith.ofInt64 (occurrences strcoll features[i] seen)) := by
          rw [histogramOf, List.getElem?_map, List.getElem?_eq_getElem hi]
          rfl
        have hle := occurrences_le strcoll features[i] seen
        have hadd := hcounts.add (occurrences strcoll features[i] seen) 1 (by omega)
        rw [Nat.cast_one] at hadd
        unfold increment
        rw [Int.toNat_natCast, hget]
        dsimp only
        rw [hadd]
        rw [set_histogramOf h hsorted seen hi hequal]
      · rw [hmiss, ok_bind, if_neg (by omega)]
        congr 1
        unfold histogramOf
        apply List.map_congr_left
        intro f hf
        rw [occurrences_append_word, if_neg (hnone f hf), Nat.add_zero]

theorem foldlM_countWordIn (document : List (Option String)) (seen : List (Option String))
    (hroom : seen.length + document.length ≤ m) :
    document.foldlM (countWordIn strcoll arith (features.map some))
        (histogramOf strcoll arith features seen) =
      .ok (histogramOf strcoll arith features (seen ++ document)) := by
  induction document generalizing seen with
  | nil =>
      rw [List.append_nil]
      rfl
  | cons word document ih =>
      rw [List.length_cons] at hroom
      have hrest := ih (seen ++ [word]) (by rw [List.length_append, List.length_singleton]; omega)
      rw [List.append_assoc, List.singleton_append] at hrest
      rw [List.foldlM_cons, countWordIn_spec h hcounts hsorted seen word (by omega), ok_bind, hrest]

/-- The histogram holds the counts, compressed as far as they fit into an allocation. -/
theorem classifyDocument_spec (hne : features ≠ []) (hsize : 8 * features.length ≤ maxAllocSize)
    (document : List (Option String)) (hroom : document.length ≤ m) :
    (packedSize (histogramOf strcoll arith features document) ≤ maxAllocSize →
      ∃ svec, classifyDocument strcoll arith (features.map some) document = .ok svec ∧
        WellFormed (sdataFromSvec svec) ∧
        (sdataFromSvec svec).dense = histogramOf strcoll arith features document) ∧
    (maxAllocSize < packedSize (histogramOf strcoll arith features document) →
      classifyDocument strcoll arith (features.map some) document =
        .error (.elog "invalid memory alloc request size")) := by
  have hstart : List.replicate (features.map some).length (0 : Float8) =
      histogramOf strcoll arith features [] := by
    rw [histogramOf, List.length_map, ← List.map_const']
    apply List.map_congr_left
    intro f _
    exact hcounts.zero.symm
  have hfold := foldlM_countWordIn h hcounts hsorted document []
    (by rw [List.length_nil, Nat.zero_add]; exact hroom)
  rw [List.nil_append] at hfold
  have hlength : (histogramOf strcoll arith features document).length = features.length := by
    rw [histogramOf, List.length_map]
  have hne' : histogramOf strcoll arith features document ≠ [] := by
    apply List.ne_nil_of_length_pos
    rw [hlength]
    exact List.length_pos_of_ne_nil hne
  have hmax : maxAllocSize < 1073741824 := by decide
  have ⟨s, hs, hpacked⟩ := float8arrToSdata_spec hne' (by omega)
  unfold classifyDocument svecFromFloat8arr
  rw [List.length_map, palloc_ok hsize, ok_bind, ← List.length_map (f := some), hstart, hfold,
    ok_bind, hs, ok_bind]
  exact ⟨hpacked.svecFromSparsedata_ok, hpacked.svecFromSparsedata_error⟩

end Counting

/-! ## Dictionaries -/

/-- The dictionaries that are accepted: not empty, without NULLs and strictly ascending. -/
def Dictionary (strcoll : String → String → Int) (dict : TextArray) (features : List String) :
    Prop :=
  dict.hasNull = false ∧ dict.dims ≠ [] ∧ dict.elements = features.map some ∧
    Ascending strcoll features

theorem TextArray.ne_nil {array : TextArray} (hdims : array.dims ≠ []) : array.elements ≠ [] := by
  apply List.ne_nil_of_length_pos
  rw [array.length_elements, arrayGetNItems, if_neg hdims]
  exact List.prod_pos array.dims_pos

/-- Without NULLs the elements are strings. -/
theorem exists_map_some {elements : List (Option String)} (h : ∀ e ∈ elements, e ≠ none) :
    ∃ features : List String, elements = features.map some := by
  induction elements with
  | nil => exact ⟨[], rfl⟩
  | cons e elements ih =>
      have ⟨he, helements⟩ := List.forall_mem_cons.mp h
      have ⟨word, hword⟩ := Option.ne_none_iff_exists'.mp he
      have ⟨features, hfeatures⟩ := ih helements
      exact ⟨word :: features, by rw [hword, hfeatures, List.map_cons]⟩

theorem getTextArrayContents_eq {array : TextArray} (htext : array.elemtype = textOid) :
    getTextArrayContents array = .ok array.elements := by
  unfold getTextArrayContents
  rw [if_neg (not_not.mpr htext), palloc_ok array.dims_le]
  rfl

theorem Collates.ascending_iff {strcoll : String → String → Int} (h : Collates strcoll)
    {features : List String} :
    Ascending strcoll features ↔ features.IsChain fun f g => strcoll f g < 0 := by
  have : IsTrans String fun f g => strcoll f g < 0 := ⟨h.lt_trans⟩
  exact List.isChain_iff_pairwise.symm

section Function

variable {strcoll : String → String → Int} (h : Collates strcoll) {arith : Float8Arith}
  {dict doc : TextArray} (hdict : dict.elemtype = textOid) (hdoc : doc.elemtype = textOid)

include h hdict hdoc

/-- Any other dictionary is refused. -/
theorem gpExtractFeatureHistogram_refuses (hnot : ¬ ∃ features, Dictionary strcoll dict features) :
    ∃ e, gpExtractFeatureHistogram strcoll arith (some dict) (some doc) = .error e ∧
      e.isRaised := by
  unfold gpExtractFeatureHistogram
  dsimp only
  by_cases hnull : dict.hasNull = true
  · rw [if_pos hnull]
    exact ⟨_, rfl, rfl⟩
  · rw [if_neg hnull]
    rw [Bool.not_eq_true] at hnull
    by_cases hdims : dict.dims = []
    · rw [if_pos (List.length_eq_zero_iff.mpr hdims)]
      exact ⟨_, rfl, rfl⟩
    · have ⟨features, hfeatures⟩ := exists_map_some (dict.no_null hnull)
      have hlength := List.length_pos_of_ne_nil (TextArray.ne_nil hdims)
      rw [hfeatures, List.length_map] at hlength
      have hunsorted : ¬ (features.drop 0).IsChain fun f g => strcoll f g < 0 := by
        rw [List.drop_zero, ← h.ascending_iff]
        exact fun hsorted => hnot ⟨features, hnull, hdims, hfeatures, hsorted⟩
      have ⟨e, he, hraised⟩ := (@checkSorted_spec strcoll features (features.length - 1) 0
        (by omega)).2 hunsorted
      rw [Nat.cast_zero] at he
      refine ⟨e, ?_, hraised⟩
      rw [if_neg (fun hzero => hdims (List.length_eq_zero_iff.mp hzero)),
        getTextArrayContents_eq hdict, ok_bind, getTextArrayContents_eq hdoc, ok_bind, hfeatures,
        List.length_map, he, error_bind]

/-- Every feature is counted as often as the document has it; other dictionaries are refused. -/
theorem gpExtractFeatureHistogram_counts (hcounts : Counts arith doc.elements.length) :
    (∀ features, Dictionary strcoll dict features →
      (packedSize (histogramOf strcoll arith features doc.elements) ≤ maxAllocSize →
        ∃ svec, gpExtractFeatureHistogram strcoll arith (some dict) (some doc) = .ok (some svec) ∧
          WellFormed (sdataFromSvec svec) ∧ svec.totalValueCount.toInt = features.length ∧
          (sdataFromSvec svec).dense =
            features.map fun f => arith.ofInt64 (occurrences strcoll f doc.elements)) ∧
      (maxAllocSize < packedSize (histogramOf strcoll arith features doc.elements) →
        gpExtractFeatureHistogram strcoll arith (some dict) (some doc) =
          .error (.elog "invalid memory alloc request size"))) ∧
    ((¬ ∃ features, Dictionary strcoll dict features) →
      ∃ e, gpExtractFeatureHistogram strcoll arith (some dict) (some doc) = .error e ∧
        e.isRaised) := by
  refine ⟨fun features hdictionary => ?_, gpExtractFeatureHistogram_refuses h hdict hdoc⟩
  have ⟨hnull, hdims, hfeatures, hsorted⟩ := hdictionary
  have hlength := List.length_pos_of_ne_nil (TextArray.ne_nil hdims)
  have hle := dict.dims_le
  rw [← dict.length_elements, hfeatures, List.length_map] at hle
  rw [hfeatures, List.length_map] at hlength
  have hchain : (features.drop 0).IsChain fun f g => strcoll f g < 0 := by
    rw [List.drop_zero, ← h.ascending_iff]
    exact hsorted
  have hcheck := (@checkSorted_spec strcoll features (features.length - 1) 0 (by omega)).1 hchain
  rw [Nat.cast_zero] at hcheck
  have ⟨hok, herror⟩ := classifyDocument_spec h hcounts hsorted (List.ne_nil_of_length_pos hlength)
    hle doc.elements (le_refl _)
  unfold gpExtractFeatureHistogram
  dsimp only
  rw [if_neg (by rw [hnull]; exact Bool.false_ne_true),
    if_neg (fun hzero => hdims (List.length_eq_zero_iff.mp hzero)),
    getTextArrayContents_eq hdict, ok_bind, getTextArrayContents_eq hdoc, ok_bind, hfeatures,
    List.length_map, hcheck, ok_bind]
  constructor
  · intro hfits
    have ⟨svec, hsvec, hwell, hdense⟩ := hok hfits
    have htotal := hwell.truthful.length_dense
    rw [hdense, histogramOf, List.length_map] at htotal
    refine ⟨svec, ?_, hwell, htotal.symm, hdense⟩
    rw [hsvec, ok_bind]
    rfl
  · intro hlarge
    rw [herror hlarge, error_bind]

end Function

/-- The collation by code points. -/
def byCodePoints (a b : String) : Int := if a < b then -1 else if b < a then 1 else 0

theorem byCodePoints_sign (a b : String) :
    (byCodePoints a b < 0 ↔ a < b) ∧ (byCodePoints a b = 0 ↔ a = b) ∧
      (0 < byCodePoints a b ↔ b < a) := by
  unfold byCodePoints
  rcases lt_trichotomy a b with hlt | heq | hgt
  · simp [hlt, hlt.ne, hlt.asymm]
  · simp [heq]
  · simp [hgt, hgt.ne', hgt.asymm]

theorem collates_byCodePoints : Collates byCodePoints where
  swap a b := (byCodePoints_sign a b).1.trans (byCodePoints_sign b a).2.2.symm
  lt_trans a b c hab hbc := by
    rw [(byCodePoints_sign _ _).1] at hab hbc ⊢
    exact hab.trans hbc
  equal_trans a b c hab hbc := by
    rw [(byCodePoints_sign _ _).2.1] at hab hbc ⊢
    exact hab.trans hbc

/-- An array of words of one dimension. -/
def wordArray (words : List (Option String)) (hne : words ≠ [])
    (hsize : 8 * words.length ≤ maxAllocSize) : TextArray where
  elemtype := textOid
  dims := [words.length]
  hasNull := words.contains none
  elements := words
  dims_pos n hn := by
    rw [List.mem_singleton.mp hn]
    exact List.length_pos_of_ne_nil hne
  length_elements := by rw [arrayGetNItems_singleton]
  dims_le := by rwa [arrayGetNItems_singleton]
  no_null hnone e he hnull := by
    subst hnull
    rw [List.contains_iff_mem.mpr he] at hnone
    cases hnone

/-- Two features, and a document in which one of them occurs twice. -/
theorem gpExtractFeatureHistogram_counts_two :
    ∃ svec, gpExtractFeatureHistogram byCodePoints wholeArith
        (some (wordArray [some "a", some "b"] (by decide) (by decide)))
        (some (wordArray [some "b", none, some "c", some "b"] (by decide) (by decide))) =
          .ok (some svec) ∧
      svec.totalValueCount.toInt = 2 ∧
      (sdataFromSvec svec).dense = [wholeFloat 0, wholeFloat 2] := by
  have hdictionary : Dictionary byCodePoints
      (wordArray [some "a", some "b"] (by decide) (by decide)) ["a", "b"] := by
    refine ⟨by decide, by decide, rfl, ?_⟩
    unfold Ascending
    decide
  have ⟨svec, hsvec, _, htotal, hdense⟩ :=
    ((gpExtractFeatureHistogram_counts collates_byCodePoints
      (show (wordArray [some "a", some "b"] (by decide) (by decide)).elemtype = textOid from rfl)
      (show (wordArray [some "b", none, some "c", some "b"] (by decide) (by decide)).elemtype =
        textOid from rfl)
      (counts_wholeArith (by decide))).1 _ hdictionary).1 (by decide)
  exact ⟨svec, hsvec, htotal, hdense⟩

end Madlib.Svec
