import Madlib.Svec.ArrayCast
import Madlib.Svec.Positions

/-!
# Casting positions and values to an svec

`svec_cast_positions_float8arr` compares the last position it is given with the size, whatever
order the positions come in, and passes the size on as the declared size of the result.
-/

namespace Madlib.Svec

open Madlib.Backend Madlib.Lib.MachineInt Madlib.Lib.RunLength CountCode

def int8Oid : Int := 20

/-- An array of int8s. -/
structure Int8ArrayType where
  elemtype : Int
  dims : List Nat
  nullbitmap : Option (List UInt8)
  data : List Int64
  dims_pos : ∀ n ∈ dims, 0 < n
  length_data : data.length = (presentElements (arrayGetNItems dims) nullbitmap).count true
  size_le : 16 + 8 * dims.length + 8 * data.length ≤ maxAllocSize

/-- The positions and the values, with the checks on the two arrays behind. -/
def castPosVals (qsort : Qsort) (array : List Float8) (arrayPos : List Int64) (dimension : Nat)
    (size : Int64) (baseValue : Float8) : Except Fault SvecType :=
  match arrayPos[dimension - 1]? with
  | none => .error .outOfBounds
  | some last =>
      if size.toInt < last.toInt ∧ 0 < size.toInt then
        .error (.ereport .invalidParameterValue
          "svec_cast_positions_float8arr some of the position values are larger than maximum array size declared")
      else if ∃ pos ∈ arrayPos.take dimension, pos.toInt ≤ 0 then
        .error (.ereport .invalidParameterValue
          "svec_cast_positions_float8arr only accepts position that are positive integers (x > 0)")
      else do
        let sdata ← positionToSdata qsort array (arrayPos.map Int64.toInt) dimension size.toInt
          baseValue
        svecFromSparsedata sdata true

def svecCastPositionsFloat8arr (qsort : Qsort) (positions : Int8ArrayType) (values : ArrayType)
    (size : Int64) (baseValue : Float8) : Except Fault SvecType :=
  if values.elemtype ≠ float8Oid then
    .error (.ereport .invalidParameterValue
      "svec_cast_positions_float8arr valeus only defined over float8[]")
  else if values.dims.length ≠ 1 then
    .error (.ereport .invalidParameterValue
      "svec_cast_positions_float8arr only defined over 1 dimensional arrays")
  else if values.nullbitmap ≠ none then
    .error (.ereport .invalidParameterValue
      "svec_cast_positions_float8arr does not allow null bitmaps on arrays")
  else if positions.elemtype ≠ int8Oid then
    .error (.ereport .invalidParameterValue
      "svec_cast_positions_float8arr positions only defined over int[]")
  else if positions.dims.length ≠ 1 then
    .error (.ereport .invalidParameterValue
      "svec_cast_positions_float8arr only defined over 1 dimensional arrays")
  else if positions.nullbitmap ≠ none then
    .error (.ereport .invalidParameterValue
      "svec_cast_positions_float8arr does not allow null bitmaps on arrays")
  else if values.dims.headD 0 ≠ positions.dims.headD 0 then
    .error (.ereport .invalidParameterValue
      "svec_cast_positions_float8arr position and value vectors must be of the same size")
  else castPosVals qsort values.data positions.data (values.dims.headD 0) size baseValue

/-! ## Arrays that pass the checks -/

/-- One-dimensional arrays of `n` elements, none of them NULL. -/
structure Plain (positions : Int8ArrayType) (values : ArrayType) (n : Nat) : Prop where
  float8 : values.elemtype = float8Oid
  int8 : positions.elemtype = int8Oid
  values_dims : values.dims = [n]
  positions_dims : positions.dims = [n]
  values_bitmap : values.nullbitmap = none
  positions_bitmap : positions.nullbitmap = none

/-- The pairs the two arrays hold. -/
def posVals (positions : Int8ArrayType) (values : ArrayType) : List PosVal :=
  (positions.data.map Int64.toInt).zip values.data

section Plain

variable {positions : Int8ArrayType} {values : ArrayType} {n : Nat}

theorem Plain.lengths (h : Plain positions values n) :
    positions.data.length = n ∧ values.data.length = n ∧ 0 < n ∧ 8 * n ≤ maxAllocSize := by
  have hvalues := values.length_data
  have hpositions := positions.length_data
  rw [h.values_dims, h.values_bitmap, arrayGetNItems_singleton, presentElements,
    List.count_replicate_self] at hvalues
  rw [h.positions_dims, h.positions_bitmap, arrayGetNItems_singleton, presentElements,
    List.count_replicate_self] at hpositions
  have hle := values.dims_le
  rw [h.values_dims, arrayGetNItems_singleton] at hle
  refine ⟨hpositions, hvalues, values.dims_pos n ?_, hle⟩
  rw [h.values_dims]
  exact List.mem_singleton_self n

theorem Plain.posVals_eq (h : Plain positions values n) :
    (posVals positions values).map Prod.fst = positions.data.map Int64.toInt ∧
      (posVals positions values).map Prod.snd = values.data ∧
      (posVals positions values).length = n := by
  have ⟨hpositions, hvalues, _, _⟩ := h.lengths
  unfold posVals
  refine ⟨List.map_fst_zip ?_, List.map_snd_zip ?_, ?_⟩
  · rw [List.length_map, hpositions, hvalues]
  · rw [List.length_map, hpositions, hvalues]
  · rw [List.length_zip, List.length_map, hpositions, hvalues, Nat.min_self]

/-- The position in the last slot. -/
def lastPosition (pairs : List PosVal) : Int := (pairs.getLast?.map Prod.fst).getD 0

theorem Plain.cast_eq (h : Plain positions values n) (qsort : Qsort) (size : Int64)
    (baseValue : Float8) :
    svecCastPositionsFloat8arr qsort positions values size baseValue =
      if size.toInt < lastPosition (posVals positions values) ∧ 0 < size.toInt then
        .error (.ereport .invalidParameterValue
          "svec_cast_positions_float8arr some of the position values are larger than maximum array size declared")
      else if ∃ p ∈ posVals positions values, p.1 ≤ 0 then
        .error (.ereport .invalidParameterValue
          "svec_cast_positions_float8arr only accepts position that are positive integers (x > 0)")
      else pairsToSdata qsort (posVals positions values) size.toInt baseValue >>= fun sdata =>
        svecFromSparsedata sdata true := by
  have ⟨hlength, _, hpos, _⟩ := h.lengths
  have ⟨hfst, hsnd, hcount⟩ := h.posVals_eq
  have hlast : ∃ last, positions.data[n - 1]? = some last ∧
      lastPosition (posVals positions values) = last.toInt := by
    have hlt : n - 1 < positions.data.length := by omega
    refine ⟨positions.data[n - 1], List.getElem?_eq_getElem hlt, ?_⟩
    rw [lastPosition, ← List.getLast?_map, hfst, List.getLast?_map, List.getLast?_eq_getElem?,
      hlength, List.getElem?_eq_getElem hlt]
    rfl
  obtain ⟨last, hget, heq⟩ := hlast
  have hany : (∃ pos ∈ positions.data.take n, pos.toInt ≤ 0) ↔
      ∃ p ∈ posVals positions values, p.1 ≤ 0 := by
    rw [← hlength, List.take_length]
    have hmap : (∃ k ∈ positions.data.map Int64.toInt, k ≤ 0) ↔
        ∃ k ∈ (posVals positions values).map Prod.fst, k ≤ 0 := by rw [hfst]
    simpa only [List.mem_map, exists_exists_and_eq_and] using hmap
  unfold svecCastPositionsFloat8arr castPosVals
  rw [if_neg (not_not.mpr h.float8), h.values_dims, if_neg (by simp),
    if_neg (not_not.mpr h.values_bitmap), if_neg (not_not.mpr h.int8), h.positions_dims,
    if_neg (by simp), if_neg (not_not.mpr h.positions_bitmap), if_neg (by simp)]
  rw [List.headD_cons, hget, heq]
  dsimp only
  unfold pairsToSdata
  rw [hfst, hsnd, hcount]
  simp only [hany]

theorem posVals_lt {p : PosVal} (hp : p ∈ posVals positions values) :
    p.1 < 9223372036854775808 := by
  have hmem := (List.of_mem_zip hp).1
  have ⟨pos, _, hpos⟩ := List.mem_map.mp hmem
  rw [← hpos]
  exact Int64.toInt_lt pos

/-! ## What the call ends in -/

/-- The bytes of an svec of these runs. -/
def runsSize (runs : List (Nat × Float8)) : Nat :=
  svecSize (8 * runs.length) (rleBytes (runs.map Prod.fst)).length

theorem RunsSoFar.trimmedSize_eq {s : SparseData} {runs : List (Nat × Float8)}
    (h : RunsSoFar s runs) : s.trimmedSize = runsSize runs := by
  unfold SparseData.trimmedSize runsSize
  rw [SparseData.valsLen, h.vals_eq, List.length_map, StringInfo.len, h.index_eq]
  rfl

/-- The function raises an error: the last position exceeds the size, a position is not positive,
`qsort` puts two conflicting pairs next to one another, or the svec is too large. -/
def CastRefused (qsort : Qsort) (pairs : List PosVal) (size : Int) (baseValue : Float8) : Prop :=
  (size < lastPosition pairs ∧ 0 < size) ∨ (∃ p ∈ pairs, p.1 ≤ 0) ∨
  ∃ order, qsortOrder qsort pairs = .ok order ∧ (¬ Agreeing (order.map (pick pairs)) ∨
    maxAllocSize < runsSize (orderedRuns size baseValue (order.map (pick pairs))))

/-- Behind the checks an svec is returned for every order whose neighbours agree. -/
theorem Plain.cast_reached (h : Plain positions values n) {qsort : Qsort} (hqsort : Sorts qsort)
    {size : Int64} (baseValue : Float8)
    (hlast : ¬ (size.toInt < lastPosition (posVals positions values) ∧ 0 < size.toInt))
    (hpos : ¬ ∃ p ∈ posVals positions values, p.1 ≤ 0) :
    (∀ e, qsortOrder qsort (posVals positions values) = .error e →
      svecCastPositionsFloat8arr qsort positions values size baseValue = .error e) ∧
    (∀ order, qsortOrder qsort (posVals positions values) = .ok order →
      (¬ Agreeing (order.map (pick (posVals positions values))) →
        svecCastPositionsFloat8arr qsort positions values size baseValue =
          .error (.ereport .invalidParameterValue
            "posit_to_sdata conflicting values for the same position")) ∧
      (Agreeing (order.map (pick (posVals positions values))) →
        ∃ s, pairsToSdata qsort (posVals positions values) size.toInt baseValue = .ok s ∧
          svecCastPositionsFloat8arr qsort positions values size baseValue =
            svecFromSparsedata s true ∧
          RunsSoFar s (orderedRuns size.toInt baseValue
            (order.map (pick (posVals positions values)))) ∧
          s.totalValueCount = Int32.ofInt size.toInt)) := by
  have ⟨_, _, hn, hle⟩ := h.lengths
  have ⟨_, _, hlength⟩ := h.posVals_eq
  have hcount : 4 * (posVals positions values).length ≤ maxAllocSize := by
    rw [hlength]
    omega
  have hmax : maxAllocSize < 1073741824 := by decide
  rw [h.cast_eq, if_neg hlast, if_neg hpos]
  constructor
  · intro e herror
    unfold qsortOrder at herror
    unfold pairsToSdata positionToSdata
    rw [palloc_ok hcount, ok_bind, herror, error_bind, error_bind]
  · intro order horder
    have ⟨hrun, hperm⟩ := pairsToSdata_eq hqsort hcount size.toInt baseValue horder
    have hlength' := hperm.length_eq
    have hne : order.map (pick (posVals positions values)) ≠ [] := by
      apply List.ne_nil_of_length_pos
      omega
    have hrange : ∀ p ∈ order.map (pick (posVals positions values)), InRange p := by
      intro p hp
      have hmem := hperm.mem_iff.mp hp
      have hone : 1 ≤ p.1 := by
        by_contra hlow
        exact hpos ⟨p, hmem, by omega⟩
      exact ⟨hone, posVals_lt hmem⟩
    have hspec := orderedToSdata_spec hne (by omega) hrange (Int64.toInt_lt size) baseValue
    rw [hrun]
    constructor
    · intro hconflict
      rw [hspec.1 hconflict, error_bind]
    · intro hagree
      have ⟨s, hs, hsofar, htotal⟩ := hspec.2 hagree
      rw [hs, ok_bind]
      exact ⟨s, rfl, rfl, hsofar, htotal⟩

theorem Plain.cast_raises_iff (h : Plain positions values n) {qsort : Qsort}
    (hqsort : Sorts qsort) (size : Int64) (baseValue : Float8) :
    (∃ e, svecCastPositionsFloat8arr qsort positions values size baseValue = .error e ∧
      e.isRaised) ↔
    CastRefused qsort (posVals positions values) size.toInt baseValue := by
  unfold CastRefused
  by_cases hlast : size.toInt < lastPosition (posVals positions values) ∧ 0 < size.toInt
  · rw [h.cast_eq, if_pos hlast]
    exact iff_of_true ⟨_, rfl, rfl⟩ (.inl hlast)
  · by_cases hpos : ∃ p ∈ posVals positions values, p.1 ≤ 0
    · rw [h.cast_eq, if_neg hlast, if_pos hpos]
      exact iff_of_true ⟨_, rfl, rfl⟩ (.inr (.inl hpos))
    · rw [or_iff_right hlast, or_iff_right hpos]
      have ⟨herror, hok⟩ := h.cast_reached hqsort baseValue hlast hpos
      cases horder : qsortOrder qsort (posVals positions values) with
      | error e =>
          have hnot := hqsort.not_raised _ _ e horder
          rw [herror e horder]
          constructor
          · intro hraised
            have ⟨e', he', hraised'⟩ := hraised
            rw [← Except.error.inj he', hnot] at hraised'
            cases hraised'
          · intro hexists
            have ⟨order, horder', _⟩ := hexists
            cases horder'
      | ok order =>
          have ⟨hconflict, hagreeing⟩ := hok order horder
          have hself : ∀ P : List Nat → Prop, (∃ order', (Except.ok order : Except Fault _) =
              .ok order' ∧ P order') ↔ P order := by
            intro P
            constructor
            · intro hexists
              have ⟨order', heq, hP⟩ := hexists
              rwa [Except.ok.inj heq]
            · exact fun hP => ⟨order, rfl, hP⟩
          rw [hself]
          by_cases hagree : Agreeing (order.map (pick (posVals positions values)))
          · have ⟨s, _, hcast, hsofar, _⟩ := hagreeing hagree
            rw [or_iff_right (not_not.mpr hagree), hcast, ← hsofar.trimmedSize_eq]
            constructor
            · intro hraised
              by_contra hfits
              have ⟨svec, hsvec, _⟩ := svecFromSparsedata_trim (not_lt.mp hfits)
              have ⟨e, he, _⟩ := hraised
              cases hsvec.symm.trans he
            · exact fun hlarge => ⟨_, svecFromSparsedata_trim_error hlarge, rfl⟩
          · exact iff_of_true ⟨_, hconflict hagree, rfl⟩ (.inl hagree)

/-- An svec that is returned declares the size that was passed. -/
theorem Plain.cast_total (h : Plain positions values n) {qsort : Qsort} (hqsort : Sorts qsort)
    {size : Int64} {baseValue : Float8} {svec : SvecType}
    (hcast : svecCastPositionsFloat8arr qsort positions values size baseValue = .ok svec) :
    svec.totalValueCount.toInt = toInt32 size.toInt ∧
      ∃ order, qsortOrder qsort (posVals positions values) = .ok order := by
  by_cases hlast : size.toInt < lastPosition (posVals positions values) ∧ 0 < size.toInt
  · rw [h.cast_eq, if_pos hlast] at hcast
    cases hcast
  · by_cases hpos : ∃ p ∈ posVals positions values, p.1 ≤ 0
    · rw [h.cast_eq, if_neg hlast, if_pos hpos] at hcast
      cases hcast
    · have ⟨herror, hok⟩ := h.cast_reached hqsort baseValue hlast hpos
      cases horder : qsortOrder qsort (posVals positions values) with
      | error e =>
          rw [herror e horder] at hcast
          cases hcast
      | ok order =>
          have ⟨hconflict, hagreeing⟩ := hok order horder
          by_cases hagree : Agreeing (order.map (pick (posVals positions values)))
          · have ⟨s, _, heq, _, htotal⟩ := hagreeing hagree
            rw [heq] at hcast
            by_cases hfits : s.trimmedSize ≤ maxAllocSize
            · have ⟨svec', hsvec, _, hback⟩ := svecFromSparsedata_trim hfits
              have hsame : svec' = svec := Except.ok.inj (hsvec.symm.trans hcast)
              refine ⟨?_, order, rfl⟩
              rw [← hsame, ← totalValueCount_sdataFromSvec, hback, ← int32_toInt_ofInt, ← htotal]
              rfl
            · rw [svecFromSparsedata_trim_error (not_le.mp hfits)] at hcast
              cases hcast
          · rw [hconflict hagree] at hcast
            cases hcast

/-! ## What is asked of the cast -/

/-- A position that is not positive, or beyond a positive size. -/
def BadPosition (size : Int) (pairs : List PosVal) : Prop :=
  ∃ p ∈ pairs, p.1 ≤ 0 ∨ (1 ≤ size ∧ size < p.1)

/-- Bad positions and conflicting pairs are refused, all others give a well-formed svec of the
size, or up to the largest position where there is no positive size. -/
def CastMeets (qsort : Qsort) (positions : Int8ArrayType) (values : ArrayType) (size : Int64)
    (baseValue : Float8) : Prop :=
  (BadPosition size.toInt (posVals positions values) ∨ Conflicting (posVals positions values) →
    ∃ e, svecCastPositionsFloat8arr qsort positions values size baseValue = .error e ∧
      e.isRaised) ∧
  (¬ BadPosition size.toInt (posVals positions values) →
    ¬ Conflicting (posVals positions values) →
    ∃ svec, svecCastPositionsFloat8arr qsort positions values size baseValue = .ok svec ∧
      WellFormed (sdataFromSvec svec) ∧
      (1 ≤ size.toInt → svec.totalValueCount.toInt = size.toInt) ∧
      (size.toInt < 1 → IsGreatest { k | ∃ p ∈ posVals positions values, p.1 = k }
        svec.totalValueCount.toInt))

/-- The declared size is that of the elements: an int that is the size, or what the size is cut
down to where that happens to be the largest position. -/
def SizeTrue (size : Int) (pairs : List PosVal) : Prop :=
  (1 ≤ size → size < 2147483648) ∧
    (size < 1 → IsGreatest { k | ∃ p ∈ pairs, p.1 = k } (toInt32 size))

/-- The svec of the ordered pairs is no larger than an allocation. -/
def CastFits (qsort : Qsort) (pairs : List PosVal) (size : Int) (baseValue : Float8) : Prop :=
  ∃ order, qsortOrder qsort pairs = .ok order ∧
    runsSize (orderedRuns size baseValue (order.map (pick pairs))) ≤ maxAllocSize

theorem SizeTrue.isTop {size : Int} {pairs : List PosVal} (h : SizeTrue size pairs)
    (hgood : ¬ BadPosition size pairs) :
    ∃ top, IsTop size pairs top ∧ toInt32 size = top ∧ (1 ≤ size → top = size) ∧
      (size < 1 → IsGreatest { k | ∃ p ∈ pairs, p.1 = k } top) := by
  by_cases hsize : 1 ≤ size
  · have hlt := h.1 hsize
    refine ⟨size, ⟨fun p hp => ?_, le_refl _, .inl rfl⟩, toInt32_of_mem (by omega) hlt,
      fun _ => rfl, fun hneg => absurd hsize (not_le.mpr hneg)⟩
    by_contra hbeyond
    exact hgood ⟨p, hp, .inr ⟨hsize, not_le.mp hbeyond⟩⟩
  · have hgreatest := h.2 (not_le.mp hsize)
    have ⟨p, hp, hpos⟩ := hgreatest.1
    have hone : ¬ p.1 ≤ 0 := fun hlow => hgood ⟨p, hp, .inl hlow⟩
    refine ⟨toInt32 size, ⟨fun q hq => hgreatest.2 ⟨q, hq, rfl⟩, by omega, .inr ⟨p, hp, hpos⟩⟩,
      rfl, fun h => absurd h hsize, fun _ => hgreatest⟩

/-- Good positions pass the checks of the function. -/
theorem Plain.passes (h : Plain positions values n) {size : Int}
    (hgood : ¬ BadPosition size (posVals positions values)) :
    ¬ (size < lastPosition (posVals positions values) ∧ 0 < size) ∧
      ¬ ∃ p ∈ posVals positions values, p.1 ≤ 0 := by
  have ⟨_, _, hn, _⟩ := h.lengths
  have ⟨_, _, hlength⟩ := h.posVals_eq
  have hne : posVals positions values ≠ [] := by
    apply List.ne_nil_of_length_pos
    omega
  constructor
  · intro hlast
    rw [lastPosition, List.getLast?_eq_some_getLast hne] at hlast
    exact hgood ⟨_, List.getLast_mem hne, .inr ⟨hlast.2, hlast.1⟩⟩
  · intro hpos
    have ⟨p, hp, hlow⟩ := hpos
    exact hgood ⟨p, hp, .inl hlow⟩

theorem Plain.cast_wellFormed (h : Plain positions values n) {qsort : Qsort}
    (hqsort : Sorts qsort) {size : Int64} {baseValue : Float8}
    (hgood : ¬ BadPosition size.toInt (posVals positions values))
    (hfree : ¬ Conflicting (posVals positions values))
    (hsize : SizeTrue size.toInt (posVals positions values))
    (hfits : CastFits qsort (posVals positions values) size.toInt baseValue) :
    ∃ svec, svecCastPositionsFloat8arr qsort positions values size baseValue = .ok svec ∧
      WellFormed (sdataFromSvec svec) ∧
      (sdataFromSvec svec).dense =
        segment (valueAt (posVals positions values) baseValue) 1 svec.totalValueCount.toInt.toNat ∧
      (1 ≤ size.toInt → svec.totalValueCount.toInt = size.toInt) ∧
      (size.toInt < 1 → IsGreatest { k | ∃ p ∈ posVals positions values, p.1 = k }
        svec.totalValueCount.toInt) := by
  have ⟨_, _, hn, hle⟩ := h.lengths
  have ⟨_, _, hlength⟩ := h.posVals_eq
  have ⟨hlast, hpos⟩ := h.passes hgood
  have ⟨top, htop, hwrap, hdeclared, hlargest⟩ := hsize.isTop hgood
  have hmax := (toInt32_mem size.toInt).2
  have hwithin : ∀ p ∈ posVals positions values, 1 ≤ p.1 ∧ p.1 ≤ top := by
    intro p hp
    refine ⟨?_, htop.1 p hp⟩
    by_contra hlow
    exact hpos ⟨p, hp, by omega⟩
  have hne : posVals positions values ≠ [] := by
    apply List.ne_nil_of_length_pos
    omega
  have hnear := near_of_le (by omega) hwithin
  have ⟨order, horder, hfits'⟩ := hfits
  have ⟨order', horder', hperm, hsorted⟩ := qsortOrder_of_near hqsort hnear
  obtain rfl : order' = order := Except.ok.inj (horder'.symm.trans horder)
  have ⟨s, hs, hsofar, htotal, hdense⟩ := pairsToSdata_near hne (by omega)
    (fun p hp => ⟨(hwithin p hp).1, posVals_lt hp⟩) hnear hfree (Int64.toInt_lt size) htop baseValue
    hperm hsorted
  have htotal' : s.totalValueCount.toInt = top := by
    rw [htotal, int32_toInt_ofInt, hwrap]
  have ⟨first, hfirst⟩ := List.exists_mem_of_ne_nil _ hne
  have hone := hwithin first hfirst
  have hsize' : s.totalValueCount.toInt = s.dense.length := by
    rw [htotal', hdense, length_segment]
    omega
  have hwell := hsofar.wellFormed (orderedRuns_positive _ _ _) hsize' (by
    apply List.ne_nil_of_length_pos
    omega)
  rw [← hsofar.trimmedSize_eq] at hfits'
  have ⟨svec, hsvec, _, hsame⟩ := svecFromSparsedata_wellFormed hwell hfits'
  have hcount : svec.totalValueCount.toInt = top := by
    rw [← htotal', ← hsame.total]
    rfl
  refine ⟨svec, ?_, hsame.wellFormed hwell, ?_, ?_, ?_⟩
  · rw [h.cast_eq, if_neg hlast, if_neg hpos, hs qsort _ hqsort (List.Perm.refl _), ok_bind, hsvec]
  · rw [hsame.dense_eq, hdense, hcount]
  · rwa [hcount]
  · rwa [hcount]

/-- The cast does what is asked of it exactly where a refusal is due and made, or the size is
true and the svec fits into an allocation. -/
theorem svecCastPositionsFloat8arr_meets_iff {qsort : Qsort} (hqsort : Sorts qsort)
    (h : Plain positions values n) (size : Int64) (baseValue : Float8) :
    CastMeets qsort positions values size baseValue ↔
      ((BadPosition size.toInt (posVals positions values) ∨
          Conflicting (posVals positions values)) ∧
        CastRefused qsort (posVals positions values) size.toInt baseValue) ∨
      (¬ BadPosition size.toInt (posVals positions values) ∧
        ¬ Conflicting (posVals positions values) ∧
        SizeTrue size.toInt (posVals positions values) ∧
        CastFits qsort (posVals positions values) size.toInt baseValue) := by
  unfold CastMeets
  rw [h.cast_raises_iff hqsort]
  by_cases hbad : BadPosition size.toInt (posVals positions values) ∨
      Conflicting (posVals positions values)
  · constructor
    · exact fun hmeets => .inl ⟨hbad, hmeets.1 hbad⟩
    · intro hcond
      rcases hcond with ⟨_, hrefused⟩ | ⟨hgood, hfree, _⟩
      · exact ⟨fun _ => hrefused, fun hgood hfree => absurd hbad (not_or.mpr ⟨hgood, hfree⟩)⟩
      · exact absurd hbad (not_or.mpr ⟨hgood, hfree⟩)
  · have ⟨hgood, hfree⟩ := not_or.mp hbad
    constructor
    · intro hmeets
      have ⟨svec, hcast, _, hdeclared, hlargest⟩ := hmeets.2 hgood hfree
      have ⟨htotal, order, horder⟩ := h.cast_total hqsort hcast
      have hmax := (toInt32_mem size.toInt).2
      rw [htotal] at hdeclared hlargest
      refine .inr ⟨hgood, hfree, ⟨fun hsize => ?_, hlargest⟩, order, horder, ?_⟩
      · have hsame := hdeclared hsize
        omega
      · by_contra hlarge
        have ⟨e, he, _⟩ := (h.cast_raises_iff hqsort size baseValue).mpr
          (.inr (.inr ⟨order, horder, .inr (not_le.mp hlarge)⟩))
        cases hcast.symm.trans he
    · intro hcond
      rcases hcond with ⟨hdue, _⟩ | ⟨_, _, hsize, hfits⟩
      · exact absurd hdue hbad
      · refine ⟨fun hdue => absurd hdue hbad, fun _ _ => ?_⟩
        have ⟨svec, hcast, hwell, _, hdeclared, hlargest⟩ :=
          h.cast_wellFormed hqsort hgood hfree hsize hfits
        exact ⟨svec, hcast, hwell, hdeclared, hlargest⟩

end Plain

/-- An array of int8s of one dimension without NULLs. -/
def plainPositions (elems : List Int64) (hne : elems ≠ [])
    (hsize : 24 + 8 * elems.length ≤ maxAllocSize) : Int8ArrayType where
  elemtype := int8Oid
  dims := [elems.length]
  nullbitmap := none
  data := elems
  dims_pos n hn := by
    rw [List.mem_singleton.mp hn]
    exact List.length_pos_of_ne_nil hne
  length_data := by rw [arrayGetNItems_singleton, presentElements, List.count_replicate_self]
  size_le := hsize

theorem plain_singletons (pos : Int64) (v : Float8) :
    Plain (plainPositions [pos] (by simp) (by simp [maxAllocSize]))
      (plainArray [v] (by simp) (by simp [maxAllocSize])) 1 :=
  ⟨rfl, rfl, rfl, rfl, rfl, rfl⟩

/-- The position is in front of the end. -/
theorem svecCastPositionsFloat8arr_meets_two :
    CastMeets sortIndices (plainPositions [2] (by decide) (by decide))
      (plainArray [7] (by decide) (by decide)) 3 0 := by
  refine (svecCastPositionsFloat8arr_meets_iff sorts_sortIndices (plain_singletons 2 7) 3 0).mpr
    (.inr ⟨?_, by decide, ⟨by decide, fun h => absurd h (by decide)⟩, [0], ?_, by decide⟩)
  · unfold BadPosition
    decide
  · have hnear : Near [(2, 7)] := by
      unfold Near
      decide
    have ⟨order, horder, _⟩ := sorts_sortIndices.sorted _ _ (orders_of_near hnear)
    have hperm := sorts_sortIndices.perm _ _ _ horder
    rw [List.perm_singleton.mp hperm] at horder
    exact horder

/-- Without a positive size the declared size is not the last position. -/
theorem svecCastPositionsFloat8arr_not_meets_zero :
    ¬ CastMeets sortIndices (plainPositions [7] (by decide) (by decide))
      (plainArray [5] (by decide) (by decide)) 0 0 := by
  intro hmeets
  have hgood : ¬ BadPosition (Int64.toInt 0) (posVals (plainPositions [7] (by decide) (by decide))
      (plainArray [5] (by decide) (by decide))) := by
    unfold BadPosition
    decide
  have ⟨svec, hcast, _, _, hlargest⟩ := hmeets.2 hgood (by decide)
  have ⟨htotal, _⟩ := (plain_singletons 7 5).cast_total sorts_sortIndices hcast
  have ⟨p, hp, hpos⟩ := (hlargest (by decide)).1
  rw [htotal] at hpos
  obtain rfl : p = (7, 5) := List.mem_singleton.mp hp
  exact absurd hpos (by decide)

end Madlib.Svec
