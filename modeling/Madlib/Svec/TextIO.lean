import Mathlib
import Madlib.Svec.Constructors
import Madlib.Svec.Pivot

/-!
# The text format

`svec_out` prints the run lengths and the values as two arrays with a colon between them, and
turns each NaN into an `NVP`, the NaN that stands for NULL among them.  `svec_in` takes a NULL
for an NVP, but knows no value of that name.
-/

namespace Madlib.Svec

open Madlib.Backend Madlib.Lib.MachineInt Madlib.Lib.RunLength CountCode

/-! ## Array texts -/

/-- `construct_array` -/
def constructArray {α : Type} (elems : List α) : PgArray α where
  dims := if elems = [] then [] else [elems.length]
  elements := elems.map some
  dims_pos := by
    intro n hn
    split at hn
    · cases hn
    · rename_i hne
      rw [List.mem_singleton.mp hn]
      exact List.length_pos_iff.mpr hne
  length_eq := by
    by_cases hne : elems = []
    · simp [hne]
    · simp [hne]

/-- The text functions of a type and of its arrays. -/
structure TextFunctions (α : Type) where
  typeOut : α → List Char
  typeIn : List Char → Except String α
  arrayOut : PgArray α → List Char
  arrayIn : List Char → Except String (PgArray α)

/-- A text that needs no quotes in an array and is not taken for a NULL. -/
def PlainText (text : List Char) : Prop :=
  text ≠ [] ∧ (∀ c ∈ text, c ∉ ['{', '}', ',', '"', '\\'] ∧ c.isWhitespace = false) ∧
    text.map Char.toUpper ≠ ['N', 'U', 'L', 'L']

instance (text : List Char) : Decidable (PlainText text) :=
  decidable_of_iff
    (text ≠ [] ∧
      (text.all fun c => decide (c ∉ ['{', '}', ',', '"', '\\'] ∧ c.isWhitespace = false)) ∧
      text.map Char.toUpper ≠ ['N', 'U', 'L', 'L'])
    (by rw [PlainText, List.all_iff_forall_prop])

/-- The text of a one-dimensional array of such elements. -/
def arrayLiteral (texts : List (List Char)) : List Char :=
  '{' :: ([','].intercalate texts ++ ['}'])

/-- Arrays are printed and read element by element, as long as they fit into a datum. -/
structure TextFunctions.Elementwise {α : Type} (t : TextFunctions α) : Prop where
  plain_typeOut : ∀ v, PlainText (t.typeOut v)
  arrayOut_eq : ∀ values, values ≠ [] →
    t.arrayOut (constructArray values) = arrayLiteral (values.map t.typeOut)
  arrayIn_eq : ∀ texts, texts ≠ [] → (∀ text ∈ texts, PlainText text) →
    24 + 8 * texts.length ≤ maxAllocSize →
    t.arrayIn (arrayLiteral texts) = (texts.mapM t.typeIn).map constructArray

structure Int8Text (t : TextFunctions Int64) : Prop extends t.Elementwise where
  typeIn_typeOut : ∀ n, t.typeIn (t.typeOut n) = .ok n
  no_colon : ∀ n, ':' ∉ t.typeOut n

/-- A NaN is printed and read as `NaN`, and no number is called `NVP`. -/
structure Float8Text (t : TextFunctions Float8) : Prop extends t.Elementwise where
  typeIn_typeOut : ∀ v, isNaN v = false → t.typeIn (t.typeOut v) = .ok v
  no_capital : ∀ v, isNaN v = false → 'N' ∉ t.typeOut v
  typeOut_nan : ∀ v, isNaN v = true → t.typeOut v = ['N', 'a', 'N']
  typeIn_nan : ∃ v, isNaN v = true ∧ t.typeIn ['N', 'a', 'N'] = .ok v
  typeIn_nvp : ∃ msg, t.typeIn ['N', 'V', 'P'] = .error msg

/-! ## svec_out -/

def sdataIndexToInt64arr (sdata : SparseData) : Except Fault (List Int64) := do
  palloc (8 * sdata.uniqueValueCount)
  indexToInt64s sdata.uniqueValueCount sdata.index.data

/-- The first `count` values, as `construct_array` copies them. -/
def firstValues (vals : List Float8) (count : Nat) : Except Fault (List Float8) :=
  if vals.length < count then .error .outOfBounds else .ok (vals.take count)

/-- The bytes of an array of `count` eight-byte elements. -/
def arraySize (count : Nat) : Nat := 24 + 8 * count

/-- The loop over the characters: an `N` and the two characters behind it become `NVP`. -/
def printNvp : List Char → Except Fault (List Char)
  | [] => .ok []
  | c :: text =>
      if c = 'N' then
        match text with
        | _ :: _ :: text => (printNvp text).map fun text => 'N' :: 'V' :: 'P' :: text
        | _ => .error .outOfBounds
      else (printNvp text).map fun text => c :: text

def svecOut (int8 : TextFunctions Int64) (float8 : TextFunctions Float8) (svec : SvecType) :
    Except Fault (List Char) := do
  let sdata := sdataFromSvec svec
  let arrayIx ← sdataIndexToInt64arr sdata
  palloc (arraySize sdata.uniqueValueCount)
  let ixString := int8.arrayOut (constructArray arrayIx)
  let vals ← firstValues sdata.vals sdata.uniqueValueCount
  palloc (arraySize sdata.uniqueValueCount)
  let valsString := float8.arrayOut (constructArray vals)
  -- the lengths of two strings in memory add up to less than 2^31
  palloc (valsString.length + ixString.length + 1 + 1)
  let valsString ← printNvp valsString
  return ixString ++ ':' :: valsString

/-- `cstring_to_text` puts a header of four bytes before the text. -/
def svecToString (int8 : TextFunctions Int64) (float8 : TextFunctions Float8) (svec : SvecType) :
    Except Fault (List Char) := do
  let result ← svecOut int8 float8 svec
  palloc (result.length + 4)
  return result

def svecFromString (int8 : TextFunctions Int64) (float8 : TextFunctions Float8)
    (str : List Char) : Except Fault SvecType :=
  svecIn int8.arrayIn float8.arrayIn str

/-! ## Printing -/

/-- What stands for a value in the text of an svec. -/
def printedValue (t : TextFunctions Float8) (v : Float8) : List Char :=
  if isNaN v then ['N', 'V', 'P'] else t.typeOut v

theorem printNvp_cons {c : Char} (h : c ≠ 'N') (text : List Char) :
    printNvp (c :: text) = (printNvp text).map fun out => c :: out := by
  rw [printNvp.eq_def]
  exact if_neg h

theorem printNvp_append {text : List Char} (h : 'N' ∉ text) (rest : List Char) :
    printNvp (text ++ rest) = (printNvp rest).map fun out => text ++ out := by
  induction text with
  | nil =>
      rw [List.nil_append]
      cases printNvp rest <;> rfl
  | cons c text ih =>
      have ⟨hc, htext⟩ := List.ne_and_not_mem_of_not_mem_cons h
      rw [List.cons_append, printNvp_cons (Ne.symm hc), ih htext]
      cases printNvp rest <;> rfl

theorem printNvp_nan (rest : List Char) :
    printNvp (['N', 'a', 'N'] ++ rest) =
      (printNvp rest).map fun out => ['N', 'V', 'P'] ++ out := by
  show printNvp ('N' :: 'a' :: 'N' :: rest) = _
  rw [printNvp, if_pos rfl]
  rfl

theorem printNvp_typeOut {t : TextFunctions Float8} (ht : Float8Text t) (v : Float8)
    (rest : List Char) :
    printNvp (t.typeOut v ++ rest) = (printNvp rest).map fun out => printedValue t v ++ out := by
  cases hnan : isNaN v with
  | true => rw [printedValue, hnan, if_pos rfl, ht.typeOut_nan v hnan, printNvp_nan]
  | false =>
      rw [printedValue, hnan, if_neg Bool.false_ne_true, printNvp_append (ht.no_capital v hnan)]

theorem printNvp_intercalate {t : TextFunctions Float8} (ht : Float8Text t) (vals : List Float8)
    (rest : List Char) :
    printNvp ([','].intercalate (vals.map t.typeOut) ++ rest) =
      (printNvp rest).map fun out => [','].intercalate (vals.map (printedValue t)) ++ out := by
  induction vals with
  | nil => cases h : printNvp rest <;> simp [h, Except.map]
  | cons v vals ih =>
      cases vals with
      | nil =>
          rw [List.map_singleton, List.map_singleton, List.intercalate_singleton,
            List.intercalate_singleton, printNvp_typeOut ht]
      | cons w vals =>
          rw [List.map_cons, List.map_cons] at ih ⊢
          rw [List.map_cons, List.map_cons, List.intercalate_cons_cons, List.intercalate_cons_cons,
            List.append_assoc, List.append_assoc, printNvp_typeOut ht, List.singleton_append,
            printNvp_cons (by decide), ih]
          cases printNvp rest with
          | error e => rfl
          | ok out => simp [Except.map]

theorem printNvp_arrayLiteral {t : TextFunctions Float8} (ht : Float8Text t)
    (vals : List Float8) :
    printNvp (arrayLiteral (vals.map t.typeOut)) =
      .ok (arrayLiteral (vals.map (printedValue t))) := by
  unfold arrayLiteral
  rw [printNvp_cons (by decide), printNvp_intercalate ht]
  rfl

theorem length_printNvp {text out : List Char} (h : printNvp text = .ok out) :
    out.length = text.length := by
  induction text using printNvp.induct generalizing out with
  | case1 =>
      cases h
      rfl
  | case2 c₁ c₂ text ih =>
      cases hrest : printNvp text with
      | error e =>
          rw [printNvp.eq_def] at h
          simp [hrest, Except.map] at h
      | ok rest =>
          rw [printNvp.eq_def] at h
          simp only [if_true, hrest, Except.map, Except.ok.injEq] at h
          rw [← h, List.length_cons, List.length_cons, List.length_cons, ih hrest]
          rfl
  | case3 text hshort =>
      rw [printNvp.eq_def] at h
      simp at h
  | case4 c text hc ih =>
      rw [printNvp_cons hc] at h
      cases hrest : printNvp text with
      | error e => simp [hrest, Except.map] at h
      | ok rest =>
          simp only [hrest, Except.map, Except.ok.injEq] at h
          rw [← h, List.length_cons, List.length_cons, ih hrest]

/-! ## Reading -/

theorem mapM_typeIn_ok {α : Type} {t : TextFunctions α} {values : List α}
    (h : ∀ v ∈ values, t.typeIn (t.typeOut v) = .ok v) :
    (values.map t.typeOut).mapM t.typeIn = .ok values := by
  induction values with
  | nil => rfl
  | cons v values ih =>
      rw [List.map_cons, List.mapM_cons, h v List.mem_cons_self,
        ih fun w hw => h w (List.mem_cons_of_mem v hw)]
      rfl

theorem mapM_typeIn_error {α : Type} {t : TextFunctions α} {texts : List (List Char)}
    {text : List Char} (hmem : text ∈ texts) (h : ∃ msg, t.typeIn text = .error msg) :
    ∃ msg, texts.mapM t.typeIn = .error msg := by
  induction texts with
  | nil => cases hmem
  | cons text' texts ih =>
      rw [List.mapM_cons]
      cases hhead : t.typeIn text' with
      | error msg => exact ⟨msg, rfl⟩
      | ok v =>
          rcases List.mem_cons.mp hmem with heq | hmem
          · have ⟨msg, herror⟩ := h
            rw [heq, hhead] at herror
            cases herror
          · have ⟨msg, hrest⟩ := ih hmem
            rw [hrest]
            exact ⟨msg, rfl⟩

/-! ## The text of an svec -/

section Text

variable (int8 : TextFunctions Int64) (float8 : TextFunctions Float8)

def runLengthsText (runs : List Nat) : List Char :=
  arrayLiteral (runs.map fun n : Nat => int8.typeOut (Int64.ofInt n))

/-- What `svec_out` prints. -/
def svecText (svec : SvecType) : List Char :=
  runLengthsText int8 ((sdataFromSvec svec).runLengths.getD []) ++
    ':' :: arrayLiteral (svec.vals.map (printedValue float8))

variable {int8 : TextFunctions Int64} {float8 : TextFunctions Float8}

theorem svecOut_eq (hint : int8.Elementwise) (hfloat : Float8Text float8) {svec : SvecType}
    {runs : List Nat} (h : HasRuns (sdataFromSvec svec) runs) (hne : svec.vals ≠ []) :
    svecOut int8 float8 svec =
      if (svecText int8 float8 svec).length + 1 ≤ maxAllocSize then .ok (svecText int8 float8 svec)
      else .error (.elog "invalid memory alloc request size") := by
  have hvals : svec.vals.length = (sdataFromSvec svec).uniqueValueCount := h.length_vals
  have hsize : 88 + 8 * svec.vals.length ≤ maxAllocSize := by
    have hfits := svec.size_le
    have hbuffer := svec.vals_le
    unfold svecSize at hfits
    omega
  have hruns : runs.map (fun n : Nat => Int64.ofInt n) ≠ [] := by
    intro hnil
    have hlength := h.length_runs.trans hvals.symm
    rw [List.map_eq_nil_iff.mp hnil] at hlength
    exact hne (List.length_eq_zero_iff.mp hlength.symm)
  have hprint := printNvp_arrayLiteral hfloat svec.vals
  have hlength := length_printNvp hprint
  have hindex : sdataIndexToInt64arr (sdataFromSvec svec) =
      .ok (runs.map fun n : Nat => Int64.ofInt n) := by
    unfold sdataIndexToInt64arr
    rw [palloc_ok (by omega), ok_bind, ← h.length_runs]
    exact indexToInt64s_eq h.index
  have hfirst : firstValues (sdataFromSvec svec).vals (sdataFromSvec svec).uniqueValueCount =
      .ok svec.vals := by
    unfold firstValues
    rw [← hvals]
    show (if svec.vals.length < svec.vals.length then _ else _) = _
    rw [if_neg (Nat.lt_irrefl _)]
    exact congrArg Except.ok List.take_length
  have hpalloc : palloc (arraySize (sdataFromSvec svec).uniqueValueCount) = .ok () := by
    rw [← hvals]
    exact palloc_ok (by unfold arraySize; omega)
  have htext : svecText int8 float8 svec = runLengthsText int8 runs ++
      ':' :: arrayLiteral (svec.vals.map (printedValue float8)) := by
    rw [svecText, h.runLengths_eq]
    rfl
  have hout : int8.arrayOut (constructArray (runs.map fun n : Nat => Int64.ofInt n)) =
      runLengthsText int8 runs := by
    rw [hint.arrayOut_eq _ hruns, List.map_map]
    rfl
  have htotal : (svecText int8 float8 svec).length + 1 =
      (arrayLiteral (svec.vals.map float8.typeOut)).length + (runLengthsText int8 runs).length +
        1 + 1 := by
    rw [htext, List.length_append, List.length_cons, hlength]
    omega
  unfold svecOut
  dsimp only
  rw [hindex, ok_bind, hpalloc, ok_bind, hfirst, ok_bind, ok_bind, hout,
    hfloat.arrayOut_eq _ hne, ← htotal]
  by_cases hfits : (svecText int8 float8 svec).length + 1 ≤ maxAllocSize
  · rw [if_pos hfits, palloc_ok hfits, ok_bind, hprint, ok_bind, htext]
    rfl
  · rw [if_neg hfits, palloc_error (Nat.lt_of_not_le hfits), error_bind]

/-! ## Reading the text back -/

theorem callArrayIn_ok {α : Type} {t : TextFunctions α} (ht : t.Elementwise) {values : List α}
    (h : ∀ v ∈ values, t.typeIn (t.typeOut v) = .ok v) (hne : values ≠ [])
    (hsize : arraySize values.length ≤ maxAllocSize) :
    callArrayIn t.arrayIn (arrayLiteral (values.map t.typeOut)) = .ok (constructArray values) := by
  have hplain : ∀ text ∈ values.map t.typeOut, PlainText text := by
    intro text hmem
    have ⟨v, _, hv⟩ := List.mem_map.mp hmem
    rw [← hv]
    exact ht.plain_typeOut v
  unfold callArrayIn
  rw [ht.arrayIn_eq _ (mt List.map_eq_nil_iff.mp hne) hplain (by rwa [List.length_map]),
    mapM_typeIn_ok h]
  rfl

theorem plainText_printedValue (hfloat : Float8Text float8) (v : Float8) :
    PlainText (printedValue float8 v) := by
  unfold printedValue
  split
  · decide
  · exact hfloat.plain_typeOut v

/-- An array text with an NVP in it is refused. -/
theorem callArrayIn_nvp (hfloat : Float8Text float8) {vals : List Float8}
    (hnan : ∃ v ∈ vals, isNaN v = true) (hsize : arraySize vals.length ≤ maxAllocSize) :
    ∃ e, callArrayIn float8.arrayIn (arrayLiteral (vals.map (printedValue float8))) =
      .error e := by
  have ⟨v, hmem, hv⟩ := hnan
  have hplain : ∀ text ∈ vals.map (printedValue float8), PlainText text := by
    intro text hmem
    have ⟨w, _, hw⟩ := List.mem_map.mp hmem
    rw [← hw]
    exact plainText_printedValue hfloat w
  have hnvp : float8.typeIn (printedValue float8 v) = float8.typeIn ['N', 'V', 'P'] := by
    rw [printedValue, if_pos hv]
  have ⟨msg, herror⟩ := mapM_typeIn_error
    (List.mem_map.mpr ⟨v, hmem, rfl⟩ : _ ∈ vals.map (printedValue float8))
    (hnvp ▸ hfloat.typeIn_nvp)
  have hne : vals.map (printedValue float8) ≠ [] := by
    intro hnil
    rw [List.map_eq_nil_iff.mp hnil] at hmem
    cases hmem
  unfold callArrayIn
  rw [hfloat.arrayIn_eq _ hne hplain (by rwa [List.length_map]), herror]
  exact ⟨_, rfl⟩

theorem headD_dims_constructArray {α : Type} {values : List α} (h : values ≠ []) :
    (constructArray values).dims = [values.length] := if_neg h

theorem hasNull_constructArray {α : Type} (values : List α) :
    (constructArray values).hasNull = false := by
  unfold PgArray.hasNull constructArray
  rw [List.any_map]
  exact List.any_eq_false.mpr fun _ _ => Bool.false_ne_true

theorem svecInCheck_constructArray {uIndex : List Int64} {vals : List Float8}
    (hlength : uIndex.length = vals.length) (hne : vals ≠ []) :
    svecInCheck (constructArray uIndex) (constructArray vals) = .ok (uIndex, vals) := by
  have hne' : uIndex ≠ [] := by
    intro hnil
    rw [hnil] at hlength
    exact hne (List.length_eq_zero_iff.mp hlength.symm)
  have hix : (constructArray uIndex).elements.take uIndex.length = uIndex.map some := by
    rw [← List.length_map (f := some)]
    exact List.take_length
  have hvals : (constructArray vals).elements.take vals.length = vals.map some := by
    rw [← List.length_map (f := some)]
    exact List.take_length
  have hid : ((fun v : Option Float8 => v.getD NVP) ∘ some) = id := rfl
  unfold svecInCheck
  rw [headD_dims_constructArray hne, headD_dims_constructArray hne', hasNull_constructArray]
  dsimp only [List.headD_cons]
  have hsome : (uIndex.map some).reduceOption = uIndex := by simp [List.reduceOption]
  rw [if_neg (by simp), if_neg (not_not.mpr hlength), if_neg Bool.false_ne_true, hlength, hvals,
    ← hlength, hix, hsome, List.map_map, hid, List.map_id]

/-- The text is split at the colon behind the run lengths. -/
theorem svecInArrays_text {int8ArrayIn : List Char → Except String (PgArray Int64)}
    {float8ArrayIn : List Char → Except String (PgArray Float8)} {ixText : List Char}
    (h : ':' ∉ ixText) (valsText : List Char) :
    svecInArrays int8ArrayIn float8ArrayIn (ixText ++ ':' :: valsText) = (do
      let pgarrayIx ← callArrayIn int8ArrayIn ixText
      let pgarrayVals ← callArrayIn float8ArrayIn valsText
      svecInCheck pgarrayIx pgarrayVals) := by
  have hne : ∀ c ∈ ixText, decide (c ≠ ':') = true := by
    intro c hc
    rw [decide_eq_true_eq]
    intro heq
    exact h (heq ▸ hc)
  have htake : (ixText ++ ':' :: valsText).takeWhile (· ≠ ':') = ixText := by
    rw [List.takeWhile_append_of_pos hne]
    simp
  have hdrop : (ixText ++ ':' :: valsText).dropWhile (· ≠ ':') = ':' :: valsText := by
    rw [List.dropWhile_append_of_pos hne]
    simp
  unfold svecInArrays
  rw [htake, hdrop]

theorem colon_not_mem_intercalate {texts : List (List Char)} (h : ∀ text ∈ texts, ':' ∉ text) :
    ':' ∉ [','].intercalate texts := by
  induction texts with
  | nil => exact List.not_mem_nil
  | cons text texts ih =>
      have htail := ih fun t ht => h t (List.mem_cons_of_mem text ht)
      have hhead := h text List.mem_cons_self
      cases texts with
      | nil => rwa [List.intercalate_singleton]
      | cons text' texts =>
          rw [List.intercalate_cons_cons, List.mem_append, List.mem_append, not_or, not_or]
          exact ⟨⟨hhead, by decide⟩, htail⟩

theorem colon_not_mem_runLengthsText (hint : Int8Text int8) (runs : List Nat) :
    ':' ∉ runLengthsText int8 runs := by
  have hinner : ':' ∉ [','].intercalate (runs.map fun n : Nat => int8.typeOut (Int64.ofInt n)) := by
    apply colon_not_mem_intercalate
    intro text hmem
    have ⟨n, _, hn⟩ := List.mem_map.mp hmem
    rw [← hn]
    exact hint.no_colon _
  unfold runLengthsText arrayLiteral
  rw [List.mem_cons, List.mem_append, not_or, not_or]
  exact ⟨by decide, hinner, by decide⟩

/-! ## The svec that is read -/

theorem int64_ofInt_of_lt {n : Nat} (h : n < 2147483648) : (Int64.ofInt n).toInt = n := by
  have hsize : Int64.size = 18446744073709551616 := rfl
  rw [Int64.toInt_ofInt, hsize, Int.bmod_eq_of_le]
  · omega
  · omega

theorem indexEntries_map {runs : List Nat} (h : ∀ n ∈ runs, n < 2147483648) :
    indexEntries (runs.map fun n : Nat => Int64.ofInt n) = rleBytes runs := by
  induction runs with
  | nil => rfl
  | cons n runs ih =>
      have hn := int64_ofInt_of_lt (h n List.mem_cons_self)
      have htail := ih fun m hm => h m (List.mem_cons_of_mem n hm)
      unfold indexEntries rleBytes at htail ⊢
      rw [List.map_cons, List.map_cons, List.flatten_cons, List.flatMap_cons, hn, htail]

theorem sum_int64s {runs : List Nat} (h : ∀ n ∈ runs, n < 2147483648) :
    ((runs.map fun n : Nat => Int64.ofInt n).map Int64.toInt).sum = (runs.sum : Nat) := by
  induction runs with
  | nil => rfl
  | cons n runs ih =>
      have hn := int64_ofInt_of_lt (h n List.mem_cons_self)
      have htail := ih fun m hm => h m (List.mem_cons_of_mem n hm)
      rw [List.map_cons, List.map_cons, List.sum_cons, hn, htail, List.sum_cons]
      push_cast
      rfl

/-- The SparseData `svec_in` makes of run lengths and values. -/
theorem svecInRuns_eq {sdata : SparseData} (h : WellFormed sdata) {runs : List Nat}
    (hruns : HasRuns sdata runs) :
    (svecSize (8 * sdata.vals.length) (rleBytes runs).length ≤ maxAllocSize →
      ∃ s, svecInRuns (runs.map fun n : Nat => Int64.ofInt n) sdata.vals = .ok s ∧
        s.dimension = (if sdata.totalValueCount = 1 then -1 else sdata.totalValueCount) ∧
        (sdataFromSvec s).runLengths = some runs ∧ s.vals = sdata.vals ∧
        s.totalValueCount = sdata.totalValueCount) ∧
    (maxAllocSize < svecSize (8 * sdata.vals.length) (rleBytes runs).length →
      ∃ e, svecInRuns (runs.map fun n : Nat => Int64.ofInt n) sdata.vals = .error e) := by
  have ⟨runs', hruns', hpositive, htotal⟩ := h.exists_runs
  rw [← hruns.unique hruns'] at hpositive htotal
  have hone := h.one_le_total
  have hmax := (int32_mem sdata.totalValueCount).2
  have hlt : ∀ n ∈ runs, n < 2147483648 := by
    intro n hn
    have hle := List.le_sum_of_mem hn
    omega
  have hpos : ¬ ∃ u ∈ runs.map (fun n : Nat => Int64.ofInt n), u.toInt ≤ 0 := by
    intro hu
    have ⟨u, hmem, hle⟩ := hu
    have ⟨n, hn, heq⟩ := List.mem_map.mp hmem
    have hn' := hpositive n hn
    rw [← heq, int64_ofInt_of_lt (hlt n hn)] at hle
    omega
  have hstart : makeStringInfo.data = some [] := rfl
  rcases svecInRun_foldlM (runs.map fun n : Nat => Int64.ofInt n) 0 hstart with
    ⟨hle, _⟩ | ⟨_, index, hfold, hindex⟩
  · exact absurd hle hpos
  · rw [toInt32_of_mem (by omega) (by omega), Int.zero_add, sum_int64s hlt, ← htotal,
      toInt32_of_mem (by omega) hmax] at hfold
    rw [List.nil_append, indexEntries_map hlt] at hindex
    have hcount : Int32.ofInt sdata.totalValueCount.toInt = sdata.totalValueCount :=
      Int32.ofInt_toInt _
    have hlength : runs.length = sdata.vals.length := hruns.length_runs.trans hruns.length_vals.symm
    have hread : HasRuns (makeInplaceSparseData sdata.vals index.data runs.length
        sdata.totalValueCount) runs := by
      refine ⟨?_, rfl, hlength.symm⟩
      show IndexRuns index.data runs
      rw [hindex]
      exact walks_rleBytes fun n hn => (hlt n hn).trans (by decide)
    have hwell : WellFormed (makeInplaceSparseData sdata.vals index.data runs.length
        sdata.totalValueCount) := ⟨⟨runs, hread, hpositive, htotal⟩, hone⟩
    have hsize : (makeInplaceSparseData sdata.vals index.data runs.length
        sdata.totalValueCount).trimmedSize =
          svecSize (8 * sdata.vals.length) (rleBytes runs).length := by
      unfold SparseData.trimmedSize StringInfo.len
      show svecSize _ (index.data.getD []).length = _
      rw [hindex]
      rfl
    unfold svecInRuns
    rw [hfold, ok_bind]
    dsimp only
    rw [List.length_map, hcount, ← hsize]
    constructor
    · intro hfits
      have ⟨s, hs, hdimension, hsame⟩ := svecFromSparsedata_wellFormed hwell hfits
      have hdimension' : s.dimension =
          (if sdata.totalValueCount = 1 then -1 else sdata.totalValueCount) := hdimension
      have hrun := (hsame.hasRuns hread).runLengths_eq
      rw [hs, ok_bind]
      by_cases hscalar : sdata.totalValueCount.toInt = 1
      · have hscalar' : sdata.totalValueCount = 1 := Int32.toInt_inj.mp hscalar
        rw [if_pos hscalar]
        exact ⟨_, rfl, by rw [if_pos hscalar'], hrun, hsame.vals, hsame.total⟩
      · rw [if_neg hscalar]
        exact ⟨s, rfl, hdimension', hrun, hsame.vals, hsame.total⟩
    · intro hlarge
      rw [svecFromSparsedata_trim_error hlarge]
      exact ⟨_, rfl⟩

/-! ## Round trip -/

/-- The text is accepted and gives the runs, the values, the count and the header again. -/
def RoundTrips (print : SvecType → Except Fault (List Char))
    (read : List Char → Except Fault SvecType) (svec : SvecType) : Prop :=
  ∃ text s, print svec = .ok text ∧ read text = .ok s ∧
    (sdataFromSvec s).runLengths = (sdataFromSvec svec).runLengths ∧ s.vals = svec.vals ∧
    s.totalValueCount = svec.totalValueCount ∧ s.dimension = svec.dimension

/-- No value is a NaN, the header is the one of the count, and the svec fits into a datum with
its run lengths written anew. -/
structure ReadsBack (svec : SvecType) : Prop where
  no_nan : ∀ v ∈ svec.vals, isNaN v = false
  header : svec.dimension = if svec.totalValueCount = 1 then -1 else svec.totalValueCount
  fits : svecSize (8 * svec.vals.length)
    (rleBytes ((sdataFromSvec svec).runLengths.getD [])).length ≤ maxAllocSize

/-- What is left to do once the run lengths are read back. -/
theorem svecIn_svecText (hint : Int8Text int8) {svec : SvecType} {runs : List Nat}
    (hruns : HasRuns (sdataFromSvec svec) runs) (hne : runs ≠ [])
    (hsize : arraySize runs.length ≤ maxAllocSize) :
    svecIn int8.arrayIn float8.arrayIn (svecText int8 float8 svec) = (do
      let pgarrayVals ← callArrayIn float8.arrayIn
        (arrayLiteral (svec.vals.map (printedValue float8)))
      let (uIndex, vals) ←
        svecInCheck (constructArray (runs.map fun n : Nat => Int64.ofInt n)) pgarrayVals
      svecInRuns uIndex vals) := by
  have hix : callArrayIn int8.arrayIn (runLengthsText int8 runs) =
      .ok (constructArray (runs.map fun n : Nat => Int64.ofInt n)) := by
    have hread : callArrayIn int8.arrayIn
        (arrayLiteral ((runs.map fun n : Nat => Int64.ofInt n).map int8.typeOut)) = _ :=
      callArrayIn_ok hint.toElementwise (fun n _ => hint.typeIn_typeOut n)
        (mt List.map_eq_nil_iff.mp hne) (by rwa [List.length_map])
    rwa [List.map_map] at hread
  unfold svecIn svecText
  rw [hruns.runLengths_eq]
  dsimp only [Option.getD_some]
  rw [svecInArrays_text (colon_not_mem_runLengthsText hint runs), hix, ok_bind]
  cases callArrayIn float8.arrayIn (arrayLiteral (svec.vals.map (printedValue float8))) with
  | error e => rfl
  | ok pgarrayVals => rfl

theorem svecIn_svecText_iff (hint : Int8Text int8) (hfloat : Float8Text float8)
    {svec : SvecType} (h : WellFormed (sdataFromSvec svec)) :
    (∃ s, svecIn int8.arrayIn float8.arrayIn (svecText int8 float8 svec) = .ok s ∧
      (sdataFromSvec s).runLengths = (sdataFromSvec svec).runLengths ∧ s.vals = svec.vals ∧
      s.totalValueCount = svec.totalValueCount ∧ s.dimension = svec.dimension) ↔
    ReadsBack svec := by
  obtain ⟨runs, hruns, hpositive, htotal⟩ := h.exists_runs
  have hone := h.one_le_total
  have hmax := (int32_mem (sdataFromSvec svec).totalValueCount).2
  have hlength : runs.length = svec.vals.length := hruns.length_runs.trans hruns.length_vals.symm
  have hne : runs ≠ [] := by
    intro hnil
    rw [hnil] at htotal
    rw [htotal] at hone
    simp at hone
  have hvals : svec.vals ≠ [] := by
    intro hnil
    rw [hnil] at hlength
    exact hne (List.length_eq_zero_iff.mp hlength)
  have hsize : arraySize svec.vals.length ≤ maxAllocSize := by
    have hfits := svec.size_le
    have hbuffer := svec.vals_le
    unfold svecSize at hfits
    unfold arraySize
    omega
  rw [svecIn_svecText hint hruns hne (by rwa [hlength])]
  by_cases hnan : ∃ v ∈ svec.vals, isNaN v = true
  · obtain ⟨e, herror⟩ := callArrayIn_nvp hfloat hnan hsize
    rw [herror, error_bind]
    constructor
    · intro hs
      obtain ⟨s, hs, _⟩ := hs
      cases hs
    · intro hback
      obtain ⟨v, hmem, hv⟩ := hnan
      rw [hback.no_nan v hmem] at hv
      cases hv
  · have hnumbers : ∀ v ∈ svec.vals, isNaN v = false := by
      intro v hmem
      cases hv : isNaN v with
      | false => rfl
      | true => exact absurd ⟨v, hmem, hv⟩ hnan
    have hprinted : svec.vals.map (printedValue float8) = svec.vals.map float8.typeOut := by
      apply List.map_congr_left
      intro v hmem
      rw [printedValue, hnumbers v hmem, if_neg Bool.false_ne_true]
    have hread := callArrayIn_ok hfloat.toElementwise
      (fun v hmem => hfloat.typeIn_typeOut v (hnumbers v hmem)) hvals hsize
    have hcheck : svecInCheck (constructArray (runs.map fun n : Nat => Int64.ofInt n))
        (constructArray svec.vals) = .ok (runs.map fun n : Nat => Int64.ofInt n, svec.vals) :=
      svecInCheck_constructArray (by rw [List.length_map, hlength]) hvals
    obtain ⟨hok, hlarge⟩ := svecInRuns_eq h hruns
    rw [hprinted, hread, ok_bind, hcheck, ok_bind, hruns.runLengths_eq]
    dsimp only
    constructor
    · intro hs
      obtain ⟨s, hs, _, _, _, hdimension⟩ := hs
      have hfits : svecSize (8 * svec.vals.length) (rleBytes runs).length ≤ maxAllocSize := by
        by_contra hlt
        obtain ⟨e, herror⟩ := hlarge (Nat.lt_of_not_le hlt)
        cases hs.symm.trans herror
      obtain ⟨s', hs', hdimension', _⟩ := hok hfits
      have heq : s' = s := Except.ok.inj (hs'.symm.trans hs)
      refine ⟨hnumbers, ?_, ?_⟩
      · rw [← hdimension, ← heq]
        exact hdimension'
      · rwa [hruns.runLengths_eq]
    · intro hback
      have hfits := hback.fits
      rw [hruns.runLengths_eq] at hfits
      obtain ⟨s, hs, hdimension, hlengths, hvalues, hcount⟩ := hok hfits
      exact ⟨s, hs, hlengths, hvalues, hcount, hdimension.trans hback.header.symm⟩

/-- Both ways through the text lead back to the svec exactly when it has no NaN and the header of
its count, and its text and the svec that is read fit into memory. -/
theorem svecIn_svecOut_iff (hint : Int8Text int8) (hfloat : Float8Text float8)
    {svec : SvecType} (h : WellFormed (sdataFromSvec svec)) :
    (RoundTrips (svecOut int8 float8) (svecIn int8.arrayIn float8.arrayIn) svec ↔
      ReadsBack svec ∧ (svecText int8 float8 svec).length + 1 ≤ maxAllocSize) ∧
    (RoundTrips (svecToString int8 float8) (svecFromString int8 float8) svec ↔
      ReadsBack svec ∧ (svecText int8 float8 svec).length + 4 ≤ maxAllocSize) := by
  have ⟨runs, hruns, _, htotal⟩ := h.exists_runs
  have hone := h.one_le_total
  have hvals : svec.vals ≠ [] := by
    intro hnil
    have hlength : runs.length = 0 := by
      rw [hruns.length_runs, ← hruns.length_vals]
      exact congrArg List.length hnil
    rw [List.length_eq_zero_iff.mp hlength] at htotal
    rw [htotal] at hone
    simp at hone
  have hread := svecIn_svecText_iff hint hfloat h
  have hout := svecOut_eq hint.toElementwise hfloat hruns hvals
  have hprints : ∀ (print : SvecType → Except Fault (List Char)) (read) (size : Nat),
      (size ≤ maxAllocSize → print svec = .ok (svecText int8 float8 svec)) →
      (maxAllocSize < size → ∃ e, print svec = .error e) →
      (∀ text, read text = svecIn int8.arrayIn float8.arrayIn text) →
      (RoundTrips print read svec ↔ ReadsBack svec ∧ size ≤ maxAllocSize) := by
    intro print read size hok herror hin
    rw [← hread]
    constructor
    · intro hround
      have ⟨text, s, htext, hs, hsame⟩ := hround
      have hfits : size ≤ maxAllocSize := by
        by_contra hlarge
        have ⟨e, he⟩ := herror (Nat.lt_of_not_le hlarge)
        cases htext.symm.trans he
      have heq : text = svecText int8 float8 svec := Except.ok.inj (htext.symm.trans (hok hfits))
      exact ⟨⟨s, heq ▸ (hin text).symm.trans hs, hsame⟩, hfits⟩
    · intro hround
      have ⟨⟨s, hs, hsame⟩, hfits⟩ := hround
      exact ⟨_, s, hok hfits, (hin _).trans hs, hsame⟩
  constructor
  · apply hprints
    · intro hfits
      rw [hout, if_pos hfits]
    · intro hlarge
      rw [hout, if_neg (Nat.not_le_of_lt hlarge)]
      exact ⟨_, rfl⟩
    · exact fun _ => rfl
  · apply hprints
    · intro hfits
      rw [svecToString, hout, if_pos (by omega), ok_bind, palloc_ok hfits]
      rfl
    · intro hlarge
      rw [svecToString, hout]
      split
      · rw [ok_bind, palloc_error hlarge]
        exact ⟨_, rfl⟩
      · exact ⟨_, rfl⟩
    · exact fun _ => rfl

end Text

/-! ## Texts of elements that are printed and read one by one -/

def elementwiseText {α : Type} (typeOut : α → List Char)
    (typeIn : List Char → Except String α) : TextFunctions α where
  typeOut
  typeIn
  arrayOut := fun array => arrayLiteral (array.elements.map fun
    | none => ['N', 'U', 'L', 'L']
    | some v => typeOut v)
  arrayIn := fun text => ((text.tail.dropLast.splitOn ',').mapM typeIn).map constructArray

theorem elementwise_elementwiseText {α : Type} {typeOut : α → List Char}
    (typeIn : List Char → Except String α) (h : ∀ v, PlainText (typeOut v)) :
    (elementwiseText typeOut typeIn).Elementwise where
  plain_typeOut := h
  arrayOut_eq := by
    intro values _
    show arrayLiteral ((values.map some).map _) = _
    rw [List.map_map]
    rfl
  arrayIn_eq := by
    intro texts hne hplain _
    have hcomma : ∀ text ∈ texts, ',' ∉ text := by
      intro text hmem hin
      exact absurd ((hplain text hmem).2.1 ',' hin).1 (by decide)
    have hsplit : (arrayLiteral texts).tail.dropLast.splitOn ',' = texts := by
      rw [arrayLiteral, List.tail_cons, List.dropLast_concat,
        List.splitOn_intercalate ',' hcomma hne]
    show (((arrayLiteral texts).tail.dropLast.splitOn ',').mapM typeIn).map constructArray = _
    rw [hsplit]
    rfl

theorem plain_of_isDigit {d : Char} (h : d.isDigit = true) :
    (d ∉ ['{', '}', ',', '"', '\\'] ∧ d.isWhitespace = false) ∧ d.toUpper ≠ 'N' := by
  have hspecial : ∀ c ∈ ['{', '}', ',', '"', '\\', ' ', '\t', '\r', '\n'], c ≠ d := by
    intro c hc heq
    have hother : ∀ c ∈ ['{', '}', ',', '"', '\\', ' ', '\t', '\r', '\n'], c.isDigit = false :=
      List.all_iff_forall_prop.mp (by decide)
    rw [heq] at hc
    rw [hother d hc] at h
    cases h
  refine ⟨⟨?_, ?_⟩, ?_⟩
  · intro hmem
    exact hspecial d (List.mem_append_left [' ', '\t', '\r', '\n'] hmem) rfl
  · simp only [Char.isWhitespace, Bool.or_eq_false_iff, decide_eq_false_iff_not]
    exact ⟨⟨⟨Ne.symm (hspecial ' ' (by decide)), Ne.symm (hspecial '\t' (by decide))⟩,
      Ne.symm (hspecial '\r' (by decide))⟩, Ne.symm (hspecial '\n' (by decide))⟩
  · have hrange : 48 ≤ d.val ∧ d.val ≤ 57 := by
      simpa [Char.isDigit] using h
    have hupper : d.toUpper = d := by
      unfold Char.toUpper
      rw [dif_neg]
      intro hlow
      have hle := UInt32.le_trans hlow.1 hrange.2
      exact absurd hle (by decide)
    rw [hupper]
    intro heq
    rw [heq] at h
    cases h

theorem plainText_cons_digits {c : Char} {digits : List Char}
    (hc : c ∉ ['{', '}', ',', '"', '\\'] ∧ c.isWhitespace = false) (hupper : c.toUpper ≠ 'N')
    (hdigits : ∀ d ∈ digits, d.isDigit = true) : PlainText (c :: digits) := by
  refine ⟨List.cons_ne_nil c digits, ?_, ?_⟩
  · intro d hd
    rcases List.mem_cons.mp hd with heq | hd
    · exact heq ▸ hc
    · exact (plain_of_isDigit (hdigits d hd)).1
  · intro heq
    rw [List.map_cons, List.cons.injEq] at heq
    exact hupper heq.1

/-! ## Decimal texts -/

def int64Out (n : Int64) : List Char :=
  if n.toInt < 0 then '-' :: Nat.toDigits 10 n.toInt.natAbs else Nat.toDigits 10 n.toInt.natAbs

def digitsIn (digits : List Char) : Except String Nat :=
  if digits ≠ [] ∧ digits.all Char.isDigit then .ok (Nat.ofDigitChars 10 digits 0)
  else .error "invalid input syntax"

def int64In : List Char → Except String Int64
  | [] => .error "invalid input syntax"
  | c :: text =>
      if c = '-' then (digitsIn text).map fun n : Nat => Int64.ofInt (-n)
      else (digitsIn (c :: text)).map fun n : Nat => Int64.ofInt n

def infinityText : List Char := ['I', 'n', 'f', 'i', 'n', 'i', 't', 'y']

/-- Zero and the infinities have the texts of the backend; a `b` and the bit pattern stand for
every other number. -/
def float64Out (v : Float8) : List Char :=
  if isNaN v then ['N', 'a', 'N']
  else if v = 0 then ['0']
  else if v = 0x7FF0000000000000 then infinityText
  else if v = 0xFFF0000000000000 then '-' :: infinityText
  else 'b' :: Nat.toDigits 10 v.toNat

def float64In (text : List Char) : Except String Float8 :=
  if text = ['N', 'a', 'N'] then .ok 0x7FF8000000000000
  else if text = ['0'] then .ok 0
  else if text = infinityText then .ok 0x7FF0000000000000
  else if text = '-' :: infinityText then .ok 0xFFF0000000000000
  else if text.head? = some 'b' then (digitsIn text.tail).map UInt64.ofNat
  else .error "invalid input syntax"

theorem isDigit_toDigits {n : Nat} : ∀ d ∈ Nat.toDigits 10 n, d.isDigit = true :=
  fun _ hd => Nat.isDigit_of_mem_toDigits (by decide) (by decide) hd

theorem digitsIn_toDigits (n : Nat) : digitsIn (Nat.toDigits 10 n) = .ok n := by
  unfold digitsIn
  rw [if_pos ⟨Nat.toDigits_ne_nil, List.all_eq_true.mpr isDigit_toDigits⟩,
    Nat.ofDigitChars_ten_toDigits]

/-- The digits of a number start with a digit. -/
theorem toDigits_eq_cons (n : Nat) :
    ∃ d digits, Nat.toDigits 10 n = d :: digits ∧ d.isDigit = true ∧
      ∀ c ∈ digits, c.isDigit = true := by
  have hdigits := isDigit_toDigits (n := n)
  cases h : Nat.toDigits 10 n with
  | nil => exact absurd h Nat.toDigits_ne_nil
  | cons d digits =>
      rw [h] at hdigits
      exact ⟨d, digits, rfl, hdigits d List.mem_cons_self,
        fun c hc => hdigits c (List.mem_cons_of_mem d hc)⟩

theorem int8Text_int64 : Int8Text (elementwiseText int64Out int64In) where
  toElementwise := by
    apply elementwise_elementwiseText
    intro n
    have ⟨d, digits, hdigits, hd, hrest⟩ := toDigits_eq_cons n.toInt.natAbs
    unfold int64Out
    split
    · exact plainText_cons_digits (by decide) (by decide) isDigit_toDigits
    · rw [hdigits]
      have hplain := plain_of_isDigit hd
      exact plainText_cons_digits hplain.1 hplain.2 hrest
  typeIn_typeOut := by
    intro n
    have ⟨d, digits, hdigits, hd, hrest⟩ := toDigits_eq_cons n.toInt.natAbs
    have hread := digitsIn_toDigits n.toInt.natAbs
    show int64In (int64Out n) = _
    unfold int64Out
    split
    · rename_i hneg
      have habs : -((n.toInt.natAbs : Nat) : Int) = n.toInt := by omega
      rw [int64In, if_pos rfl, hread, Except.map, habs, Int64.ofInt_toInt]
    · rename_i hneg
      have habs : ((n.toInt.natAbs : Nat) : Int) = n.toInt := by omega
      have hne : d ≠ '-' := by
        intro heq
        rw [heq] at hd
        cases hd
      rw [hdigits] at hread ⊢
      rw [int64In, if_neg hne, hread, Except.map, habs, Int64.ofInt_toInt]
  no_colon := by
    intro n hmem
    have hcolon : ':' ∉ Nat.toDigits 10 n.toInt.natAbs := by
      intro hmem
      exact absurd (isDigit_toDigits _ hmem) (by decide)
    have hmem' : ':' ∈ int64Out n := hmem
    unfold int64Out at hmem'
    split at hmem'
    · rcases List.mem_cons.mp hmem' with heq | hmem'
      · exact absurd heq (by decide)
      · exact hcolon hmem'
    · exact hcolon hmem'

theorem float64Out_cases (v : Float8) (h : isNaN v = false) :
    (float64Out v ∈ [['0'], infinityText, '-' :: infinityText] ∧
      float64In (float64Out v) = .ok v) ∨ float64Out v = 'b' :: Nat.toDigits 10 v.toNat := by
  unfold float64Out
  rw [h, if_neg Bool.false_ne_true]
  by_cases hzero : v = 0
  · rw [hzero]
    exact .inl ⟨by decide, rfl⟩
  · by_cases hinf : v = 0x7FF0000000000000
    · rw [hinf]
      exact .inl ⟨by decide, rfl⟩
    · by_cases hneginf : v = 0xFFF0000000000000
      · rw [hneginf]
        exact .inl ⟨by decide, rfl⟩
      · rw [if_neg hzero, if_neg hinf, if_neg hneginf]
        exact .inr rfl

theorem float64In_digits (v : Float8) : float64In ('b' :: Nat.toDigits 10 v.toNat) = .ok v := by
  have hne : ∀ c text, c ≠ 'b' → 'b' :: Nat.toDigits 10 v.toNat ≠ c :: text := by
    intro c text hc heq
    exact hc (List.cons.inj heq).1.symm
  unfold float64In infinityText
  rw [if_neg (hne _ _ (by decide)), if_neg (hne _ _ (by decide)), if_neg (hne _ _ (by decide)),
    if_neg (hne _ _ (by decide)), if_pos List.head?_cons, List.tail_cons, digitsIn_toDigits]
  exact congrArg Except.ok (UInt64.ofNat_toNat)

theorem float8Text_float64 : Float8Text (elementwiseText float64Out float64In) where
  toElementwise := by
    apply elementwise_elementwiseText
    intro v
    cases hnan : isNaN v with
    | true =>
        rw [float64Out, if_pos hnan]
        decide
    | false =>
        rcases float64Out_cases v hnan with ⟨hmem, _⟩ | hdigits
        · have hplain : ∀ text ∈ [['0'], infinityText, '-' :: infinityText], PlainText text := by
            decide
          exact hplain _ hmem
        · rw [hdigits]
          exact plainText_cons_digits (by decide) (by decide) isDigit_toDigits
  typeIn_typeOut := by
    intro v hnan
    show float64In (float64Out v) = _
    rcases float64Out_cases v hnan with ⟨_, hread⟩ | hdigits
    · exact hread
    · rw [hdigits, float64In_digits]
  no_capital := by
    intro v hnan
    show 'N' ∉ float64Out v
    rcases float64Out_cases v hnan with ⟨hmem, _⟩ | hdigits
    · have hsmall : ∀ text ∈ [['0'], infinityText, '-' :: infinityText], 'N' ∉ text := by decide
      exact hsmall _ hmem
    · rw [hdigits]
      intro hmem
      rcases List.mem_cons.mp hmem with heq | hmem
      · exact absurd heq (by decide)
      · exact absurd (isDigit_toDigits _ hmem) (by decide)
  typeOut_nan := fun v hnan => if_pos hnan
  typeIn_nan := ⟨0x7FF8000000000000, by decide, rfl⟩
  typeIn_nvp := ⟨_, rfl⟩

/-- The svec `{1,2}:{0,Infinity}`. -/
def zeroInfinity : SvecType := tightSvec 3 3 [0, 0x7FF0000000000000] [255, 254] (by decide)

theorem wellFormed_zeroInfinity : WellFormed (sdataFromSvec zeroInfinity) :=
  ⟨⟨[1, 2], .of_runLengths (by decide) rfl, by decide, by decide⟩, by decide⟩

theorem svecIn_svecOut_infinity :
    RoundTrips (svecOut (elementwiseText int64Out int64In) (elementwiseText float64Out float64In))
      (svecIn (elementwiseText int64Out int64In).arrayIn
        (elementwiseText float64Out float64In).arrayIn) zeroInfinity :=
  ((svecIn_svecOut_iff int8Text_int64 float8Text_float64 wellFormed_zeroInfinity).1).mpr
    ⟨⟨List.all_iff_forall_prop.mp (by decide), by decide, by decide⟩, by decide⟩

/-- The svec `{2}:{NVP}`. -/
def nullPair : SvecType := tightSvec 2 2 [NVP] [254] (by decide)

theorem wellFormed_nullPair : WellFormed (sdataFromSvec nullPair) :=
  ⟨⟨[2], .of_runLengths (by decide) rfl, by decide, by decide⟩, by decide⟩

/-- The text `{2}:{NVP}` is refused. -/
theorem svecIn_svecOut_nvp :
    ¬ ∀ (int8 : TextFunctions Int64) (float8 : TextFunctions Float8), Int8Text int8 →
      Float8Text float8 → ∀ svec : SvecType, WellFormed (sdataFromSvec svec) →
      RoundTrips (svecOut int8 float8) (svecIn int8.arrayIn float8.arrayIn) svec := by
  intro h
  have ⟨text, s, htext, hs, _⟩ := h _ _ int8Text_int64 float8Text_float64 _ wellFormed_nullPair
  have hout : svecOut (elementwiseText int64Out int64In) (elementwiseText float64Out float64In)
      nullPair = .ok ['{', '2', '}', ':', '{', 'N', 'V', 'P', '}'] := by rfl
  rw [hout, Except.ok.injEq] at htext
  rw [← htext] at hs
  cases hs

end Madlib.Svec
