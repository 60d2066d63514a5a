import Madlib.Backend
import Madlib.Lib.MachineInt

/-!
# The run-length count code

`SparseData.h` stores a run length in one, three, five or nine bytes.  The first
byte is either the negated count or the width of the count word behind it.  A
`char *` into the index is NULL, which stands for an array of ones, or points to
the bytes that are left of it.
-/

namespace Madlib.Svec.CountCode

open Madlib.Backend Madlib.Lib.MachineInt

/-- A `char *` into a run index: NULL, or the bytes from it to the end of the index. -/
abbrev IndexPtr := Option (List UInt8)

/-- The width of an entry as its first byte gives it. -/
def entrySize (b : UInt8) : Nat :=
  if schar b < 0 then 1 else (1 + schar b).toNat

def int8compstoragesize : IndexPtr → Except Fault Nat
  | none => .ok 0
  | some [] => .error .outOfBounds
  | some (b :: _) => .ok (entrySize b)

/-- The bytes `int8_to_compword` stores into `entry`, from `entry[0]` on. -/
def int8ToCompword (num : Int) : List UInt8 :=
  if num < 128 then [charOf (-(toInt8 num))]
  else if num < 32768 then 2 :: leBytes 2 num.toNat
  else if num < 2147483648 then 4 :: leBytes 4 num.toNat
  else 8 :: leBytes 8 num.toNat

/-- The first `width` bytes of a count word. -/
def countWord (width : Nat) (word : List UInt8) : Except Fault Nat :=
  if word.length < width then .error .outOfBounds else .ok (ofLeBytes (word.take width))

def compwordToInt8 : IndexPtr → Except Fault Int
  | none => .ok 1
  | some [] => .error .outOfBounds
  | some (b :: word) =>
      match entrySize b with
      | 1 => .ok (-(schar b))
      | 3 => (countWord 2 word).map fun n : Nat => toInt16 n
      | 5 => (countWord 4 word).map fun n : Nat => toInt32 n
      | 9 => (countWord 8 word).map fun n : Nat => toInt64 n
      -- no case of the switch assigns `num`
      | _ => .error .uninitialised

/-- `ptr += int8compstoragesize(ptr)` -/
def advance : IndexPtr → Except Fault IndexPtr
  | none => .ok none
  | some bytes => (int8compstoragesize (some bytes)).map fun n => some (bytes.drop n)

/-- A count stored into `array` and read back from there: as many bytes as the first
one announces. -/
def entryIn (array : List UInt8) (num : Int) : Except Fault (List UInt8) := do
  let entry := int8ToCompword num
  let bytes := entry ++ array.drop entry.length
  let size ← int8compstoragesize (some bytes)
  if bytes.length < size then .error .outOfBounds else .ok (bytes.take size)

/-- The bytes `append_to_rle_index` hands to `appendBinaryStringInfo`. -/
def rleIndexBytes (runLen : Int) : Except Fault (List UInt8) :=
  entryIn [0, 0, 0, 0, 0, 0, 0, 0, 0] runLen

/-! ## Entries -/

/-- `entry` is a whole entry holding the count `n`, whatever bytes follow it. -/
def IsEntry (entry : List UInt8) (n : Nat) : Prop :=
  ∀ rest, compwordToInt8 (some (entry ++ rest)) = .ok (n : Int) ∧
    advance (some (entry ++ rest)) = .ok (some rest)

theorem isEntry_one {b : UInt8} (hb : schar b ≤ 0) : IsEntry [b] (-(schar b)).toNat := by
  have hsize : entrySize b = 1 := by
    unfold entrySize
    split <;> omega
  intro rest
  constructor
  · simp only [compwordToInt8, List.cons_append, hsize]
    congr 1
    omega
  · simp [advance, int8compstoragesize, hsize, Except.map]

theorem entrySize_of_width {b : UInt8} {width : Nat} (hb : schar b = width) :
    entrySize b = width + 1 := by
  unfold entrySize
  rw [hb]
  split <;> omega

theorem countWord_append {width : Nat} {word rest : List UInt8} (h : word.length = width) :
    countWord width (word ++ rest) = .ok (ofLeBytes word) := by
  simp [countWord, ← h]

theorem countWord_eq_ok {width n : Nat} {bytes : List UInt8} (h : countWord width bytes = .ok n) :
    ∃ word rest, bytes = word ++ rest ∧ word.length = width ∧ n = ofLeBytes word := by
  unfold countWord at h
  split at h
  · simp at h
  · refine ⟨bytes.take width, bytes.drop width, by simp, by simp; omega, ?_⟩
    simpa using h.symm

/-- The conversion the switch of `compword_to_int8` applies to a count word. -/
def wordValue (width : Nat) (n : Nat) : Int :=
  if width = 2 then toInt16 n else if width = 4 then toInt32 n else toInt64 n

theorem wordValue_two (n : Nat) : wordValue 2 n = toInt16 n := by simp [wordValue]

theorem wordValue_four (n : Nat) : wordValue 4 n = toInt32 n := by simp [wordValue]

theorem wordValue_eight (n : Nat) : wordValue 8 n = toInt64 n := by simp [wordValue]

theorem compwordToInt8_word {b : UInt8} {width : Nat} (hb : schar b = width)
    (hwidth : width = 2 ∨ width = 4 ∨ width = 8) (word : List UInt8) :
    compwordToInt8 (some (b :: word)) = (countWord width word).map (wordValue width) := by
  have hsize := entrySize_of_width hb
  rcases hwidth with rfl | rfl | rfl
  · simp [compwordToInt8, hsize, funext (wordValue_two ·)]
  · simp [compwordToInt8, hsize, funext (wordValue_four ·)]
  · simp [compwordToInt8, hsize, funext (wordValue_eight ·)]

theorem wordValue_nonneg {width : Nat} (hwidth : width = 2 ∨ width = 4 ∨ width = 8)
    {word : List UInt8} (hword : word.length = width) :
    0 ≤ wordValue width (ofLeBytes word) ↔
      wordValue width (ofLeBytes word) = (ofLeBytes word : Int) := by
  have hlt := ofLeBytes_lt word
  rw [hword] at hlt
  rcases hwidth with rfl | rfl | rfl <;>
    simp [wordValue, toInt16, toInt32, toInt64, wrapAt] <;> omega

theorem isEntry_word {b : UInt8} {width : Nat} {word : List UInt8} (hb : schar b = width)
    (hwidth : width = 2 ∨ width = 4 ∨ width = 8) (hword : word.length = width)
    (hvalue : 0 ≤ wordValue width (ofLeBytes word)) :
    IsEntry (b :: word) (ofLeBytes word) := by
  intro rest
  constructor
  · rw [List.cons_append, compwordToInt8_word hb hwidth, countWord_append hword]
    simp [Except.map, (wordValue_nonneg hwidth hword).mp hvalue]
  · simp [advance, int8compstoragesize, entrySize_of_width hb, Except.map, ← hword]

/-- The switch of `compword_to_int8` has four cases that assign a count. -/
theorem decode_cases {b : UInt8} {word : List UInt8} {r : Int}
    (h : compwordToInt8 (some (b :: word)) = .ok r) :
    schar b ≤ 0 ∨ ∃ width : Nat, schar b = width ∧ (width = 2 ∨ width = 4 ∨ width = 8) := by
  by_cases hb : schar b ≤ 0
  · exact .inl hb
  · obtain ⟨width, hwidth⟩ := Int.eq_ofNat_of_zero_le (show 0 ≤ schar b by omega)
    refine .inr ⟨width, hwidth, ?_⟩
    simp only [compwordToInt8, entrySize_of_width hwidth] at h
    split at h <;> first | omega | simp at h

/-- Bytes that decode to a count begin with a whole entry. -/
theorem isEntry_of_decode {bytes : List UInt8} {n : Nat}
    (h : compwordToInt8 (some bytes) = .ok (n : Int)) :
    ∃ entry rest, bytes = entry ++ rest ∧ IsEntry entry n := by
  cases bytes with
  | nil => simp [compwordToInt8] at h
  | cons b word =>
      rcases decode_cases h with hb | ⟨width, hb, hwidth⟩
      · have hentry := isEntry_one hb
        have hn : n = (-(schar b)).toNat := by
          have hdecode := (hentry word).1
          rw [List.singleton_append, h, Except.ok.injEq] at hdecode
          exact_mod_cast hdecode
        exact ⟨[b], word, rfl, hn ▸ hentry⟩
      · rw [compwordToInt8_word hb hwidth] at h
        cases hcount : countWord width word with
        | error e => simp [hcount, Except.map] at h
        | ok m =>
            obtain ⟨w, rest, rfl, hw, rfl⟩ := countWord_eq_ok hcount
            have hvalue : wordValue width (ofLeBytes w) = n := by
              simpa [hcount, Except.map] using h
            have hnonneg : 0 ≤ wordValue width (ofLeBytes w) := by omega
            have hn : n = ofLeBytes w := by
              have hsame := (wordValue_nonneg hwidth hw).mp hnonneg
              omega
            exact ⟨b :: w, rest, rfl, hn ▸ isEntry_word hb hwidth hw hnonneg⟩

/-! ## Encoding -/

theorem isEntry_leBytes {b : UInt8} {width : Nat} {num : Int} (hb : schar b = width)
    (hwidth : width = 2 ∨ width = 4 ∨ width = 8) (hlo : 0 ≤ num)
    (hhi : 2 * num < 256 ^ width) : IsEntry (b :: leBytes width num.toNat) num.toNat := by
  have hbytes : ofLeBytes (leBytes width num.toNat) = num.toNat := by
    have hlt : num.toNat < 256 ^ width := by
      rw [Int.toNat_lt hlo]
      push_cast
      omega
    rw [ofLeBytes_leBytes, Nat.mod_eq_of_lt hlt]
  have hvalue : 0 ≤ wordValue width num.toNat := by
    rcases hwidth with rfl | rfl | rfl <;>
      simp [wordValue, toInt16, toInt32, toInt64, wrapAt] at hhi ⊢ <;> omega
  have hentry := isEntry_word hb hwidth (length_leBytes width num.toNat) (hbytes.symm ▸ hvalue)
  rwa [hbytes] at hentry

theorem isEntry_int8ToCompword {num : Int} (hlo : 0 ≤ num) (hhi : num < 9223372036854775808) :
    IsEntry (int8ToCompword num) num.toNat := by
  unfold int8ToCompword
  split
  · have hb : schar (charOf (-(toInt8 num))) = -num := by
      rw [schar_charOf]
      simp only [toInt8, wrapAt]
      omega
    have hentry := isEntry_one (b := charOf (-(toInt8 num))) (by omega)
    rwa [hb, Int.neg_neg] at hentry
  · split
    · exact isEntry_leBytes (by decide) (by decide) hlo (by norm_num; omega)
    · split
      · exact isEntry_leBytes (by decide) (by decide) hlo (by norm_num; omega)
      · exact isEntry_leBytes (by decide) (by decide) hlo (by norm_num; omega)

theorem IsEntry.ne_nil {entry : List UInt8} {n : Nat} (h : IsEntry entry n) : entry ≠ [] := by
  rintro rfl
  have hdecode := (h []).1
  simp [compwordToInt8] at hdecode

/-- An entry is as long as its first byte announces. -/
theorem IsEntry.size {entry : List UInt8} {n : Nat} (h : IsEntry entry n) (rest : List UInt8) :
    int8compstoragesize (some (entry ++ rest)) = .ok entry.length := by
  obtain ⟨b, word, rfl⟩ := List.exists_cons_of_ne_nil h.ne_nil
  have hskip : ((b :: word) ++ [0]).drop (entrySize b) = [0] := by
    simpa [advance, int8compstoragesize, Except.map] using (h [0]).2
  have hlength := congrArg List.length hskip
  simp only [List.length_drop, List.length_append, List.length_singleton] at hlength
  simp only [int8compstoragesize, List.cons_append]
  congr 1
  omega

theorem entryIn_of_isEntry {num : Int} {n : Nat} (h : IsEntry (int8ToCompword num) n)
    (array : List UInt8) : entryIn array num = .ok (int8ToCompword num) := by
  simp only [entryIn, h.size, ok_bind]
  rw [if_neg (by simp)]
  simp

theorem one_le_entrySize (b : UInt8) : 1 ≤ entrySize b := by
  unfold entrySize
  split <;> omega

theorem int8ToCompword_eq_cons (num : Int) : ∃ b word, int8ToCompword num = b :: word := by
  unfold int8ToCompword
  split_ifs <;> exact ⟨_, _, rfl⟩

/-- What is read back from the array, byte for byte. -/
theorem entryIn_eq (array : List UInt8) (num : Int) :
    ∃ b bytes, entryIn array num = if (b :: bytes).length < entrySize b then .error .outOfBounds
      else .ok ((b :: bytes).take (entrySize b)) := by
  obtain ⟨b, word, hcons⟩ := int8ToCompword_eq_cons num
  refine ⟨b, word ++ array.drop (b :: word).length, ?_⟩
  rw [entryIn, hcons]
  rfl

theorem entryIn_error {array : List UInt8} {num : Int} {e : Fault}
    (h : entryIn array num = .error e) : e = .outOfBounds := by
  obtain ⟨b, bytes, heq⟩ := entryIn_eq array num
  rw [heq] at h
  split at h
  · exact (Except.error.inj h).symm
  · cases h

theorem entryIn_ne_nil {array entry : List UInt8} {num : Int}
    (h : entryIn array num = .ok entry) : entry ≠ [] := by
  obtain ⟨b, bytes, heq⟩ := entryIn_eq array num
  have hsize := one_le_entrySize b
  rw [heq] at h
  split at h
  · cases h
  · rw [Except.ok.injEq] at h
    rw [← h]
    simp
    omega

theorem length_int8ToCompword_le (num : Int) : (int8ToCompword num).length ≤ 9 := by
  unfold int8ToCompword
  split_ifs <;> simp

theorem length_int8ToCompword_mono {a b : Int} (h : a ≤ b) :
    (int8ToCompword a).length ≤ (int8ToCompword b).length := by
  unfold int8ToCompword
  split_ifs <;> simp <;> omega

/-- A count in `[0, 2^63)` is appended as one whole entry. -/
theorem rleIndexBytes_eq {runLen : Int} (hlo : 0 ≤ runLen) (hhi : runLen < 9223372036854775808) :
    rleIndexBytes runLen = .ok (int8ToCompword runLen) :=
  entryIn_of_isEntry (isEntry_int8ToCompword hlo hhi) _

/-! ## Negative counts

A negative count is stored by its low byte alone.  That byte is a count of at most
128, or it announces a count word nothing was stored into. -/

theorem int8ToCompword_neg {num : Int} (h : num < 0) :
    int8ToCompword num = [charOf (-(toInt8 num))] := by
  unfold int8ToCompword
  rw [if_pos (by omega)]

theorem isEntry_neg {num : Int} (h : num < 0) (hlow : num % 256 ≤ 128) :
    IsEntry (int8ToCompword num) (num % 256).toNat := by
  have hb : schar (charOf (-(toInt8 num))) = -(num % 256) := by
    rw [schar_charOf]
    simp only [toInt8, wrapAt]
    omega
  rw [int8ToCompword_neg h]
  have hentry := isEntry_one (b := charOf (-(toInt8 num))) (by omega)
  rwa [hb, Int.neg_neg] at hentry

theorem ofLeBytes_zeros {bytes : List UInt8} (h : ∀ b ∈ bytes, b = 0) : ofLeBytes bytes = 0 := by
  induction bytes with
  | nil => rfl
  | cons b bytes ih =>
      have hb : b = 0 := h b (by simp)
      have htail := ih (fun c hc => h c (by simp [hc]))
      simp [ofLeBytes, hb, htail]

/-- Read back from an array of zeros, such a count is its low byte or zero. -/
theorem compwordToInt8_neg {num : Int} {entry : List UInt8} {k : Nat} (h : num < 0)
    (hentry : rleIndexBytes num = .ok entry) (hread : compwordToInt8 (some entry) = .ok (k : Int)) :
    (k : Int) = num % 256 ∧ k ≤ 128 ∨ k = 0 ∧ 128 < num % 256 := by
  by_cases hlow : num % 256 ≤ 128
  · left
    have hwhole := isEntry_neg h hlow
    rw [rleIndexBytes, entryIn_of_isEntry hwhole, Except.ok.injEq] at hentry
    have hdecode := (hwhole []).1
    rw [List.append_nil, hentry, hread, Except.ok.injEq] at hdecode
    omega
  · right
    have hb : schar (charOf (-(toInt8 num))) = 256 - num % 256 := by
      rw [schar_charOf]
      simp only [toInt8, wrapAt]
      omega
    obtain ⟨width, hwidth⟩ := Int.eq_ofNat_of_zero_le (show 0 ≤ 256 - num % 256 by omega)
    rw [hwidth] at hb
    -- the entry is the first byte and `width` of the zeros behind it
    rw [rleIndexBytes, entryIn, int8ToCompword_neg h] at hentry
    simp only [int8compstoragesize, entrySize_of_width hb, List.singleton_append, ok_bind,
      List.length_singleton, List.drop_succ_cons, List.drop_zero, List.take_succ_cons] at hentry
    split at hentry
    · cases hentry
    · rw [Except.ok.injEq] at hentry
      subst hentry
      rcases decode_cases hread with hneg | ⟨width', hb', hwidth'⟩
      · omega
      · rw [compwordToInt8_word hb' hwidth'] at hread
        cases hcount : countWord width' (List.take width [0, 0, 0, 0, 0, 0, 0, 0]) with
        | error e => simp [hcount, Except.map] at hread
        | ok n =>
            obtain ⟨word, rest, hword, _, rfl⟩ := countWord_eq_ok hcount
            have hzero : ofLeBytes word = 0 := by
              apply ofLeBytes_zeros
              intro c hc
              have hmem : c ∈ List.take width [0, 0, 0, 0, 0, 0, 0, 0] := by
                rw [hword]
                exact List.mem_append_left rest hc
              simpa using List.mem_of_mem_take hmem
            rw [hcount, hzero] at hread
            have hvalue : wordValue width' 0 = k := by simpa [Except.map] using hread
            have hword0 : wordValue width' 0 = 0 := by
              rcases hwidth' with rfl | rfl | rfl <;> decide
            omega

/-! ## Walking an index -/

/-- The bytes are the entries of the counts `runs`, one after the other. -/
inductive Walks : List UInt8 → List Nat → Prop
  | nil : Walks [] []
  | cons {entry bytes : List UInt8} {n : Nat} {runs : List Nat} :
      IsEntry entry n → Walks bytes runs → Walks (entry ++ bytes) (n :: runs)

/-- From the pointer on, the index holds exactly the runs `runs`; behind NULL every
run is one long. -/
def IndexRuns : IndexPtr → List Nat → Prop
  | none, runs => ∀ n ∈ runs, n = 1
  | some bytes, runs => Walks bytes runs

/-- The `count` run lengths from the pointer on, when the index ends behind them. -/
def readRuns : Nat → IndexPtr → Option (List Nat)
  | 0, none => some []
  | 0, some bytes => if bytes = [] then some [] else none
  | count + 1, ptr =>
      match compwordToInt8 ptr, advance ptr with
      | .ok n, .ok ptr' => if 0 ≤ n then (readRuns count ptr').map (n.toNat :: ·) else none
      | _, _ => none

theorem Walks.append {left right : List UInt8} {runs runs' : List Nat}
    (hleft : Walks left runs) (hright : Walks right runs') :
    Walks (left ++ right) (runs ++ runs') := by
  induction hleft with
  | nil => exact hright
  | cons hentry _ ih => simpa using Walks.cons hentry ih

theorem walks_entry {entry : List UInt8} {n : Nat} (h : IsEntry entry n) : Walks entry [n] := by
  simpa using Walks.cons h .nil

theorem IndexRuns.read {ptr : IndexPtr} {n : Nat} {runs : List Nat}
    (h : IndexRuns ptr (n :: runs)) :
    compwordToInt8 ptr = .ok (n : Int) ∧ ∃ ptr', advance ptr = .ok ptr' ∧ IndexRuns ptr' runs := by
  cases ptr with
  | none =>
      have hn : n = 1 := h n (by simp)
      refine ⟨by simp [compwordToInt8, hn], none, rfl, fun m hm => h m (by simp [hm])⟩
  | some bytes =>
      cases h with
      | cons hentry hrest => exact ⟨(hentry _).1, _, (hentry _).2, hrest⟩

theorem IndexRuns.eq_nil {runs : List Nat} (h : IndexRuns (some []) runs) : runs = [] := by
  cases runs with
  | nil => rfl
  | cons n runs =>
      have hread := h.read.1
      simp [compwordToInt8] at hread

/-- A run that is read from the pointer is the first of the index. -/
theorem IndexRuns.of_read {ptr ptr' : IndexPtr} {n : Nat} {runs : List Nat}
    (hread : compwordToInt8 ptr = .ok (n : Int)) (hadvance : advance ptr = .ok ptr')
    (hrest : IndexRuns ptr' runs) : IndexRuns ptr (n :: runs) := by
  cases ptr with
  | none =>
      have hn : n = 1 := by
        rw [compwordToInt8, Except.ok.injEq] at hread
        omega
      obtain rfl : ptr' = none := by simpa [advance] using hadvance.symm
      rintro m (_ | hm)
      · exact hn
      · exact hrest m (by assumption)
  | some bytes =>
      obtain ⟨entry, rest, rfl, hentry⟩ := isEntry_of_decode hread
      obtain rfl : ptr' = some rest := by
        rw [(hentry rest).2, Except.ok.injEq] at hadvance
        exact hadvance.symm
      exact .cons hentry hrest

theorem readRuns_eq_some_iff {count : Nat} {ptr : IndexPtr} {runs : List Nat} :
    readRuns count ptr = some runs ↔ runs.length = count ∧ IndexRuns ptr runs := by
  induction count generalizing ptr runs with
  | zero =>
      cases ptr with
      | none =>
          simp only [readRuns, Option.some.injEq, List.length_eq_zero_iff]
          constructor
          · rintro rfl
            exact ⟨rfl, fun n hn => by simp at hn⟩
          · exact fun h => h.1.symm
      | some bytes =>
          simp only [readRuns, List.length_eq_zero_iff]
          constructor
          · intro h
            split at h
            · obtain rfl : runs = [] := by simpa using h.symm
              subst bytes
              exact ⟨rfl, .nil⟩
            · simp at h
          · rintro ⟨rfl, hwalks⟩
            cases hwalks
            simp
  | succ count ih =>
      constructor
      · intro h
        unfold readRuns at h
        split at h
        case h_2 => simp at h
        case h_1 n ptr' hread hadvance =>
          split at h
          · rename_i hn
            obtain ⟨rest, hrest, rfl⟩ := Option.map_eq_some_iff.mp h
            obtain ⟨hlength, hrest⟩ := ih.mp hrest
            refine ⟨by simp [hlength], .of_read ?_ hadvance hrest⟩
            rw [hread, Int.toNat_of_nonneg hn]
          · simp at h
      · rintro ⟨hlength, hruns⟩
        obtain ⟨n, runs, rfl⟩ := List.exists_of_length_succ runs hlength
        obtain ⟨hread, ptr', hadvance, hrest⟩ := hruns.read
        have htail : readRuns count ptr' = some runs := ih.mpr ⟨by simpa using hlength, hrest⟩
        simp [readRuns, hread, hadvance, htail]

theorem Walks.of_append {left right : List UInt8} {runs runs' : List Nat}
    (hleft : Walks left runs) (h : Walks (left ++ right) runs') :
    ∃ rest, runs' = runs ++ rest ∧ Walks right rest := by
  induction hleft generalizing runs' with
  | nil => exact ⟨runs', rfl, h⟩
  | @cons entry bytes n runs hentry _ ih =>
      cases runs' with
      | nil =>
          have hread : readRuns 0 (some (entry ++ bytes ++ right)) = some [] :=
            readRuns_eq_some_iff.mpr ⟨rfl, h⟩
          have hne := hentry.ne_nil
          simp [readRuns, hne] at hread
      | cons m runs' =>
          have hruns : IndexRuns (some (entry ++ bytes ++ right)) (m :: runs') := h
          obtain ⟨hread, ptr, hadvance, hrest⟩ := hruns.read
          rw [List.append_assoc, (hentry _).1, Except.ok.injEq] at hread
          rw [List.append_assoc, (hentry _).2, Except.ok.injEq] at hadvance
          subst hadvance
          obtain ⟨rest, rfl, hright⟩ := ih hrest
          refine ⟨rest, ?_, hright⟩
          rw [List.cons_append]
          congr 1
          omega

/-- An index that ends behind its runs holds no others. -/
theorem Walks.unique {bytes : List UInt8} {runs runs' : List Nat} (h : Walks bytes runs)
    (h' : Walks bytes runs') : runs = runs' := by
  rw [← List.append_nil bytes] at h'
  obtain ⟨rest, rfl, hrest⟩ := h.of_append h'
  have hnil : rest = [] := IndexRuns.eq_nil hrest
  simp [hnil]

/-! ## Lists of counts -/

/-- A count the code can hold. -/
def IsCount (num : Int) : Prop := 0 ≤ num ∧ num < 9223372036854775808

/-- `count` counts read one after the other, each `int8compstoragesize` behind the last,
and the pointer behind them. -/
def walkCounts : Nat → IndexPtr → Except Fault (List Int × IndexPtr)
  | 0, ptr => .ok ([], ptr)
  | count + 1, ptr => do
      let num ← compwordToInt8 ptr
      let ptr ← advance ptr
      let (nums, ptr) ← walkCounts count ptr
      pure (num :: nums, ptr)

/-- The index that is left by an `append_to_rle_index` for each of the counts. -/
def rleIndex (index : List UInt8) (counts : List Int) : Except Fault (List UInt8) :=
  counts.foldlM (fun index runLen => (rleIndexBytes runLen).map (index ++ ·)) index

/-- The encodings of the counts, one after the other. -/
def encodings (counts : List Int) : List UInt8 := counts.flatMap int8ToCompword

@[simp] theorem encodings_nil : encodings [] = [] := rfl

@[simp] theorem encodings_cons (num : Int) (counts : List Int) :
    encodings (num :: counts) = int8ToCompword num ++ encodings counts := List.flatMap_cons

theorem IsCount.isEntry {num : Int} (h : IsCount num) : IsEntry (int8ToCompword num) num.toNat :=
  isEntry_int8ToCompword h.1 h.2

theorem IsCount.decode {num : Int} (h : IsCount num) (rest : List UInt8) :
    compwordToInt8 (some (int8ToCompword num ++ rest)) = .ok num := by
  rw [(h.isEntry rest).1, Int.toNat_of_nonneg h.1]

theorem rleIndex_eq {counts : List Int} (h : ∀ num ∈ counts, IsCount num) (index : List UInt8) :
    rleIndex index counts = .ok (index ++ encodings counts) := by
  induction counts generalizing index with
  | nil => simp [rleIndex, pure_eq_ok]
  | cons num counts ih =>
      have hcount : IsCount num := h num (by simp)
      have htail := ih (fun n hn => h n (by simp [hn])) (index ++ int8ToCompword num)
      rw [rleIndex, List.foldlM_cons, rleIndexBytes_eq hcount.1 hcount.2]
      simpa [Except.map, ok_bind, rleIndex] using htail

/-- The walk stops behind the last of the encodings, whatever follows them. -/
theorem walkCounts_encodings {counts : List Int} (h : ∀ num ∈ counts, IsCount num)
    (rest : List UInt8) :
    walkCounts counts.length (some (encodings counts ++ rest)) = .ok (counts, some rest) := by
  induction counts with
  | nil => simp [walkCounts]
  | cons num counts ih =>
      have hcount : IsCount num := h num (by simp)
      have htail := ih (fun n hn => h n (by simp [hn]))
      simp [walkCounts, hcount.decode, (hcount.isEntry _).2, htail, ok_bind, pure_eq_ok]

theorem walks_encodings {counts : List Int} (h : ∀ num ∈ counts, IsCount num) :
    Walks (encodings counts) (counts.map Int.toNat) := by
  induction counts with
  | nil => exact .nil
  | cons num counts ih =>
      have hcount : IsCount num := h num (by simp)
      rw [encodings_cons, List.map_cons]
      exact .cons hcount.isEntry (ih fun n hn => h n (by simp [hn]))

theorem map_toNat_injective {counts counts' : List Int} (h : ∀ num ∈ counts, IsCount num)
    (h' : ∀ num ∈ counts', IsCount num) (heq : counts.map Int.toNat = counts'.map Int.toNat) :
    counts = counts' := by
  have hback : ∀ {l : List Int}, (∀ num ∈ l, IsCount num) →
      (l.map Int.toNat).map ((↑) : Nat → Int) = l := by
    intro l hl
    rw [List.map_map]
    conv_rhs => rw [← List.map_id l]
    apply List.map_congr_left
    intro num hnum
    exact Int.toNat_of_nonneg (hl num hnum).1
  calc counts = (counts.map Int.toNat).map ((↑) : Nat → Int) := (hback h).symm
    _ = (counts'.map Int.toNat).map ((↑) : Nat → Int) := by rw [heq]
    _ = counts' := hback h'

/-- The counts are decoded from their encodings, one at a time and in a row. -/
theorem countCode_decodes :
    (∀ num : Int, IsCount num → ∀ rest : List UInt8,
      compwordToInt8 (some (int8ToCompword num ++ rest)) = .ok num ∧
      int8compstoragesize (some (int8ToCompword num ++ rest)) =
        .ok (int8ToCompword num).length) ∧
    (∀ counts : List Int, (∀ num ∈ counts, IsCount num) →
      rleIndex [] counts = .ok (encodings counts) ∧
      ∀ rest : List UInt8, walkCounts counts.length (some (encodings counts ++ rest)) =
        .ok (counts, some rest)) ∧
    ∀ counts counts' : List Int, (∀ num ∈ counts, IsCount num) →
      (∀ num ∈ counts', IsCount num) → encodings counts = encodings counts' →
      counts = counts' := by
  refine ⟨fun num hnum rest => ⟨hnum.decode rest, hnum.isEntry.size rest⟩, ?_, ?_⟩
  · intro counts h
    exact ⟨by simpa using rleIndex_eq h [], walkCounts_encodings h⟩
  · intro counts counts' h h' heq
    have hwalks := walks_encodings h
    rw [heq] at hwalks
    exact map_toNat_injective h h' (hwalks.unique (walks_encodings h'))

/-- The four widths at their ends, with a byte behind the last. -/
theorem countCode_decodes_ends :
    walkCounts 6 (some (encodings [127, 128, 32767, 32768, 2147483647, 2147483648] ++ [9])) =
      .ok ([127, 128, 32767, 32768, 2147483647, 2147483648], some [9]) :=
  (countCode_decodes.2.1 [127, 128, 32767, 32768, 2147483647, 2147483648]
    (by simp [IsCount])).2 [9]

end Madlib.Svec.CountCode
