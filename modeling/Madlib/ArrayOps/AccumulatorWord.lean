import Madlib.ArrayOps.Reductions
import Madlib.Lib.DoubleWords

/-!
# The accumulator of the FLOAT8 reductions

`array_sum_big`, `array_mean` and `array_stddev` start from the double zero and end with reading a
double, but the element functions read and write numbers of the element type.  Of a type other
than `float8`, only a sum of zero is read as what it is.
-/

namespace Madlib.ArrayOps

open Madlib.Backend Madlib.Lib Madlib.Lib.MachineInt Madlib.Svec

variable {α : Type} [Field α]

section Fold

variable {element : Datum α → Datum α × Datum α → Except Fault (Datum α × Datum α)}
  {extaVal : Datum α} {IsElement : Datum α → α → Prop} {Holds : Datum α → α → Prop} {g : α → α}

/-- An accumulator that holds a sum keeps holding one. -/
theorem foldlM_holds {dat : List (Datum α)} {xs : List α}
    (hstep : ∀ elt x acc a, IsElement elt x → Holds acc a →
      ∃ d, element elt (extaVal, acc) = .ok (extaVal, d) ∧ Holds d (a + g x))
    (hdata : List.Forall₂ IsElement dat xs) {acc : Datum α} {a : α} (hacc : Holds acc a) :
    ∃ d, dat.foldlM (fun s elt => element elt s) (extaVal, acc) = .ok (extaVal, d) ∧
      Holds d (a + (xs.map g).sum) := by
  induction hdata generalizing acc a with
  | nil =>
      refine ⟨acc, rfl, ?_⟩
      rw [List.map_nil, List.sum_nil, add_zero]
      exact hacc
  | @cons elt x dat xs hx _ ih =>
      obtain ⟨next, hnext, hholds⟩ := hstep elt x acc a hx hacc
      obtain ⟨d, hrun, hd⟩ := ih hholds
      refine ⟨d, ?_, ?_⟩
      · rw [List.foldlM_cons, hnext, ok_bind, hrun]
      · rw [List.map_cons, List.sum_cons, ← add_assoc]
        exact hd

end Fold

/-! ## Words of zero -/

variable (formats : Formats α)

/-- The word is a zero of every type. -/
structure IsZero (d : Datum α) : Prop where
  bits : bitsOf formats d = 0
  float4 : datumGetFloat4 formats d = .finite 0
  float8 : datumGetFloat8 formats d = .finite 0

theorem doubleOf_zero : doubleOf 0 = .finite (0 : α) := by
  have hvalue : Double.value (UInt64.ofNat 0) = some 0 := Double.value_zero
  rw [doubleOf, hvalue]
  exact congrArg Extended.finite Rat.cast_zero

theorem isZero_word : IsZero formats (.word 0) := by
  refine ⟨rfl, formats.decode4_zero, ?_⟩
  have hbits : datumGetFloat8 formats (.word 0) = doubleOf 0 := rfl
  rw [hbits, doubleOf_zero]

theorem isZero_float4 : IsZero formats (.float4 (.finite 0)) := by
  refine ⟨formats.encode4_zero, rfl, ?_⟩
  have hbits : datumGetFloat8 formats (.float4 (.finite 0)) =
    doubleOf (formats.encode4 (.finite 0)) := rfl
  rw [hbits, formats.encode4_zero, doubleOf_zero]

theorem isZero_float8 : IsZero formats (.float8 (.finite 0)) := by
  refine ⟨formats.encode8_zero, ?_, rfl⟩
  have hbits : datumGetFloat4 formats (.float8 (.finite 0)) =
    formats.decode4 (formats.encode8 (.finite 0) % 4294967296) := rfl
  rw [hbits, formats.encode8_zero, Nat.zero_mod, formats.decode4_zero]

namespace IsZero

variable {formats} {d : Datum α}

theorem int16 (h : IsZero formats d) : datumGetInt16 formats d = 0 := by
  rw [datumGetInt16, h.bits]
  decide

theorem int32 (h : IsZero formats d) : datumGetInt32 formats d = 0 := by
  rw [datumGetInt32, h.bits]
  decide

theorem int64 (h : IsZero formats d) : datumGetInt64 formats d = 0 := by
  rw [datumGetInt64, h.bits]
  decide

end IsZero

/-- The word of zero, in every type. -/
theorem IsNumber.isZero [CharZero α] {type : ElementType} {d : Datum α} (h : IsNumber type d 0) :
    IsZero formats d := by
  cases type with
  | int2 | int4 | int8 =>
      obtain ⟨n, -, rfl, hn⟩ := h
      cases Int.cast_eq_zero.mp hn.symm
      exact isZero_word formats
  | float4 =>
      obtain ⟨rfl, -⟩ := h
      exact isZero_float4 formats
  | float8 =>
      cases h
      exact isZero_float8 formats
  | other => exact h.elim

/-- A dispatch that computes zero from zeros. -/
theorem compute_isZero {type : ElementType} (htype : ∀ oid, type ≠ .other oid)
    (int : (Datum α → Int) → Int) (float : (Datum α → Extended α) → Extended α)
    (hint : ∀ get ∈ [datumGetInt16 formats, datumGetInt32 formats, datumGetInt64 formats],
      int get = 0)
    (hfloat : ∀ get ∈ [datumGetFloat4 formats, datumGetFloat8 formats], float get = .finite 0) :
    ∃ d, compute formats type int float = .ok d ∧ IsZero formats d := by
  cases type with
  | int2 => exact ⟨_, rfl, by rw [hint _ (by simp)]; exact isZero_word formats⟩
  | int4 => exact ⟨_, rfl, by rw [hint _ (by simp)]; exact isZero_word formats⟩
  | int8 => exact ⟨_, rfl, by rw [hint _ (by simp)]; exact isZero_word formats⟩
  | float4 => exact ⟨_, rfl, by rw [hfloat _ (by simp)]; exact isZero_float4 formats⟩
  | float8 => exact ⟨_, rfl, by rw [hfloat _ (by simp)]; exact isZero_float8 formats⟩
  | other oid => exact absurd rfl (htype oid)

/-! ## Words that are read as another number -/

/-- As a double, the word is read bit by bit. -/
def ReadsBits (d : Datum α) : Prop := datumGetFloat8 formats d = doubleOf (bitsOf formats d)

/-- A word of at most 32 bits, for a sum in units of `2 ^ -k`. -/
structure ShortWord (k : Nat) (d : Datum α) (a : α) : Prop where
  bits_lt : bitsOf formats d < 4294967296
  reads : ReadsBits formats d
  units : ∃ n : Int, a * 2 ^ k = n

/-- A word of 64 bits, for a sum of integers. -/
structure LongWord (d : Datum α) (a : α) : Prop where
  bits_lt : bitsOf formats d < 2 ^ 64
  reads : ReadsBits formats d
  wraps : ∃ n : Int, a = n ∧ (2 : Int) ^ 64 ∣ n - bitsOf formats d

section Blind

variable {formats}

theorem doubleOf_eq_finite {bits : Nat} {x : α} (h : doubleOf bits = .finite x) :
    ∃ y : ℚ, Double.value (UInt64.ofNat bits) = some y ∧ (y : α) = x := by
  unfold doubleOf at h
  split at h
  · next y hvalue => exact ⟨y, hvalue, Extended.finite.inj h⟩
  · split_ifs at h

/-- Integers and numbers of 32 bits are multiples of the smallest number of 32 bits. -/
theorem IsNumber.units {type : ElementType} {d : Datum α} {x : α} (h : IsNumber type d x)
    (htype : type ≠ .float8) : ∃ n : Int, x * 2 ^ 149 = n := by
  cases type with
  | int2 | int4 | int8 =>
      obtain ⟨n, -, -, rfl⟩ := h
      exact ⟨n * 2 ^ 149, by rw [Int.cast_mul, Int.cast_pow, Int.cast_ofNat]⟩
  | float4 =>
      obtain ⟨-, n, hn⟩ := h
      rw [Nat.cast_pow, Nat.cast_ofNat] at hn
      exact ⟨n, hn⟩
  | float8 => exact absurd rfl htype
  | other => exact h.elim

theorem compute_short {type : ElementType} {d : Datum α} {x : α} (h : IsNumber type d x)
    (hint8 : type ≠ .int8) (hfloat8 : type ≠ .float8) (int : (Datum α → Int) → Int)
    (float : (Datum α → Extended α) → Extended α) :
    ∃ d, compute formats type int float = .ok d ∧ bitsOf formats d < 4294967296 ∧
      ReadsBits formats d := by
  cases type with
  | int2 =>
      refine ⟨_, rfl, ?_, rfl⟩
      change (_ % (65536 : Int)).toNat < _
      omega
  | int4 =>
      refine ⟨_, rfl, ?_, rfl⟩
      change (_ % (4294967296 : Int)).toNat < _
      omega
  | int8 => exact absurd rfl hint8
  | float4 => exact ⟨_, rfl, formats.encode4_lt _, rfl⟩
  | float8 => exact absurd rfl hfloat8
  | other => exact h.elim

theorem LongWord.add {elt acc : Datum α} {x a : α} {g : α → α} {f : Int → Int}
    (h : LongWord formats acc a) (hint : ∀ n : Int, g n = f n) (hx : IsNumber .int8 elt x) :
    LongWord formats
      (int64GetDatum (f (datumGetInt64 formats elt) + datumGetInt64 formats acc)) (a + g x) := by
  obtain ⟨n, ⟨hlo, hhi⟩, rfl, rfl⟩ := hx
  obtain ⟨s, rfl, hwraps⟩ := h.wraps
  have hget : datumGetInt64 formats (int64GetDatum n) = n := by
    rw [datumGetInt64_datum, toInt64, wrapAt_of_mem hlo hhi]
  have hbits : bitsOf formats (int64GetDatum (f n + datumGetInt64 formats acc)) =
    ((f n + datumGetInt64 formats acc) % 18446744073709551616).toNat := rfl
  rw [hget]
  refine ⟨?_, rfl, s + f n, ?_, ?_⟩
  · rw [hbits]
    omega
  · rw [hint, Int.cast_add]
  · rw [hbits]
    unfold datumGetInt64 toInt64 wrapAt
    omega

variable [CharZero α]

theorem ShortWord.eq_zero {k : Nat} {d : Datum α} {a : α} (h : ShortWord formats k d a)
    (hk : k ≤ 1000) (hread : datumGetFloat8 formats d = .finite a) : a = 0 := by
  have hlt := h.bits_lt
  have hshort : bitsOf formats d < 2 ^ 52 := by omega
  obtain ⟨y, hvalue, hy⟩ := doubleOf_eq_finite (h.reads.symm.trans hread)
  rw [Double.value_short hshort] at hvalue
  cases hvalue
  obtain ⟨n, hn⟩ := h.units
  rw [← hy] at hn
  have hzero := Double.eq_zero_of_short hshort hk (n := n) (by exact_mod_cast hn)
  rw [← hy, hzero, Nat.cast_zero, zero_div, Rat.cast_zero]

theorem LongWord.eq_zero {d : Datum α} {a : α} (h : LongWord formats d a)
    (hread : datumGetFloat8 formats d = .finite a) : a = 0 := by
  obtain ⟨n, rfl, hwraps⟩ := h.wraps
  obtain ⟨y, hvalue, hy⟩ := doubleOf_eq_finite (h.reads.symm.trans hread)
  have hyn : y = n := by exact_mod_cast hy
  rw [hyn] at hvalue
  rw [Double.eq_zero_of_word h.bits_lt hwraps hvalue, Int.cast_zero]

/-- The sum of a type other than `float8` is read as another number, unless it is zero. -/
theorem foldlM_blind {type : ElementType} (hfloat8 : type ≠ .float8) {extaVal : Datum α}
    {element : Datum α → Datum α × Datum α → Except Fault (Datum α × Datum α)} {g : α → α}
    {f : Int → Int} {float : Datum α → Datum α → (Datum α → Extended α) → Extended α} {k : Nat}
    (hk : k ≤ 1000)
    (helement : ∀ elt acc, element elt (extaVal, acc) = (do
      let result ← compute formats type (fun get => f (get elt) + get acc) (float elt acc)
      pure (extaVal, result)))
    (hint : ∀ n : Int, g n = f n)
    (hunits : ∀ (x : α) (n : Int), x * 2 ^ 149 = n → ∃ m : Int, g x * 2 ^ k = m)
    {dat : List (Datum α)} {xs : List α} (hdata : List.Forall₂ (IsNumber type) dat xs) :
    ∃ d, dat.foldlM (fun s elt => element elt s) (extaVal, .float8 (.finite 0)) =
        .ok (extaVal, d) ∧
      (datumGetFloat8 formats d = .finite (xs.map g).sum → (xs.map g).sum = 0) := by
  have hzero := isZero_float8 formats
  have hreads : ReadsBits formats (.float8 (.finite 0)) := by
    rw [ReadsBits, hzero.bits, hzero.float8, doubleOf_zero]
  by_cases hint8 : type = .int8
  · subst hint8
    have hstart : LongWord formats (.float8 (.finite 0)) 0 := by
      refine ⟨?_, hreads, 0, Int.cast_zero.symm, ?_⟩
      · rw [hzero.bits]
        norm_num
      · rw [hzero.bits]
        exact dvd_zero _
    have hstep : ∀ elt x acc a, IsNumber .int8 elt x → LongWord formats acc a →
        ∃ d, element elt (extaVal, acc) = .ok (extaVal, d) ∧ LongWord formats d (a + g x) :=
      fun elt x acc a hx hacc => ⟨_, helement elt acc, hacc.add hint hx⟩
    obtain ⟨d, hrun, hholds⟩ := foldlM_holds hstep hdata hstart
    rw [zero_add] at hholds
    exact ⟨d, hrun, hholds.eq_zero⟩
  · have hstart : ShortWord formats k (.float8 (.finite 0)) 0 := by
      refine ⟨?_, hreads, 0, ?_⟩
      · rw [hzero.bits]
        norm_num
      · rw [zero_mul, Int.cast_zero]
    have hstep : ∀ elt x acc a, IsNumber type elt x → ShortWord formats k acc a →
        ∃ d, element elt (extaVal, acc) = .ok (extaVal, d) ∧ ShortWord formats k d (a + g x) := by
      intro elt x acc a hx hacc
      obtain ⟨d, hcompute, hlt, hbits⟩ := compute_short hx hint8 hfloat8
        (fun get => f (get elt) + get acc) (float elt acc)
      obtain ⟨m, hm⟩ := hacc.units
      obtain ⟨n, hn⟩ := hx.units hfloat8
      obtain ⟨m', hm'⟩ := hunits x n hn
      refine ⟨d, ?_, hlt, hbits, m + m', ?_⟩
      · rw [helement, hcompute]
        rfl
      · rw [add_mul, hm, hm', Int.cast_add]
    obtain ⟨d, hrun, hholds⟩ := foldlM_holds hstep hdata hstart
    rw [zero_add] at hholds
    exact ⟨d, hrun, hholds.eq_zero hk⟩

end Blind

/-! ## Runs of the element functions -/

section Runs

variable {formats} {type : ElementType} {dat : List (Datum α)} {xs : List α}

/-- The sum does not look at the word `exta_val`. -/
theorem elementSum_extaVal {extaVal acc : Datum α} {s : Datum α × Datum α}
    (h : dat.foldlM (fun s elt => elementSum formats type elt s) (extaVal, acc) = .ok s)
    (extaVal' : Datum α) :
    dat.foldlM (fun s elt => elementSum formats type elt s) (extaVal', acc) =
      .ok (extaVal', s.2) := by
  induction dat generalizing acc with
  | nil =>
      cases h
      rfl
  | cons elt dat ih =>
      rw [List.foldlM_cons, elementSum] at h ⊢
      dsimp only at h ⊢
      generalize compute formats type _ _ = result at h ⊢
      cases result with
      | error e => cases h
      | ok d => exact ih h

variable (formats) in
theorem elementSum_blind [CharZero α] (htype : type ≠ .float8)
    (hdata : List.Forall₂ (IsNumber type) dat xs) (extaVal : Datum α) :
    ∃ d, dat.foldlM (fun s elt => elementSum formats type elt s) (extaVal, .float8 (.finite 0)) =
        .ok (extaVal, d) ∧
      (datumGetFloat8 formats d = .finite xs.sum → xs.sum = 0) := by
  have helement : ∀ elt acc, elementSum formats type elt (extaVal, acc) = (do
      let result ← compute formats type (fun get => id (get elt) + get acc)
        (fun get => (get elt).add (get acc))
      pure (extaVal, result)) := fun _ _ => rfl
  have hblind := foldlM_blind (g := id) (k := 149) htype (by norm_num) helement (fun _ => rfl)
    (fun _ n hn => ⟨n, hn⟩) hdata
  rwa [List.map_id] at hblind

theorem eq_float8s (hdata : List.Forall₂ (IsNumber .float8) dat xs) : dat = float8s xs := by
  induction hdata with
  | nil => rfl
  | cons hx _ ih =>
      cases hx
      rw [ih]
      rfl

variable (formats) in
/-- Sums of zeros, whatever their type. -/
theorem foldlM_zeros [CharZero α]
    {element : Datum α → Datum α × Datum α → Except Fault (Datum α × Datum α)} {extaVal : Datum α}
    (hstep : ∀ elt acc, (∀ oid, type ≠ .other oid) → IsZero formats elt → IsZero formats acc →
      ∃ d, element elt (extaVal, acc) = .ok (extaVal, d) ∧ IsZero formats d)
    (hdata : List.Forall₂ (IsNumber type) dat xs) (hzeros : ∀ x ∈ xs, x = 0) :
    ∃ d, dat.foldlM (fun s elt => element elt s) (extaVal, .float8 (.finite 0)) =
        .ok (extaVal, d) ∧ IsZero formats d := by
  have hdata' : List.Forall₂ (fun elt x => IsNumber type elt x ∧ x = 0) dat xs := by
    induction hdata with
    | nil => exact .nil
    | cons hx _ ih =>
        rw [List.forall_mem_cons] at hzeros
        exact .cons ⟨hx, hzeros.1⟩ (ih hzeros.2)
  have hholds : ∀ elt x acc (a : α), (IsNumber type elt x ∧ x = 0) → IsZero formats acc →
      ∃ d, element elt (extaVal, acc) = .ok (extaVal, d) ∧ IsZero formats d := by
    rintro elt _ acc _ ⟨hx, rfl⟩ hacc
    refine hstep elt acc ?_ (hx.isZero formats) hacc
    rintro oid rfl
    exact hx
  exact foldlM_holds (g := id) (a := 0) hholds hdata' (isZero_float8 formats)

theorem elementSum_isZero {elt acc extaVal : Datum α} (htype : ∀ oid, type ≠ .other oid)
    (helt : IsZero formats elt) (hacc : IsZero formats acc) :
    ∃ d, elementSum formats type elt (extaVal, acc) = .ok (extaVal, d) ∧ IsZero formats d := by
  have hadd : (Extended.finite (0 : α)).add (.finite 0) = .finite 0 :=
    congrArg Extended.finite (add_zero 0)
  obtain ⟨d, hcompute, hzero⟩ := compute_isZero formats htype (fun get => get elt + get acc)
    (fun get => (get elt).add (get acc))
    (by simp [helt.int16, helt.int32, helt.int64, hacc.int16, hacc.int32, hacc.int64])
    (by simp [helt.float4, helt.float8, hacc.float4, hacc.float8, hadd])
  refine ⟨d, ?_, hzero⟩
  rw [elementSum]
  dsimp only
  rw [hcompute]
  rfl

variable [LinearOrder α]

/-- With a mean of zero, the squares are summed up. -/
theorem elementDiff_zero (elt acc : Datum α) :
    elementDiff formats type elt (.float8 (.finite 0), acc) = (do
      let result ← compute formats type (fun get => get elt ^ 2 + get acc) (fun get =>
        (get acc).add (((get elt).sub (get (.float8 (.finite 0)))).mul
          ((get elt).sub (get (.float8 (.finite 0))))))
      pure (.float8 (.finite 0), result)) := by
  have hzero := isZero_float8 formats
  cases type <;>
    simp [elementDiff, compute, hzero.int16, hzero.int32, hzero.int64, sq, add_comm]

variable (formats) in
theorem elementDiff_blind [CharZero α] (htype : type ≠ .float8)
    (hdata : List.Forall₂ (IsNumber type) dat xs) :
    ∃ d, dat.foldlM (fun s elt => elementDiff formats type elt s)
        (.float8 (.finite 0), .float8 (.finite 0)) = .ok (.float8 (.finite 0), d) ∧
      (datumGetFloat8 formats d = .finite (xs.map (· ^ 2)).sum → (xs.map (· ^ 2)).sum = 0) := by
  have hunits : ∀ (x : α) (n : Int), x * 2 ^ 149 = n → ∃ m : Int, x ^ 2 * 2 ^ (149 * 2) = m := by
    intro x n hn
    refine ⟨n ^ 2, ?_⟩
    rw [pow_mul, ← mul_pow, hn, Int.cast_pow]
  have hint : ∀ n : Int, (n : α) ^ 2 = (n ^ 2 : Int) := fun n => (Int.cast_pow n 2).symm
  exact foldlM_blind (f := (· ^ 2)) htype (by norm_num) elementDiff_zero hint hunits hdata

theorem elementDiff_float8s (hdata : List.Forall₂ (IsNumber .float8) dat xs) (mean : α) :
    dat.foldlM (fun s elt => elementDiff formats .float8 elt s)
        (.float8 (.finite mean), .float8 (.finite 0)) =
      .ok (.float8 (.finite mean), .float8 (.finite (xs.map fun x => (x - mean) ^ 2).sum)) := by
  have hstep : ∀ elt x acc a, IsNumber .float8 elt x → acc = .float8 (.finite a) →
      ∃ d, elementDiff formats .float8 elt (.float8 (.finite mean), acc) =
          .ok (.float8 (.finite mean), d) ∧
        d = .float8 (.finite (a + (x - mean) ^ 2)) := by
    rintro _ x _ a rfl rfl
    refine ⟨_, rfl, ?_⟩
    simp only [datumGetFloat8, Extended.finite_sub, sq]
    rfl
  obtain ⟨d, hrun, rfl⟩ := foldlM_holds hstep hdata rfl
  rw [hrun, zero_add]

theorem elementDiff_isZero {elt acc mean : Datum α} (htype : ∀ oid, type ≠ .other oid)
    (hmean : IsZero formats mean) (helt : IsZero formats elt) (hacc : IsZero formats acc) :
    ∃ d, elementDiff formats type elt (mean, acc) = .ok (mean, d) ∧ IsZero formats d := by
  have hfloat : (Extended.finite (0 : α)).add
      (((Extended.finite 0).sub (.finite 0)).mul ((Extended.finite 0).sub (.finite 0))) =
        .finite 0 := by
    rw [Extended.finite_sub]
    exact congrArg Extended.finite (by ring)
  obtain ⟨d, hcompute, hzero⟩ := compute_isZero formats htype
    (fun get => get acc + (get elt - get mean) * (get elt - get mean))
    (fun get => (get acc).add (((get elt).sub (get mean)).mul ((get elt).sub (get mean))))
    (by simp [helt.int16, helt.int32, helt.int64, hacc.int16, hacc.int32, hacc.int64,
      hmean.int16, hmean.int32, hmean.int64])
    (by simp only [List.forall_mem_cons, helt.float4, helt.float8, hacc.float4, hacc.float8,
      hmean.float4, hmean.float8, hfloat]; simp)
  refine ⟨d, ?_, hzero⟩
  rw [elementDiff]
  dsimp only
  rw [hcompute]
  rfl

end Runs

/-! ## The FLOAT8 reductions -/

section Results

variable {formats} {v : StoredArray α} {xs : List α}

theorem generalArrayToElement_run (hnull : v.nullbitmap = none) (hne : v.data ≠ [])
    {element : ElementFunction α} {extaVal : Datum α} {s : Datum α × Datum α}
    (h : v.data.foldlM (fun s elt => element v.elementType elt s)
      (extaVal, .float8 (.finite 0)) = .ok s) (finalize : Datum α → Nat → Datum α) :
    generalArrayToElement v extaVal element finalize 1 = .ok (finalize s.2 v.data.length) := by
  have hinitial : initialResult v.elementType 1 = .ok (.float8 (.finite (0 : α))) :=
    if_neg one_ne_zero
  rw [generalArrayToElement_eq (dims_ne_nil hne), hinitial, front_of_none hnull, ok_bind, h]
  rfl

/-- A result that is read as a double is the number. -/
def IsFloat8 (formats : Formats α) (r : Except Fault (Datum α)) (x : α) : Prop :=
  ∃ d, r = .ok d ∧ datumGetFloat8 formats d = .finite x

variable [LinearOrder α] {root : α → α}

/-- The reductions are those of the elements as numbers. -/
structure AsNumbers (formats : Formats α) (root : α → α) (v : StoredArray α) (xs : List α) :
    Prop where
  sumBig : IsFloat8 formats (arraySumBig formats v) xs.sum
  mean : IsFloat8 formats (arrayMean formats v) (xs.sum / xs.length)
  stddev : IsFloat8 formats (arrayStddev formats (Extended.sqrt root) v)
    (root ((xs.map fun x => (x - xs.sum / xs.length) ^ 2).sum / xs.length))

theorem sum_sq_nonneg [IsStrictOrderedRing α] (xs : List α) : 0 ≤ (xs.map (· ^ 2)).sum := by
  apply List.sum_nonneg
  intro y hy
  obtain ⟨x, -, rfl⟩ := List.mem_map.mp hy
  exact sq_nonneg x

section Program

variable [IsStrictOrderedRing α] (hnull : v.nullbitmap = none) (hne : xs ≠ [])
  (hdata : List.Forall₂ (IsNumber v.elementType) v.data xs)

include hnull hne hdata

/-- What is left to show about the two runs. -/
theorem asNumbers_of_runs
    (hsum : ∃ d, v.data.foldlM (fun s elt => elementSum formats v.elementType elt s)
        (int16GetDatum 0, .float8 (.finite 0)) = .ok (int16GetDatum 0, d) ∧
      datumGetFloat8 formats d = .finite xs.sum)
    (hdiff : ∃ d, v.data.foldlM (fun s elt => elementDiff formats v.elementType elt s)
        (.float8 (.finite (xs.sum / xs.length)), .float8 (.finite 0)) =
          .ok (.float8 (.finite (xs.sum / xs.length)), d) ∧
      datumGetFloat8 formats d = .finite (xs.map fun x => (x - xs.sum / xs.length) ^ 2).sum) :
    AsNumbers formats root v xs := by
  have hlength := hdata.length_eq
  have hdata' : v.data ≠ [] := by
    rw [← List.length_pos_iff, hlength]
    exact List.length_pos_of_ne_nil hne
  have hcount : (xs.length : α) ≠ 0 :=
    Nat.cast_ne_zero.mpr (List.length_pos_of_ne_nil hne).ne'
  obtain ⟨d, hrun, hread⟩ := hsum
  obtain ⟨d', hrun', hread'⟩ := hdiff
  have haverage : averageFinalize formats d v.data.length =
      .float8 (.finite (xs.sum / xs.length)) := by
    rw [averageFinalize, hread, hlength, Extended.finite_div hcount]
  have hmean : ∀ extaVal, generalArrayToElement v extaVal (elementSum formats)
      (averageFinalize formats) 1 = .ok (.float8 (.finite (xs.sum / xs.length))) := by
    intro extaVal
    rw [generalArrayToElement_run hnull hdata' (elementSum_extaVal hrun extaVal), haverage]
  have hnonneg : (0 : α) ≤ (xs.map fun x => (x - xs.sum / xs.length) ^ 2).sum / xs.length := by
    refine div_nonneg (List.sum_nonneg ?_) (Nat.cast_nonneg _)
    intro y hy
    obtain ⟨x, -, rfl⟩ := List.mem_map.mp hy
    exact sq_nonneg _
  constructor
  · exact ⟨d, generalArrayToElement_run hnull hdata' hrun _, hread⟩
  · exact ⟨_, hmean _, rfl⟩
  · have hroot : averageRootFinalize formats (Extended.sqrt root) d' v.data.length =
        .float8 (.finite (root ((xs.map fun x => (x - xs.sum / xs.length) ^ 2).sum /
          xs.length))) := by
      rw [averageRootFinalize, hread', hlength, Extended.finite_div hcount,
        Extended.finite_sqrt _ hnonneg]
    refine ⟨_, ?_, congrArg (datumGetFloat8 formats) hroot⟩
    rw [arrayStddev, hmean, ok_bind, generalArrayToElement_run hnull hdata' hrun']

/-- The word of a type other than `float8` is read as what it is if all elements are zero. -/
theorem AsNumbers.meets (hroot : ∀ x, 0 ≤ x → 0 ≤ root x ∧ root x ^ 2 = x)
    (h : AsNumbers formats root v xs) : v.elementType = .float8 ∨ ∀ x ∈ xs, x = 0 := by
  by_cases htype : v.elementType = .float8
  · exact .inl htype
  · have hlength := hdata.length_eq
    have hdata' : v.data ≠ [] := by
      rw [← List.length_pos_iff, hlength]
      exact List.length_pos_of_ne_nil hne
    have hcount : (0 : α) < xs.length := Nat.cast_pos.mpr (List.length_pos_of_ne_nil hne)
    obtain ⟨d, hrun, hblind⟩ := elementSum_blind formats htype hdata (int16GetDatum 0)
    obtain ⟨d', hrun', hblind'⟩ := elementDiff_blind formats htype hdata
    have hsum : xs.sum = 0 ∧ datumGetFloat8 formats d = .finite 0 := by
      obtain ⟨e, he, hread⟩ := h.sumBig
      rw [arraySumBig, generalArrayToElement_run hnull hdata' hrun] at he
      cases he
      have hzero := hblind hread
      rw [hzero] at hread
      exact ⟨hzero, hread⟩
    have hmean : generalArrayToElement v (.float8 (.finite 0)) (elementSum formats)
        (averageFinalize formats) 1 = .ok (.float8 (.finite 0)) := by
      rw [generalArrayToElement_run hnull hdata' (elementSum_extaVal hrun _), averageFinalize,
        hsum.2, hlength, Extended.finite_div hcount.ne', zero_div]
    have hsquares : (xs.map (· ^ 2)).sum = 0 := by
      obtain ⟨e, he, hread⟩ := h.stddev
      rw [arrayStddev, hmean, ok_bind, generalArrayToElement_run hnull hdata' hrun'] at he
      cases he
      simp only [hsum.1, zero_div, sub_zero] at hread
      obtain ⟨y, hy, hnonneg, heq⟩ := Extended.eq_of_sqrt_div (hlength ▸ hread) hcount.ne'
      have hsquare : y / xs.length = (xs.map (· ^ 2)).sum / xs.length := by
        rw [← (hroot _ hnonneg).2, heq, (hroot _ (div_nonneg (sum_sq_nonneg xs) hcount.le)).2]
      rw [div_left_inj' hcount.ne'] at hsquare
      exact hblind' (hsquare ▸ hy)
    refine .inr fun x hx => ?_
    have hnonneg : ∀ y ∈ xs.map (· ^ 2), (0 : α) ≤ y := by
      intro y hy
      obtain ⟨x, -, rfl⟩ := List.mem_map.mp hy
      exact sq_nonneg x
    exact pow_eq_zero_iff two_ne_zero |>.mp
      (List.all_zero_of_le_zero_le_of_sum_eq_zero hnonneg hsquares (List.mem_map_of_mem hx))

/-- Numbers of type `float8` and zeros are summed up as numbers. -/
theorem asNumbers_of_meets (h : v.elementType = .float8 ∨ ∀ x ∈ xs, x = 0) :
    AsNumbers formats root v xs := by
  rcases h with htype | hzeros
  · apply asNumbers_of_runs hnull hne hdata
    · rw [htype] at hdata ⊢
      rw [eq_float8s hdata, elementSum_float8, zero_add]
      exact ⟨_, rfl, rfl⟩
    · rw [htype] at hdata ⊢
      exact ⟨_, elementDiff_float8s hdata _, rfl⟩
  · have hsum : xs.sum = 0 := List.sum_eq_zero hzeros
    have hsquares : (xs.map fun x => (x - 0) ^ 2).sum = 0 := by
      apply List.sum_eq_zero
      intro y hy
      obtain ⟨x, hx, rfl⟩ := List.mem_map.mp hy
      rw [hzeros x hx, sub_zero, zero_pow two_ne_zero]
    apply asNumbers_of_runs hnull hne hdata
    · obtain ⟨d, hrun, hzero⟩ := foldlM_zeros formats
        (fun _ _ htype helt hacc => elementSum_isZero htype helt hacc) hdata hzeros
      rw [hsum]
      exact ⟨d, hrun, hzero.float8⟩
    · obtain ⟨d, hrun, hzero⟩ := foldlM_zeros formats
        (fun _ _ htype helt hacc => elementDiff_isZero htype (isZero_float8 formats) helt hacc)
        hdata hzeros
      simp only [hsum, zero_div, hsquares]
      exact ⟨d, hrun, hzero.float8⟩

/-- Only sums of numbers of type `float8`, and of zeros, are those of the elements. -/
theorem asNumbers_iff (hroot : ∀ x, 0 ≤ x → 0 ≤ root x ∧ root x ^ 2 = x) :
    AsNumbers formats root v xs ↔ v.elementType = .float8 ∨ ∀ x ∈ xs, x = 0 :=
  ⟨AsNumbers.meets hnull hne hdata hroot, asNumbers_of_meets hnull hne hdata⟩

end Program

/-- `{1, 2, 3}` of type `float8` -/
def float8Array : StoredArray ℝ where
  elementType := .float8
  dims := [3]
  nullbitmap := none
  data := float8s (([1, 2, 3] : List Nat).map (↑))
  dims_pos := three_pos
  bitmap_le bitmap h := by cases h
  length_data := by
    rw [float8s, List.length_map]
    decide

theorem sqrt_spec (x : ℝ) (hx : 0 ≤ x) : 0 ≤ Real.sqrt x ∧ Real.sqrt x ^ 2 = x :=
  ⟨Real.sqrt_nonneg x, Real.sq_sqrt hx⟩

theorem asNumbers_iff_float8Array :
    AsNumbers (zeroFormats ℝ) Real.sqrt float8Array [1, 2, 3] :=
  (asNumbers_iff rfl (by simp) (by simp [float8Array, float8s, IsNumber]) sqrt_spec).mpr (.inl rfl)

/-- `{1}` of type `int4` -/
def int4Array : StoredArray ℝ where
  elementType := .int4
  dims := [1]
  nullbitmap := none
  data := [int32GetDatum 1]
  dims_pos := by decide
  bitmap_le bitmap h := by cases h
  length_data := by decide

/-- The word of the integer 1 is not the double 1. -/
theorem not_asNumbers_int4Array :
    ¬∀ (v : StoredArray ℝ) (xs : List ℝ), v.nullbitmap = none → xs ≠ [] →
      List.Forall₂ (IsNumber v.elementType) v.data xs →
        AsNumbers (zeroFormats ℝ) Real.sqrt v xs := by
  intro hall
  have hdata : List.Forall₂ (IsNumber int4Array.elementType) int4Array.data [(1 : ℝ)] :=
    .cons ⟨1, by norm_num, rfl, Int.cast_one.symm⟩ .nil
  have h := hall int4Array [1] rfl (by simp) hdata
  rcases h.meets rfl (by simp) hdata sqrt_spec with htype | hzeros
  · cases htype
  · exact one_ne_zero (hzeros 1 (by simp))

end Results

end Madlib.ArrayOps
