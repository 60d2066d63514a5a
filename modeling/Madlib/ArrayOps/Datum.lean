import Madlib.Backend
import Madlib.Lib.Double
import Madlib.Lib.Extended
import Madlib.Lib.MachineInt

/-!
# Words with elements of five types

The array operations keep an element of any type in one word.  A word that was made from a number
of one type can be read as a number of another one, and is then whatever its bits are there.
Numbers with a point are exact; the bits of one are only looked at when it is read as something
else.
-/

namespace Madlib.ArrayOps

open Madlib.Backend Madlib.Lib Madlib.Lib.MachineInt

/-- The types with an own branch in the dispatch of every function. -/
inductive ElementType where
  | int2
  | int4
  | int8
  | float4
  | float8
  | other (oid : Nat)
  deriving DecidableEq

/-- The word is made by one of the integer macros, `Float4GetDatum` or `Float8GetDatum`. -/
inductive Datum (α : Type) where
  | word (bits : Nat)
  | float4 (x : Extended α)
  | float8 (x : Extended α)

/-- The bits of numbers with a point, and the numbers of 32 bits. -/
structure Formats (α : Type) [Zero α] where
  encode4 : Extended α → Nat
  encode8 : Extended α → Nat
  decode4 : Nat → Extended α
  encode4_lt : ∀ x, encode4 x < 4294967296
  encode8_lt : ∀ x, encode8 x < 18446744073709551616
  encode4_zero : encode4 (.finite 0) = 0
  encode8_zero : encode8 (.finite 0) = 0
  decode4_zero : decode4 0 = .finite 0

/-- All numbers with the bits of zero. -/
def zeroFormats (α : Type) [Zero α] : Formats α where
  encode4 _ := 0
  encode8 _ := 0
  decode4 _ := .finite 0
  encode4_lt _ := by decide
  encode8_lt _ := by decide
  encode4_zero := rfl
  encode8_zero := rfl
  decode4_zero := rfl

variable {α : Type} [Field α]

/-- The number of the 64 bits of a double. -/
def doubleOf (bits : Nat) : Extended α :=
  match Double.value (UInt64.ofNat bits) with
  | some x => .finite x
  | none => if bits % 2 ^ 52 = 0 then .infinite (decide (2 ^ 63 ≤ bits)) else .nan

def int16GetDatum (x : Int) : Datum α := .word (x % 65536).toNat
def int32GetDatum (x : Int) : Datum α := .word (x % 4294967296).toNat
def int64GetDatum (x : Int) : Datum α := .word (x % 18446744073709551616).toNat

variable (formats : Formats α)

def bitsOf : Datum α → Nat
  | .word bits => bits
  | .float4 x => formats.encode4 x
  | .float8 x => formats.encode8 x

def datumGetInt16 (d : Datum α) : Int := toInt16 (bitsOf formats d)
def datumGetInt32 (d : Datum α) : Int := toInt32 (bitsOf formats d)
def datumGetInt64 (d : Datum α) : Int := toInt64 (bitsOf formats d)

def datumGetFloat4 : Datum α → Extended α
  | .float4 x => x
  | d => formats.decode4 (bitsOf formats d % 4294967296)

def datumGetFloat8 : Datum α → Extended α
  | .float8 x => x
  | d => doubleOf (bitsOf formats d)

/-- What was stored is read again. -/
theorem datumGetInt16_datum (n : Int) : datumGetInt16 formats (int16GetDatum n) = toInt16 n := by
  have hbits : bitsOf formats (int16GetDatum n) = (n % 65536).toNat := rfl
  rw [datumGetInt16, hbits]
  unfold toInt16 wrapAt
  omega

theorem datumGetInt64_datum (n : Int) : datumGetInt64 formats (int64GetDatum n) = toInt64 n := by
  have hbits : bitsOf formats (int64GetDatum n) = (n % 18446744073709551616).toNat := rfl
  rw [datumGetInt64, hbits]
  unfold toInt64 wrapAt
  omega

/-- What every dispatch raises in its default branch. -/
def typeNotSupported : Fault := .ereport .nullValueNotAllowed "type is not supported"

/-- A dispatch over the type whose branches compute the same from integers and from numbers with
a point. -/
def compute (type : ElementType) (int : (Datum α → Int) → Int)
    (float : (Datum α → Extended α) → Extended α) : Except Fault (Datum α) :=
  match type with
  | .int2 => .ok (int16GetDatum (int (datumGetInt16 formats)))
  | .int4 => .ok (int32GetDatum (int (datumGetInt32 formats)))
  | .int8 => .ok (int64GetDatum (int (datumGetInt64 formats)))
  | .float4 => .ok (.float4 (float (datumGetFloat4 formats)))
  | .float8 => .ok (.float8 (float (datumGetFloat8 formats)))
  | .other _ => .error typeNotSupported

/-- The element of a stored array, as `fetch_att` makes it, for a number. -/
def IsNumber : ElementType → Datum α → α → Prop
  | .int2, d, x => ∃ n : Int, (-32768 ≤ n ∧ n < 32768) ∧ d = int16GetDatum n ∧ x = n
  | .int4, d, x => ∃ n : Int, (-2147483648 ≤ n ∧ n < 2147483648) ∧ d = int32GetDatum n ∧ x = n
  | .int8, d, x => ∃ n : Int, (-9223372036854775808 ≤ n ∧ n < 9223372036854775808) ∧
      d = int64GetDatum n ∧ x = n
  | .float4, d, x => d = .float4 (.finite x) ∧ ∃ n : Int, x * ((2 ^ 149 : Nat) : α) = n
  | .float8, d, x => d = .float8 (.finite x)
  | .other _, _, _ => False

/-- A dispatch over the type whose branches compare two words. -/
def compareBy [LinearOrder α] (type : ElementType) (x y : Datum α) : Except Fault Bool :=
  match type with
  | .int2 => .ok (decide (datumGetInt16 formats x < datumGetInt16 formats y))
  | .int4 => .ok (decide (datumGetInt32 formats x < datumGetInt32 formats y))
  | .int8 => .ok (decide (datumGetInt64 formats x < datumGetInt64 formats y))
  | .float4 => .ok (decide ((datumGetFloat4 formats x).lessThan (datumGetFloat4 formats y)))
  | .float8 => .ok (decide ((datumGetFloat8 formats x).lessThan (datumGetFloat8 formats y)))
  | .other _ => .error typeNotSupported

end Madlib.ArrayOps
