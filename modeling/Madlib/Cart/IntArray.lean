import Madlib.Backend

/-!
# Integer arrays and checks

What the functions on class counts and on features take and return, and how they refuse it.
-/

namespace Madlib.Cart

open Madlib.Backend

/-- An integer array without NULLs. -/
structure IntArray where
  ndim : Nat
  data : List Int
deriving DecidableEq

/-- `construct_array` for elements of so many bytes; without elements there is no dimension. -/
def constructArray (width : Nat) (elements : List Int) : Except Fault IntArray :=
  if elements = [] then .ok ⟨0, []⟩
  else do
    palloc (24 + width * elements.length)
    pure ⟨1, elements⟩

/-- `dt_check_error`, and `dt_check_error_value` with its value in the message -/
def dtCheckError (condition : Prop) [Decidable condition] (message : String) : Except Fault Unit :=
  if condition then .ok () else .error (.ereport .raiseException message)

theorem constructArray_ok {width : Nat} {elements : List Int} (hne : elements ≠ [])
    (hsize : 24 + width * elements.length ≤ maxAllocSize) :
    constructArray width elements = .ok ⟨1, elements⟩ := by
  unfold constructArray
  rw [if_neg hne, palloc_ok hsize, ok_bind, pure_eq_ok]

section Check

variable {condition : Prop} [Decidable condition] {message : String}

theorem dtCheckError_ok (h : condition) : dtCheckError condition message = .ok () := if_pos h

theorem dtCheckError_error (h : ¬condition) :
    dtCheckError condition message = .error (.ereport .raiseException message) :=
  if_neg h

end Check

end Madlib.Cart
