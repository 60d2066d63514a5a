import Mathlib

/-!
# What a call into the backend can end in

The modelled functions are C and Python code called by the database backend.  A
call returns a value, raises an error through `ereport` or `elog`, or leaves the
behaviour the language defines.  The last kind is kept apart from the raised
errors, so that a theorem about a returned value also says that no step of the
call read or wrote outside its objects.
-/

namespace Madlib.Backend

/-- The SQLSTATE classes the modelled code passes to `errcode`. -/
inductive ErrCode where
  | invalidParameterValue
  | nullValueNotAllowed
  | externalRoutineException
  | arraySubscriptError
  | divisionByZero
  | raiseException
  deriving DecidableEq, Repr

inductive Fault where
  /-- `ereport(ERROR, (errcode(..), errmsg(..)))` -/
  | ereport (code : ErrCode) (msg : String)
  /-- `elog(ERROR, ..)` -/
  | elog (msg : String)
  /-- a read or write outside the object pointed into -/
  | outOfBounds
  /-- a variable is used that no assignment has reached -/
  | uninitialised
  /-- memory behind a NULL pointer is used -/
  | nullPointer
  /-- a loop is still running after the rounds the model gives it -/
  | unfinished
  deriving DecidableEq, Repr

/-- The call ended in an error the code raised itself. -/
def Fault.isRaised : Fault → Bool
  | .ereport _ _ => true
  | .elog _ => true
  | _ => false

/-! ## Sequencing -/

section Sequencing

variable {ε α β : Type}

@[simp] theorem ok_bind (a : α) (f : α → Except ε β) : (Except.ok a >>= f) = f a := rfl

@[simp] theorem error_bind (e : ε) (f : α → Except ε β) : (Except.error e >>= f) = .error e := rfl

@[simp] theorem pure_eq_ok (a : α) : (pure a : Except ε α) = .ok a := rfl

theorem bind_eq_ok {x : Except ε α} {f : α → Except ε β} {b : β} :
    (x >>= f) = .ok b ↔ ∃ a, x = .ok a ∧ f a = .ok b := by
  cases x with
  | error e => simp
  | ok a => simp

/-- When every row returns a result of this kind, so does the loop over the rows. -/
theorem mapM'_ok {f : α → Except ε β} {Q : β → Prop} (rows : List α)
    (h : ∀ r ∈ rows, ∃ b, f r = .ok b ∧ Q b) :
    ∃ results, rows.mapM' f = .ok results ∧ results.length = rows.length ∧ ∀ b ∈ results, Q b := by
  induction rows with
  | nil => exact ⟨[], rfl, rfl, by simp⟩
  | cons r rows ih =>
      obtain ⟨b, hb, hQ⟩ := h r List.mem_cons_self
      obtain ⟨results, hresults, hlength, hall⟩ :=
        ih fun r' hr' => h r' (List.mem_cons_of_mem r hr')
      refine ⟨b :: results, ?_, by simp [hlength], ?_⟩
      · rw [List.mapM'_cons, hb, ok_bind, hresults, ok_bind, pure_eq_ok]
      · intro b' hb'
        rcases List.mem_cons.mp hb' with rfl | hmem
        · exact hQ
        · exact hall b' hmem

theorem of_mapM'_ok {f : α → Except ε β} {rows : List α} {results : List β}
    (h : rows.mapM' f = .ok results) : List.Forall₂ (fun r b => f r = .ok b) rows results := by
  induction rows generalizing results with
  | nil =>
      cases h
      exact .nil
  | cons r rows ih =>
      rw [List.mapM'_cons] at h
      obtain ⟨b, hb, h⟩ := bind_eq_ok.mp h
      obtain ⟨rest, hrest, h⟩ := bind_eq_ok.mp h
      cases h
      exact .cons hb (ih hrest)

end Sequencing

/-- The call returns a value that satisfies `P`, or fails for a reason that satisfies `E`. -/
def Ends {α : Type} (E : Fault → Prop) (P : α → Prop) : Except Fault α → Prop
  | .ok a => P a
  | .error e => E e

theorem Ends.bind {α β : Type} {E : Fault → Prop} {P : α → Prop} {Q : β → Prop}
    {x : Except Fault α} {f : α → Except Fault β} (h : Ends E P x)
    (hf : ∀ a, P a → Ends E Q (f a)) : Ends E Q (x >>= f) := by
  cases x with
  | error e => exact h
  | ok a => exact hf a h

theorem Ends.imp {α : Type} {E E' : Fault → Prop} {P P' : α → Prop} {x : Except Fault α}
    (h : Ends E P x) (herror : ∀ e, E e → E' e) (hok : ∀ a, P a → P' a) : Ends E' P' x := by
  cases x with
  | error e => exact herror e h
  | ok a => exact hok a h

/-! ## Memory requests -/

/-- `MaxAllocSize`, the largest size `palloc` accepts. -/
def maxAllocSize : Nat := 0x3fffffff

/-- A C integer converted to `Size`. -/
def sizeT (x : Int) : Nat := (x % 18446744073709551616).toNat

/-- A C integer converted to `unsigned`. -/
def uint32 (x : Int) : Nat := (x % 4294967296).toNat

/-- `palloc`, which refuses sizes above `MaxAllocSize`. -/
def palloc (size : Nat) : Except Fault Unit :=
  if maxAllocSize < size then .error (.elog "invalid memory alloc request size") else .ok ()

/-- Items of `width` bytes and a trailing zero, stored into a buffer of `size` bytes. -/
def fillBuffer {α : Type} (size width : Nat) (items : List α) : Except Fault (List α) :=
  if size < width * items.length + 1 then .error .outOfBounds else .ok items

theorem palloc_ok {size : Nat} (h : size ≤ maxAllocSize) : palloc size = .ok () := by
  unfold palloc
  rw [if_neg (Nat.not_lt.mpr h)]

theorem palloc_error {size : Nat} (h : maxAllocSize < size) :
    palloc size = .error (.elog "invalid memory alloc request size") := by
  unfold palloc
  rw [if_pos h]

theorem uint32_of_mem {x : Nat} (h : x < 4294967296) : uint32 x = x := by
  unfold uint32
  omega

theorem fillBuffer_ok {α : Type} {size width : Nat} {items : List α}
    (h : width * items.length + 1 ≤ size) : fillBuffer size width items = .ok items := by
  unfold fillBuffer
  rw [if_neg (Nat.not_lt.mpr h)]

theorem fillBuffer_error {α : Type} {size width : Nat} {items : List α}
    (h : size < width * items.length + 1) :
    fillBuffer size width items = .error .outOfBounds := by
  unfold fillBuffer
  rw [if_pos h]

/-! ## Elements of an array -/

section Access

variable {α : Type}

def readAt (xs : List α) (i : Int) : Except Fault α :=
  if i < 0 then .error .outOfBounds
  else
    match xs[i.toNat]? with
    | some x => .ok x
    | none => .error .outOfBounds

def writeAt (xs : List α) (i : Int) (x : α) : Except Fault (List α) :=
  if 0 ≤ i ∧ i < xs.length then .ok (xs.set i.toNat x) else .error .outOfBounds

theorem readAt_natCast {xs : List α} {i : ℕ} (hi : i < xs.length) :
    readAt xs i = .ok xs[i] := by
  simp [readAt, hi]

theorem writeAt_natCast {xs : List α} {i : ℕ} (hi : i < xs.length) (x : α) :
    writeAt xs i x = .ok (xs.set i x) := by
  simp [writeAt, hi]

theorem readAt_natCast_iff {xs : List α} {i : ℕ} {x : α} :
    readAt xs i = .ok x ↔ xs[i]? = some x := by
  unfold readAt
  rw [if_neg (by omega), Int.toNat_natCast]
  cases h : xs[i]? with
  | none => simp
  | some y => simp

theorem mem_of_readAt {xs : List α} {i : Int} {x : α} (h : readAt xs i = .ok x) : x ∈ xs := by
  unfold readAt at h
  split at h
  case isTrue => cases h
  case isFalse =>
      split at h
      case h_1 y hget =>
          cases h
          exact List.mem_of_getElem? hget
      case h_2 => cases h

theorem readAt_append {a b : List α} {x : α} {i : Int} (hi : i = a.length) :
    readAt (a ++ x :: b) i = .ok x := by
  rw [hi, readAt_natCast (by simp)]
  simp

theorem writeAt_append {a b : List α} {x y : α} {i : Int} (hi : i = a.length) :
    writeAt (a ++ x :: b) i y = .ok (a ++ y :: b) := by
  rw [hi, writeAt_natCast (by simp)]
  simp

end Access

end Madlib.Backend
