import Mathlib

/-!
# Calls that change a state

A call ends in a value or in an error, and either way leaves a state behind.  `Keeps I c post`
says that `c` keeps the invariant `I` however it ends and returns only values that satisfy
`post`; the rules below follow the steps of a call.  Objects that are allocated and never moved
are the special case at the end: what was there before a call is a prefix of what is there
behind it.
-/

namespace Madlib.Lib

def Call (σ ε α : Type) : Type := σ → Except ε α × σ

namespace Call

variable {σ ε α β : Type}

instance : Monad (Call σ ε) where
  pure a := fun s => (.ok a, s)
  bind c f := fun s =>
    match c s with
    | (.ok a, s) => f a s
    | (.error e, s) => (.error e, s)

def fail (e : ε) : Call σ ε α := fun s => (.error e, s)

/-- A computation that does not use the state. -/
def lift (result : Except ε α) : Call σ ε α := fun s => (result, s)

/-- A look at the state. -/
def look (f : σ → Except ε α) : Call σ ε α := fun s => (f s, s)

def modify (f : σ → σ) : Call σ ε Unit := fun s => (.ok (), f s)

theorem bind_ok {c : Call σ ε α} {f : α → Call σ ε β} {s s' : σ} {a : α}
    (h : c s = (.ok a, s')) : (c >>= f) s = f a s' := by
  show (match c s with
    | (.ok a, s) => f a s
    | (.error e, s) => (.error e, s)) = _
  rw [h]

theorem bind_error {c : Call σ ε α} {f : α → Call σ ε β} {s s' : σ} {e : ε}
    (h : c s = (.error e, s')) : (c >>= f) s = (.error e, s') := by
  show (match c s with
    | (.ok a, s) => f a s
    | (.error e, s) => (.error e, s)) = _
  rw [h]

/-- Calls that do the same in a state do the same with what follows them. -/
theorem bind_congr {c c' : Call σ ε α} {f : α → Call σ ε β} {s : σ} (h : c s = c' s) :
    (c >>= f) s = (c' >>= f) s := by
  cases hc : c' s with
  | mk result s' =>
      cases result with
      | error e => rw [bind_error (h.trans hc), bind_error hc]
      | ok a => rw [bind_ok (h.trans hc), bind_ok hc]

/-! ## Invariants -/

def Keeps (I : σ → Prop) (c : Call σ ε α) (post : α → Prop) : Prop :=
  ∀ s, I s → I (c s).2 ∧ ∀ a, (c s).1 = .ok a → post a

variable {I : σ → Prop} {post : α → Prop} {post' : β → Prop}

theorem keeps_pure {a : α} (h : post a) : Keeps I (pure a : Call σ ε α) post := by
  intro s hs
  refine ⟨hs, fun b hb => ?_⟩
  cases hb
  exact h

theorem keeps_look {f : σ → Except ε α} (h : ∀ s a, I s → f s = .ok a → post a) :
    Keeps I (look f) post :=
  fun s hs => ⟨hs, fun a ha => h s a hs ha⟩

theorem keeps_lift (result : Except ε α) :
    Keeps I (lift result) (fun a => result = .ok a) :=
  fun _ hs => ⟨hs, fun _ ha => ha⟩

theorem keeps_fail (e : ε) : Keeps I (fail e : Call σ ε α) post := by
  intro s hs
  refine ⟨hs, fun a ha => ?_⟩
  cases ha

theorem keeps_modify {f : σ → σ} (h : ∀ s, I s → I (f s)) :
    Keeps I (modify f : Call σ ε Unit) (fun _ => True) :=
  fun s hs => ⟨h s hs, fun _ _ => trivial⟩

theorem Keeps.bind {c : Call σ ε α} {f : α → Call σ ε β} (hc : Keeps I c post)
    (hf : ∀ a, post a → Keeps I (f a) post') : Keeps I (c >>= f) post' := by
  intro s hs
  have ⟨hs', ha⟩ := hc s hs
  cases h : c s with
  | mk result s' =>
      rw [h] at hs' ha
      cases result with
      | error e =>
          rw [bind_error h]
          refine ⟨hs', fun b hb => ?_⟩
          cases hb
      | ok a =>
          rw [bind_ok h]
          exact hf a (ha a rfl) s' hs'

theorem Keeps.mono {c : Call σ ε α} {weaker : α → Prop} (hc : Keeps I c post)
    (h : ∀ a, post a → weaker a) : Keeps I c weaker := by
  intro s hs
  have ⟨hs', ha⟩ := hc s hs
  exact ⟨hs', fun a heq => h a (ha a heq)⟩

theorem Keeps.true {c : Call σ ε α} (hc : Keeps I c post) : Keeps I c fun _ => True :=
  hc.mono fun _ _ => trivial

/-! ## Objects that stay where they are -/

/-- The first objects are still there, and as they were. -/
def HasPrefix {γ : Type} (old objects : List γ) : Prop :=
  ∃ new, objects = old ++ new

section Objects

variable {γ : Type} {old objects : List γ}

theorem hasPrefix_refl (old : List γ) : HasPrefix old old := ⟨[], (List.append_nil old).symm⟩

theorem HasPrefix.append (h : HasPrefix old objects) (more : List γ) :
    HasPrefix old (objects ++ more) := by
  have ⟨new, hnew⟩ := h
  exact ⟨new ++ more, by rw [hnew, List.append_assoc]⟩

theorem HasPrefix.length_le (h : HasPrefix old objects) : old.length ≤ objects.length := by
  have ⟨new, hnew⟩ := h
  rw [hnew, List.length_append]
  exact Nat.le_add_right _ _

/-- Only objects behind the old ones are written. -/
theorem HasPrefix.set (h : HasPrefix old objects) {address : Nat} (hnew : old.length ≤ address)
    (object : γ) : HasPrefix old (objects.set address object) := by
  have ⟨new, hobjects⟩ := h
  refine ⟨new.set (address - old.length) object, ?_⟩
  rw [hobjects, List.set_append_right address object hnew]

theorem HasPrefix.getElem? (h : HasPrefix old objects) {address : Nat}
    (hold : address < old.length) : objects[address]? = old[address]? := by
  have ⟨new, hobjects⟩ := h
  rw [hobjects, List.getElem?_append_left hold]

end Objects

end Call

end Madlib.Lib
