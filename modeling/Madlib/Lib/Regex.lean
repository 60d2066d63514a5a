import Mathlib

/-!
# Backtracking regular expressions

A pattern is run with what follows it as a continuation, and the first success is the match: the
left alternative is tried before the right one, and a repetition tries another round before it
stops.  Groups capture the text they have consumed.  A round of a repetition that consumes nothing
is not followed.
-/

namespace Madlib.Lib.Regex

inductive Pattern (ν : Type) where
  | cls (inClass : Char → Bool)
  | seq (r s : Pattern ν)
  | alt (r s : Pattern ν)
  | opt (r : Pattern ν)
  | star (r : Pattern ν)
  | group (name : ν) (r : Pattern ν)

variable {ν β : Type}

abbrev Captures (ν : Type) := ν → Option (List Char)

/-- The text that is left, and the groups captured so far. -/
abbrev Position (ν : Type) := List Char × Captures ν

/-- One or more rounds. -/
def Pattern.plus (r : Pattern ν) : Pattern ν := .seq r (.star r)

def Pattern.char (c : Char) : Pattern ν := .cls (· = c)

/-- Rounds of a repetition, each of which has to consume something. -/
def rounds (f : (Position ν → Option β) → Position ν → Option β) :
    Nat → (Position ν → Option β) → Position ν → Option β
  | 0, k, p => k p
  | n + 1, k, p =>
      (f (fun p' => if p'.1.length < p.1.length then rounds f n k p' else none) p).or (k p)

def run [DecidableEq ν] : Pattern ν → (Position ν → Option β) → Position ν → Option β
  | .cls inClass, k, p =>
      match p.1 with
      | [] => none
      | c :: rest => if inClass c then k (rest, p.2) else none
  | .seq r s, k, p => run r (run s k) p
  | .alt r s, k, p => (run r k p).or (run s k p)
  | .opt r, k, p => (run r k p).or (k p)
  | .star r, k, p => rounds (run r) p.1.length k p
  | .group name r, k, p =>
      run r (fun p' =>
        k (p'.1, Function.update p'.2 name (some (p.1.take (p.1.length - p'.1.length))))) p

variable [DecidableEq ν]

/-- `re.search`: the match at the first place where there is one. -/
def search (r : Pattern ν) (text : List Char) : Option (Position ν) :=
  text.tails.findSome? fun rest => run r some (rest, fun _ => none)

/-- `re.sub`: the matches are replaced from left to right. -/
def sub (r : Pattern ν) (repl : Captures ν → List Char) : Nat → List Char → List Char
  | 0, text => text
  | _ + 1, [] => []
  | n + 1, c :: text =>
      match run r some (c :: text, fun _ => none) with
      | some (rest, captures) =>
          if rest.length < (c :: text).length then repl captures ++ sub r repl n rest
          else c :: sub r repl n text
      | none => c :: sub r repl n text

/-! ## Rules -/

section Rules

variable {r s : Pattern ν} {k : Position ν → Option β} {p : Position ν} {b : β}

theorem run_cls_cons {inClass : Char → Bool} {c : Char} (h : inClass c = true)
    (rest : List Char) (e : Captures ν) :
    run (.cls inClass) k (c :: rest, e) = k (rest, e) := by
  rw [run]
  exact if_pos h

theorem run_cls_of_head {inClass : Char → Bool} (h : ∀ c ∈ p.1.head?, inClass c = false) :
    run (.cls inClass) k p = none := by
  have ⟨text, e⟩ := p
  rw [run]
  cases text with
  | nil => rfl
  | cons c rest =>
      have hc : inClass c = false := h c rfl
      exact if_neg (Bool.eq_false_iff.mp hc)

theorem run_opt_of_some (h : run r k p = some b) : run (.opt r) k p = some b := by
  rw [run, h, Option.some_or]

theorem run_opt_of_none (h : run r k p = none) : run (.opt r) k p = k p := by
  rw [run, h, Option.none_or]

end Rules

/-! ## Texts of units -/

/-- A pattern that reads the units of an encoding one by one. -/
structure ReadsUnits {α : Type} (r : Pattern ν) (enc : α → List Char) : Prop where
  nonempty : ∀ a, enc a ≠ []
  reads : ∀ {β : Type} (k : Position ν → Option β) (a : α) (rest : List Char) (e : Captures ν),
    run r k (enc a ++ rest, e) = k (rest, e)

/-- A pattern that cannot go on at a text. -/
structure Stuck (r : Pattern ν) (text : List Char) : Prop where
  run_none : ∀ {β : Type} (k : Position ν → Option β) (e : Captures ν), run r k (text, e) = none

section Units

variable {α : Type} {r : Pattern ν} {enc : α → List Char} {k : Position ν → Option β} {b : β}
  {rest : List Char} {e : Captures ν}

theorem rounds_units (h : ReadsUnits r enc) (hstuck : Stuck r rest) (hk : k (rest, e) = some b)
    (units : List α) {n : Nat} (hn : units.length ≤ n) :
    rounds (run r) n k (units.flatMap enc ++ rest, e) = some b := by
  induction n generalizing units with
  | zero =>
      have hnil : units = [] := List.eq_nil_of_length_eq_zero (Nat.le_zero.mp hn)
      rw [hnil]
      exact hk
  | succ n ih =>
      cases units with
      | nil => rw [List.flatMap_nil, List.nil_append, rounds, hstuck.run_none, Option.none_or, hk]
      | cons a units =>
          have hpositive : 0 < (enc a).length := List.length_pos_of_ne_nil (h.nonempty a)
          have hshorter : (units.flatMap enc ++ rest).length <
              (enc a ++ (units.flatMap enc ++ rest)).length :=
            (Nat.lt_add_of_pos_left hpositive).trans_eq List.length_append.symm
          have hrest := ih units (Nat.le_of_succ_le_succ hn)
          rw [List.flatMap_cons, List.append_assoc, rounds, h.reads, if_pos hshorter, hrest,
            Option.some_or]

theorem length_units (h : ReadsUnits r enc) (units : List α) :
    units.length ≤ (units.flatMap enc).length := by
  induction units with
  | nil => exact Nat.le_refl 0
  | cons a units ih =>
      have hpositive : 0 < (enc a).length := List.length_pos_of_ne_nil (h.nonempty a)
      rw [List.flatMap_cons, List.length_append, List.length_cons]
      omega

/-- A repetition reads all units, if what follows succeeds behind them. -/
theorem run_star_units (h : ReadsUnits r enc) (hstuck : Stuck r rest)
    (hk : k (rest, e) = some b) (units : List α) :
    run (.star r) k (units.flatMap enc ++ rest, e) = some b := by
  have hlength := length_units h units
  rw [run]
  apply rounds_units h hstuck hk
  rw [List.length_append]
  omega

theorem run_plus_units (h : ReadsUnits r enc) (hstuck : Stuck r rest)
    (hk : k (rest, e) = some b) {units : List α} (hne : units ≠ []) :
    run (.plus r) k (units.flatMap enc ++ rest, e) = some b := by
  cases units with
  | nil => exact absurd rfl hne
  | cons a units =>
      rw [Pattern.plus, run, List.flatMap_cons, List.append_assoc, h.reads]
      exact run_star_units h hstuck hk units

omit [DecidableEq ν] in
theorem take_consumed (text rest : List Char) :
    (text ++ rest).take ((text ++ rest).length - rest.length) = text := by
  rw [List.length_append, Nat.add_sub_cancel, List.take_left]

/-- What a group of units captures. -/
theorem run_group_star_units {name : ν} (h : ReadsUnits r enc) (hstuck : Stuck r rest)
    {units : List α}
    (hk : k (rest, Function.update e name (some (units.flatMap enc))) = some b) :
    run (.group name (.star r)) k (units.flatMap enc ++ rest, e) = some b := by
  rw [run]
  apply run_star_units h hstuck
  rw [take_consumed]
  exact hk

theorem run_group_plus_units {name : ν} (h : ReadsUnits r enc) (hstuck : Stuck r rest)
    {units : List α} (hne : units ≠ [])
    (hk : k (rest, Function.update e name (some (units.flatMap enc))) = some b) :
    run (.group name (.plus r)) k (units.flatMap enc ++ rest, e) = some b := by
  rw [run]
  apply run_plus_units h hstuck _ hne
  rw [take_consumed]
  exact hk

theorem Stuck.plus (h : Stuck r rest) : Stuck (.plus r) rest := by
  constructor
  intro β k e
  rw [Pattern.plus, run]
  exact h.run_none _ e

theorem Stuck.group {name : ν} (h : Stuck r rest) : Stuck (.group name r) rest := by
  constructor
  intro β k e
  rw [run]
  exact h.run_none _ e

theorem Stuck.seq {s : Pattern ν} (h : Stuck r rest) : Stuck (.seq r s) rest := by
  constructor
  intro β k e
  rw [run]
  exact h.run_none _ e

end Units

/-! ## Patterns that stay within a kind of text -/

/-- Every text the pattern reaches from one of the kind is of the kind. -/
structure StaysIn (r : Pattern ν) (kind : List Char → Prop) : Prop where
  run_none : ∀ {β : Type} (k : Position ν → Option β), (∀ p, kind p.1 → k p = none) →
    ∀ p, kind p.1 → run r k p = none

section StaysIn

variable {r s : Pattern ν} {kind : List Char → Prop}

theorem StaysIn.cls {inClass : Char → Bool}
    (h : ∀ c rest, kind (c :: rest) → inClass c = true → kind rest) :
    StaysIn (.cls inClass : Pattern ν) kind := by
  constructor
  intro β k hk p hp
  have ⟨text, e⟩ := p
  rw [run]
  cases text with
  | nil => rfl
  | cons c rest =>
      by_cases hc : inClass c = true
      · exact (if_pos hc).trans (hk _ (h c rest hp hc))
      · exact if_neg hc

theorem StaysIn.seq (hr : StaysIn r kind) (hs : StaysIn s kind) : StaysIn (.seq r s) kind := by
  constructor
  intro β k hk p hp
  rw [run]
  exact hr.run_none _ (hs.run_none k hk) p hp

theorem StaysIn.alt (hr : StaysIn r kind) (hs : StaysIn s kind) : StaysIn (.alt r s) kind := by
  constructor
  intro β k hk p hp
  rw [run, hr.run_none k hk p hp, hs.run_none k hk p hp, Option.none_or]

theorem StaysIn.opt (h : StaysIn r kind) : StaysIn (.opt r) kind := by
  constructor
  intro β k hk p hp
  rw [run, h.run_none k hk p hp, hk p hp, Option.none_or]

theorem StaysIn.rounds (h : StaysIn r kind) {k : Position ν → Option β}
    (hk : ∀ p, kind p.1 → k p = none) (n : Nat) :
    ∀ p, kind p.1 → rounds (run r) n k p = none := by
  induction n with
  | zero => exact hk
  | succ n ih =>
      intro p hp
      rw [Regex.rounds, hk p hp, Option.or_none]
      apply h.run_none _ _ p hp
      intro p' hp'
      split
      · exact ih p' hp'
      · rfl

theorem StaysIn.star (h : StaysIn r kind) : StaysIn (.star r) kind := by
  constructor
  intro β k hk p hp
  rw [run]
  exact h.rounds hk _ p hp

theorem StaysIn.plus (h : StaysIn r kind) : StaysIn (.plus r) kind := h.seq h.star

theorem StaysIn.group {name : ν} (h : StaysIn r kind) : StaysIn (.group name r) kind := by
  constructor
  intro β k hk p hp
  rw [run]
  apply h.run_none _ _ p hp
  intro p' hp'
  exact hk _ hp'

end StaysIn

end Madlib.Lib.Regex
