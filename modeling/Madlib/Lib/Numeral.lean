import Mathlib

/-!
# Numerals and the order of lists

Lists are compared entry by entry.  Digit strings of one length compare as the numbers they spell;
of two lengths they do so only where the longer one has leading zeros to spare.  Lists of numbers
are also compared with the shorter one padded with zeros.
-/

namespace Madlib.Lib.Numeral

/-! ## Lexicographic comparison -/

section Lex

variable {α β : Type} [LinearOrder α] [LinearOrder β]

def lexCmp : List α → List α → Ordering
  | [], [] => .eq
  | [], _ :: _ => .lt
  | _ :: _, [] => .gt
  | a :: as, b :: bs => (cmp a b).then (lexCmp as bs)

@[simp] theorem lexCmp_nil : lexCmp ([] : List α) [] = .eq := rfl

@[simp] theorem lexCmp_cons (a b : α) (as bs : List α) :
    lexCmp (a :: as) (b :: bs) = (cmp a b).then (lexCmp as bs) := rfl

theorem lexCmp_eq_lt {as bs : List α} : lexCmp as bs = .lt ↔ as < bs := by
  induction as generalizing bs with
  | nil => cases bs <;> simp [lexCmp]
  | cons a as ih =>
      cases bs with
      | nil => simp [lexCmp]
      | cons b bs =>
          rw [lexCmp_cons, Ordering.then_eq_lt, cmp_eq_lt_iff, cmp_eq_eq_iff, ih,
            List.cons_lt_cons_iff]

theorem lexCmp_eq_eq {as bs : List α} : lexCmp as bs = .eq ↔ as = bs := by
  induction as generalizing bs with
  | nil => cases bs <;> simp [lexCmp]
  | cons a as ih =>
      cases bs with
      | nil => simp [lexCmp]
      | cons b bs => rw [lexCmp_cons, Ordering.then_eq_eq, cmp_eq_eq_iff, ih, List.cons.injEq]

theorem lexCmp_swap (as bs : List α) : (lexCmp as bs).swap = lexCmp bs as := by
  induction as generalizing bs with
  | nil => cases bs <;> rfl
  | cons a as ih =>
      cases bs with
      | nil => rfl
      | cons b bs => rw [lexCmp_cons, lexCmp_cons, Ordering.swap_then, cmp_swap, ih]

/-- Prefixes of one length are compared first. -/
theorem lexCmp_append {as bs : List α} (h : as.length = bs.length) (xs ys : List α) :
    lexCmp (as ++ xs) (bs ++ ys) = (lexCmp as bs).then (lexCmp xs ys) := by
  induction as generalizing bs with
  | nil =>
      have hnil : bs = [] := List.eq_nil_of_length_eq_zero h.symm
      rw [hnil, lexCmp_nil, Ordering.eq_then, List.nil_append, List.nil_append]
  | cons a as ih =>
      cases bs with
      | nil => cases h
      | cons b bs =>
          have htail := ih (Nat.succ.inj h)
          rw [List.cons_append, List.cons_append, lexCmp_cons, lexCmp_cons, htail,
            Ordering.then_assoc]

theorem lexCmp_append_left (as xs ys : List α) :
    lexCmp (as ++ xs) (as ++ ys) = lexCmp xs ys := by
  rw [lexCmp_append rfl, lexCmp_eq_eq.mpr rfl, Ordering.eq_then]

theorem lexCmp_map {f : α → β} (hf : StrictMono f) (as bs : List α) :
    lexCmp (as.map f) (bs.map f) = lexCmp as bs := by
  induction as generalizing bs with
  | nil => cases bs <;> rfl
  | cons a as ih =>
      cases bs with
      | nil => rfl
      | cons b bs => rw [List.map_cons, List.map_cons, lexCmp_cons, lexCmp_cons, hf.cmp_map_eq, ih]

/-- Two pairs are ordered alike when both are smaller at the same time, and equal at the same
time. -/
theorem lexCmp_eq_iff {as bs : List α} {xs ys : List β} :
    lexCmp as bs = lexCmp xs ys ↔ (as < bs ↔ xs < ys) ∧ (as = bs ↔ xs = ys) := by
  rw [← lexCmp_eq_lt, ← lexCmp_eq_lt, ← lexCmp_eq_eq, ← lexCmp_eq_eq]
  cases lexCmp as bs <;> cases lexCmp xs ys <;> simp

end Lex

/-! ## Lists padded with zeros -/

/-- A list with zeros behind it, up to the length of another. -/
def padded (as bs : List Nat) : List Nat := as ++ List.replicate (bs.length - as.length) 0

def padCmp : List Nat → List Nat → Ordering
  | [], [] => .eq
  | [], b :: bs => (cmp 0 b).then (padCmp [] bs)
  | a :: as, [] => (cmp a 0).then (padCmp as [])
  | a :: as, b :: bs => (cmp a b).then (padCmp as bs)

theorem padded_cons (a b : Nat) (as bs : List Nat) :
    padded (a :: as) (b :: bs) = a :: padded as bs := by
  rw [padded, padded, List.length_cons, List.length_cons, Nat.add_sub_add_right, List.cons_append]

theorem padded_nil (as : List Nat) : padded as [] = as := by
  rw [padded, List.length_nil, Nat.zero_sub, List.replicate_zero, List.append_nil]

theorem nil_padded_cons (b : Nat) (bs : List Nat) : padded [] (b :: bs) = 0 :: padded [] bs := rfl

theorem padCmp_eq (as bs : List Nat) : padCmp as bs = lexCmp (padded as bs) (padded bs as) := by
  induction as generalizing bs with
  | nil =>
      induction bs with
      | nil => rw [padCmp, padded_nil, lexCmp_nil]
      | cons b bs ih =>
          rw [padCmp, ih, padded_nil, padded_nil, nil_padded_cons, lexCmp_cons]
  | cons a as ih =>
      cases bs with
      | nil =>
          rw [padCmp, ih, padded_nil, padded_nil, nil_padded_cons, lexCmp_cons]
      | cons b bs => rw [padCmp, ih, padded_cons, padded_cons, lexCmp_cons]

theorem padCmp_eq_lt {as bs : List Nat} : padCmp as bs = .lt ↔ padded as bs < padded bs as := by
  rw [padCmp_eq, lexCmp_eq_lt]

theorem padCmp_swap (as bs : List Nat) : (padCmp as bs).swap = padCmp bs as := by
  rw [padCmp_eq, padCmp_eq, lexCmp_swap]

theorem nil_padCmp_eq_lt {bs : List Nat} : padCmp [] bs = .lt ↔ ∃ b ∈ bs, 0 < b := by
  induction bs with
  | nil => simp [padCmp]
  | cons b bs ih =>
      rw [padCmp, Ordering.then_eq_lt, cmp_eq_lt_iff, cmp_eq_eq_iff, ih, List.exists_mem_cons_iff]
      constructor
      · rintro (hpos | ⟨_, hrest⟩)
        · exact .inl hpos
        · exact .inr hrest
      · rintro (hpos | hrest)
        · exact .inl hpos
        · exact (Nat.eq_zero_or_pos b).elim (fun hzero => .inr ⟨hzero.symm, hrest⟩) .inl

/-- A zero behind a list is like none. -/
theorem padCmp_zero_right (as : List Nat) : padCmp as [0] = padCmp as [] := by
  cases as with
  | nil => simp [padCmp]
  | cons a as => rw [padCmp, padCmp]

/-! ## Digit strings -/

section Digits

variable {base : Nat}

/-- The number a digit string spells. -/
def value : List (Fin base) → Nat
  | [] => 0
  | d :: ds => d * base ^ ds.length + value ds

theorem value_lt (ds : List (Fin base)) : value ds < base ^ ds.length := by
  induction ds with
  | nil => exact Nat.one_pos
  | cons d ds ih =>
      calc d * base ^ ds.length + value ds
          < d * base ^ ds.length + base ^ ds.length := by omega
        _ = (d + 1) * base ^ ds.length := by rw [Nat.succ_mul]
        _ ≤ base * base ^ ds.length := Nat.mul_le_mul_right _ d.isLt
        _ = base ^ (ds.length + 1) := by rw [pow_succ, Nat.mul_comm]

theorem value_append (ds es : List (Fin base)) :
    value (ds ++ es) = value ds * base ^ es.length + value es := by
  induction ds with
  | nil => rw [List.nil_append, value, Nat.zero_mul, Nat.zero_add]
  | cons d ds ih =>
      rw [List.cons_append, value, value, ih, List.length_append, pow_add, Nat.add_mul,
        Nat.mul_assoc, Nat.add_assoc]

theorem value_zeros_append {zs : List (Fin base)} (h : value zs = 0) (ds : List (Fin base)) :
    value (zs ++ ds) = value ds := by
  rw [value_append, h, Nat.zero_mul, Nat.zero_add]

/-- Digit strings of one length compare as their numbers. -/
theorem lexCmp_of_length {ds es : List (Fin base)} (h : ds.length = es.length) :
    lexCmp ds es = cmp (value ds) (value es) := by
  induction ds generalizing es with
  | nil =>
      have hnil : es = [] := List.eq_nil_of_length_eq_zero h.symm
      rw [hnil]
      exact (cmp_self_eq_eq _).symm
  | cons d ds ih =>
      cases es with
      | nil => cases h
      | cons e es =>
          have hlength : ds.length = es.length := Nat.succ.inj h
          have hds := value_lt ds
          have hes := value_lt es
          rw [lexCmp_cons, ih hlength, value, value, hlength]
          rw [hlength] at hds
          rcases lt_trichotomy d e with hlt | heq | hlt
          · have hstep : (d + 1) * base ^ es.length ≤ e * base ^ es.length :=
              Nat.mul_le_mul_right _ hlt
            rw [Nat.succ_mul] at hstep
            rw [hlt.cmp_eq_lt, Ordering.lt_then]
            exact (cmp_eq_lt_iff _ _ |>.mpr (by omega)).symm
          · rw [heq, cmp_self_eq_eq, Ordering.eq_then]
            exact cmp_add_left _ _ _ |>.symm
          · have hstep : (e + 1) * base ^ es.length ≤ d * base ^ es.length :=
              Nat.mul_le_mul_right _ hlt
            rw [Nat.succ_mul] at hstep
            rw [hlt.cmp_eq_gt, Ordering.gt_then]
            exact (cmp_eq_gt_iff _ _ |>.mpr (by omega)).symm

/-- A longer string for a number that is no larger starts lower. -/
theorem lexCmp_of_shorter {ds es : List (Fin base)} (h : ds.length < es.length)
    (hle : value es ≤ value ds) (hpos : 0 < value ds) (xs ys : List (Fin base)) :
    lexCmp (ds ++ xs) (es ++ ys) = .gt := by
  have htake : (es.take ds.length).length = ds.length := List.length_take_of_le h.le
  have hbase : 1 < base := by
    by_contra hsmall
    have hpow : base ^ ds.length ≤ 1 := pow_le_one₀ (Nat.zero_le _) (Nat.le_of_not_lt hsmall)
    have hvalue := value_lt ds
    omega
  have hsplit : value es =
      value (es.take ds.length) * base ^ (es.drop ds.length).length +
        value (es.drop ds.length) := by
    rw [← value_append, List.take_append_drop]
  have hdrop : 1 < base ^ (es.drop ds.length).length :=
    Nat.one_lt_pow (by rw [List.length_drop]; omega) hbase
  have hlow : value (es.take ds.length) < value ds := by
    by_contra hhigh
    have hmul : value ds * base ^ (es.drop ds.length).length ≤
        value (es.take ds.length) * base ^ (es.drop ds.length).length :=
      Nat.mul_le_mul_right _ (Nat.le_of_not_lt hhigh)
    have hgrow : value ds * 1 < value ds * base ^ (es.drop ds.length).length :=
      Nat.mul_lt_mul_of_pos_left hdrop hpos
    omega
  calc lexCmp (ds ++ xs) (es ++ ys)
      = lexCmp (ds ++ xs) (es.take ds.length ++ (es.drop ds.length ++ ys)) := by
        rw [← List.append_assoc, List.take_append_drop]
    _ = (cmp (value ds) (value (es.take ds.length))).then
          (lexCmp xs (es.drop ds.length ++ ys)) := by
        rw [lexCmp_append htake.symm, lexCmp_of_length htake.symm]
    _ = .gt := by rw [hlow.cmp_eq_gt, Ordering.gt_then]

/-- Of two strings of zeros the shorter one starts the longer one. -/
theorem zeros_eq_append {ds es : List (Fin base)} (hds : value ds = 0) (hes : value es = 0)
    (h : ds.length ≤ es.length) :
    es = ds ++ es.drop ds.length ∧ value (es.drop ds.length) = 0 := by
  have htake : (es.take ds.length).length = ds.length := List.length_take_of_le h
  have hsplit : value (es.take ds.length ++ es.drop ds.length) = 0 := by
    rw [List.take_append_drop, hes]
  have hpow : 0 < base ^ (es.drop ds.length).length := (Nat.zero_le _).trans_lt (value_lt _)
  rw [value_append, Nat.add_eq_zero_iff] at hsplit
  have hzero : value (es.take ds.length) = 0 :=
    (Nat.mul_eq_zero.mp hsplit.1).resolve_right hpow.ne'
  have hstart : es.take ds.length = ds := by
    rw [← lexCmp_eq_eq, lexCmp_of_length htake, hzero, hds, cmp_self_eq_eq]
  refine ⟨?_, hsplit.2⟩
  calc es = es.take ds.length ++ es.drop ds.length := (List.take_append_drop _ _).symm
    _ = ds ++ es.drop ds.length := by rw [hstart]

end Digits

end Madlib.Lib.Numeral
