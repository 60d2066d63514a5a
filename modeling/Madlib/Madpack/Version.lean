import Madlib.Lib.Numeral

/-!
# Version numbers

`__get_rev_num` takes the single digits out of a version, so `main` compares the digits of two
versions one by one.  A version of the form `n1.n2...nk` is a list of digit strings.
-/

namespace Madlib.Madpack

open Madlib.Lib.Numeral

/-! ## The comparison of `main` -/

/-- `re.findall('[0-9]', rev)` -/
def findallDigit (rev : List Char) : List (List Char) :=
  (rev.filter fun c => '0' ≤ c ∧ c ≤ '9').map fun c => [c]

/-- `__get_rev_num`; a version that is no string counts as `0`. -/
def getRevNum : Option (List Char) → List (List Char)
  | none => [['0']]
  | some rev =>
      let num := findallDigit rev
      if num = [] then [['0']] else num

/-- The test before `install`, `update` and `reinstall`: "Current MADlib version already up to
date." -/
def alreadyUpToDate (rev dbrev : Option (List Char)) : Bool := getRevNum dbrev ≥ getRevNum rev

/-! ## Versions -/

structure Component where
  digits : List (Fin 10)
  digits_ne : digits ≠ []

structure Version where
  components : List Component
  components_ne : components ≠ []

def digit (d : Fin 10) : Char := Nat.digitChar d

def Version.text (v : Version) : List Char :=
  List.intercalate ['.'] (v.components.map fun c => c.digits.map digit)

def Version.parts (v : Version) : List (List (Fin 10)) := v.components.map Component.digits

/-- The components as integers. -/
def Version.numbers (v : Version) : List Nat := v.parts.map value

def Version.older (v w : Version) : Prop := padded v.numbers w.numbers < padded w.numbers v.numbers

def Version.same (v w : Version) : Prop := padded v.numbers w.numbers = padded w.numbers v.numbers

/-- The two versions compare as their components, so an upgrade is made and a downgrade is not. -/
structure ComparesVersions (v w : Version) : Prop where
  lt_iff : getRevNum (some v.text) < getRevNum (some w.text) ↔ v.older w
  eq_iff : getRevNum (some v.text) = getRevNum (some w.text) ↔ v.same w
  upgrade : v.older w → alreadyUpToDate (some w.text) (some v.text) = false
  downgrade : w.older v → alreadyUpToDate (some w.text) (some v.text) = true

/-! ## What `__get_rev_num` gives -/

theorem digit_range (d : Fin 10) : '0' ≤ digit d ∧ digit d ≤ '9' := by
  fin_cases d <;> decide

theorem strictMono_digit : StrictMono fun d => [digit d] := by
  intro d e
  fin_cases d <;> fin_cases e <;> decide

theorem filter_intercalate (parts : List (List (Fin 10))) :
    (List.intercalate ['.'] (parts.map fun part => part.map digit)).filter
      (fun c => '0' ≤ c ∧ c ≤ '9') = parts.flatten.map digit := by
  have hpart : ∀ part : List (Fin 10),
      (part.map digit).filter (fun c => '0' ≤ c ∧ c ≤ '9') = part.map digit := by
    intro part
    rw [List.filter_eq_self]
    intro c hc
    have ⟨d, _, hd⟩ := List.mem_map.mp hc
    rw [← hd]
    exact decide_eq_true (digit_range d)
  induction parts with
  | nil => rfl
  | cons part parts ih =>
      cases parts with
      | nil => simpa using hpart part
      | cons next rest =>
          rw [List.map_cons] at ih
          rw [List.map_cons, List.map_cons, List.intercalate_cons_cons, List.filter_append,
            List.filter_append, hpart, ih, List.flatten_cons, List.map_append]
          simp

theorem Version.parts_ne (v : Version) : ∀ part ∈ v.parts, part ≠ [] := by
  intro part hpart
  have ⟨c, _, hc⟩ := List.mem_map.mp hpart
  rw [← hc]
  exact c.digits_ne

theorem Version.flatten_ne (v : Version) : v.parts.flatten ≠ [] := by
  intro hnil
  have hempty := List.flatten_eq_nil_iff.mp hnil
  have hparts : v.parts = [] :=
    List.eq_nil_iff_forall_not_mem.mpr fun part hpart => v.parts_ne part hpart (hempty part hpart)
  exact v.components_ne (List.map_eq_nil_iff.mp hparts)

/-- The dots are dropped. -/
theorem getRevNum_text (v : Version) :
    getRevNum (some v.text) = v.parts.flatten.map fun d => [digit d] := by
  have hfound : findallDigit v.text = v.parts.flatten.map fun d => [digit d] := by
    have hfilter := filter_intercalate v.parts
    rw [Version.parts, List.map_map] at hfilter
    rw [findallDigit, Version.text]
    exact (congrArg _ hfilter).trans (List.map_map ..)
  unfold getRevNum
  dsimp only
  rw [hfound, if_neg]
  rw [List.map_eq_nil_iff]
  exact v.flatten_ne

theorem lexCmp_getRevNum (v w : Version) :
    lexCmp (getRevNum (some v.text)) (getRevNum (some w.text)) =
      lexCmp v.parts.flatten w.parts.flatten := by
  rw [getRevNum_text, getRevNum_text]
  exact lexCmp_map strictMono_digit _ _

theorem alreadyUpToDate_iff (rev dbrev : Option (List Char)) :
    alreadyUpToDate rev dbrev = true ↔ ¬ getRevNum dbrev < getRevNum rev := by
  unfold alreadyUpToDate
  rw [decide_eq_true_iff]
  exact not_lt.symm

/-- The decisions of `main` follow from the order of the digits. -/
theorem comparesVersions_iff {v w : Version} : ComparesVersions v w ↔
    lexCmp v.parts.flatten w.parts.flatten = padCmp v.numbers w.numbers := by
  rw [padCmp_eq, ← lexCmp_getRevNum, lexCmp_eq_iff]
  constructor
  · intro h
    exact ⟨h.lt_iff, h.eq_iff⟩
  · rintro ⟨hlt, heq⟩
    refine ⟨hlt, heq, fun holder => ?_, fun holder => ?_⟩
    · rw [← Bool.not_eq_true, alreadyUpToDate_iff, not_not]
      exact hlt.mpr holder
    · rw [alreadyUpToDate_iff]
      intro hless
      exact lt_asymm (hlt.mp hless) holder

/-! ## When the digits are in the order of the numbers -/

/-- Zeros left over from a component go in front of the next one. -/
def carry (zeros : List (Fin 10)) : List (List (Fin 10)) → List (List (Fin 10))
  | [] => [zeros]
  | part :: parts => (zeros ++ part) :: parts

theorem length_carry (zeros : List (Fin 10)) (parts : List (List (Fin 10))) :
    (carry zeros parts).length ≤ parts.length + 1 := by
  cases parts with
  | nil => exact le_refl 1
  | cons part parts => exact Nat.le_succ _

/-- The first component has fewer digits: it is the larger number, or a smaller one whose version
has the smaller digits from there on, or the same number and the other version goes on with
smaller components. -/
def ShorterKept (a : List (Fin 10)) (as : List (List (Fin 10))) (b : List (Fin 10))
    (bs : List (List (Fin 10))) : Prop :=
  (value a < value b → (a :: as).flatten < (b :: bs).flatten) ∧
  (value a = value b →
    padded (bs.map value) (as.map value) < padded (as.map value) (bs.map value))

/-- The first components that differ have the same number of digits, or their digits are in
order by chance; and if a version ends first, the other one is not just zeros from there on. -/
def OrderKept : List (List (Fin 10)) → List (List (Fin 10)) → Prop
  | [], bs => bs = [] ∨ ∃ b ∈ bs, 0 < value b
  | a :: as, [] => ∃ c ∈ a :: as, 0 < value c
  | a :: as, b :: bs =>
      if a.length = b.length then a = b → OrderKept as bs
      else if value a = 0 ∧ value b = 0 then
        if a.length < b.length then OrderKept as (carry (b.drop a.length) bs)
        else OrderKept (carry (a.drop b.length) as) bs
      else if a.length < b.length then ShorterKept a as b bs
      else ShorterKept b bs a as
termination_by as bs => as.length + bs.length
decreasing_by
  · simp; omega
  · have hlength := length_carry (b.drop a.length) bs
    simp; omega
  · have hlength := length_carry (a.drop b.length) as
    simp; omega

theorem flatten_carry (zeros : List (Fin 10)) (parts : List (List (Fin 10))) :
    (carry zeros parts).flatten = zeros ++ parts.flatten := by
  cases parts with
  | nil => rfl
  | cons part parts => rw [carry, List.flatten_cons, List.flatten_cons, List.append_assoc]

theorem carry_ne {zeros : List (Fin 10)} (h : zeros ≠ []) {parts : List (List (Fin 10))}
    (hparts : ∀ part ∈ parts, part ≠ []) : ∀ part ∈ carry zeros parts, part ≠ [] := by
  cases parts with
  | nil =>
      rw [carry, List.forall_mem_singleton]
      exact h
  | cons part parts =>
      rw [carry, List.forall_mem_cons]
      exact ⟨List.append_ne_nil_of_left_ne_nil h part, (List.forall_mem_cons.mp hparts).2⟩

theorem padCmp_carry {zeros : List (Fin 10)} (h : value zeros = 0) (ns : List Nat)
    (parts : List (List (Fin 10))) :
    padCmp ns ((carry zeros parts).map value) = padCmp ns (parts.map value) := by
  cases parts with
  | nil =>
      rw [carry, List.map_singleton, h, List.map_nil]
      exact padCmp_zero_right ns
  | cons part parts => rw [carry, List.map_cons, List.map_cons, value_zeros_append h]

theorem shorterKept_iff {a b : List (Fin 10)} (as bs : List (List (Fin 10)))
    (hshorter : a.length < b.length) (hzero : ¬ (value a = 0 ∧ value b = 0)) :
    lexCmp (a :: as).flatten (b :: bs).flatten =
        padCmp ((a :: as).map value) ((b :: bs).map value) ↔ ShorterKept a as b bs := by
  unfold ShorterKept
  rw [List.map_cons, List.map_cons, padCmp]
  rcases lt_trichotomy (value a) (value b) with hlt | heq | hlt
  · rw [hlt.cmp_eq_lt, Ordering.lt_then, lexCmp_eq_lt]
    simp [hlt, hlt.ne]
  · have hlarger : lexCmp (a :: as).flatten (b :: bs).flatten = .gt :=
      lexCmp_of_shorter hshorter heq.ge (by omega) _ _
    rw [hlarger, heq, cmp_self_eq_eq, Ordering.eq_then, ← padCmp_eq_lt,
      ← padCmp_swap (as.map value)]
    cases padCmp (as.map value) (bs.map value) <;> simp
  · have hlarger : lexCmp (a :: as).flatten (b :: bs).flatten = .gt :=
      lexCmp_of_shorter hshorter hlt.le (by omega) _ _
    rw [hlarger, hlt.cmp_eq_gt, Ordering.gt_then]
    simp [hlt.not_gt, hlt.ne']

/-- Of two zeros the longer one hands its other zeros on. -/
theorem compare_zeros {a b : List (Fin 10)} (as bs : List (List (Fin 10))) (ha : value a = 0)
    (hb : value b = 0) (hshorter : a.length < b.length) :
    lexCmp (a :: as).flatten (b :: bs).flatten =
        lexCmp as.flatten (carry (b.drop a.length) bs).flatten ∧
      padCmp ((a :: as).map value) ((b :: bs).map value) =
        padCmp (as.map value) ((carry (b.drop a.length) bs).map value) := by
  have ⟨happend, hzeros⟩ := zeros_eq_append ha hb hshorter.le
  constructor
  · calc lexCmp (a :: as).flatten (b :: bs).flatten
        = lexCmp (a ++ as.flatten) (a ++ (b.drop a.length ++ bs.flatten)) := by
          rw [← List.append_assoc, ← happend, List.flatten_cons, List.flatten_cons]
      _ = lexCmp as.flatten (carry (b.drop a.length) bs).flatten := by
          rw [lexCmp_append_left, flatten_carry]
  · rw [padCmp_carry hzeros, List.map_cons, List.map_cons, padCmp, ha, hb, cmp_self_eq_eq,
      Ordering.eq_then]

/-- The two orders agree on a pair when they agree on it the other way round. -/
theorem compare_swap (as bs : List (List (Fin 10))) :
    lexCmp as.flatten bs.flatten = padCmp (as.map value) (bs.map value) ↔
      lexCmp bs.flatten as.flatten = padCmp (bs.map value) (as.map value) := by
  rw [← lexCmp_swap as.flatten, ← padCmp_swap (as.map value), Ordering.swap_inj]

theorem nil_compare_iff {bs : List (List (Fin 10))} (hbs : ∀ part ∈ bs, part ≠ []) :
    lexCmp [] bs.flatten = padCmp [] (bs.map value) ↔ bs = [] ∨ ∃ b ∈ bs, 0 < value b := by
  cases bs with
  | nil => simp [padCmp]
  | cons b bs =>
      have hb : b ≠ [] := hbs b List.mem_cons_self
      have hless : lexCmp [] (b :: bs).flatten = .lt := by
        rw [lexCmp_eq_lt, List.flatten_cons]
        cases b with
        | nil => exact absurd rfl hb
        | cons d ds => exact List.nil_lt_cons d _
      rw [hless, eq_comm, nil_padCmp_eq_lt, or_iff_right (List.cons_ne_nil b bs)]
      simp

/-- The digits of two lists of components compare as the numbers exactly where the order is
kept. -/
theorem orderKept_iff {as bs : List (List (Fin 10))} (has : ∀ part ∈ as, part ≠ [])
    (hbs : ∀ part ∈ bs, part ≠ []) :
    lexCmp as.flatten bs.flatten = padCmp (as.map value) (bs.map value) ↔ OrderKept as bs := by
  induction as, bs using OrderKept.induct with
  | case1 bs =>
      rw [OrderKept]
      exact nil_compare_iff hbs
  | case2 a as =>
      rw [OrderKept, compare_swap]
      exact (nil_compare_iff has).trans (or_iff_right (List.cons_ne_nil a as))
  | case3 a as b bs hlength ih =>
      have hrest := ih (List.forall_mem_cons.mp has).2 (List.forall_mem_cons.mp hbs).2
      rw [OrderKept, if_pos hlength, ← hrest, List.flatten_cons, List.flatten_cons,
        lexCmp_append hlength, lexCmp_of_length hlength, List.map_cons, List.map_cons, padCmp,
        ← lexCmp_eq_eq, lexCmp_of_length hlength]
      cases cmp (value a) (value b) <;> simp
  | case4 a as b bs hlength hzero hshorter ih =>
      have hleft : b.drop a.length ≠ [] := by
        rw [Ne, List.drop_eq_nil_iff]
        exact hshorter.not_ge
      have hrest := ih (List.forall_mem_cons.mp has).2
        (carry_ne hleft (List.forall_mem_cons.mp hbs).2)
      obtain ⟨hdigits, hnumbers⟩ := compare_zeros as bs hzero.1 hzero.2 hshorter
      rw [OrderKept, if_neg hlength, if_pos hzero, if_pos hshorter, hdigits, hnumbers]
      exact hrest
  | case5 a as b bs hlength hzero hlonger ih =>
      have hshorter : b.length < a.length := by omega
      have hleft : a.drop b.length ≠ [] := by
        rw [Ne, List.drop_eq_nil_iff]
        exact hshorter.not_ge
      have hrest := ih (carry_ne hleft (List.forall_mem_cons.mp has).2)
        (List.forall_mem_cons.mp hbs).2
      obtain ⟨hdigits, hnumbers⟩ := compare_zeros bs as hzero.2 hzero.1 hshorter
      rw [OrderKept, if_neg hlength, if_pos hzero, if_neg hlonger, compare_swap, hdigits, hnumbers,
        compare_swap]
      exact hrest
  | case6 a as b bs hlength hzero hshorter =>
      rw [OrderKept, if_neg hlength, if_neg hzero, if_pos hshorter]
      exact shorterKept_iff as bs hshorter hzero
  | case7 a as b bs hlength hzero hlonger =>
      rw [OrderKept, if_neg hlength, if_neg hzero, if_neg hlonger, compare_swap]
      exact shorterKept_iff bs as (by omega) (fun h => hzero h.symm)

/-- `__get_rev_num` orders two versions as their components exactly where the digits are in the
order of the numbers. -/
theorem getRevNum_compares_iff (v w : Version) :
    ComparesVersions v w ↔ OrderKept v.parts w.parts :=
  comparesVersions_iff.trans (orderKept_iff v.parts_ne w.parts_ne)

def zeroDotNine : Version := ⟨[⟨[0], by decide⟩, ⟨[9], by decide⟩], by decide⟩

def zeroDotTen : Version := ⟨[⟨[0], by decide⟩, ⟨[1, 0], by decide⟩], by decide⟩

/-- The upgrade from 0.9 to 0.10 is refused. -/
theorem getRevNum_not_compares_ten :
    zeroDotNine.text = ['0', '.', '9'] ∧ zeroDotTen.text = ['0', '.', '1', '0'] ∧
      zeroDotNine.older zeroDotTen ∧
      alreadyUpToDate (some zeroDotTen.text) (some zeroDotNine.text) = true ∧
      ¬ ComparesVersions zeroDotNine zeroDotTen := by
  have holder : zeroDotNine.older zeroDotTen := by
    unfold Version.older
    decide
  have hrefused : alreadyUpToDate (some zeroDotTen.text) (some zeroDotNine.text) = true := by
    decide
  refine ⟨by decide, by decide, holder, hrefused, fun h => ?_⟩
  have haccepted := h.upgrade holder
  rw [hrefused] at haccepted
  cases haccepted

end Madlib.Madpack
