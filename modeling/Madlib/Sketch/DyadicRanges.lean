import Mathlib
import Madlib.Lib.Dyadic

/-!
# Splitting a range into dyadic spans

`__find_ranges` of `countmin.py_in` cuts a range into spans, and
`__do_rangecount` looks every span up as one cell of one dyadic level.  Python
integers are unbounded; recursion is bounded by the depth `fuel`.
-/

namespace Madlib.Sketch

open Madlib.Lib.Dyadic

def maxInt64 : Int := 2 ^ 63 - 1

def minInt64 : Int := maxInt64 * (-1)

/-- The number of rounds of the loop of `intlog2`. -/
def halvings (n : Nat) : Nat := if n = 0 then 0 else halvings (n / 2) + 1
termination_by n
decreasing_by omega

def intlog2 (x : Int) : Int := (halvings x.toNat : Int) - 1

abbrev Span := Int × Int

def Span.contains (span : Span) (x : Int) : Bool := span.1 ≤ x ∧ x ≤ span.2

/-- The last branches of `__find_ranges_recursive`: the range is aligned on its left,
on its right, or it straddles a multiple of `powDyad`. -/
def splitRange (recurse : Int → Int → List Span → Option (List Span)) (bot top powDyad : Int)
    (r : List Span) : Option (List Span) :=
  if bot = minInt64 ∨ bot % powDyad = 0 then
    if top = maxInt64 then some (r ++ [(bot, maxInt64)])
    else
      let hi := if bot = minInt64 then bot + powDyad - 1 - 1 else bot + powDyad - 1
      recurse (hi + 1) top (r ++ [(bot, hi)])
  else if top = maxInt64 ∨ (top + 1) % powDyad = 0 then
    if bot = minInt64 then some (r ++ [(minInt64, top)])
    else
      let lo := if top = maxInt64 then top - powDyad + 1 + 1 else top - powDyad + 1
      recurse bot (lo - 1) (r ++ [(lo, top)])
  else do
    let powerOf2 := powDyad * (top / powDyad)
    let r ← recurse bot (powerOf2 - 1) r
    recurse powerOf2 top r

def findRangesRecursive : Nat → Int → Int → Int → List Span → Option (List Span)
  | 0, _, _, _, _ => none
  | fuel + 1, bot, top, power, r =>
      if top < bot ∨ power < 0 then some r
      else if top = bot then some (r ++ [(bot, bot)])
      else if 0 ≤ top ∧ bot < 0 then do
        let r ← findRangesRecursive fuel bot (-1) (power - 1) r
        findRangesRecursive fuel 0 top (power - 1) r
      else
        let width := if top = maxInt64 ∨ bot = minInt64 then top - bot + 1 + 1
          else top - bot + 1
        let dyad := intlog2 width
        if 62 < dyad then do
          let sign := if top < 0 then -1 else 1
          let r ← findRangesRecursive fuel bot (2 ^ 62 * sign - 1) 62 r
          findRangesRecursive fuel (2 ^ 62 * sign) top 62 r
        else
          let powDyad := 2 ^ dyad.toNat
          if powDyad = width ∧ bot % powDyad = 0 then some (r ++ [(bot, top)])
          else
            splitRange (fun bot top r => findRangesRecursive fuel bot top (power - 1) r) bot top
              (if powDyad = width then powDyad / 2 else powDyad) r

/-- The recursion is kicked off at power `RANGES - 1`. -/
def findRanges (fuel : Nat) (bot top : Int) : Option (List Span) :=
  findRangesRecursive fuel bot top 63 []

/-- The dyadic level and the value `__do_rangecount` looks a span up by. -/
def lookupCell (span : Span) : Cell :=
  if span.1 = minInt64 ∧ span.2 = -1 then ⟨63, -1⟩
  else if span.1 = 0 ∧ span.2 = maxInt64 then ⟨63, 0⟩
  else
    let width := span.2 - span.1 + 1
    let width := if span.1 = minInt64 then width + 1 else width
    let width := if span.2 = maxInt64 then width + 1 else width
    let dyad := (intlog2 width).toNat
    ⟨dyad, span.1 / 2 ^ dyad⟩

/-! ## Logarithms -/

theorem halvings_eq_log2 {n : Nat} (h : n ≠ 0) : halvings n = n.log2 + 1 := by
  induction n using Nat.strong_induction_on with
  | _ n ih =>
      rw [halvings, if_neg h, Nat.log2_def]
      by_cases htwo : 2 ≤ n
      · rw [if_pos htwo, ih (n / 2) (by omega) (by omega)]
      · obtain rfl : n = 1 := by omega
        simp [halvings]

theorem intlog2_eq {w : Int} {d : Nat} (hlo : 2 ^ d ≤ w) (hhi : w < 2 ^ (d + 1)) :
    intlog2 w = d := by
  have hpos := two_pow_pos d
  obtain ⟨n, rfl⟩ := Int.eq_ofNat_of_zero_le (show 0 ≤ w by omega)
  have hn : n ≠ 0 := by
    rintro rfl
    simp at hlo
    omega
  have hlog : n.log2 = d := (Nat.log2_eq_iff hn).mpr ⟨by exact_mod_cast hlo, by exact_mod_cast hhi⟩
  unfold intlog2
  rw [Int.toNat_natCast, halvings_eq_log2 hn, hlog]
  omega

/-! ## The cells of spans -/

/-- The bottom of a range, the smallest int64 standing for `-2^63`. -/
def virtualBot (bot : Int) : Int := if bot = minInt64 then -2 ^ 63 else bot

theorem virtualBot_of_lt {bot : Int} (h : minInt64 < bot) : virtualBot bot = bot := by
  unfold virtualBot
  rw [if_neg (by omega)]

theorem virtualBot_min : virtualBot minInt64 = -2 ^ 63 := if_pos rfl

theorem minInt64_eq : minInt64 = -2 ^ 63 + 1 := by
  unfold minInt64 maxInt64
  norm_num

theorem virtualBot_le (bot : Int) : virtualBot bot ≤ bot := by
  unfold virtualBot
  split
  · rw [‹bot = minInt64›, minInt64_eq]
    omega
  · exact le_refl bot

theorem le_virtualBot {bot : Int} (h : minInt64 ≤ bot) : -2 ^ 63 ≤ virtualBot bot := by
  have hval := minInt64_eq
  unfold virtualBot
  split <;> omega

theorem maxInt64_eq : maxInt64 = 2 ^ 63 - 1 := rfl

theorem ediv_eq_of_between {x p c : Int} (hp : 0 < p) (hlo : c * p ≤ x) (hhi : x < c * p + p) :
    x / p = c := by
  have hle := (Int.le_ediv_iff_mul_le (a := c) (b := x) hp).mpr hlo
  have hnext : (c + 1) * p = c * p + p := by ring
  have hlt := (Int.ediv_lt_iff_lt_mul (a := x) (b := c + 1) hp).mpr (by omega)
  omega

/-- A span aligned on its own length is looked up by the cell of the same integers. -/
theorem tiles_lookupCell {lo hi : Int} {d : Nat} (hdvd : 2 ^ d ∣ virtualBot lo)
    (hhi : hi = virtualBot lo + 2 ^ d - 1) (hmax : hi < maxInt64) (hmin : lo = minInt64 → 1 ≤ d) :
    Tiles Cell.contains [lookupCell (lo, hi)] (virtualBot lo) hi := by
  have hp := two_pow_pos d
  obtain ⟨c, hc⟩ := hdvd
  rw [Int.mul_comm] at hc
  have hpow : (2 : Int) ^ d < 2 ^ (d + 1) := by
    rw [two_pow_succ]
    omega
  unfold lookupCell
  by_cases hlo : lo = minInt64
  · have hd := hmin hlo
    rw [hlo, virtualBot_min] at hc hhi ⊢
    by_cases hleft : hi = -1
    · -- the full range left of 0
      rw [if_pos ⟨rfl, hleft⟩]
      exact tiles_cell (by norm_num) (by rw [hleft]; norm_num)
    · have hne : ¬ (minInt64 = 0 ∧ hi = maxInt64) := by
        rintro ⟨_, hhi⟩
        omega
      have hwidth : hi - minInt64 + 1 + 1 = 2 ^ d := by
        rw [minInt64_eq, hhi]
        ring
      have htwo : (2 : Int) ≤ 2 ^ d := by
        have hle : (2 : Int) ^ 1 ≤ 2 ^ d := pow_le_pow_right₀ (by omega) hd
        simpa using hle
      simp only [hleft, and_false, if_false, if_true, hne, if_neg (by omega : ¬ hi = maxInt64),
        hwidth, intlog2_eq (le_refl _) hpow, Int.toNat_natCast]
      have hdiv : minInt64 / 2 ^ d = c := ediv_eq_of_between hp (by rw [minInt64_eq]; omega)
        (by rw [minInt64_eq]; omega)
      rw [hdiv]
      exact tiles_cell hc hhi
  · have hvirtual : virtualBot lo = lo := if_neg hlo
    rw [hvirtual] at hc hhi ⊢
    have hwidth : hi - lo + 1 = 2 ^ d := by
      rw [hhi]
      ring
    have hright : ¬ (lo = 0 ∧ hi = maxInt64) := by
      rintro ⟨_, hhi⟩
      omega
    simp only [hlo, false_and, if_false, hright, if_neg (by omega : ¬ hi = maxInt64), hwidth,
      intlog2_eq (le_refl _) hpow, Int.toNat_natCast]
    rw [ediv_eq_of_between hp hc.ge (by omega)]
    exact tiles_cell hc hhi

theorem two_pow_sub {d : Nat} (hd : d ≤ 63) :
    (2 : Int) ^ 63 - 2 ^ d = (2 ^ (63 - d) - 1) * 2 ^ d := by
  have hsplit : (2 : Int) ^ 63 = 2 ^ (63 - d) * 2 ^ d := by
    rw [← pow_add]
    congr 1
    omega
  rw [hsplit]
  ring

theorem lookupCell_top {lo : Int} {d : Nat} (hlo : minInt64 < lo) (hzero : lo ≠ 0)
    (hwidth : 2 ^ d ≤ 2 ^ 63 - lo + 1) (hwidth' : 2 ^ 63 - lo + 1 < 2 ^ (d + 1)) :
    lookupCell (lo, maxInt64) = ⟨d, lo / 2 ^ d⟩ := by
  have hne : ¬ lo = minInt64 := by omega
  have heq : maxInt64 - lo + 1 + 1 = 2 ^ 63 - lo + 1 := by
    rw [maxInt64_eq]
    omega
  unfold lookupCell
  simp only [hne, hzero, false_and, if_false, if_true, heq, intlog2_eq hwidth hwidth',
    Int.toNat_natCast]

/-- At the top end a span keeps its cell if it is not too short: the extra one in its
width does not make it longer. -/
theorem tiles_lookupCell_max {d : Nat} (hd : 1 ≤ d) (hd' : d ≤ 62) :
    Tiles Cell.contains [lookupCell (2 ^ 63 - 2 ^ d, maxInt64)] (2 ^ 63 - 2 ^ d) maxInt64 := by
  have hval := minInt64_eq
  have hval' := maxInt64_eq
  have hp := two_pow_pos d
  have htwo : (2 : Int) ^ 1 ≤ 2 ^ d := pow_le_pow_right₀ (by omega) hd
  have hbig : (2 : Int) ^ d ≤ 2 ^ 62 := pow_le_pow_right₀ (by omega) hd'
  have hnext := two_pow_succ d
  have hc := two_pow_sub (d := d) (by omega)
  rw [lookupCell_top (d := d) (by omega) (by omega) (by omega) (by omega),
    ediv_eq_of_between hp hc.ge (by omega)]
  exact tiles_cell hc (by omega)

/-- One integer further up a span has a cell that starts below it. -/
theorem tiles_lookupCell_cut {d : Nat} (hd : 1 ≤ d) (hd' : d ≤ 62) :
    Tiles Cell.contains [lookupCell (2 ^ 63 - 2 ^ d + 1, maxInt64)] (2 ^ 63 - 2 ^ d) maxInt64 := by
  have hval := minInt64_eq
  have hval' := maxInt64_eq
  have hp := two_pow_pos d
  have htwo : (2 : Int) ^ 1 ≤ 2 ^ d := pow_le_pow_right₀ (by omega) hd
  have hbig : (2 : Int) ^ d ≤ 2 ^ 62 := pow_le_pow_right₀ (by omega) hd'
  have hnext := two_pow_succ d
  have hc := two_pow_sub (d := d) (by omega)
  rw [lookupCell_top (d := d) (by omega) (by omega) (by omega) (by omega),
    ediv_eq_of_between hp (c := 2 ^ (63 - d) - 1) (by omega) (by omega)]
  exact tiles_cell hc (by omega)

end Madlib.Sketch
