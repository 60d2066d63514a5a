import Madlib.Lib.Bisection
import Madlib.Lib.Rounding
import Madlib.Sketch.RangeCount

/-!
# Centiles of a sketch

`__do_centile` of `countmin.py_in` looks for a centile by bisection in the domain of the values:
63 rounds move the guess by `2 ^ 62`, `2 ^ 61` and so on down to 1, unless a guess has exactly as
many values up to it as are wanted.  The last guess is returned unchecked.  The division by 100.0
rounds to a double; `print` for a centile out of bounds is left out.
-/

namespace Madlib.Sketch

open Madlib.Lib.Bisection Madlib.Lib.Dyadic Madlib.Lib.MachineInt Madlib.Lib.Rounding

/-- `total * intcentile/100.0` -/
def centileCnt (total intcentile : Int) : ℚ :=
  nearest (nearest ((total * intcentile : Int) : ℚ) / 100)

/-- The loop, by the rounds that are left. -/
def centileLoop (rangecount : Int → Option Int) (cnt : ℚ) :
    Nat → Int → Int → Int → Option Int
  | 0, _, _, curguess => some curguess
  | rounds + 1, loguess, higuess, curguess =>
      if 1 < higuess - loguess then do
        let curcount ← rangecount curguess
        if (curcount : ℚ) = cnt then some curguess
        else if cnt < curcount then
          centileLoop rangecount cnt rounds loguess curguess
            (loguess + (curguess - loguess) / 2)
        else
          centileLoop rangecount cnt rounds curguess higuess
            (higuess - (higuess - curguess) / 2)
      else some curguess

def doCentile (fuel : Nat) (md5 : Md5) (allSketches : List UInt8) (intcentile total : Int) :
    Option Int :=
  centileLoop (doRangecount fuel md5 allSketches minInt64) (centileCnt total intcentile) (64 - 1)
    minInt64 maxInt64 0

/-! ## The search -/

/-- The bounds are those of a bisection by powers of two, cut off at both ends. -/
theorem centileLoop_eq {rangecount : Int → Option Int} {count : Int → Int} (cnt : ℚ)
    (hcount : ∀ top, minInt64 ≤ top → top ≤ maxInt64 → rangecount top = some (count top))
    (rounds : Nat) (guess : Int) (hlo : -2 ^ 63 ≤ guess - 2 ^ rounds)
    (hhi : guess + 2 ^ rounds ≤ 2 ^ 63) :
    centileLoop rangecount cnt rounds (max (guess - 2 ^ rounds) minInt64)
        (min (guess + 2 ^ rounds) maxInt64) guess =
      some (bisect (fun top => (count top : ℚ)) cnt rounds guess) := by
  have hmin := minInt64_eq
  have hmax := maxInt64_eq
  induction rounds generalizing guess with
  | zero => rfl
  | succ rounds ih =>
      let counts := fun top => (count top : ℚ)
      have hdouble := two_pow_halves rounds
      have hpos : (0 : Int) < 2 ^ rounds := by positivity
      have hleft := ih (guess - 2 ^ rounds)
      have hright := ih (guess + 2 ^ rounds)
      have hgt : cnt < counts guess → bisect counts cnt (rounds + 1) guess =
          bisect counts cnt rounds (guess - 2 ^ rounds) := bisect_of_gt
      have hlt : counts guess < cnt → bisect counts cnt (rounds + 1) guess =
          bisect counts cnt rounds (guess + 2 ^ rounds) := bisect_of_lt
      generalize (2 : Int) ^ rounds = step at hdouble hpos hleft hright hgt hlt
      rw [hdouble] at hlo hhi ⊢
      have hwide : 1 < min (guess + (step + step)) maxInt64 -
          max (guess - (step + step)) minInt64 := by omega
      rw [centileLoop, if_pos hwide, hcount guess (by omega) (by omega), Option.bind_eq_bind,
        Option.bind_some]
      change _ = some (bisect counts cnt (rounds + 1) guess)
      rcases lt_trichotomy (counts guess) cnt with hlow | heq | hhigh
      · have hnext : min (guess + (step + step)) maxInt64 -
            (min (guess + (step + step)) maxInt64 - guess) / 2 = guess + step := by omega
        have hcut : max (guess + step - step) minInt64 = guess := by omega
        have hcut' : min (guess + step + step) maxInt64 =
            min (guess + (step + step)) maxInt64 := by omega
        have hrest := hright (by omega) (by omega)
        rw [hcut, hcut'] at hrest
        rw [if_neg (ne_of_lt hlow), if_neg (not_lt_of_gt hlow), hnext, hrest, hlt hlow]
      · rw [if_pos heq, bisect_of_eq heq]
      · have hnext : max (guess - (step + step)) minInt64 +
            (guess - max (guess - (step + step)) minInt64) / 2 = guess - step := by omega
        have hcut : min (guess - step + step) maxInt64 = guess := by omega
        have hcut' : max (guess - step - step) minInt64 =
            max (guess - (step + step)) minInt64 := by omega
        have hrest := hleft (by omega) (by omega)
        rw [hcut, hcut'] at hrest
        rw [if_neg (ne_of_gt hhigh), if_pos hhigh, hnext, hrest, hgt hhigh]

theorem doCentile_eq {fuel : Nat} {md5 : Md5} {allSketches : List UInt8} {count : Int → Int}
    (hcount : ∀ top, minInt64 ≤ top → top ≤ maxInt64 →
      doRangecount fuel md5 allSketches minInt64 top = some (count top)) (intcentile total : Int) :
    doCentile fuel md5 allSketches intcentile total =
      some (bisect (fun top => (count top : ℚ)) (centileCnt total intcentile) 63 0) := by
  have hmin := minInt64_eq
  have hmax := maxInt64_eq
  have hloop := centileLoop_eq (centileCnt total intcentile) hcount 63 0 (by norm_num)
    (by norm_num)
  have hlo : max ((0 : Int) - 2 ^ 63) minInt64 = minInt64 := by omega
  have hhi : min ((0 : Int) + 2 ^ 63) maxInt64 = maxInt64 := by omega
  rw [hlo, hhi] at hloop
  exact hloop

/-! ## The count that is looked for -/

/-- The part of the values a centile splits off. -/
def share (total intcentile : Int) : ℚ := ((total * intcentile : Int) : ℚ) / 100

/-- Two roundings keep the count between none and all of the values. -/
theorem centileCnt_bounds {total intcentile : Int} (htotal : 0 < total) (hlo : 1 ≤ intcentile)
    (hhi : intcentile ≤ 99) :
    0 < centileCnt total intcentile ∧ centileCnt total intcentile < total := by
  have hpos : (0 : ℚ) < ((total * intcentile : Int) : ℚ) := by
    have hmul : 0 < total * intcentile := by positivity
    exact_mod_cast hmul
  have hle : ((total * intcentile : Int) : ℚ) ≤ 99 * total := by
    have hmul : total * intcentile ≤ 99 * total := by nlinarith
    exact_mod_cast hmul
  have htotal' : (0 : ℚ) < total := by exact_mod_cast htotal
  unfold centileCnt
  generalize ((total * intcentile : Int) : ℚ) = product at hpos hle
  have hfirst := nearest_pos hpos
  have hquotient : 0 < nearest product / 100 := by positivity
  have hsecond := nearest_pos hquotient
  have herror := abs_nearest_sub_mul_le product
  have herror' := abs_nearest_sub_mul_le (nearest product / 100)
  rw [abs_of_pos hpos] at herror
  rw [abs_of_pos hquotient] at herror'
  have hup := le_abs_self (nearest product - product)
  have hup' := le_abs_self (nearest (nearest product / 100) - nearest product / 100)
  exact ⟨hsecond, by linarith⟩

/-- Up to `2 ^ 53` the rounding does not move the count past an integer. -/
theorem centileCnt_compare {total intcentile : Int} (hpos : 0 ≤ total * intcentile)
    (hlt : total * intcentile < 2 ^ 53) (k : Int) :
    ((k : ℚ) < centileCnt total intcentile ↔ (k : ℚ) < share total intcentile) ∧
      ((k : ℚ) = centileCnt total intcentile ↔ (k : ℚ) = share total intcentile) := by
  have hkept : nearest ((total * intcentile : Int) : ℚ) = ((total * intcentile : Int) : ℚ) := by
    apply nearest_intCast
    rwa [abs_of_nonneg hpos]
  unfold centileCnt
  rw [hkept]
  change (_ < nearest (share total intcentile) ↔ _) ∧ (_ = nearest (share total intcentile) ↔ _)
  have hshare : share total intcentile * 100 = ((total * intcentile : Int) : ℚ) := by
    unfold share
    ring
  have hnonneg : (0 : ℚ) ≤ ((total * intcentile : Int) : ℚ) := by exact_mod_cast hpos
  have hsmall : ((total * intcentile : Int) : ℚ) < 2 ^ 53 := by exact_mod_cast hlt
  have hshare' : 0 ≤ share total intcentile := by linarith
  have herror := abs_nearest_sub_mul_le (share total intcentile)
  rw [abs_of_nonneg hshare'] at herror
  have hnear : |nearest (share total intcentile) - share total intcentile| < 1 / 100 := by linarith
  have ⟨hdown, hup⟩ := abs_lt.mp hnear
  generalize total * intcentile = product at hshare hsmall hpos hlt
  rcases lt_trichotomy (k * 100) product with hbelow | heq | habove
  · have hgap : (k : ℚ) * 100 + 1 ≤ (product : ℚ) := by exact_mod_cast hbelow
    constructor
    · exact iff_of_true (by linarith) (by linarith)
    · exact iff_of_false (by intro h; linarith) (by intro h; linarith)
  · have hmet : share total intcentile = k := by
      have hcast : (k : ℚ) * 100 = (product : ℚ) := by exact_mod_cast heq
      linarith
    have hinteger : nearest (k : ℚ) = k := by
      apply nearest_intCast
      rw [abs_lt]
      omega
    rw [hmet, hinteger]
    exact ⟨Iff.rfl, Iff.rfl⟩
  · have hgap : (product : ℚ) + 1 ≤ (k : ℚ) * 100 := by exact_mod_cast habove
    constructor
    · exact iff_of_false (by intro h; linarith) (by intro h; linarith)
    · exact iff_of_false (by intro h; linarith) (by intro h; linarith)

/-! ## Values up to a place -/

/-- `#{x <= v}` -/
def countLe (stream : List Int64) (v : Int) : Nat := stream.countP fun x => x.toInt ≤ v

/-- `#{x < v}` -/
def countLt (stream : List Int64) (v : Int) : Nat := stream.countP fun x => x.toInt < v

theorem countLt_eq (stream : List Int64) (v : Int) : countLt stream v = countLe stream (v - 1) := by
  unfold countLt countLe
  congr 1
  ext x
  rw [decide_eq_decide]
  omega

theorem countLe_mono (stream : List Int64) : Monotone (countLe stream) := by
  intro v w h
  apply List.countP_mono_left
  intro x _ hx
  have hle : x.toInt ≤ v := of_decide_eq_true hx
  exact decide_eq_true (le_trans hle h)

theorem countLe_of_max_le {stream : List Int64} {v : Int} (h : maxInt64 ≤ v) :
    countLe stream v = stream.length := by
  have hmax := maxInt64_eq
  unfold countLe
  rw [List.countP_eq_length]
  intro x _
  have hlt := x.toInt_lt
  exact decide_eq_true (by omega)

/-- The smallest int64 is left out of the domain. -/
def InDomain (stream : List Int64) : Prop := ∀ x ∈ stream, minInt64 ≤ x.toInt

theorem countLe_of_lt_min {stream : List Int64} (hdomain : InDomain stream) {v : Int}
    (h : v < minInt64) : countLe stream v = 0 := by
  unfold countLe
  rw [List.countP_eq_zero]
  intro x hx
  have hle := hdomain x hx
  rw [decide_eq_true_iff]
  omega

theorem countInRange_min {stream : List Int64} (hdomain : InDomain stream) (v : Int) :
    countInRange stream minInt64 v = countLe stream v := by
  unfold countInRange countLe
  apply List.countP_congr
  intro x hx
  have hle := hdomain x hx
  rw [decide_eq_true_iff, decide_eq_true_iff]
  exact and_iff_right hle

/-! ## Centiles -/

def IsCentile (stream : List Int64) (intcentile v : Int) : Prop :=
  share stream.length intcentile ≤ countLe stream v ∧
    (countLt stream v : ℚ) ≤ share stream.length intcentile

/-- The values up to `p` are the first to be as many as are looked for.  If there are more, `p` has
to be odd.  What else is asked for is true where nothing is rounded. -/
def FindsCentile (stream : List Int64) (intcentile : Int) : Prop :=
  let cnt := centileCnt stream.length intcentile
  let exact := share stream.length intcentile
  ∃ p, (countLt stream p : ℚ) < cnt ∧ cnt ≤ countLe stream p ∧
    if (countLe stream p : ℚ) = cnt then
      exact ≤ cnt ∧ (countLt stream p : ℚ) ≤ exact ∧
        (exact = cnt ∨ Coarsest (fun v => (countLe stream v : ℚ)) cnt p)
    else if Odd p then (countLt stream p : ℚ) ≤ exact ∧ exact ≤ countLe stream p
    else (countLt stream (p - 1) : ℚ) ≤ exact ∧ exact ≤ countLe stream (p - 1)

section

variable {stream : List Int64} {cnt exact : ℚ}

theorem countLe_cast_mono (stream : List Int64) : Monotone fun v => (countLe stream v : ℚ) :=
  fun _ _ h => Nat.cast_le.mpr (countLe_mono stream h)

theorem min_le_of_reached (hdomain : InDomain stream) (hpos : 0 < cnt) {v : Int}
    (h : cnt ≤ countLe stream v) : minInt64 ≤ v := by
  by_contra hlt
  rw [countLe_of_lt_min hdomain (not_le.mp hlt), Nat.cast_zero] at h
  exact absurd hpos (not_lt.mpr h)

theorem lt_max_of_count_le (hlt : cnt < stream.length) {v : Int}
    (h : (countLe stream v : ℚ) ≤ cnt) : v < maxInt64 := by
  by_contra hge
  rw [countLe_of_max_le (not_lt.mp hge)] at h
  exact absurd hlt (not_lt.mpr h)

theorem exists_first (hdomain : InDomain stream) (hpos : 0 < cnt) (hlt : cnt < stream.length) :
    ∃ p, (countLt stream p : ℚ) < cnt ∧ cnt ≤ countLe stream p := by
  have hreached : cnt ≤ countLe stream maxInt64 := by
    rw [countLe_of_max_le (le_refl _)]
    exact le_of_lt hlt
  have ⟨p, hp, hleast⟩ := Int.exists_least_of_bdd
    ⟨minInt64, fun v hv => min_le_of_reached hdomain hpos hv⟩ ⟨maxInt64, hreached⟩
  refine ⟨p, ?_, hp⟩
  by_contra hge
  rw [countLt_eq] at hge
  have hprevious := hleast (p - 1) (not_lt.mp hge)
  omega

/-- Rounded up, the count that is looked for is met at a centile only where it is met first. -/
theorem coarsest_isCentile_iff {p v : Int} (hbelow : (countLt stream p : ℚ) < cnt)
    (hreached : cnt ≤ countLe stream p)
    (hv : Coarsest (fun v => (countLe stream v : ℚ)) cnt v) :
    (exact ≤ countLe stream v ∧ (countLt stream v : ℚ) ≤ exact) ↔
      exact ≤ cnt ∧ (countLt stream p : ℚ) ≤ exact ∧
        (exact = cnt ∨ Coarsest (fun v => (countLe stream v : ℚ)) cnt p) := by
  have hmono := countLe_cast_mono stream
  have hmet : (countLe stream v : ℚ) = cnt := hv.1
  have hle : p ≤ v := by
    by_contra hlow
    have hcount : (countLe stream v : ℚ) ≤ countLe stream (p - 1) := hmono (by omega)
    rw [countLt_eq] at hbelow
    linarith
  rw [hmet]
  constructor
  · intro ⟨hexact, hbefore⟩
    have hstep : (countLt stream p : ℚ) ≤ countLt stream v := by
      rw [countLt_eq, countLt_eq]
      exact hmono (by omega)
    refine ⟨hexact, le_trans hstep hbefore, ?_⟩
    rcases eq_or_lt_of_le hexact with heq | hless
    · exact .inl heq
    · have hsame : v = p := by
        by_contra hne
        have hcount : (countLe stream p : ℚ) ≤ countLt stream v := by
          rw [countLt_eq]
          exact hmono (by omega)
        linarith
      exact .inr (hsame ▸ hv)
  · intro ⟨hexact, hbefore, hwhich⟩
    refine ⟨hexact, ?_⟩
    rcases hwhich with heq | hp
    · have hprevious : (countLt stream v : ℚ) ≤ countLe stream v := by
        rw [countLt_eq]
        exact hmono (by omega)
      rw [heq, ← hmet]
      exact hprevious
    · rw [hv.unique hp]
      exact hbefore

/-- What the search ends at is a centile under the condition on the first place with enough values
up to it. -/
theorem isCentile_bisect_iff (hdomain : InDomain stream) (hpos : 0 < cnt)
    (hlt : cnt < stream.length) {p : Int} (hbelow : (countLt stream p : ℚ) < cnt)
    (hreached : cnt ≤ countLe stream p) :
    (exact ≤ countLe stream (bisect (fun v => (countLe stream v : ℚ)) cnt 63 0) ∧
        (countLt stream (bisect (fun v => (countLe stream v : ℚ)) cnt 63 0) : ℚ) ≤ exact) ↔
      if (countLe stream p : ℚ) = cnt then
        exact ≤ cnt ∧ (countLt stream p : ℚ) ≤ exact ∧
          (exact = cnt ∨ Coarsest (fun v => (countLe stream v : ℚ)) cnt p)
      else if Odd p then (countLt stream p : ℚ) ≤ exact ∧ exact ≤ countLe stream p
      else (countLt stream (p - 1) : ℚ) ≤ exact ∧ exact ≤ countLe stream (p - 1) := by
  have hmin := minInt64_eq
  have hmax := maxInt64_eq
  have hmono := countLe_cast_mono stream
  by_cases hmet : (countLe stream p : ℚ) = cnt
  · rw [if_pos hmet]
    apply coarsest_isCentile_iff hbelow hreached
    apply bisect_coarsest hmono (dvd_zero _) _ ⟨p, hmet⟩
    intro v hv
    have hlo := min_le_of_reached hdomain hpos (ge_of_eq hv)
    have hhi := lt_max_of_count_le hlt (le_of_eq hv)
    omega
  · have habove : cnt < countLe stream p := lt_of_le_of_ne hreached (Ne.symm hmet)
    have hlo := min_le_of_reached hdomain hpos hreached
    rw [countLt_eq] at hbelow
    have hhi := lt_max_of_count_le hlt (le_of_lt hbelow)
    have hend : bisect (fun v => (countLe stream v : ℚ)) cnt 63 0 = if Odd p then p else p - 1 :=
      bisect_passed hmono hbelow habove (dvd_zero _) (by omega) (by omega) (by omega)
    rw [if_neg hmet, hend]
    split_ifs with hodd
    · exact and_comm
    · exact and_comm

end

/-! ## Exact range counts -/

/-- Every range from `bot` on is counted exactly. -/
def ExactFrom (md5 : Md5) (allSketches : List UInt8) (stream : List Int64) (bot : Int) : Prop :=
  ∀ top, bot ≤ top → top ≤ maxInt64 → ∀ fuel, recursionDepth ≤ fuel →
    doRangecount fuel md5 allSketches bot top = some (countInRange stream bot top : Int)

theorem doCentile_of_exact {md5 : Md5} {allSketches : List UInt8} {stream : List Int64}
    (hdomain : InDomain stream) (hexact : ExactFrom md5 allSketches stream minInt64)
    (intcentile total : Int) {fuel : Nat} (hfuel : recursionDepth ≤ fuel) :
    doCentile fuel md5 allSketches intcentile total =
      some (bisect (fun v => (countLe stream v : ℚ)) (centileCnt total intcentile) 63 0) := by
  have hcount : ∀ top, minInt64 ≤ top → top ≤ maxInt64 →
      doRangecount fuel md5 allSketches minInt64 top = some (countLe stream top : Int) := by
    intro top hmin hmax
    rw [hexact top hmin hmax fuel hfuel, countInRange_min hdomain]
  rw [doCentile_eq hcount]
  simp only [Int.cast_natCast]

/-- Without collisions, the ranges whose cells do not overlap are counted exactly. -/
theorem doRangecount_exact {md5 : Md5} {typeOutput : Nat → Nat} {stream : List Int64}
    {transval : CmTransval} (h : sketchStream md5 typeOutput stream = .ok transval)
    (hdomain : InDomain stream) (hfree : ∀ cell : Cell, cell.exponent ≤ 63 →
      -2 ^ 63 ≤ cell.index → cell.index < 2 ^ 63 → CollisionFree md5 stream cell)
    {bot top : Int} (hmin : minInt64 ≤ bot) (hle : bot ≤ top) (hmax : top ≤ maxInt64)
    (hexact : ExactlyCovered bot top) {fuel : Nat} (hfuel : recursionDepth ≤ fuel) :
    doRangecount fuel md5 (sketchBytes transval.sketches) bot top =
      some (countInRange stream bot top : Int) := by
  have ⟨spans, hrun, _, hcells⟩ := findRanges_spans hmin hle hmax
  rcases hcells with ⟨_, htiles⟩ | ⟨hinexact, _⟩
  · have hval := minInt64_eq
    have hval' := maxInt64_eq
    have hbot := le_virtualBot hmin
    have hcover : ∀ x, 0 < coverCount Cell.contains (spans.map lookupCell) x →
        -2 ^ 63 ≤ x ∧ x < 2 ^ 63 := by
      intro x hx
      rw [htiles x] at hx
      split at hx <;> omega
    have hspans : ∀ span ∈ spans, CollisionFree md5 stream (lookupCell span) := by
      intro span hspan
      obtain ⟨hexponent, hlow, hhigh⟩ := lookupCell_bounds hcover span hspan
      exact hfree _ hexponent hlow hhigh
    have ⟨spans', hrun', _, hcount⟩ := exactLookups_of_tiles hmin hmax hrun htiles
    have hsame := (hrun fuel hfuel).symm.trans (hrun' fuel hfuel)
    cases hsame
    exact hcount md5 typeOutput stream transval h (fun _ => hdomain) hspans fuel hfuel
  · exact absurd hexact hinexact

theorem exactFrom_min {md5 : Md5} {typeOutput : Nat → Nat} {stream : List Int64}
    {transval : CmTransval} (h : sketchStream md5 typeOutput stream = .ok transval)
    (hdomain : InDomain stream) (hfree : ∀ cell : Cell, cell.exponent ≤ 63 →
      -2 ^ 63 ≤ cell.index → cell.index < 2 ^ 63 → CollisionFree md5 stream cell) :
    ExactFrom md5 (sketchBytes transval.sketches) stream minInt64 := by
  intro top hle hmax fuel hfuel
  have hval := minInt64_eq
  exact doRangecount_exact h hdomain hfree (le_refl _) hle hmax (.inr (.inl (by omega))) hfuel

/-! ## One value without collisions -/

/-- The values hashed on the levels for `x`. -/
def levelValues (x : Int) : List (List UInt8) := (List.range 64).map fun j => int64Bytes (x / 2 ^ j)

/-- A hash function that tells the values hashed for `x` from each other and from all others. -/
def pathMd5 (x : Int) : Md5 := fun bytes _ => UInt8.ofNat ((levelValues x).idxOf bytes)

theorem int64Bytes_inj {x y : Int} (hx : -2 ^ 63 ≤ x) (hx' : x < 2 ^ 63) (hy : -2 ^ 63 ≤ y)
    (hy' : y < 2 ^ 63) (h : int64Bytes x = int64Bytes y) : x = y := by
  have hof := congrArg ofLeBytes h
  unfold int64Bytes at hof
  rw [ofLeBytes_leBytes, ofLeBytes_leBytes] at hof
  omega

theorem column_pathMd5 (x : Int) (bytes : List UInt8) :
    (column (sketchMd5Bytea (pathMd5 x) bytes) 0).val =
      (UInt8.ofNat ((levelValues x).idxOf bytes)).toNat * 257 % 1024 := by
  rw [sketchMd5Bytea_eq, column, Fin.val_ofNat]
  simp [pathMd5, List.ofFn_succ, ofLeBytes]
  omega

theorem collisionFree_pathMd5 (x : Int64) {cell : Cell} (hexponent : cell.exponent ≤ 63)
    (hlo : -2 ^ 63 ≤ cell.index) (hhi : cell.index < 2 ^ 63) :
    CollisionFree (pathMd5 x.toInt) [x] cell := by
  refine ⟨0, fun y hy hcolumn => ?_⟩
  rw [List.mem_singleton.mp hy] at hcolumn ⊢
  have hval := congrArg Fin.val hcolumn
  rw [levelHash, column_pathMd5, column_pathMd5] at hval
  have hmem : int64Bytes (x.toInt / 2 ^ cell.exponent) ∈ levelValues x.toInt :=
    List.mem_map.mpr ⟨cell.exponent, List.mem_range.mpr (by omega), rfl⟩
  have hlength : (levelValues x.toInt).length = 64 := by simp [levelValues]
  have hfirst := List.idxOf_lt_length_of_mem hmem
  have hsecond : (levelValues x.toInt).idxOf (int64Bytes cell.index) ≤ 64 :=
    hlength ▸ List.idxOf_le_length
  rw [UInt8.toNat_ofNat', UInt8.toNat_ofNat'] at hval
  have hindex : (levelValues x.toInt).idxOf (int64Bytes (x.toInt / 2 ^ cell.exponent)) =
      (levelValues x.toInt).idxOf (int64Bytes cell.index) := by omega
  have hbytes := (List.idxOf_inj hmem).mp hindex
  have hlow := x.le_toInt
  have hhigh := x.toInt_lt
  have hpow : (1 : Int) ≤ 2 ^ cell.exponent := one_le_pow₀ (by norm_num)
  have hdivlow : -2 ^ 63 ≤ x.toInt / 2 ^ cell.exponent := by
    rw [Int.le_ediv_iff_mul_le (by omega)]
    nlinarith
  have hdivhigh : x.toInt / 2 ^ cell.exponent < 2 ^ 63 := by
    rw [Int.ediv_lt_iff_lt_mul (by omega)]
    nlinarith
  have heq := int64Bytes_inj hdivlow hdivhigh hlo hhi hbytes
  simpa [Cell.contains] using heq

/-- The value that is returned is a centile exactly under the condition on the first place with
enough values up to it. -/
theorem doCentile_isCentile_iff (md5 : Md5) (allSketches : List UInt8) (stream : List Int64)
    (intcentile : Int) (hne : stream ≠ []) (hdomain : InDomain stream)
    (hexact : ExactFrom md5 allSketches stream minInt64) (hlo : 1 ≤ intcentile)
    (hhi : intcentile ≤ 99) :
    ∃ v, (∀ fuel, recursionDepth ≤ fuel →
        doCentile fuel md5 allSketches intcentile stream.length = some v) ∧
      (IsCentile stream intcentile v ↔ FindsCentile stream intcentile) := by
  have hlength : 0 < (stream.length : Int) := by
    have hpos := List.length_pos_iff.mpr hne
    omega
  have ⟨hpos, hlt⟩ := centileCnt_bounds hlength hlo hhi
  refine ⟨bisect (fun v => (countLe stream v : ℚ)) (centileCnt stream.length intcentile) 63 0,
    fun fuel hfuel => ?_, ?_⟩
  · exact doCentile_of_exact hdomain hexact intcentile stream.length hfuel
  · constructor
    · intro h
      have ⟨p, hbelow, hreached⟩ := exists_first hdomain hpos hlt
      exact ⟨p, hbelow, hreached, (isCentile_bisect_iff hdomain hpos hlt hbelow hreached).mp h⟩
    · intro ⟨p, hbelow, hreached, hp⟩
      exact (isCentile_bisect_iff hdomain hpos hlt hbelow hreached).mpr hp

/-- Without rounding, the first place with enough values up to it has to be odd or have exactly as
many as are looked for. -/
theorem findsCentile_iff {stream : List Int64} {intcentile : Int} (hlo : 1 ≤ intcentile)
    (hlt : stream.length * intcentile < 2 ^ 53) :
    FindsCentile stream intcentile ↔
      ∃ p, (countLt stream p : ℚ) < share stream.length intcentile ∧
        share stream.length intcentile ≤ countLe stream p ∧
        ((countLe stream p : ℚ) = share stream.length intcentile ∨ Odd p) := by
  have hpos : 0 ≤ (stream.length : Int) * intcentile := by positivity
  have hless : ∀ n : Nat, (n : ℚ) < centileCnt stream.length intcentile ↔
      (n : ℚ) < share stream.length intcentile :=
    fun n => by exact_mod_cast (centileCnt_compare hpos hlt n).1
  have hsame : ∀ n : Nat, (n : ℚ) = centileCnt stream.length intcentile ↔
      (n : ℚ) = share stream.length intcentile :=
    fun n => by exact_mod_cast (centileCnt_compare hpos hlt n).2
  unfold FindsCentile
  dsimp only
  generalize centileCnt stream.length intcentile = cnt at hless hsame
  generalize share stream.length intcentile = exact at hless hsame
  apply exists_congr
  intro p
  rw [hless, ← not_lt, hless, not_lt]
  apply and_congr_right
  intro hbelow
  apply and_congr_right
  intro hreached
  by_cases hmet : (countLe stream p : ℚ) = exact
  · have hmet' : (countLe stream p : ℚ) = cnt := (hsame _).mpr hmet
    have heq : exact = cnt := hmet ▸ hmet'
    rw [if_pos hmet']
    exact iff_of_true ⟨le_of_eq heq, le_of_lt hbelow, .inl heq⟩ (.inl hmet)
  · have hmet' : (countLe stream p : ℚ) ≠ cnt := mt (hsame _).mp hmet
    rw [if_neg hmet', or_iff_right hmet]
    split_ifs with hodd
    · exact iff_of_true ⟨le_of_lt hbelow, hreached⟩ hodd
    · apply iff_of_false _ hodd
      intro ⟨_, hbefore⟩
      rw [countLt_eq] at hbelow
      exact absurd hbelow (not_lt.mpr hbefore)

theorem inDomain_singleton {x : Int64} (hx : minInt64 ≤ x.toInt) : InDomain [x] := by
  intro y hy
  rw [List.mem_singleton.mp hy]
  exact hx

/-- A sketch of one value, without collisions. -/
theorem pathMd5_exactFrom {x : Int64} (hx : minInt64 ≤ x.toInt) :
    ∃ transval, sketchStream (pathMd5 x.toInt) (fun _ => 0) [x] = .ok transval ∧
      ExactFrom (pathMd5 x.toInt) (sketchBytes transval.sketches) [x] minInt64 := by
  have hlength : [x].length < 2 ^ 63 := by
    rw [List.length_singleton]
    norm_num
  have ⟨transval, h⟩ := sketchStream_total (pathMd5 x.toInt) (fun _ => 0) hlength
  exact ⟨transval, h, exactFrom_min h (inDomain_singleton hx) fun _ => collisionFree_pathMd5 x⟩

theorem minInt64_le_zero : minInt64 ≤ (0 : Int64).toInt := by decide

theorem doCentile_isCentile_iff_zero : ∃ transval v,
    sketchStream (pathMd5 0) (fun _ => 0) [0] = .ok transval ∧
      doCentile recursionDepth (pathMd5 0) (sketchBytes transval.sketches) 50 1 = some v ∧
      (IsCentile [0] 50 v ↔ FindsCentile [0] 50) := by
  have ⟨transval, h, hexact⟩ := pathMd5_exactFrom minInt64_le_zero
  have ⟨v, hv, hiff⟩ := doCentile_isCentile_iff (pathMd5 0) (sketchBytes transval.sketches) [0] 50
    (List.cons_ne_nil _ _) (inDomain_singleton minInt64_le_zero) hexact (by norm_num)
    (by norm_num)
  exact ⟨transval, v, h, hv recursionDepth (le_refl _), hiff⟩

/-- The median of a column with a single zero is -1. -/
theorem doCentile_zero : ∃ transval,
    sketchStream (pathMd5 0) (fun _ => 0) [0] = .ok transval ∧
      ExactFrom (pathMd5 0) (sketchBytes transval.sketches) [0] minInt64 ∧
      doCentile recursionDepth (pathMd5 0) (sketchBytes transval.sketches) 50 1 = some (-1) ∧
      ¬ IsCentile [0] 50 (-1) := by
  have ⟨transval, h, hexact⟩ := pathMd5_exactFrom minInt64_le_zero
  have hzero : (0 : Int64).toInt = 0 := rfl
  rw [hzero] at h hexact
  have hbefore : countLe [0] (-1) = 0 := by decide
  have hthere : countLe [0] 0 = 1 := by decide
  have ⟨hpos, hlt⟩ := centileCnt_bounds (show (0 : Int) < 1 by norm_num)
    (show (1 : Int) ≤ 50 by norm_num) (by norm_num)
  refine ⟨transval, h, hexact, ?_, ?_⟩
  · have hend : bisect (fun v => (countLe [0] v : ℚ)) (centileCnt 1 50) 63 0 =
        if Odd (0 : Int) then 0 else 0 - 1 := by
      apply bisect_passed (countLe_cast_mono [0]) _ _ (dvd_zero _) (by omega) (by norm_num)
        (by norm_num)
      · rw [zero_sub, hbefore, Nat.cast_zero]
        exact hpos
      · rw [hthere]
        exact hlt
    rw [doCentile_of_exact (inDomain_singleton minInt64_le_zero) hexact 50 1 (le_refl _), hend]
    decide
  · intro ⟨hreached, _⟩
    rw [hbefore] at hreached
    norm_num [share] at hreached

end Madlib.Sketch
