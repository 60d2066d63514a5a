import Madlib.Sketch.DyadicRanges

/-!
# What the spans of a range cover

A range aligned on one side by all powers of two that fit into it is cut off that
side power by power; every other range reaches such ranges in one step.  The
power budget decreases with the powers, so it is not used up before they are.
-/

namespace Madlib.Sketch

open Madlib.Lib.Dyadic

/-- The call appends spans that tile the range, and so do the cells they are looked up by. -/
def Emits (call : List Span → Option (List Span)) (bot top : Int) : Prop :=
  ∃ spans, (∀ r, call r = some (r ++ spans)) ∧ Tiles Span.contains spans bot top ∧
    Tiles Cell.contains (spans.map lookupCell) (virtualBot bot) top

theorem tiles_interval (bot top : Int) : Tiles Span.contains [(bot, top)] bot top := by
  apply tiles_singleton
  intro x
  simp [Span.contains]

theorem emits_span {bot top : Int}
    (h : Tiles Cell.contains [lookupCell (bot, top)] (virtualBot bot) top) :
    Emits (fun r => some (r ++ [(bot, top)])) bot top :=
  ⟨[(bot, top)], fun _ => rfl, tiles_interval bot top, h⟩

section

variable {call call' : List Span → Option (List Span)} {bot mid next top : Int}

/-- A span, and a call for the part above it. -/
theorem Emits.span_below (h : Emits call next top)
    (hspan : Tiles Cell.contains [lookupCell (bot, mid)] (virtualBot bot) mid)
    (hnext : next = mid + 1) (hmin : minInt64 < next) (hlo : bot ≤ mid + 1) (hhi : mid ≤ top) :
    Emits (fun r => call (r ++ [(bot, mid)])) bot top := by
  subst hnext
  have hbot := virtualBot_le bot
  obtain ⟨spans, hcall, hspans, hcells⟩ := h
  rw [virtualBot_of_lt hmin] at hcells
  refine ⟨(bot, mid) :: spans, fun r => ?_, (tiles_interval bot mid).append hspans hlo hhi,
    hspan.append hcells (by omega) hhi⟩
  dsimp only
  rw [hcall, List.append_assoc, List.singleton_append]

/-- A span, and a call for the part below it. -/
theorem Emits.span_above (h : Emits call bot mid)
    (hspan : Tiles Cell.contains [lookupCell (next, top)] next top)
    (hnext : next = mid + 1) (hlo : bot ≤ mid + 1) (hhi : mid ≤ top) :
    Emits (fun r => call (r ++ [(next, top)])) bot top := by
  subst hnext
  have hbot := virtualBot_le bot
  obtain ⟨spans, hcall, hspans, hcells⟩ := h
  refine ⟨(mid + 1, top) :: spans, fun r => ?_,
    (hspans.append (tiles_interval (mid + 1) top) hlo hhi).comm,
    (hcells.append hspan (by omega) hhi).comm⟩
  dsimp only
  rw [hcall, List.append_assoc, List.singleton_append]

/-- Calls for two adjacent parts, one after the other. -/
theorem Emits.both (h : Emits call bot mid) (h' : Emits call' next top) (hnext : next = mid + 1)
    (hmin : minInt64 < next) (hlo : bot ≤ mid + 1) (hhi : mid ≤ top) :
    Emits (fun r => call r >>= call') bot top := by
  subst hnext
  have hbot := virtualBot_le bot
  obtain ⟨spans, hcall, hspans, hcells⟩ := h
  obtain ⟨spans', hcall', hspans', hcells'⟩ := h'
  rw [virtualBot_of_lt hmin] at hcells'
  refine ⟨spans ++ spans', fun r => ?_, hspans.append hspans' hlo hhi, ?_⟩
  · simp [hcall, hcall']
  · rw [List.map_append]
    exact hcells.append hcells' (by omega) hhi

end

/-! ## One call -/

/-- Every power of two that fits into the width `w` is within the budget. -/
def Budget (w : Int) (budget : Int) : Prop := ∀ d : Nat, 2 ^ d ≤ w → (d : Int) ≤ budget

theorem Budget.mono {w w' budget : Int} (h : Budget w budget) (hle : w' ≤ w) :
    Budget w' budget :=
  fun d hd => h d (hd.trans hle)

/-- Cutting off the largest power leaves a smaller budget to spend. -/
theorem Budget.step {w w' budget : Int} {d : Nat} (h : Budget w budget) (hd : 2 ^ d ≤ w)
    (hw : w' < 2 ^ d ∨ 2 * w' ≤ w) : Budget w' (budget - 1) := by
  intro e he
  have hbudget : ((e + 1 : Nat) : Int) ≤ budget := by
    apply h
    rcases hw with hlt | hle
    · have hlt' : e < d := lt_of_two_pow_lt (by omega)
      exact (pow_le_pow_right₀ (by omega) hlt').trans hd
    · rw [two_pow_succ]
      omega
  omega

theorem Budget.nonneg {w budget : Int} (h : Budget w budget) (hw : 1 ≤ w) : 0 ≤ budget := by
  have hzero := h 0 (by simpa using hw)
  omega

/-- A range below the top end and on one side of zero. -/
structure Plain (bot top : Int) : Prop where
  min_le : minInt64 ≤ bot
  lt_max : top < maxInt64
  one_side : 0 ≤ bot ∨ top < 0

/-- The number of integers in a range, the virtual one at the bottom included. -/
def widthOf (bot top : Int) : Int := top - virtualBot bot + 1

theorem findRanges_base {fuel : Nat} {bot power : Int} (hpower : 0 ≤ power) (r : List Span) :
    findRangesRecursive (fuel + 1) bot bot power r = some (r ++ [(bot, bot)]) := by
  rw [findRangesRecursive, if_neg (by omega), if_pos rfl]

/-- A plain range below `2^63` is appended whole, or split by the largest power of two
that is smaller. -/
theorem findRanges_plain {fuel d : Nat} {bot top power : Int} (h : Plain bot top)
    (hlt : bot < top) (hpower : 0 ≤ power) (hlo : 2 ^ d ≤ widthOf bot top)
    (hhi : widthOf bot top < 2 ^ (d + 1)) (hd : d ≤ 62) (r : List Span) :
    findRangesRecursive (fuel + 1) bot top power r =
      if 2 ^ d = widthOf bot top ∧ bot % 2 ^ d = 0 then some (r ++ [(bot, top)])
      else splitRange (fun bot top r => findRangesRecursive fuel bot top (power - 1) r) bot top
        (if 2 ^ d = widthOf bot top then 2 ^ d / 2 else 2 ^ d) r := by
  have hside := h.one_side
  have hmax := h.lt_max
  have hwidth : (if top = maxInt64 ∨ bot = minInt64 then top - bot + 1 + 1
      else top - bot + 1) = widthOf bot top := by
    have hne : ¬ top = maxInt64 := by omega
    unfold widthOf virtualBot
    by_cases hmin : bot = minInt64
    · have hval := minInt64_eq
      rw [if_pos (.inr hmin), if_pos hmin]
      omega
    · rw [if_neg (by tauto), if_neg hmin]
  rw [findRangesRecursive, if_neg (by omega), if_neg (by omega), if_neg (by omega)]
  simp only [hwidth, intlog2_eq hlo hhi, Int.toNat_natCast]
  rw [if_neg (by omega)]

/-- Half of the next power of two below a width. -/
theorem exists_split {w : Int} {d : Nat} (hw : 2 ≤ w) (hlo : 2 ^ d ≤ w) (hhi : w < 2 ^ (d + 1)) :
    ∃ e : Nat, (if 2 ^ d = w then (2 : Int) ^ d / 2 else 2 ^ d) = 2 ^ e ∧ 2 ^ e < w ∧
      w ≤ 2 * 2 ^ e := by
  rw [two_pow_succ] at hhi
  by_cases heq : 2 ^ d = w
  · cases d with
    | zero =>
        simp at heq
        omega
    | succ e =>
        rw [two_pow_succ] at heq
        refine ⟨e, ?_, by omega, by omega⟩
        rw [if_pos (by rw [two_pow_succ]; exact heq), two_pow_succ]
        omega
  · exact ⟨d, if_neg heq, by omega, by omega⟩

theorem splitRange_left {recurse : Int → Int → List Span → Option (List Span)}
    {bot top p : Int} (h : bot = minInt64 ∨ bot % p = 0) (hmax : top < maxInt64) :
    splitRange recurse bot top p =
      fun r => recurse (virtualBot bot + p) top (r ++ [(bot, virtualBot bot + p - 1)]) := by
  have hhi : (if bot = minInt64 then bot + p - 1 - 1 else bot + p - 1) =
      virtualBot bot + p - 1 := by
    have hmin := minInt64_eq
    unfold virtualBot
    split <;> omega
  have hnext : virtualBot bot + p - 1 + 1 = virtualBot bot + p := by omega
  funext r
  unfold splitRange
  rw [if_pos h, if_neg (by omega)]
  dsimp only
  rw [hhi, hnext]

theorem splitRange_right {recurse : Int → Int → List Span → Option (List Span)}
    {bot top p : Int} (hbot : minInt64 < bot) (hleft : bot % p ≠ 0) (hright : (top + 1) % p = 0)
    (hmax : top < maxInt64) :
    splitRange recurse bot top p =
      fun r => recurse bot (top - p) (r ++ [(top - p + 1, top)]) := by
  have hlo : (if top = maxInt64 then top - p + 1 + 1 else top - p + 1) = top - p + 1 :=
    if_neg (by omega)
  have hnext : top - p + 1 - 1 = top - p := by omega
  funext r
  unfold splitRange
  rw [if_neg (by omega), if_pos (.inr hright), if_neg (by omega)]
  dsimp only
  rw [hlo, hnext]

theorem splitRange_straddle {recurse : Int → Int → List Span → Option (List Span)}
    {bot top p : Int} (hbot : minInt64 < bot) (hleft : bot % p ≠ 0)
    (hright : (top + 1) % p ≠ 0) (hmax : top < maxInt64) :
    splitRange recurse bot top p =
      fun r => recurse bot (p * (top / p) - 1) r >>= recurse (p * (top / p)) top := by
  funext r
  unfold splitRange
  rw [if_neg (by omega), if_neg (by omega)]

/-! ## Aligned ranges -/

theorem tiles_base {bot : Int} (hmin : minInt64 ≤ bot) (hmax : bot < maxInt64) :
    Tiles Cell.contains [lookupCell (bot, bot)] (virtualBot bot) bot := by
  by_cases h : bot = minInt64
  · have hval := minInt64_eq
    rw [h]
    apply tiles_lookupCell (d := 1)
    · rw [virtualBot_min]
      norm_num
    · rw [virtualBot_min]
      omega
    · omega
    · omega
  · have hvirtual := virtualBot_of_lt (show minInt64 < bot by omega)
    apply tiles_lookupCell (d := 0)
    · exact one_dvd _
    · rw [hvirtual]
      omega
    · exact hmax
    · exact fun hbot => absurd hbot h

theorem tiles_span {lo hi : Int} {d : Nat} (hmin : minInt64 < lo) (hdvd : 2 ^ d ∣ lo)
    (hhi : hi = lo + 2 ^ d - 1) (hmax : hi < maxInt64) : Tiles Cell.contains [lookupCell (lo, hi)] lo hi := by
  have hvirtual := virtualBot_of_lt hmin
  have htiles : Tiles Cell.contains [lookupCell (lo, hi)] (virtualBot lo) hi := by
    apply tiles_lookupCell (d := d)
    · rwa [hvirtual]
    · rwa [hvirtual]
    · exact hmax
    · omega
  rwa [hvirtual] at htiles

theorem emits_aligned {bot top : Int} {d : Nat} (hmin : minInt64 < bot) (hdvd : 2 ^ d ∣ bot)
    (hhi : top = bot + 2 ^ d - 1) (hmax : top < maxInt64) :
    Emits (fun r => some (r ++ [(bot, top)])) bot top := by
  apply emits_span
  rw [virtualBot_of_lt hmin]
  exact tiles_span hmin hdvd hhi hmax

theorem widthOf_of_lt {bot : Int} (hmin : minInt64 < bot) (top : Int) :
    widthOf bot top = top - bot + 1 := by
  rw [widthOf, virtualBot_of_lt hmin]

theorem widthOf_pos {bot top : Int} (h : bot ≤ top) : 1 ≤ widthOf bot top := by
  have hle := virtualBot_le bot
  unfold widthOf
  omega

/-- What is cut off at the smallest int64 is more than the one virtual integer below it. -/
theorem left_cut {bot top : Int} {e : Nat} (hmin : minInt64 ≤ bot) (hlt : bot < top)
    (hwe : widthOf bot top ≤ 2 * 2 ^ e) :
    (bot = minInt64 → 1 ≤ e) ∧ bot < virtualBot bot + 2 ^ e := by
  have hval := minInt64_eq
  have hp := two_pow_pos e
  by_cases hend : bot = minInt64
  · have hbot : virtualBot bot = -2 ^ 63 := by rw [hend, virtualBot_min]
    have hone : 1 ≤ e := by
      by_contra hzero
      obtain rfl : e = 0 := by omega
      rw [widthOf, hbot, pow_zero] at hwe
      omega
    have htwo : (2 : Int) ^ 1 ≤ 2 ^ e := pow_le_pow_right₀ (by omega) hone
    exact ⟨fun _ => hone, by omega⟩
  · rw [virtualBot_of_lt (by omega)]
    exact ⟨fun h => absurd h hend, by omega⟩

/-- A range aligned at its bottom is cut off there power by power. -/
theorem left_emits {fuel : Nat} {bot top power : Int} (h : Plain bot top) (hle : bot ≤ top)
    (hsmall : widthOf bot top < 2 ^ 63) (halign : Aligned (virtualBot bot) (widthOf bot top))
    (hpower : Budget (widthOf bot top) power) (hfuel : Budget (widthOf bot top) (fuel - 1)) :
    Emits (findRangesRecursive fuel bot top power) bot top := by
  induction fuel generalizing bot top power with
  | zero =>
      have hnonneg := hfuel.nonneg (widthOf_pos hle)
      omega
  | succ fuel ih =>
      have hpos := hpower.nonneg (widthOf_pos hle)
      have hmax := h.lt_max
      rcases eq_or_lt_of_le hle with heq | hlt
      · subst heq
        rw [funext (findRanges_base hpos)]
        exact emits_span (tiles_base h.min_le hmax)
      · obtain ⟨d, hlo, hhi⟩ := exists_two_pow_le (widthOf_pos hle)
        have hd : d < 63 := lt_of_two_pow_lt (by omega)
        have hbot := virtualBot_le bot
        have hwidth : widthOf bot top = top - virtualBot bot + 1 := rfl
        rw [funext (findRanges_plain h hlt hpos hlo hhi (by omega))]
        by_cases hcomplete : 2 ^ d = widthOf bot top ∧ bot % 2 ^ d = 0
        · simp only [if_pos hcomplete]
          apply emits_span
          apply tiles_lookupCell (halign d hlo) (by omega) hmax
          exact (left_cut h.min_le hlt (by omega)).1
        · simp only [if_neg hcomplete]
          obtain ⟨e, he, hew, hwe⟩ := exists_split (by omega) hlo hhi
          obtain ⟨hone, hnext⟩ := left_cut h.min_le hlt hwe
          have hdvd := halign e (by omega)
          have hleft : bot = minInt64 ∨ bot % 2 ^ e = 0 := by
            by_cases hmin : bot = minInt64
            · exact .inl hmin
            · rw [virtualBot, if_neg hmin] at hdvd
              exact .inr (Int.emod_eq_zero_of_dvd hdvd)
          have hmin := h.min_le
          have hwidth' := widthOf_of_lt (show minInt64 < virtualBot bot + 2 ^ e by omega) top
          have hsplit : widthOf (virtualBot bot + 2 ^ e) top < 2 ^ e ∨
              2 * widthOf (virtualBot bot + 2 ^ e) top ≤ widthOf bot top := by omega
          have hrest : Emits (findRangesRecursive fuel (virtualBot bot + 2 ^ e) top (power - 1))
              (virtualBot bot + 2 ^ e) top := by
            have hside : 0 ≤ virtualBot bot + 2 ^ e ∨ top < 0 := by
              rcases h.one_side with hside | hside
              · have hval := minInt64_eq
                have hvirtual := virtualBot_of_lt (show minInt64 < bot by omega)
                omega
              · exact .inr hside
            apply ih ⟨by omega, hmax, hside⟩ (by omega) (by omega)
            · rw [virtualBot_of_lt (by omega)]
              apply aligned_of_dvd (Int.dvd_add hdvd (Int.dvd_refl _))
              rw [two_pow_succ]
              omega
            · exact hpower.step (by omega) hsplit
            · have hstep := hfuel.step (by omega) hsplit
              rwa [show ((fuel + 1 : Nat) : Int) - 1 - 1 = (fuel : Int) - 1 by omega] at hstep
          rw [he, splitRange_left hleft hmax]
          exact hrest.span_below (tiles_lookupCell hdvd rfl (by omega) hone) (by omega)
            (by omega) (by omega) (by omega)

/-- A range aligned at its top is cut off there power by power. -/
theorem right_emits {fuel : Nat} {bot top power : Int} (h : Plain bot top)
    (hmin : minInt64 < bot) (hle : bot ≤ top) (hsmall : widthOf bot top < 2 ^ 63)
    (halign : Aligned (top + 1) (widthOf bot top)) (hpower : Budget (widthOf bot top) power)
    (hfuel : Budget (widthOf bot top) (fuel - 1)) :
    Emits (findRangesRecursive fuel bot top power) bot top := by
  induction fuel generalizing top power with
  | zero =>
      have hnonneg := hfuel.nonneg (widthOf_pos hle)
      omega
  | succ fuel ih =>
      have hpos := hpower.nonneg (widthOf_pos hle)
      have hmax := h.lt_max
      have hside := h.one_side
      rcases eq_or_lt_of_le hle with heq | hlt
      · subst heq
        rw [funext (findRanges_base hpos)]
        exact emits_aligned hmin (d := 0) (one_dvd _) (by omega) hmax
      · obtain ⟨d, hlo, hhi⟩ := exists_two_pow_le (widthOf_pos hle)
        have hd : d < 63 := lt_of_two_pow_lt (by omega)
        have hp := two_pow_pos d
        have hwidth := widthOf_of_lt hmin top
        have hdvd := halign d hlo
        rw [funext (findRanges_plain h hlt hpos hlo hhi (by omega))]
        by_cases hcomplete : 2 ^ d = widthOf bot top
        · have hdvd' : (2 : Int) ^ d ∣ bot := by
            rw [show bot = top + 1 - 2 ^ d by omega]
            exact Int.dvd_sub hdvd (Int.dvd_refl _)
          simp only [if_pos (And.intro hcomplete (Int.emod_eq_zero_of_dvd hdvd'))]
          exact emits_aligned hmin hdvd' (by omega) hmax
        · have hleft : bot % 2 ^ d ≠ 0 := by
            intro hzero
            rw [two_pow_succ] at hhi
            have hsub := Int.dvd_sub hdvd (Int.dvd_of_emod_eq_zero hzero)
            rw [show top + 1 - bot = widthOf bot top by omega] at hsub
            exact not_dvd_of_between (by omega) (by omega) hsub
          have hwidth' := widthOf_of_lt hmin (top - 2 ^ d)
          have hnext : (2 : Int) ^ d ∣ top - 2 ^ d + 1 := by
            rw [show top - 2 ^ d + 1 = top + 1 - 2 ^ d by omega]
            exact Int.dvd_sub hdvd (Int.dvd_refl _)
          have hsplit : widthOf bot (top - 2 ^ d) < 2 ^ d ∨
              2 * widthOf bot (top - 2 ^ d) ≤ widthOf bot top := by
            rw [two_pow_succ] at hhi
            omega
          have hrest : Emits (findRangesRecursive fuel bot (top - 2 ^ d) (power - 1)) bot
              (top - 2 ^ d) := by
            apply ih ⟨h.min_le, by omega, by omega⟩ (by omega) (by omega)
            · exact aligned_of_dvd hnext (by omega)
            · exact hpower.step (by omega) hsplit
            · have hstep := hfuel.step (by omega) hsplit
              rwa [show ((fuel + 1 : Nat) : Int) - 1 - 1 = (fuel : Int) - 1 by omega] at hstep
          simp only [if_neg (fun hand : 2 ^ d = widthOf bot top ∧ _ => hcomplete hand.1),
            if_neg hcomplete]
          rw [splitRange_right hmin hleft (Int.emod_eq_zero_of_dvd hdvd) hmax]
          exact hrest.span_above (tiles_span (by omega) hnext (by omega) hmax) rfl (by omega)
            (by omega)

/-- Every other range splits into an aligned range and a span, or two aligned ranges. -/
theorem plain_emits {fuel : Nat} {bot top power : Int} (h : Plain bot top)
    (hmin : minInt64 < bot) (hle : bot ≤ top) (hsmall : widthOf bot top < 2 ^ 63)
    (hpower : Budget (widthOf bot top) (power - 1))
    (hfuel : Budget (widthOf bot top) (fuel - 2)) :
    Emits (findRangesRecursive fuel bot top power) bot top := by
  cases fuel with
  | zero =>
      have hnonneg := hfuel.nonneg (widthOf_pos hle)
      omega
  | succ fuel =>
      have hpos := hpower.nonneg (widthOf_pos hle)
      have hmax := h.lt_max
      have hside := h.one_side
      rcases eq_or_lt_of_le hle with heq | hlt
      · subst heq
        rw [funext (findRanges_base (by omega))]
        exact emits_aligned hmin (d := 0) (one_dvd _) (by omega) hmax
      · obtain ⟨d, hlo, hhi⟩ := exists_two_pow_le (widthOf_pos hle)
        have hd : d < 63 := lt_of_two_pow_lt (by omega)
        have hwidth := widthOf_of_lt hmin top
        have hfuel' : Budget (widthOf bot top) ((fuel : Int) - 1) := by
          rwa [show ((fuel + 1 : Nat) : Int) - 2 = (fuel : Int) - 1 by omega] at hfuel
        rw [funext (findRanges_plain h hlt (by omega) hlo hhi (by omega))]
        by_cases hcomplete : 2 ^ d = widthOf bot top ∧ bot % 2 ^ d = 0
        · simp only [if_pos hcomplete]
          exact emits_aligned hmin (Int.dvd_of_emod_eq_zero hcomplete.2) (by omega) hmax
        · simp only [if_neg hcomplete]
          obtain ⟨e, he, hew, hwe⟩ := exists_split (by omega) hlo hhi
          have hp := two_pow_pos e
          rw [he]
          -- what is left beside an aligned end is aligned there itself
          have hbelow : ∀ mid, 2 ^ e ∣ mid → bot < mid → mid ≤ top →
              Emits (findRangesRecursive fuel bot (mid - 1) (power - 1)) bot (mid - 1) := by
            intro mid hdvd hlo hhi
            have hwidth' := widthOf_of_lt hmin (mid - 1)
            apply right_emits ⟨h.min_le, by omega, by omega⟩ hmin (by omega) (by omega)
            · rw [Int.sub_add_cancel]
              apply aligned_of_dvd hdvd
              rw [two_pow_succ]
              omega
            · exact hpower.mono (by omega)
            · exact hfuel'.mono (by omega)
          have habove : ∀ mid, 2 ^ e ∣ mid → bot < mid → mid ≤ top → (0 ≤ mid ∨ top < 0) →
              Emits (findRangesRecursive fuel mid top (power - 1)) mid top := by
            intro mid hdvd hlo hhi hside'
            have hwidth' := widthOf_of_lt (show minInt64 < mid by omega) top
            apply left_emits ⟨by omega, hmax, hside'⟩ hhi (by omega)
            · rw [virtualBot_of_lt (by omega)]
              apply aligned_of_dvd hdvd
              rw [two_pow_succ]
              omega
            · exact hpower.mono (by omega)
            · exact hfuel'.mono (by omega)
          by_cases hleft : bot % 2 ^ e = 0
          · have hdvd := Int.dvd_of_emod_eq_zero hleft
            have hrest := habove (bot + 2 ^ e) (Int.dvd_add hdvd (Int.dvd_refl _)) (by omega)
              (by omega) (by omega)
            rw [splitRange_left (.inr hleft) hmax, virtualBot_of_lt hmin]
            apply hrest.span_below _ (by omega) (by omega) (by omega) (by omega)
            rw [virtualBot_of_lt hmin]
            exact tiles_span hmin hdvd rfl (by omega)
          · by_cases hright : (top + 1) % 2 ^ e = 0
            · have hdvd : (2 : Int) ^ e ∣ top - 2 ^ e + 1 := by
                rw [show top - 2 ^ e + 1 = top + 1 - 2 ^ e by omega]
                exact Int.dvd_sub (Int.dvd_of_emod_eq_zero hright) (Int.dvd_refl _)
              have hrest := hbelow (top - 2 ^ e + 1) hdvd (by omega) (by omega)
              rw [Int.add_sub_cancel] at hrest
              rw [splitRange_right hmin hleft hright hmax]
              exact hrest.span_above (tiles_span (by omega) hdvd (by omega) hmax) rfl (by omega)
                (by omega)
            · -- the largest multiple of the power up to the top lies inside
              have hdiv := Int.mul_ediv_add_emod top (2 ^ e)
              have hmod := Int.emod_nonneg top (by omega : (2 : Int) ^ e ≠ 0)
              have hmod' := Int.emod_lt_of_pos top hp
              have hdvd : (2 : Int) ^ e ∣ 2 ^ e * (top / 2 ^ e) := Dvd.intro _ rfl
              rw [splitRange_straddle hmin hleft hright hmax]
              generalize 2 ^ e * (top / 2 ^ e) = mid at hdiv hdvd ⊢
              have hne : bot ≠ mid := by
                intro heq
                exact hleft (Int.emod_eq_zero_of_dvd (heq ▸ hdvd))
              have hmid : 0 ≤ mid ∨ top < 0 := by omega
              exact (hbelow mid hdvd (by omega) (by omega)).both
                (habove mid hdvd (by omega) (by omega) hmid) (by omega) (by omega) (by omega)
                (by omega)

end Madlib.Sketch
