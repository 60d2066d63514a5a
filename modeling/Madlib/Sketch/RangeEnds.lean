import Madlib.Sketch.RangeCover

/-!
# Ranges across zero and at the ends of int64

A range across zero is split there, a half of the int64 range is split again, and a
range up to the largest int64 is cut off its top.  The cell of the span cut off
there starts one integer below the span, which the rest of the range covers too.
-/

namespace Madlib.Sketch

open Madlib.Lib.Dyadic

/-- Recursion this deep is enough for every range. -/
def recursionDepth : Nat := 67

theorem budget_of_lt {w : Int} {n : Nat} {budget : Int} (h : w < 2 ^ (n + 1))
    (hn : (n : Int) ≤ budget) : Budget w budget := by
  intro d hd
  have hlt : d < n + 1 := lt_of_two_pow_lt (by omega)
  omega

/-! ## The two splits by hand -/

theorem findRanges_sign {fuel : Nat} {bot top power : Int} (hbot : bot < 0) (htop : 0 ≤ top)
    (hpower : 0 ≤ power) :
    findRangesRecursive (fuel + 1) bot top power = fun r =>
      findRangesRecursive fuel bot (-1) (power - 1) r >>=
        findRangesRecursive fuel 0 top (power - 1) := by
  funext r
  rw [findRangesRecursive, if_neg (by omega), if_neg (by omega), if_pos (by omega)]

theorem findRanges_wide {fuel : Nat} {bot top power width : Int} (mid : Int) (hlt : bot < top)
    (hside : 0 ≤ bot ∨ top < 0) (hpower : 0 ≤ power)
    (hwidth : (if top = maxInt64 ∨ bot = minInt64 then top - bot + 1 + 1
      else top - bot + 1) = width)
    (hlo : 2 ^ 63 ≤ width) (hhi : width < 2 ^ 64) (hmid : mid = 2 ^ 62 * if top < 0 then -1 else 1) :
    findRangesRecursive (fuel + 1) bot top power = fun r =>
      findRangesRecursive fuel bot (mid - 1) 62 r >>= findRangesRecursive fuel mid top 62 := by
  subst hmid
  funext r
  rw [findRangesRecursive, if_neg (by omega), if_neg (by omega), if_neg (by omega)]
  simp only [hwidth, intlog2_eq hlo hhi]
  rw [if_pos (by omega)]

/-! ## Ranges below the top end -/

theorem negative_emits {fuel : Nat} {bot power : Int} (hmin : minInt64 ≤ bot) (hbot : bot < 0)
    (hpower : 62 ≤ power) (hfuel : 65 ≤ fuel) :
    Emits (findRangesRecursive fuel bot (-1) power) bot (-1) := by
  have hval := minInt64_eq
  have hval' := maxInt64_eq
  obtain ⟨fuel, rfl⟩ := Nat.exists_eq_add_of_le' (show 1 ≤ fuel by omega)
  by_cases hend : bot = minInt64
  · -- half of the int64 range
    have hvirtual : virtualBot bot = -2 ^ 63 := by rw [hend, virtualBot_min]
    have hmid : virtualBot (-2 ^ 62) = -2 ^ 62 := virtualBot_of_lt (by omega)
    have hwidth : widthOf bot (-2 ^ 62 - 1) = 2 ^ 62 := by
      rw [widthOf, hvirtual]
      norm_num
    have hwidth' : widthOf (-2 ^ 62) (-1) = 2 ^ 62 := by
      rw [widthOf, hmid]
      norm_num
    rw [findRanges_wide (-2 ^ 62) (by omega) (by omega) (by omega) (if_pos (.inr hend))
      (by omega) (by omega) (by norm_num)]
    have hbelow : Emits (findRangesRecursive fuel bot (-2 ^ 62 - 1) 62) bot
        (-2 ^ 62 - 1) := by
      apply left_emits ⟨hmin, by omega, by omega⟩ (by omega) (by omega)
      · rw [hvirtual, hwidth]
        exact aligned_of_dvd (e := 62) (by norm_num) (by norm_num)
      · exact budget_of_lt (n := 62) (by omega) (by omega)
      · exact budget_of_lt (n := 62) (by omega) (by omega)
    have habove : Emits (findRangesRecursive fuel (-2 ^ 62) (-1) 62) (-2 ^ 62) (-1) := by
      apply left_emits ⟨by omega, by omega, by omega⟩ (by omega) (by omega)
      · rw [hwidth', hmid]
        exact aligned_of_dvd (e := 62) (by norm_num) (by norm_num)
      · exact budget_of_lt (n := 62) (by omega) (by omega)
      · exact budget_of_lt (n := 62) (by omega) (by omega)
    exact hbelow.both habove (by omega) (by omega) (by omega) (by omega)
  · have hlt : minInt64 < bot := by omega
    have hwidth := widthOf_of_lt hlt (-1)
    apply right_emits ⟨hmin, by omega, by omega⟩ hlt (by omega) (by omega)
    · exact fun d _ => dvd_zero _
    · exact budget_of_lt (n := 62) (by omega) (by omega)
    · exact budget_of_lt (n := 62) (by omega) (by omega)

theorem nonneg_emits {fuel : Nat} {top power : Int} (htop : 0 ≤ top) (hmax : top < maxInt64)
    (hpower : 62 ≤ power) (hfuel : 65 ≤ fuel) :
    Emits (findRangesRecursive fuel 0 top power) 0 top := by
  have hval := minInt64_eq
  have hval' := maxInt64_eq
  have hwidth := widthOf_of_lt (show minInt64 < 0 by omega) top
  apply left_emits ⟨by omega, hmax, by omega⟩ htop (by omega)
  · rw [virtualBot_of_lt (by omega)]
    exact fun d _ => dvd_zero _
  · exact budget_of_lt (n := 62) (by omega) (by omega)
  · exact budget_of_lt (n := 62) (by omega) (by omega)

theorem below_emits {fuel : Nat} {bot top : Int} (hmin : minInt64 ≤ bot) (hle : bot ≤ top)
    (hmax : top < maxInt64) (hfuel : recursionDepth ≤ fuel) :
    Emits (findRangesRecursive fuel bot top 63) bot top := by
  have hval := minInt64_eq
  have hval' := maxInt64_eq
  have hbot := virtualBot_le bot
  unfold recursionDepth at hfuel
  by_cases hcross : bot < 0 ∧ 0 ≤ top
  · obtain ⟨fuel, rfl⟩ := Nat.exists_eq_add_of_le' (show 1 ≤ fuel by omega)
    rw [findRanges_sign hcross.1 hcross.2 (by omega)]
    exact (negative_emits hmin hcross.1 (by omega) (by omega)).both
      (nonneg_emits hcross.2 hmax (by omega) (by omega)) rfl (by omega) (by omega) (by omega)
  · by_cases hend : bot = minInt64
    · by_cases hhalf : top = -1
      · rw [hhalf]
        exact negative_emits hmin (by omega) (by omega) (by omega)
      · have hvirtual : virtualBot bot = -2 ^ 63 := by rw [hend, virtualBot_min]
        have hwidth : widthOf bot top = top + 2 ^ 63 + 1 := by
          rw [widthOf, hvirtual]
          omega
        apply left_emits ⟨hmin, hmax, by omega⟩ hle (by omega)
        · rw [hvirtual]
          exact aligned_of_dvd (e := 63) (by norm_num) (by omega)
        · exact budget_of_lt (n := 62) (by omega) (by omega)
        · exact budget_of_lt (n := 62) (by omega) (by omega)
    · have hlt : minInt64 < bot := by omega
      have hwidth := widthOf_of_lt hlt top
      apply plain_emits ⟨hmin, hmax, by omega⟩ hlt hle (by omega)
      · exact budget_of_lt (n := 62) (by omega) (by omega)
      · exact budget_of_lt (n := 62) (by omega) (by omega)

/-! ## Ranges up to the top end -/

/-- What is left of a range below the top end once its largest power is known. -/
theorem findRanges_top {fuel d : Nat} {bot power : Int} (hbot : 2 ≤ bot) (hlt : bot < maxInt64)
    (hpower : 0 ≤ power) (hlo : 2 ^ d ≤ 2 ^ 63 - bot + 1) (hhi : 2 ^ 63 - bot + 1 < 2 ^ (d + 1))
    (r : List Span) :
    findRangesRecursive (fuel + 1) bot maxInt64 power r =
      if 2 ^ d = 2 ^ 63 - bot + 1 ∧ bot % 2 ^ d = 0 then some (r ++ [(bot, maxInt64)])
      else splitRange (fun bot top r => findRangesRecursive fuel bot top (power - 1) r) bot maxInt64
        (if 2 ^ d = 2 ^ 63 - bot + 1 then 2 ^ d / 2 else 2 ^ d) r := by
  have hwidth : maxInt64 - bot + 1 + 1 = 2 ^ 63 - bot + 1 := by
    rw [maxInt64_eq]
    omega
  have hd : d < 63 := lt_of_two_pow_lt (by omega)
  rw [findRangesRecursive, if_neg (by omega), if_neg (by omega), if_neg (by omega)]
  simp only [true_or, if_true, hwidth, intlog2_eq hlo hhi, Int.toNat_natCast]
  rw [if_neg (by omega)]

/-- The ranges `[2^63 - 2^d, 2^63 - 1]` are spans themselves. -/
theorem top_aligned_emits {fuel d : Nat} {power : Int} (hd : 1 ≤ d) (hd' : d ≤ 62)
    (hpower : 0 ≤ power) (hfuel : 1 ≤ fuel) :
    Emits (findRangesRecursive fuel (2 ^ 63 - 2 ^ d) maxInt64 power) (2 ^ 63 - 2 ^ d) maxInt64 := by
  have hval := minInt64_eq
  have hval' := maxInt64_eq
  have htwo : (2 : Int) ^ 1 ≤ 2 ^ d := pow_le_pow_right₀ (by omega) hd
  have hbig : (2 : Int) ^ d ≤ 2 ^ 62 := pow_le_pow_right₀ (by omega) hd'
  have hnext := two_pow_succ d
  have hdvd : ((2 : Int) ^ 63 - 2 ^ d) % 2 ^ d = 0 :=
    Int.emod_eq_zero_of_dvd (Int.dvd_sub (two_pow_dvd (by omega)) (Int.dvd_refl _))
  obtain ⟨fuel, rfl⟩ := Nat.exists_eq_add_of_le' hfuel
  have hcall : findRangesRecursive (fuel + 1) (2 ^ 63 - 2 ^ d) maxInt64 power =
      fun r => some (r ++ [(2 ^ 63 - 2 ^ d, maxInt64)]) := by
    funext r
    rw [findRanges_top (d := d) (by omega) (by omega) hpower (by omega) (by omega),
      if_neg (by omega), if_neg (by omega), splitRange, if_pos (.inr hdvd), if_pos rfl]
  rw [hcall]
  apply emits_span
  rw [virtualBot_of_lt (by omega)]
  exact tiles_lookupCell_max hd hd'

theorem top_wide_emits {fuel : Nat} {bot power : Int} (hbot : bot = 0 ∨ bot = 1)
    (hpower : 0 ≤ power) (hfuel : 65 ≤ fuel) :
    Emits (findRangesRecursive fuel bot maxInt64 power) bot maxInt64 := by
  have hval := minInt64_eq
  have hval' := maxInt64_eq
  obtain ⟨fuel, rfl⟩ := Nat.exists_eq_add_of_le' (show 1 ≤ fuel by omega)
  rw [findRanges_wide (2 ^ 62) (by omega) (by omega) hpower (if_pos (.inl rfl)) (by omega)
    (by omega) (by rw [if_neg (by omega)]; norm_num)]
  have hwidth := widthOf_of_lt (show minInt64 < bot by omega) (2 ^ 62 - 1)
  have hbelow : Emits (findRangesRecursive fuel bot (2 ^ 62 - 1) 62) bot (2 ^ 62 - 1) := by
    apply right_emits ⟨by omega, by omega, by omega⟩ (by omega) (by omega) (by omega)
    · exact aligned_of_dvd (e := 62) (by norm_num) (by omega)
    · exact budget_of_lt (n := 62) (by omega) (by omega)
    · exact budget_of_lt (n := 62) (by omega) (by omega)
  have habove : Emits (findRangesRecursive fuel (2 ^ 63 - 2 ^ 62) maxInt64 62) (2 ^ 63 - 2 ^ 62)
      maxInt64 := top_aligned_emits (by omega) (by omega) (by omega) (by omega)
  norm_num at habove
  norm_num at hbelow ⊢
  exact hbelow.both habove (by omega) (by omega) (by omega) (by omega)

theorem top_crossing_emits {fuel : Nat} {bot : Int} (hmin : minInt64 ≤ bot) (hbot : bot < 0)
    (hfuel : recursionDepth ≤ fuel) :
    Emits (findRangesRecursive fuel bot maxInt64 63) bot maxInt64 := by
  have hval' := maxInt64_eq
  have hvirtual := virtualBot_le bot
  unfold recursionDepth at hfuel
  obtain ⟨fuel, rfl⟩ := Nat.exists_eq_add_of_le' (show 1 ≤ fuel by omega)
  rw [findRanges_sign hbot (by omega) (by omega)]
  exact (negative_emits hmin hbot (by omega) (by omega)).both
    (top_wide_emits (.inl rfl) (by omega) (by omega)) rfl (by omega) (by omega) (by omega)

/-- The call appends spans that tile the range up to the top end, but whose cells cover
the integer `twice` once more. -/
def EmitsTwice (call : List Span → Option (List Span)) (bot twice : Int) : Prop :=
  ∃ spans, (∀ r, call r = some (r ++ spans)) ∧ Tiles Span.contains spans bot maxInt64 ∧
    ∀ x, coverCount Cell.contains (spans.map lookupCell) x =
      (if bot ≤ x ∧ x ≤ maxInt64 then 1 else 0) + if x = twice then 1 else 0

theorem top_last_emitsTwice {fuel : Nat} {power : Int} (hpower : 0 ≤ power) (hfuel : 1 ≤ fuel) :
    EmitsTwice (findRangesRecursive fuel maxInt64 maxInt64 power) maxInt64 (2 ^ 63 - 2) := by
  have hval := maxInt64_eq
  obtain ⟨fuel, rfl⟩ := Nat.exists_eq_add_of_le' hfuel
  have hcut := tiles_lookupCell_cut (d := 1) (by omega) (by omega)
  have hlast : (2 : Int) ^ 63 - 2 ^ 1 + 1 = maxInt64 := by rw [hval]; norm_num
  rw [hlast] at hcut
  refine ⟨[(maxInt64, maxInt64)], findRanges_base hpower, tiles_interval _ _, fun x => ?_⟩
  rw [List.map_singleton, hcut x]
  split <;> split <;> split <;> omega

/-- The span cut off the top reaches down to the integer below its cell. -/
theorem top_cut_emitsTwice {fuel d : Nat} {bot : Int} (hbot : 2 ≤ bot)
    (hlo : 2 ^ d < 2 ^ 63 - bot) (hhi : 2 ^ 63 - bot < 2 ^ (d + 1)) (hd : 1 ≤ d)
    (hfuel : recursionDepth ≤ fuel) :
    EmitsTwice (findRangesRecursive fuel bot maxInt64 63) bot (2 ^ 63 - 2 ^ d) := by
  have hval := minInt64_eq
  have hval' := maxInt64_eq
  have hnext := two_pow_succ d
  have hd' : d < 63 := lt_of_two_pow_lt (by omega)
  have htwo : (2 : Int) ^ 1 ≤ 2 ^ d := pow_le_pow_right₀ (by omega) hd
  unfold recursionDepth at hfuel
  obtain ⟨fuel, rfl⟩ := Nat.exists_eq_add_of_le' (show 1 ≤ fuel by omega)
  have hrest : Emits (findRangesRecursive fuel bot (2 ^ 63 - 2 ^ d) 62) bot (2 ^ 63 - 2 ^ d) := by
    have hwidth := widthOf_of_lt (show minInt64 < bot by omega) (2 ^ 63 - 2 ^ d)
    have hsmall : widthOf bot (2 ^ 63 - 2 ^ d) < 2 ^ 62 := by
      by_cases hd62 : d = 62
      · rw [hd62] at hwidth ⊢
        norm_num at hwidth ⊢
        omega
      · have hbig : (2 : Int) ^ d ≤ 2 ^ 61 := pow_le_pow_right₀ (by omega) (by omega)
        omega
    apply plain_emits ⟨by omega, by omega, by omega⟩ (by omega) (by omega) (by omega)
    · exact budget_of_lt (n := 61) (by omega) (by omega)
    · exact budget_of_lt (n := 61) (by omega) (by omega)
  have hcall : findRangesRecursive (fuel + 1) bot maxInt64 63 = fun r =>
      findRangesRecursive fuel bot (2 ^ 63 - 2 ^ d) 62 (r ++ [(2 ^ 63 - 2 ^ d + 1, maxInt64)]) := by
    funext r
    have hleft : bot % 2 ^ d ≠ 0 := by
      intro hzero
      have hdvd := Int.dvd_of_emod_eq_zero hzero
      have hsub := Int.dvd_sub (two_pow_dvd (show d ≤ 63 by omega)) hdvd
      exact not_dvd_of_between (by omega) (by omega) hsub
    have hsplit : ∀ recurse, splitRange recurse bot maxInt64 (2 ^ d) r =
        recurse bot (2 ^ 63 - 2 ^ d) (r ++ [(2 ^ 63 - 2 ^ d + 1, maxInt64)]) := by
      intro recurse
      have hend : maxInt64 - 2 ^ d + 1 + 1 = 2 ^ 63 - 2 ^ d + 1 := by omega
      rw [splitRange, if_neg (by omega), if_pos (.inl rfl), if_neg (by omega)]
      simp only [if_true, hend, Int.add_sub_cancel]
    by_cases hfull : 2 ^ (d + 1) = 2 ^ 63 - bot + 1
    · -- a power of two by the extra one in the width
      have hodd : ¬ bot % 2 ^ (d + 1) = 0 := by
        intro hzero
        apply hleft
        apply Int.emod_eq_zero_of_dvd
        exact dvd_trans (two_pow_dvd (by omega)) (Int.dvd_of_emod_eq_zero hzero)
      have hhalf : (2 : Int) ^ (d + 1) / 2 = 2 ^ d := by omega
      have hnext' := two_pow_succ (d + 1)
      rw [findRanges_top (d := d + 1) hbot (by omega) (by omega) (by omega) (by omega),
        if_neg (by tauto), if_pos hfull, hhalf, hsplit]
      norm_num
    · rw [findRanges_top (d := d) hbot (by omega) (by omega) (by omega) (by omega),
        if_neg (by omega), if_neg (by omega), hsplit]
      norm_num
  obtain ⟨spans, hspans, hrest, hcells⟩ := hrest
  rw [virtualBot_of_lt (by omega)] at hcells
  refine ⟨(2 ^ 63 - 2 ^ d + 1, maxInt64) :: spans, fun r => ?_,
    (hrest.append (tiles_interval _ _) (by omega) (by omega)).comm, fun x => ?_⟩
  · rw [hcall]
    dsimp only
    rw [hspans, List.append_assoc, List.singleton_append]
  · rw [List.map_cons, ← List.singleton_append, coverCount_append,
      tiles_lookupCell_cut hd (by omega) x, hcells x]
    split <;> split <;> split <;> split <;> omega

/-! ## Every range -/

/-- The ranges no integer of which is looked up twice. -/
def ExactlyCovered (bot top : Int) : Prop :=
  top ≠ maxInt64 ∨ bot ≤ 1 ∨ ∃ d : Nat, 1 ≤ d ∧ d ≤ 62 ∧ bot = 2 ^ 63 - 2 ^ d

theorem exact_emits {fuel : Nat} {bot top : Int} (hmin : minInt64 ≤ bot) (hle : bot ≤ top)
    (hmax : top ≤ maxInt64) (hexact : ExactlyCovered bot top) (hfuel : recursionDepth ≤ fuel) :
    Emits (findRangesRecursive fuel bot top 63) bot top := by
  by_cases htop : top = maxInt64
  · have hval := minInt64_eq
    have hfuel' : 65 ≤ fuel := le_trans (by decide) hfuel
    subst htop
    rcases hexact with hne | hsmall | ⟨d, hd, hd', hbot⟩
    · exact absurd rfl hne
    · by_cases hneg : bot < 0
      · exact top_crossing_emits hmin hneg hfuel
      · exact top_wide_emits (by omega) (by omega) hfuel'
    · have hbig : (2 : Int) ^ d ≤ 2 ^ 62 := pow_le_pow_right₀ (by omega) hd'
      rw [hbot]
      exact top_aligned_emits hd hd' (by omega) (by omega)
  · exact below_emits hmin hle (by omega) hfuel

theorem twice_emits {fuel : Nat} {bot : Int} (hle : bot ≤ maxInt64)
    (hexact : ¬ ExactlyCovered bot maxInt64) (hfuel : recursionDepth ≤ fuel) :
    ∃ twice, 0 ≤ twice ∧ twice ≤ maxInt64 ∧
      EmitsTwice (findRangesRecursive fuel bot maxInt64 63) bot twice := by
  have hval := maxInt64_eq
  have hbot : 2 ≤ bot := by
    by_contra hlt
    exact hexact (.inr (.inl (by omega)))
  by_cases hlast : bot = maxInt64
  · have hfuel' : 1 ≤ fuel := le_trans (by decide) hfuel
    rw [hlast]
    exact ⟨2 ^ 63 - 2, by omega, by omega, top_last_emitsTwice (by omega) hfuel'⟩
  · obtain ⟨d, hlo, hhi⟩ := exists_two_pow_le (show 1 ≤ 2 ^ 63 - bot by omega)
    have hd : 1 ≤ d := by
      by_contra hzero
      obtain rfl : d = 0 := by omega
      norm_num at hhi
      omega
    have hd' : d < 63 := lt_of_two_pow_lt (by omega)
    have hbig : (2 : Int) ^ d ≤ 2 ^ 62 := pow_le_pow_right₀ (by omega) (by omega)
    have hp := two_pow_pos d
    have hne : (2 : Int) ^ d ≠ 2 ^ 63 - bot := by
      intro heq
      exact hexact (.inr (.inr ⟨d, hd, by omega, by omega⟩))
    exact ⟨2 ^ 63 - 2 ^ d, by omega, by omega,
      top_cut_emitsTwice hbot (by omega) hhi hd hfuel⟩

/-! ## The recursion depth -/

/-- The second call returns whatever the first one does. -/
def Extends (x x' : Option (List Span)) : Prop := ∀ spans, x = some spans → x' = some spans

theorem Extends.refl (x : Option (List Span)) : Extends x x := fun _ h => h

theorem Extends.ite {x x' y y' : Option (List Span)} {c : Prop} [Decidable c]
    (hx : Extends x x') (hy : Extends y y') :
    Extends (if c then x else y) (if c then x' else y') := by
  by_cases hc : c
  · rwa [if_pos hc, if_pos hc]
  · rwa [if_neg hc, if_neg hc]

theorem Extends.bind {x x' : Option (List Span)} {f f' : List Span → Option (List Span)}
    (hx : Extends x x') (hf : ∀ r, Extends (f r) (f' r)) : Extends (x >>= f) (x' >>= f') := by
  intro spans h
  cases hr : x with
  | none => simp [hr] at h
  | some r =>
      rw [hr] at h
      rw [hx r hr]
      exact hf r spans h

theorem splitRange_extends {recurse recurse' : Int → Int → List Span → Option (List Span)}
    (hrec : ∀ bot top r, Extends (recurse bot top r) (recurse' bot top r)) (bot top p : Int)
    (r : List Span) :
    Extends (splitRange recurse bot top p r) (splitRange recurse' bot top p r) := by
  unfold splitRange
  dsimp only
  apply Extends.ite
  · exact .ite (.refl _) (hrec _ _ _)
  · apply Extends.ite
    · exact .ite (.refl _) (hrec _ _ _)
    · exact .bind (hrec _ _ _) (fun _ => hrec _ _ _)

/-- A result does not depend on how much deeper the recursion could go. -/
theorem findRangesRecursive_extends {fuel fuel' : Nat} (hle : fuel ≤ fuel') (bot top power : Int)
    (r : List Span) :
    Extends (findRangesRecursive fuel bot top power r)
      (findRangesRecursive fuel' bot top power r) := by
  induction fuel generalizing fuel' bot top power r with
  | zero => simp [Extends, findRangesRecursive]
  | succ fuel ih =>
      obtain ⟨fuel', rfl⟩ := Nat.exists_eq_add_of_le' (show 1 ≤ fuel' by omega)
      have hrec := ih (show fuel ≤ fuel' by omega)
      rw [findRangesRecursive, findRangesRecursive]
      dsimp only
      apply Extends.ite (.refl _)
      apply Extends.ite (.refl _)
      apply Extends.ite
      · exact .bind (hrec _ _ _ _) (fun _ => hrec _ _ _ _)
      apply Extends.ite
      · exact .bind (hrec _ _ _ _) (fun _ => hrec _ _ _ _)
      apply Extends.ite (.refl _)
      exact splitRange_extends (fun _ _ _ => hrec _ _ _ _) _ _ _ _

end Madlib.Sketch
