import Madlib.Sketch.RangeQuery

/-!
# Range counts

The count of a cell is at least the number of the stream's values in it, and equal to
it where some row tells the cell apart.  A range count is therefore at least, and
without collisions exactly, the number of the values in the cells of its spans, each
counted as often as it is covered.
-/

namespace Madlib.Sketch

open Madlib.Lib.Blocks Madlib.Lib.Dyadic Madlib.Lib.MachineInt Madlib.Lib.Loop

/-- The transition value after a stream of insertions into a fresh one. -/
def sketchStream (md5 : Md5) (typeOutput : Nat → Nat) (stream : List Int64) :
    Except Backend.Fault CmTransval :=
  stream.foldlM (countminDyadicTransC md5) (cmsketchInitTransval typeOutput int8Oid)

/-- No value outside the cell shares the cell's counter in every row. -/
def CollisionFree (md5 : Md5) (stream : List Int64) (cell : Cell) : Prop :=
  ∃ i, ∀ x ∈ stream, column (levelHash md5 cell.exponent x.toInt) i =
    column (sketchMd5Bytea md5 (int64Bytes cell.index)) i → cell.contains x.toInt = true

/-- The values of the stream that lie in a cell. -/
def cellTotal (stream : List Int64) (cell : Cell) : Nat :=
  (stream.map Int64.toInt).countP fun x => cell.contains x

/-! ## One cell -/

theorem chosenCounter_eq {md5 : Md5} {typeOutput : Nat → Nat} {stream : List Int64}
    {transval : CmTransval} (h : sketchStream md5 typeOutput stream = .ok transval)
    (j : Fin 64) (val : Int) (i : Fin 8) :
    chosenCounter md5 (transval.sketches j) val i =
      chosenCount md5 stream j i (column (sketchMd5Bytea md5 (int64Bytes val)) i) := by
  have ⟨hcounted, _⟩ := counted_of_run h (fun _ _ _ => Nat.zero_le _)
  have hle := hcounted.below j i (column (sketchMd5Bytea md5 (int64Bytes val)) i)
  have hval : int64Max.toNat = 9223372036854775807 := rfl
  unfold chosenCounter
  rw [signed64_of_lt (by omega), hcounted.toNat_eq]
  exact congrArg Nat.cast (Nat.zero_add _)

theorem cellTotal_le_chosenCount (md5 : Md5) (stream : List Int64) (cell : Cell) (j : Fin 64)
    (hj : cell.exponent = j) (i : Fin 8) :
    cellTotal stream cell ≤
      chosenCount md5 stream j i (column (sketchMd5Bytea md5 (int64Bytes cell.index)) i) := by
  unfold cellTotal chosenCount
  rw [List.countP_map]
  apply List.countP_mono_left
  intro x _ hx
  have hindex : x.toInt / 2 ^ cell.exponent = cell.index := by
    simpa [Cell.contains] using hx
  rw [← hj, levelHash, hindex]
  simp

theorem chosenCount_eq_cellTotal {md5 : Md5} {stream : List Int64} {cell : Cell} {j : Fin 64}
    (hj : cell.exponent = j) (h : CollisionFree md5 stream cell) :
    ∃ i, chosenCount md5 stream j i (column (sketchMd5Bytea md5 (int64Bytes cell.index)) i) =
      cellTotal stream cell := by
  have ⟨i, hi⟩ := h
  refine ⟨i, Nat.le_antisymm ?_ (cellTotal_le_chosenCount md5 stream cell j hj i)⟩
  unfold cellTotal chosenCount
  rw [List.countP_map]
  apply List.countP_mono_left
  intro x hx hcol
  apply hi x hx
  rw [hj]
  simpa using hcol

/-- One lookup counts the values in its cell, and more only by collisions. -/
theorem spanCount_spec {md5 : Md5} {typeOutput : Nat → Nat} {stream : List Int64}
    {transval : CmTransval} (h : sketchStream md5 typeOutput stream = .ok transval) {span : Span}
    (hexp : (lookupCell span).exponent ≤ 63) (hlo : -2 ^ 63 ≤ (lookupCell span).index)
    (hhi : (lookupCell span).index < 2 ^ 63) :
    ∃ n, spanCount md5 (rowsOf (sketchBytes transval.sketches) (8 * 64)) span = some n ∧
      (cellTotal stream (lookupCell span) : Int) ≤ n ∧
      (CollisionFree md5 stream (lookupCell span) → n = cellTotal stream (lookupCell span)) := by
  generalize hcell : lookupCell span = cell at hexp hlo hhi ⊢
  have hj : cell.exponent = (⟨cell.exponent, by omega⟩ : Fin 64).val := rfl
  generalize (⟨cell.exponent, by omega⟩ : Fin 64) = j at hj
  have ⟨n, hn, hle, i, hi⟩ := doCountRows_level md5 transval.sketches j hlo hhi
  refine ⟨n, ?_, ?_, fun hfree => ?_⟩
  · unfold spanCount
    dsimp only
    rw [hcell, hj]
    exact hn
  · rw [hi, chosenCounter_eq h]
    exact_mod_cast cellTotal_le_chosenCount md5 stream cell j hj i
  · have ⟨i', hi'⟩ := chosenCount_eq_cellTotal hj hfree
    have hupper := hle i'
    have hlower := cellTotal_le_chosenCount md5 stream cell j hj i
    rw [chosenCounter_eq h, hi'] at hupper
    rw [chosenCounter_eq h] at hi
    omega

/-! ## The cells of a range -/

/-- The loop over the spans adds up the values in their cells. -/
theorem spans_foldlM {md5 : Md5} {typeOutput : Nat → Nat} {stream : List Int64}
    {transval : CmTransval} (h : sketchStream md5 typeOutput stream = .ok transval)
    {spans : List Span} (hcells : ∀ span ∈ spans, (lookupCell span).exponent ≤ 63 ∧
      -2 ^ 63 ≤ (lookupCell span).index ∧ (lookupCell span).index < 2 ^ 63) (cursum : Int) :
    ∃ n, spans.foldlM (fun cursum span => do
        let val ← spanCount md5 (rowsOf (sketchBytes transval.sketches) (8 * 64)) span
        pure (cursum + val)) cursum = some n ∧
      cursum + ((spans.map lookupCell).map (cellTotal stream)).sum ≤ n ∧
      ((∀ span ∈ spans, CollisionFree md5 stream (lookupCell span)) →
        n = cursum + ((spans.map lookupCell).map (cellTotal stream)).sum) := by
  induction spans generalizing cursum with
  | nil => exact ⟨cursum, rfl, by simp, by simp⟩
  | cons span spans ih =>
      have ⟨hexp, hlo, hhi⟩ := hcells span List.mem_cons_self
      have ⟨val, hval, hle, heq⟩ := spanCount_spec h hexp hlo hhi
      have ⟨n, hn, hle', heq'⟩ :=
        ih (fun s hs => hcells s (List.mem_cons_of_mem span hs)) (cursum + val)
      refine ⟨n, ?_, ?_, fun hfree => ?_⟩
      · rw [List.foldlM_cons, hval]
        exact hn
      · simp only [List.map_cons, List.sum_cons]
        omega
      · have hfirst := heq (hfree span List.mem_cons_self)
        have hrest := heq' (fun s hs => hfree s (List.mem_cons_of_mem span hs))
        simp only [List.map_cons, List.sum_cons]
        omega

theorem sum_cellTotal (stream : List Int64) (cells : List Cell) :
    (cells.map (cellTotal stream)).sum =
      ((stream.map Int64.toInt).map fun x => coverCount Cell.contains cells x).sum :=
  sum_countP_contains Cell.contains cells (stream.map Int64.toInt)

/-- The cells of spans that cover int64 values only have a counter. -/
theorem lookupCell_bounds {spans : List Span}
    (h : ∀ x, 0 < coverCount Cell.contains (spans.map lookupCell) x → -2 ^ 63 ≤ x ∧ x < 2 ^ 63) :
    ∀ span ∈ spans, (lookupCell span).exponent ≤ 63 ∧
      -2 ^ 63 ≤ (lookupCell span).index ∧ (lookupCell span).index < 2 ^ 63 := by
  intro span hspan
  apply Cell.bounds
  intro x hx
  exact h x (coverCount_pos_of_mem (List.mem_map_of_mem hspan) hx)

/-- A range whose cells stay within int64 is counted by what its cells cover. -/
theorem doRangecount_spec {md5 : Md5} {typeOutput : Nat → Nat} {stream : List Int64}
    {transval : CmTransval} (h : sketchStream md5 typeOutput stream = .ok transval)
    {bot top : Int} {spans : List Span}
    (hspans : ∀ fuel, recursionDepth ≤ fuel → findRanges fuel bot top = some spans)
    (hcover : ∀ x, 0 < coverCount Cell.contains (spans.map lookupCell) x →
      -2 ^ 63 ≤ x ∧ x < 2 ^ 63) :
    ∃ n, (∀ fuel, recursionDepth ≤ fuel →
        doRangecount fuel md5 (sketchBytes transval.sketches) bot top = some n) ∧
      (((stream.map Int64.toInt).map fun x =>
        coverCount Cell.contains (spans.map lookupCell) x).sum : Int) ≤ n ∧
      ((∀ span ∈ spans, CollisionFree md5 stream (lookupCell span)) →
        n = ((stream.map Int64.toInt).map fun x =>
          coverCount Cell.contains (spans.map lookupCell) x).sum) := by
  have ⟨n, hn, hle, heq⟩ := spans_foldlM h (lookupCell_bounds hcover) 0
  rw [sum_cellTotal, Int.zero_add] at hle heq
  refine ⟨n, fun fuel hfuel => ?_, hle, heq⟩
  unfold doRangecount
  rw [hspans fuel hfuel]
  exact hn

/-! ## Every range -/

/-- The spans of a range tile it.  Their cells do, too, or cover one integer up to the
largest int64 once more. -/
theorem findRanges_spans {bot top : Int} (hmin : minInt64 ≤ bot) (hle : bot ≤ top)
    (hmax : top ≤ maxInt64) :
    ∃ spans, (∀ fuel, recursionDepth ≤ fuel → findRanges fuel bot top = some spans) ∧
      Tiles Span.contains spans bot top ∧
      ((ExactlyCovered bot top ∧ Tiles Cell.contains (spans.map lookupCell) (virtualBot bot) top) ∨
        ¬ ExactlyCovered bot top ∧ ∃ twice, 0 ≤ twice ∧ twice ≤ maxInt64 ∧
          ∀ x, coverCount Cell.contains (spans.map lookupCell) x =
            (if bot ≤ x ∧ x ≤ top then 1 else 0) + if x = twice then 1 else 0) := by
  have hfuel : ∀ spans, findRangesRecursive recursionDepth bot top 63 [] = some spans →
      ∀ fuel, recursionDepth ≤ fuel → findRanges fuel bot top = some spans :=
    fun spans h fuel hfuel => findRangesRecursive_extends hfuel bot top 63 [] spans h
  by_cases hexact : ExactlyCovered bot top
  · have ⟨spans, hcall, hspans, hcells⟩ := exact_emits hmin hle hmax hexact (le_refl _)
    exact ⟨spans, hfuel spans (hcall []), hspans, .inl ⟨hexact, hcells⟩⟩
  · have htop : top = maxInt64 := by
      by_contra hne
      exact hexact (.inl hne)
    subst htop
    have ⟨twice, hlo, hhi, spans, hcall, hspans, hcells⟩ := twice_emits hle hexact (le_refl _)
    exact ⟨spans, hfuel spans (hcall []), hspans, .inr ⟨hexact, twice, hlo, hhi, hcells⟩⟩

def countInRange (stream : List Int64) (bot top : Int) : Nat :=
  stream.countP fun x => bot ≤ x.toInt ∧ x.toInt ≤ top

theorem countP_toInt (stream : List Int64) (bot top : Int) :
    ((stream.map Int64.toInt).countP fun x => decide (bot ≤ x ∧ x ≤ top)) =
      countInRange stream bot top := by
  unfold countInRange
  rw [List.countP_map]
  rfl

/-- A looked up value is never counted too low. -/
theorem doCount_le {md5 : Md5} {typeOutput : Nat → Nat} {stream : List Int64}
    {transval : CmTransval} (h : sketchStream md5 typeOutput stream = .ok transval) (v : Int64) :
    ∃ n, doCount md5 (sketchBytes transval.sketches) v.toInt = some n ∧
      (stream.count v : Int) ≤ n := by
  have ⟨n, hn, _, i, hi⟩ := doCount_eq md5 transval.sketches v.le_toInt v.toInt_lt
  refine ⟨n, hn, ?_⟩
  rw [hi, chosenCounter_eq h]
  have hle : stream.count v ≤ chosenCount md5 stream 0 i
      (column (sketchMd5Bytea md5 (int64Bytes v.toInt)) i) := by
    unfold List.count chosenCount
    apply List.countP_mono_left
    intro x _ hx
    have heq : x = v := eq_of_beq hx
    simp [heq, levelHash]
  exact_mod_cast hle

theorem doRangecount_le {md5 : Md5} {typeOutput : Nat → Nat} {stream : List Int64}
    {transval : CmTransval} (h : sketchStream md5 typeOutput stream = .ok transval)
    {bot top : Int} (hmin : minInt64 ≤ bot) (hle : bot ≤ top) (hmax : top ≤ maxInt64) :
    ∃ spans n, (∀ fuel, recursionDepth ≤ fuel → findRanges fuel bot top = some spans ∧
        doRangecount fuel md5 (sketchBytes transval.sketches) bot top = some n) ∧
      Tiles Span.contains spans bot top ∧ (countInRange stream bot top : Int) ≤ n := by
  have ⟨spans, hrun, hspans, hcells⟩ := findRanges_spans hmin hle hmax
  have hval := minInt64_eq
  have hval' := maxInt64_eq
  have hbot := le_virtualBot hmin
  have hbelow := virtualBot_le bot
  have hcover : ∀ x, 0 < coverCount Cell.contains (spans.map lookupCell) x →
      -2 ^ 63 ≤ x ∧ x < 2 ^ 63 := by
    intro x hx
    rcases hcells with ⟨_, htiles⟩ | ⟨_, twice, hlo, hhi, htwice⟩
    · rw [htiles x] at hx
      split at hx <;> omega
    · rw [htwice x] at hx
      split at hx <;> split at hx <;> omega
  have ⟨n, hn, hsum, _⟩ := doRangecount_spec h hrun hcover
  refine ⟨spans, n, fun fuel hfuel => ⟨hrun fuel hfuel, hn fuel hfuel⟩, hspans, ?_⟩
  have hcount : countInRange stream bot top ≤ ((stream.map Int64.toInt).map fun x =>
      coverCount Cell.contains (spans.map lookupCell) x).sum := by
    rw [← countP_toInt]
    apply countP_le_sum
    intro x hx
    have hin : bot ≤ x ∧ x ≤ top := of_decide_eq_true hx
    rcases hcells with ⟨_, htiles⟩ | ⟨_, twice, _, _, htwice⟩
    · rw [htiles x, if_pos (by omega)]
    · rw [htwice x, if_pos hin]
      omega
  exact le_trans (by exact_mod_cast hcount) hsum

/-- A finished sketch counts no value and no range too low, and no part of a range is
dropped on the way. -/
theorem sketch_never_undercounts (md5 : Md5) (typeOutput : Nat → Nat) (stream : List Int64)
    (transval : CmTransval) (h : sketchStream md5 typeOutput stream = .ok transval) :
    (∀ v : Int64, ∃ n, doCount md5 (sketchBytes transval.sketches) v.toInt = some n ∧
      (stream.count v : Int) ≤ n) ∧
    ∀ bot top, minInt64 ≤ bot → bot ≤ top → top ≤ maxInt64 →
      ∃ spans n, (∀ fuel, recursionDepth ≤ fuel → findRanges fuel bot top = some spans ∧
          doRangecount fuel md5 (sketchBytes transval.sketches) bot top = some n) ∧
        Tiles Span.contains spans bot top ∧ (countInRange stream bot top : Int) ≤ n :=
  ⟨doCount_le h, fun _ _ hmin hle hmax => doRangecount_le h hmin hle hmax⟩

theorem sketchStream_total (md5 : Md5) (typeOutput : Nat → Nat) {stream : List Int64}
    (h : stream.length < 2 ^ 63) :
    ∃ transval, sketchStream md5 typeOutput stream = .ok transval := by
  apply run_total md5 rfl
  intro j i k
  change 0 + stream.length ≤ int64Max.toNat
  have hval : int64Max.toNat = 9223372036854775807 := rfl
  omega

theorem sketch_never_undercounts_one : ∃ transval n,
    sketchStream (fun _ _ => 0) (fun _ => 0) [5] = .ok transval ∧
      doCount (fun _ _ => 0) (sketchBytes transval.sketches) (Int64.toInt 5) = some n ∧
      (List.count 5 ([5] : List Int64) : Int) ≤ n := by
  have hlen : ([5] : List Int64).length < 2 ^ 63 := by decide
  have ⟨transval, h⟩ := sketchStream_total (fun _ _ => 0) (fun _ => 0) hlen
  have ⟨hcount, _⟩ := sketch_never_undercounts (fun _ _ => 0) (fun _ => 0) [5] transval h
  have ⟨n, hn, hle⟩ := hcount 5
  exact ⟨transval, n, h, hn, hle⟩

/-! ## Exact range counts -/

/-- The cells cover every integer of the range once and no other one, and without
collisions the range count is the number of the stream's values in it.  The
smallest int64 is left to ranges that start above it. -/
def ExactLookups (bot top : Int) : Prop :=
  ∃ spans, (∀ fuel, recursionDepth ≤ fuel → findRanges fuel bot top = some spans) ∧
    (∀ x, minInt64 ≤ x → x ≤ maxInt64 →
      coverCount Cell.contains (spans.map lookupCell) x = if bot ≤ x ∧ x ≤ top then 1 else 0) ∧
    ∀ md5 typeOutput stream transval, sketchStream md5 typeOutput stream = .ok transval →
      (bot = minInt64 → ∀ x ∈ stream, minInt64 ≤ x.toInt) →
      (∀ span ∈ spans, CollisionFree md5 stream (lookupCell span)) →
      ∀ fuel, recursionDepth ≤ fuel →
        doRangecount fuel md5 (sketchBytes transval.sketches) bot top =
          some (countInRange stream bot top : Int)

/-- Read from the virtual bottom, a stream has the same values in a range. -/
theorem countP_virtualBot {stream : List Int64} {bot top : Int}
    (h : bot = minInt64 → ∀ x ∈ stream, minInt64 ≤ x.toInt) :
    ((stream.map Int64.toInt).countP fun x => decide (virtualBot bot ≤ x ∧ x ≤ top)) =
      countInRange stream bot top := by
  rw [← countP_toInt]
  apply List.countP_congr
  intro x hx
  have ⟨y, hy, hxy⟩ := List.mem_map.mp hx
  rw [decide_eq_true_iff, decide_eq_true_iff]
  by_cases hbot : bot = minInt64
  · have hle := h hbot y hy
    have hval := minInt64_eq
    rw [hbot, virtualBot_min]
    omega
  · rw [virtualBot, if_neg hbot]

theorem exactLookups_of_tiles {bot top : Int} {spans : List Span} (hmin : minInt64 ≤ bot)
    (hmax : top ≤ maxInt64)
    (hrun : ∀ fuel, recursionDepth ≤ fuel → findRanges fuel bot top = some spans)
    (htiles : Tiles Cell.contains (spans.map lookupCell) (virtualBot bot) top) :
    ExactLookups bot top := by
  have hval := minInt64_eq
  have hval' := maxInt64_eq
  have hbot := le_virtualBot hmin
  refine ⟨spans, hrun, fun x hlo _ => ?_, fun md5 typeOutput stream transval h hstream hfree => ?_⟩
  · rw [htiles x]
    have hiff : (virtualBot bot ≤ x ∧ x ≤ top) ↔ (bot ≤ x ∧ x ≤ top) := by
      unfold virtualBot
      split <;> omega
    simp only [hiff]
  · have hcover : ∀ x, 0 < coverCount Cell.contains (spans.map lookupCell) x →
        -2 ^ 63 ≤ x ∧ x < 2 ^ 63 := by
      intro x hx
      rw [htiles x] at hx
      split at hx <;> omega
    have ⟨n, hn, _, heq⟩ := doRangecount_spec h hrun hcover
    intro fuel hfuel
    have hsum : ((stream.map Int64.toInt).map fun x =>
        coverCount Cell.contains (spans.map lookupCell) x).sum =
        countInRange stream bot top := by
      have hind : ∀ x, coverCount Cell.contains (spans.map lookupCell) x =
          if decide (virtualBot bot ≤ x ∧ x ≤ top) = true then 1 else 0 := by
        intro x
        rw [htiles x]
        simp
      simp only [hind]
      rw [sum_indicator, countP_virtualBot hstream]
    rw [hn fuel hfuel, heq hfree, hsum]

theorem not_exactLookups {bot top twice : Int} {spans : List Span} (hlo : 0 ≤ twice)
    (hhi : twice ≤ maxInt64)
    (hrun : ∀ fuel, recursionDepth ≤ fuel → findRanges fuel bot top = some spans)
    (htwice : ∀ x, coverCount Cell.contains (spans.map lookupCell) x =
      (if bot ≤ x ∧ x ≤ top then 1 else 0) + if x = twice then 1 else 0) :
    ¬ ExactLookups bot top := by
  intro ⟨spans', hrun', hcover, _⟩
  have heq := (hrun recursionDepth (le_refl _)).symm.trans (hrun' recursionDepth (le_refl _))
  cases heq
  have hval := minInt64_eq
  have hone := hcover twice (by omega) hhi
  rw [htwice twice, if_pos rfl] at hone
  omega

/-- Lookups are exact but for the ranges up to the largest int64 that start above 1 and
not a power of two below `2^63`. -/
theorem exactLookups_iff (bot top : Int) (hmin : minInt64 ≤ bot) (hle : bot ≤ top)
    (hmax : top ≤ maxInt64) :
    ExactLookups bot top ↔
      top ≠ 2 ^ 63 - 1 ∨ bot ≤ 1 ∨ ∃ d : Nat, 1 ≤ d ∧ d ≤ 62 ∧ bot = 2 ^ 63 - 2 ^ d := by
  have ⟨spans, hrun, _, hcells⟩ := findRanges_spans hmin hle hmax
  rcases hcells with ⟨hexact, htiles⟩ | ⟨hexact, twice, hlo, hhi, htwice⟩
  · exact iff_of_true (exactLookups_of_tiles hmin hmax hrun htiles) hexact
  · exact iff_of_false (not_exactLookups hlo hhi hrun htwice) hexact

theorem exactLookups_iff_small :
    ExactLookups 14 48 ↔
      (48 : Int) ≠ 2 ^ 63 - 1 ∨ (14 : Int) ≤ 1 ∨
        ∃ d : Nat, 1 ≤ d ∧ d ≤ 62 ∧ (14 : Int) = 2 ^ 63 - 2 ^ d :=
  exactLookups_iff 14 48 (by rw [minInt64_eq]; omega) (by omega) (by rw [maxInt64_eq]; omega)

/-- The range of the largest int64 alone is looked up by the cell of the last two. -/
theorem exactLookups_last : ¬ ExactLookups (2 ^ 63 - 1) (2 ^ 63 - 1) := by
  have hlast : EmitsTwice (findRangesRecursive recursionDepth maxInt64 maxInt64 63) maxInt64
      (2 ^ 63 - 2) := top_last_emitsTwice (by omega) (by decide)
  have ⟨spans, hcall, _, hcells⟩ := hlast
  have hval := maxInt64_eq
  apply not_exactLookups (by omega) (by omega) _ hcells
  intro fuel hfuel
  exact findRangesRecursive_extends hfuel _ _ _ _ spans (hcall [])

end Madlib.Sketch
