import Madlib.Sketch.Datum

/-!
# The sortasort

A set of datums: a directory of offsets into the storage the datums are copied to one
after the other.  All but the last entries of the directory, fewer than `SORTA_SLOP`,
are sorted; they are searched by bisection, the others one by one.  The directory is
sorted again at every `SORTA_SLOP`th insertion.
-/

namespace Madlib.Sketch

open Madlib.Backend Madlib.Lib.Loop

def sortaSlop : Nat := 100

structure Sortasort where
  capacity : Nat
  storageSz : Nat
  typLen : Int
  typByVal : Bool
  dir : List Nat
  /-- the storage up to `storage_cur` -/
  data : List UInt8

namespace Sortasort

def numVals (s : Sortasort) : Nat := s.dir.length

def storageCur (s : Sortasort) : Nat := s.data.length

end Sortasort

/-- `sizeof(sortasort)` -/
def sizeofSortasort : Nat := 48

def sortasortInit (capacity ssz : Nat) (typLen : Int) (typByVal : Bool) :
    Except Fault Sortasort :=
  if ssz - sizeofSortasort ≤ capacity * 4 then
    .error (.elog "sortasort initialized too small to hold its own directory")
  else
    .ok
      { capacity := capacity
        storageSz := ssz - sizeofSortasort - capacity * 4
        typLen := typLen
        typByVal := typByVal
        dir := []
        data := [] }

/-- `SORTASORT_GETVAL`: the storage from the start of a datum on. -/
def getval (s : Sortasort) (i : Int) : Except Fault (List UInt8) :=
  if i < 0 then .error .outOfBounds
  else
    match s.dir[i.toNat]? with
    | some offset => .ok (s.data.drop offset)
    | none => .error .outOfBounds

/-- The bounds of the bisection. -/
structure Bisection where
  themin : Int
  theguess : Int
  themax : Int

/-- One round of the bisection, which is left with a position or without one. -/
def bisect (s : Sortasort) (dat : List UInt8) (len : Nat) (b : Bisection) :
    Except Fault (Step Bisection (Option Int)) :=
  if b.themin < b.themax then do
    let x ← getval s b.theguess
    let diff ← memcmp x dat len
    if diff = 0 then pure (.done (some b.theguess))
    else if b.themin = b.themax - 1 then pure (.done none)
    else if diff < 0 then
      -- undershot
      let addend := (b.themax - b.theguess).tdiv 2
      let addend := if addend = 0 then 1 else addend
      pure (.next ⟨b.theguess, b.theguess + addend, b.themax⟩)
    else
      -- overshot
      let subtrahend := (b.theguess - b.themin).tdiv 2
      let subtrahend := if subtrahend = 0 then 1 else subtrahend
      pure (.next ⟨b.themin, b.theguess - subtrahend, b.theguess⟩)
  else pure (.done none)

/-- The search in the unsorted part of the directory. -/
def findTail (s : Sortasort) (dat : List UInt8) (len : Nat) : List Nat → Except Fault Int
  | [] => .ok (-1)
  | i :: rest => do
      let x ← getval s i
      let diff ← memcmp x dat len
      if diff = 0 then pure (i : Int) else findTail s dat len rest

def sortasortFind (catalog : Catalog) (s : Sortasort) (dat : List UInt8) : Except Fault Int := do
  let hi := s.numVals / sortaSlop * sortaSlop
  let len ← extractDatumLen catalog dat s.typLen
  if (s.numVals : Int) ≤ (hi : Int) - 1 then
    .error (.elog s!"sortasort failure: max = {(hi : Int) - 1}, num_vals = {s.numVals}")
  else
    match run (bisect s dat len) (s.numVals + 1) ⟨0, (hi / 2 : Nat), (hi : Int) - 1⟩ with
    | none => .error .unfinished
    | some (.error e) => .error e
    | some (.ok (some i)) => .ok i
    | some (.ok none) => findTail s dat len (List.range' hi (s.numVals - hi))

/-- The second length is extracted by the length of the first datum, not by the type's. -/
def sortaCmp (catalog : Catalog) (s : Sortasort) (first second : Nat) : Except Fault Int :=
  let dat1 := s.data.drop first
  let dat2 := s.data.drop second
  let len := s.typLen
  if len < 0 then do
    let len ← extractDatumLen catalog dat1 len
    let len2 ← extractDatumLen catalog dat2 len
    let shorter := (len : Int) - len2
    if shorter ≠ 0 then pure shorter else memcmp dat1 dat2 len
  else memcmp dat1 dat2 len.toNat

/-! ## Sorting -/

def qsortInsert {α : Type} (cmp : α → α → Except Fault Int) (a : α) :
    List α → Except Fault (List α)
  | [] => .ok [a]
  | b :: l => do
      let c ← cmp a b
      if c ≤ 0 then pure (a :: b :: l)
      else do
        let l ← qsortInsert cmp a l
        pure (b :: l)

/-- The backend's `qsort_arg`: the items in the order of the comparison. -/
def qsortArg {α : Type} (cmp : α → α → Except Fault Int) : List α → Except Fault (List α)
  | [] => .ok []
  | a :: l => do
      let l ← qsortArg cmp l
      qsortInsert cmp a l

/-! ## Insertion -/

/-- The datum is copied behind the others, and the directory sorted if it is time to. -/
def storeDatum (catalog : Catalog) (s : Sortasort) (datp : List UInt8) :
    Except Fault Sortasort :=
  let s : Sortasort := { s with dir := s.dir ++ [s.storageCur], data := s.data ++ datp }
  if s.storageSz < s.storageCur then
    .error (.elog "went off the end of sortasort storage")
  else if s.numVals % sortaSlop = 0 then do
    let dir ← qsortArg (sortaCmp catalog s) s.dir
    pure { s with dir := dir }
  else .ok s

/-- Returns `TRUE` if the datum is in the set afterwards, `FALSE` if the storage is too
small for it, and -1 if the directory is full. -/
def sortasortTryInsert (catalog : Catalog) (s : Sortasort) (dat : List UInt8) (len : Int) :
    Except Fault (Sortasort × Int) := do
  let found ← sortasortFind catalog s dat
  if 0 ≤ found ∧ found < s.numVals then pure (s, 1)
  else do
    let len ← extractDatumLen catalog dat len
    if found < -1 ∨ (s.numVals : Int) ≤ found then
      .error (.elog s!"invalid offset {found} returned by sortasort_find")
    else if s.storageSz ≤ s.storageCur + len then pure (s, 0)
    else if s.capacity ≤ s.numVals then pure (s, -1)
    else do
      let datp ← readBytes dat len
      let s ← storeDatum catalog s datp
      pure (s, 1)

/-! ## The set of a sortasort -/

/-- The datum at an offset of the storage. -/
def valueAt (catalog : Catalog) (s : Sortasort) (offset : Nat) : List UInt8 :=
  match extractDatumLen catalog (s.data.drop offset) s.typLen with
  | .ok len => (s.data.drop offset).take len
  | .error _ => []

/-- The datums in the order of the directory. -/
def values (catalog : Catalog) (s : Sortasort) : List (List UInt8) :=
  s.dir.map (valueAt catalog s)

/-- A datum of the type lies at the offset. -/
def Stored (catalog : Catalog) (s : Sortasort) (offset : Nat) : Prop :=
  offset ≤ s.data.length ∧ ∃ rest, IsDatum catalog s.typLen (valueAt catalog s offset) ∧
    s.data.drop offset = valueAt catalog s offset ++ rest

structure WellFormed (catalog : Catalog) (s : Sortasort) : Prop where
  stored : ∀ offset ∈ s.dir, Stored catalog s offset
  distinct : (values catalog s).Nodup
  sorted : ((values catalog s).take (s.numVals / sortaSlop * sortaSlop)).Pairwise (· < ·)
  room : s.storageCur < s.storageSz

variable {catalog : Catalog} {s : Sortasort} {dat : List UInt8}

theorem valueAt_eq {offset : Nat} {d rest : List UInt8} (h : IsDatum catalog s.typLen d)
    (hdrop : s.data.drop offset = d ++ rest) : valueAt catalog s offset = d := by
  unfold valueAt
  rw [hdrop, extractDatumLen_append h]
  exact List.take_left

theorem length_values (catalog : Catalog) (s : Sortasort) :
    (values catalog s).length = s.numVals := List.length_map _

/-- The value at a position, with whatever lies behind it. -/
theorem getval_ok (h : WellFormed catalog s) {i : Nat} (hi : i < (values catalog s).length) :
    IsDatum catalog s.typLen (values catalog s)[i] ∧
      ∃ rest, getval s i = .ok ((values catalog s)[i] ++ rest) := by
  have hdir : i < s.dir.length := by rwa [length_values] at hi
  have ⟨_, rest, hdatum, hdrop⟩ := h.stored s.dir[i] (List.getElem_mem hdir)
  have hval : (values catalog s)[i] = valueAt catalog s s.dir[i] := List.getElem_map _
  refine ⟨hval ▸ hdatum, rest, ?_⟩
  unfold getval
  rw [if_neg (by omega), Int.toNat_natCast, List.getElem?_eq_getElem hdir, hval]
  dsimp only
  rw [hdrop]

/-- What a probe of the directory tells about a datum. -/
theorem probe_ok (h : WellFormed catalog s) (hdat : IsDatum catalog s.typLen dat)
    (rest : List UInt8) {i : Nat} (hi : i < (values catalog s).length) :
    ∃ x diff, getval s i = .ok x ∧ memcmp x (dat ++ rest) dat.length = .ok diff ∧
      (diff = 0 ↔ (values catalog s)[i] = dat) ∧ (diff < 0 → (values catalog s)[i] < dat) ∧
      (0 < diff → dat < (values catalog s)[i]) := by
  have ⟨hval, rest', hget⟩ := getval_ok h hi
  have ⟨diff, hdiff, hzero, hneg⟩ := memcmp_spec (hval.prefixFree hdat) (.inr rfl) rest' rest
  refine ⟨_, diff, hget, hdiff, hzero, hneg.mp, fun hpos => ?_⟩
  rcases (hval.prefixFree hdat).lt_or_lt (fun heq => by rw [← hzero] at heq; omega) with hlt | hlt
  · rw [← hneg] at hlt
    omega
  · exact hlt

/-! ## Bisection -/

/-- What lies outside the bounds is not the datum; the bounds themselves may be it only
at the ends of the sorted part, and then they are still to be guessed. -/
structure Bisecting (vals : List (List UInt8)) (hi : Nat) (dat : List UInt8) (b : Bisection) :
    Prop where
  nonneg : 0 ≤ b.themin
  lt : b.themin < b.themax
  le : b.themax < hi
  low : b.themin = 0 ∨ ∃ v, vals[b.themin.toNat]? = some v ∧ v < dat
  high : b.themax = (hi : Int) - 1 ∨ ∃ v, vals[b.themax.toNat]? = some v ∧ dat < v
  guess : (b.themin < b.theguess ∧ b.theguess < b.themax) ∨
    (b.themax = b.themin + 1 ∧
      ((b.theguess = b.themin ∧ ∃ v, vals[b.themax.toNat]? = some v ∧ dat < v) ∨
        (b.theguess = b.themax ∧ ∃ v, vals[b.themin.toNat]? = some v ∧ v < dat)))

/-- The values up to a smaller one are smaller. -/
theorem lt_of_le_index {vals : List (List UInt8)} {hi i j : Nat} {u v : List UInt8}
    (hsorted : (vals.take hi).Pairwise (· < ·)) (hj : j < hi) (hij : i ≤ j)
    (hu : vals[i]? = some u) (hv : vals[j]? = some v) : u = v ∨ u < v := by
  rcases Nat.eq_or_lt_of_le hij with heq | hlt
  · subst heq
    rw [hu] at hv
    exact .inl (Option.some.inj hv)
  · right
    have ⟨hil, hiu⟩ := List.getElem?_eq_some_iff.mp hu
    have ⟨hjl, hjv⟩ := List.getElem?_eq_some_iff.mp hv
    have hpair := List.pairwise_iff_getElem.mp hsorted i j (by simp; omega) (by simp; omega) hlt
    rw [List.getElem_take, List.getElem_take, hiu, hjv] at hpair
    exact hpair

/-- What the bisection may be left with. -/
def Bisected (vals : List (List UInt8)) (hi : Nat) (dat : List UInt8) : Option Int → Prop
  | some i => 0 ≤ i ∧ i < hi ∧ vals[i.toNat]? = some dat
  | none => ∀ j, j < hi → vals[j]? ≠ some dat

theorem ne_of_le_index {vals : List (List UInt8)} {hi i j : Nat}
    (hsorted : (vals.take hi).Pairwise (· < ·)) (hi' : i < hi) (hji : j ≤ i)
    (h : ∃ v, vals[i]? = some v ∧ v < dat) : vals[j]? ≠ some dat := by
  intro hj
  have ⟨v, hv, hlt⟩ := h
  rcases lt_of_le_index hsorted hi' hji hj hv with heq | hlt'
  · exact List.lt_irrefl dat (heq ▸ hlt)
  · exact List.lt_irrefl dat (List.lt_trans hlt' hlt)

theorem ne_of_ge_index {vals : List (List UInt8)} {hi i j : Nat}
    (hsorted : (vals.take hi).Pairwise (· < ·)) (hj' : j < hi) (hij : i ≤ j)
    (h : ∃ v, vals[i]? = some v ∧ dat < v) : vals[j]? ≠ some dat := by
  intro hj
  have ⟨v, hv, hlt⟩ := h
  rcases lt_of_le_index hsorted hj' hij hv hj with heq | hlt'
  · exact List.lt_irrefl dat (heq ▸ hlt)
  · exact List.lt_irrefl dat (List.lt_trans hlt hlt')

/-- Between two neighbours on the two sides of the datum it is not found. -/
theorem bisected_none {vals : List (List UInt8)} {hi : Nat} {b : Bisection}
    (hsorted : (vals.take hi).Pairwise (· < ·)) (hb : Bisecting vals hi dat b)
    (hadj : b.themax = b.themin + 1)
    (hlow : b.themin = 0 ∧ vals[b.themin.toNat]? ≠ some dat ∨
      ∃ v, vals[b.themin.toNat]? = some v ∧ v < dat)
    (hhigh : b.themax = (hi : Int) - 1 ∧ vals[b.themax.toNat]? ≠ some dat ∨
      ∃ v, vals[b.themax.toNat]? = some v ∧ dat < v) : Bisected vals hi dat none := by
  have hnonneg := hb.nonneg
  have hle := hb.le
  intro j hj
  by_cases hjmin : j ≤ b.themin.toNat
  · rcases hlow with ⟨hzero, hne⟩ | hlow
    · obtain rfl : j = b.themin.toNat := by omega
      exact hne
    · exact ne_of_le_index hsorted (by omega) hjmin hlow
  · rcases hhigh with ⟨hlast, hne⟩ | hhigh
    · obtain rfl : j = b.themax.toNat := by omega
      exact hne
    · exact ne_of_ge_index hsorted hj (by omega) hhigh

/-- One round finds the datum, ends the search or narrows the bounds. -/
theorem bisect_round (h : WellFormed catalog s) (hdat : IsDatum catalog s.typLen dat)
    (rest : List UInt8) {b : Bisection}
    (hb : Bisecting (values catalog s) (s.numVals / sortaSlop * sortaSlop) dat b) :
    (∃ b', bisect s (dat ++ rest) dat.length b = .ok (.next b') ∧
      Bisecting (values catalog s) (s.numVals / sortaSlop * sortaSlop) dat b' ∧
      (b'.themax - b'.themin).toNat < (b.themax - b.themin).toNat) ∨
    (∃ r, bisect s (dat ++ rest) dat.length b = .ok (.done r) ∧
      Bisected (values catalog s) (s.numVals / sortaSlop * sortaSlop) dat r) := by
  have hsorted := h.sorted
  have hlen := length_values catalog s
  have hhi : s.numVals / sortaSlop * sortaSlop ≤ s.numVals := Nat.div_mul_le_self _ _
  generalize hvals : values catalog s = vals at *
  generalize s.numVals / sortaSlop * sortaSlop = hi at *
  have hnonneg := hb.nonneg
  have hlt := hb.lt
  have hle := hb.le
  have hguess := hb.guess
  have hg : b.theguess = (b.theguess.toNat : Int) := by omega
  have hin : b.theguess.toNat < (values catalog s).length := by rw [hvals]; omega
  have ⟨x, diff, hget, hcmp, hzero, hneg, hpos⟩ := probe_ok h hdat rest hin
  rw [← hg] at hget
  have hat : vals[b.theguess.toNat]? = some (values catalog s)[b.theguess.toNat] := by
    rw [← hvals]
    exact List.getElem?_eq_getElem hin
  generalize (values catalog s)[b.theguess.toNat] = val at hzero hneg hpos hat
  unfold bisect
  rw [if_pos hlt, hget, ok_bind, hcmp, ok_bind]
  by_cases hfound : diff = 0
  · right
    refine ⟨some b.theguess, by rw [if_pos hfound]; rfl, by omega, by omega, ?_⟩
    rw [hat, hzero.mp hfound]
  · rw [if_neg hfound]
    have hne : val ≠ dat := fun heq => hfound (hzero.mpr heq)
    have hne' : vals[b.theguess.toNat]? ≠ some dat := by
      rw [hat]
      exact fun heq => hne (Option.some.inj heq)
    by_cases hadj : b.themin = b.themax - 1
    · right
      refine ⟨none, by rw [if_pos hadj]; rfl, ?_⟩
      rcases hguess with ⟨_, _⟩ | ⟨hnext, ⟨hmin, hhigh⟩ | ⟨hmax, hlow⟩⟩
      · omega
      · rw [hmin] at hne'
        exact bisected_none hsorted hb hnext (hb.low.imp_left (⟨·, hne'⟩)) (.inr hhigh)
      · rw [hmax] at hne'
        exact bisected_none hsorted hb hnext (.inr hlow) (hb.high.imp_left (⟨·, hne'⟩))
    · left
      rw [if_neg hadj]
      by_cases hsign : diff < 0
      · have hlow : ∃ v, vals[b.theguess.toNat]? = some v ∧ v < dat := ⟨val, hat, hneg hsign⟩
        have hhalf := Int.tdiv_eq_ediv_of_nonneg (a := b.themax - b.theguess) (b := 2) (by omega)
        rw [if_pos hsign]
        dsimp only
        rw [hhalf]
        refine ⟨_, rfl, ⟨by dsimp only; omega, by dsimp only; omega, hle, .inr hlow, hb.high, ?_⟩,
          by dsimp only; omega⟩
        dsimp only
        split
        · exact .inr ⟨by omega, .inr ⟨by omega, hlow⟩⟩
        · exact .inl (by omega)
      · have hhigh : ∃ v, vals[b.theguess.toNat]? = some v ∧ dat < v :=
          ⟨val, hat, hpos (by omega)⟩
        have hhalf := Int.tdiv_eq_ediv_of_nonneg (a := b.theguess - b.themin) (b := 2) (by omega)
        rw [if_neg hsign]
        dsimp only
        rw [hhalf]
        refine ⟨_, rfl, ⟨hnonneg, by dsimp only; omega, by dsimp only; omega, hb.low, .inr hhigh,
          ?_⟩, by dsimp only; omega⟩
        dsimp only
        split
        · exact .inr ⟨by omega, .inl ⟨by omega, hhigh⟩⟩
        · exact .inl (by omega)

theorem bisect_run (h : WellFormed catalog s) (hdat : IsDatum catalog s.typLen dat)
    (rest : List UInt8) :
    ∃ r, run (bisect s (dat ++ rest) dat.length) (s.numVals + 1)
        ⟨0, (s.numVals / sortaSlop * sortaSlop / 2 : Nat),
          ((s.numVals / sortaSlop * sortaSlop : Nat) : Int) - 1⟩ = some (.ok r) ∧
      Bisected (values catalog s) (s.numVals / sortaSlop * sortaSlop) dat r := by
  have hround := fun b => bisect_round h hdat rest (b := b)
  have hhi : s.numVals / sortaSlop * sortaSlop ≤ s.numVals := Nat.div_mul_le_self _ _
  have hslop : s.numVals / sortaSlop * sortaSlop = 0 ∨ 100 ≤ s.numVals / sortaSlop * sortaSlop := by
    unfold sortaSlop
    omega
  generalize s.numVals / sortaSlop * sortaSlop = hi at *
  rcases hslop with hempty | hfull
  · refine ⟨none, ?_, fun j hj => by omega⟩
    rw [run, bisect, if_neg (by dsimp only; omega)]
    rfl
  · have hstart : Bisecting (values catalog s) hi dat ⟨0, (hi / 2 : Nat), (hi : Int) - 1⟩ :=
      ⟨by dsimp only; omega, by dsimp only; omega, by dsimp only; omega, .inl rfl, .inl rfl,
        .inl (by dsimp only; omega)⟩
    obtain ⟨r, hr, hrun⟩ := run_of_invariant _ (fun b => (b.themax - b.themin).toNat)
      (Bisected (values catalog s) hi dat) hround hstart
    exact ⟨r, hrun _ (by dsimp only; omega), hr⟩

theorem findTail_spec (h : WellFormed catalog s) (hdat : IsDatum catalog s.typLen dat)
    (rest : List UInt8) {is : List Nat} (his : ∀ i ∈ is, i < s.numVals) :
    ∃ found, findTail s (dat ++ rest) dat.length is = .ok found ∧
      ((0 ≤ found ∧ found < s.numVals ∧ (values catalog s)[found.toNat]? = some dat) ∨
        found = -1 ∧ ∀ i ∈ is, (values catalog s)[i]? ≠ some dat) := by
  induction is with
  | nil => exact ⟨-1, rfl, .inr ⟨rfl, by simp⟩⟩
  | cons i is ih =>
      have hi : i < (values catalog s).length := by
        rw [length_values]
        exact his i List.mem_cons_self
      have ⟨x, diff, hget, hcmp, hzero, _⟩ := probe_ok h hdat rest hi
      have ⟨found, hfound, hspec⟩ := ih (fun j hj => his j (List.mem_cons_of_mem i hj))
      rw [findTail, hget, ok_bind, hcmp, ok_bind]
      by_cases heq : diff = 0
      · rw [if_pos heq]
        refine ⟨i, rfl, .inl ⟨by omega, ?_, ?_⟩⟩
        · rw [length_values] at hi
          omega
        · rw [Int.toNat_natCast, List.getElem?_eq_getElem hi, hzero.mp heq]
      · rw [if_neg heq]
        refine ⟨found, hfound, hspec.imp_right fun ⟨hneg, hall⟩ => ⟨hneg, fun j hj => ?_⟩⟩
        rcases List.mem_cons.mp hj with heq' | hj
        · rw [heq', List.getElem?_eq_getElem hi]
          exact fun hsome => heq (hzero.mpr (Option.some.inj hsome))
        · exact hall j hj

/-- The search finds the datums of the set, at their positions, and no others. -/
theorem sortasortFind_spec (h : WellFormed catalog s) (hdat : IsDatum catalog s.typLen dat)
    (rest : List UInt8) :
    ∃ found, sortasortFind catalog s (dat ++ rest) = .ok found ∧
      ((0 ≤ found ∧ found < s.numVals ∧ (values catalog s)[found.toNat]? = some dat) ∨
        found = -1 ∧ dat ∉ values catalog s) := by
  have ⟨r, hrun, hr⟩ := bisect_run h hdat rest
  have hhi : s.numVals / sortaSlop * sortaSlop ≤ s.numVals := Nat.div_mul_le_self _ _
  unfold sortasortFind
  rw [extractDatumLen_append hdat, ok_bind]
  rw [if_neg (by omega), hrun]
  generalize s.numVals / sortaSlop * sortaSlop = hi at *
  cases r with
  | some i =>
      have ⟨hlo, hlt, hat⟩ := hr
      exact ⟨i, rfl, .inl ⟨hlo, by omega, hat⟩⟩
  | none =>
      have htail : ∀ i ∈ List.range' hi (s.numVals - hi), i < s.numVals := by
        intro i hi'
        rw [List.mem_range'_1] at hi'
        omega
      have ⟨found, hfound, hspec⟩ := findTail_spec h hdat rest htail
      refine ⟨found, hfound, hspec.imp_right fun ⟨hneg, hall⟩ => ⟨hneg, fun hmem => ?_⟩⟩
      have ⟨i, hlt, hget⟩ := List.mem_iff_getElem.mp hmem
      have hsome : (values catalog s)[i]? = some dat := by
        rw [List.getElem?_eq_getElem hlt, hget]
      rw [length_values] at hlt
      by_cases hfront : i < hi
      · exact hr i hfront hsome
      · exact hall i (List.mem_range'_1.mpr (by omega)) hsome

/-! ## Sorting the directory -/

theorem qsortInsert_spec {α : Type} {cmp : α → α → Except Fault Int} {key : α → List UInt8}
    {a : α} {l : List α}
    (hcmp : ∀ b ∈ l, ∃ c, cmp a b = .ok c ∧ (c ≤ 0 → key a < key b) ∧ (0 < c → key b < key a))
    (hsorted : (l.map key).Pairwise (· < ·)) :
    ∃ out, qsortInsert cmp a l = .ok out ∧ out.Perm (a :: l) ∧
      (out.map key).Pairwise (· < ·) := by
  induction l with
  | nil => exact ⟨[a], rfl, List.Perm.refl _, by simp⟩
  | cons b l ih =>
      have ⟨c, hc, hle, hgt⟩ := hcmp b List.mem_cons_self
      rw [List.map_cons, List.pairwise_cons] at hsorted
      rw [qsortInsert, hc, ok_bind]
      by_cases hc' : c ≤ 0
      · refine ⟨a :: b :: l, by rw [if_pos hc']; rfl, List.Perm.refl _, ?_⟩
        rw [List.map_cons, List.map_cons, List.pairwise_cons, List.pairwise_cons]
        refine ⟨fun v hv => ?_, hsorted⟩
        rcases List.mem_cons.mp hv with heq | hv
        · rw [heq]
          exact hle hc'
        · exact List.lt_trans (hle hc') (hsorted.1 v hv)
      · have ⟨out, hout, hperm, hpair⟩ :=
          ih (fun b' hb' => hcmp b' (List.mem_cons_of_mem b hb')) hsorted.2
        refine ⟨b :: out, by rw [if_neg hc', hout]; rfl,
          (hperm.cons b).trans (List.Perm.swap a b l), ?_⟩
        rw [List.map_cons, List.pairwise_cons]
        refine ⟨fun v hv => ?_, hpair⟩
        have hmem := (hperm.map key).mem_iff.mp hv
        rcases List.mem_cons.mp hmem with heq | hv
        · rw [heq]
          exact hgt (by omega)
        · exact hsorted.1 v hv

/-- A comparison that orders different items by their keys sorts them. -/
theorem qsortArg_spec {α : Type} {cmp : α → α → Except Fault Int} (key : α → List UInt8)
    {l : List α} (hdistinct : (l.map key).Nodup)
    (hcmp : ∀ a ∈ l, ∀ b ∈ l, key a ≠ key b →
      ∃ c, cmp a b = .ok c ∧ (c ≤ 0 → key a < key b) ∧ (0 < c → key b < key a)) :
    ∃ out, qsortArg cmp l = .ok out ∧ out.Perm l ∧ (out.map key).Pairwise (· < ·) := by
  induction l with
  | nil => exact ⟨[], rfl, List.Perm.refl _, List.Pairwise.nil⟩
  | cons a l ih =>
      rw [List.map_cons, List.nodup_cons] at hdistinct
      have ⟨out, hout, hperm, hpair⟩ := ih hdistinct.2 (fun b hb b' hb' =>
        hcmp b (List.mem_cons_of_mem a hb) b' (List.mem_cons_of_mem a hb'))
      have hinsert : ∀ b ∈ out,
          ∃ c, cmp a b = .ok c ∧ (c ≤ 0 → key a < key b) ∧ (0 < c → key b < key a) := by
        intro b hb
        have hb' : b ∈ l := hperm.mem_iff.mp hb
        apply hcmp a List.mem_cons_self b (List.mem_cons_of_mem a hb')
        intro heq
        rw [heq] at hdistinct
        exact hdistinct.1 (List.mem_map_of_mem hb')
      have ⟨out', hout', hperm', hpair'⟩ := qsortInsert_spec hinsert hpair
      refine ⟨out', ?_, hperm'.trans (hperm.cons a), hpair'⟩
      rw [qsortArg, hout]
      exact hout'

/-- Two stored datums are compared by their bytes. -/
theorem sortaCmp_spec {first second : Nat} (hfirst : Stored catalog s first)
    (hsecond : Stored catalog s second)
    (hne : valueAt catalog s first ≠ valueAt catalog s second) :
    ∃ c, sortaCmp catalog s first second = .ok c ∧
      (c ≤ 0 → valueAt catalog s first < valueAt catalog s second) ∧
      (0 < c → valueAt catalog s second < valueAt catalog s first) := by
  have ⟨_, rest, hdatum, hdrop⟩ := hfirst
  have ⟨_, rest', hdatum', hdrop'⟩ := hsecond
  have hfree := hdatum.prefixFree hdatum'
  have ⟨c, hc, hzero, hneg⟩ := memcmp_spec hfree (.inl rfl) rest rest'
  have hpos := hdatum.length_pos
  refine ⟨c, ?_, fun hle => ?_, fun hgt => ?_⟩
  · unfold sortaCmp
    rw [hdrop, hdrop']
    dsimp only
    by_cases hlen : s.typLen < 0
    · have hfixed : extractDatumLen catalog (valueAt catalog s second ++ rest')
          ((valueAt catalog s first).length : Int) = .ok (valueAt catalog s first).length := by
        unfold extractDatumLen
        rw [if_pos (by omega), Int.toNat_natCast]
      rw [if_pos hlen, extractDatumLen_append hdatum, ok_bind, hfixed, ok_bind]
      rw [if_neg (by omega), hc]
    · rw [if_neg hlen]
      rcases hdatum with ⟨_, heq⟩ | ⟨hvar, _⟩
      · rw [← heq, Int.toNat_natCast, hc]
      · omega
  · have hne' : c ≠ 0 := fun heq => hne (hzero.mp heq)
    exact hneg.mp (by omega)
  · rcases hfree.lt_or_lt hne with hlt | hlt
    · have hneg' := hneg.mpr hlt
      omega
    · exact hlt

/-! ## Insertions -/

theorem sortasortInit_wellFormed (catalog : Catalog) (typLen : Int) (typByVal : Bool)
    {capacity ssz : Nat} (h : capacity * 4 < ssz - sizeofSortasort) :
    ∃ s, sortasortInit capacity ssz typLen typByVal = .ok s ∧ WellFormed catalog s ∧
      values catalog s = [] ∧ s.typLen = typLen ∧ s.capacity = capacity ∧
      s.storageSz = ssz - sizeofSortasort - capacity * 4 ∧ s.storageCur = 0 := by
  unfold sortasortInit
  rw [if_neg (by omega)]
  refine ⟨_, rfl, ⟨by simp, by simp [values], by simp [values], ?_⟩, rfl, rfl, rfl, rfl, rfl⟩
  change 0 < ssz - sizeofSortasort - capacity * 4
  omega

/-- Copying a datum behind the others leaves them where they are. -/
theorem stored_append {offset : Nat} (h : Stored catalog s offset) (datp : List UInt8)
    (dir : List Nat) :
    Stored catalog { s with dir := dir, data := s.data ++ datp } offset ∧
      valueAt catalog { s with dir := dir, data := s.data ++ datp } offset =
        valueAt catalog s offset := by
  have ⟨hle, rest, hdatum, hdrop⟩ := h
  have hdrop' : (s.data ++ datp).drop offset = valueAt catalog s offset ++ (rest ++ datp) := by
    rw [List.drop_append_of_le_length hle, hdrop, List.append_assoc]
  have hval := valueAt_eq (s := { s with dir := dir, data := s.data ++ datp }) hdatum hdrop'
  refine ⟨⟨?_, rest ++ datp, ?_, ?_⟩, hval⟩
  · rw [List.length_append]
    omega
  · rw [hval]
    exact hdatum
  · rw [hval]
    exact hdrop'

theorem stored_end (hdat : IsDatum catalog s.typLen dat) (dir : List Nat) :
    Stored catalog { s with dir := dir, data := s.data ++ dat } s.data.length ∧
      valueAt catalog { s with dir := dir, data := s.data ++ dat } s.data.length = dat := by
  have hdrop : (s.data ++ dat).drop s.data.length = dat ++ [] := by
    rw [List.drop_left, List.append_nil]
  have hval := valueAt_eq (s := { s with dir := dir, data := s.data ++ dat }) hdat hdrop
  refine ⟨⟨?_, [], ?_, ?_⟩, hval⟩
  · rw [List.length_append]
    omega
  · rw [hval]
    exact hdat
  · rw [hval]
    exact hdrop

/-- The directory is sorted at every `SORTA_SLOP`th entry, and its sorted part stays sorted. -/
theorem sortDir_spec {big : Sortasort} {vals : List (List UInt8)}
    (hstored : ∀ offset ∈ big.dir, Stored catalog big offset)
    (hvalues : values catalog big = vals ++ [dat]) (hnew : dat ∉ vals) (hdistinct : vals.Nodup)
    (hsorted : (vals.take (vals.length / sortaSlop * sortaSlop)).Pairwise (· < ·))
    (hroom : big.storageCur < big.storageSz) :
    ∃ dir, (if big.numVals % sortaSlop = 0 then qsortArg (sortaCmp catalog big) big.dir
        else .ok big.dir) = .ok dir ∧ dir.Perm big.dir ∧
      WellFormed catalog { big with dir := dir } ∧
      (values catalog { big with dir := dir }).Perm (dat :: vals) := by
  have hperm : (values catalog big).Perm (dat :: vals) := by
    rw [hvalues]
    exact List.perm_append_singleton _ _
  have hdistinct' : (values catalog big).Nodup :=
    hperm.nodup_iff.mpr (List.nodup_cons.mpr ⟨hnew, hdistinct⟩)
  have hnum : big.numVals = vals.length + 1 := by
    rw [← length_values catalog, hvalues, List.length_append]
    rfl
  by_cases htime : big.numVals % sortaSlop = 0
  · rw [if_pos htime]
    have ⟨dir, hdir, hdirPerm, hdirSorted⟩ := qsortArg_spec (valueAt catalog big) hdistinct'
      (fun a ha b hb hne => sortaCmp_spec (hstored a ha) (hstored b hb) hne)
    have hpermDir : (values catalog { big with dir := dir }).Perm (values catalog big) :=
      hdirPerm.map _
    refine ⟨dir, hdir, hdirPerm, ⟨?_, ?_, ?_, hroom⟩, hpermDir.trans hperm⟩
    · intro offset hoffset
      exact hstored offset (hdirPerm.mem_iff.mp hoffset)
    · exact hpermDir.nodup_iff.mpr hdistinct'
    · exact List.Pairwise.sublist (List.take_sublist _ _) hdirSorted
  · rw [if_neg htime]
    refine ⟨big.dir, rfl, List.Perm.refl _, ⟨hstored, hdistinct', ?_, hroom⟩, hperm⟩
    have hsame : big.numVals / sortaSlop * sortaSlop = vals.length / sortaSlop * sortaSlop := by
      rw [hnum] at htime ⊢
      unfold sortaSlop at htime ⊢
      omega
    have htake : (values catalog big).take (big.numVals / sortaSlop * sortaSlop) =
        vals.take (vals.length / sortaSlop * sortaSlop) := by
      rw [hsame, hvalues, List.take_append_of_le_length (Nat.div_mul_le_self _ _)]
    exact htake ▸ hsorted

/-- A new datum with room for it becomes one of the set. -/
theorem storeDatum_spec (h : WellFormed catalog s) (hdat : IsDatum catalog s.typLen dat)
    (hnew : dat ∉ values catalog s) (hroom : s.storageCur + dat.length < s.storageSz) :
    ∃ s', storeDatum catalog s dat = .ok s' ∧ WellFormed catalog s' ∧
      (values catalog s').Perm (dat :: values catalog s) ∧ s'.typLen = s.typLen ∧
      s'.capacity = s.capacity ∧ s'.storageSz = s.storageSz ∧
      s'.storageCur = s.storageCur + dat.length := by
  generalize hbig : ({ s with dir := s.dir ++ [s.storageCur], data := s.data ++ dat } :
    Sortasort) = big
  have hcur : big.storageCur = s.storageCur + dat.length := by
    rw [← hbig]
    exact List.length_append
  have hstored : ∀ offset ∈ big.dir, Stored catalog big offset := by
    rw [← hbig]
    intro offset hoffset
    rcases List.mem_append.mp hoffset with hold | hlast
    · exact (stored_append (h.stored offset hold) dat _).1
    · rw [List.mem_singleton.mp hlast]
      exact (stored_end hdat _).1
  have hvalues : values catalog big = values catalog s ++ [dat] := by
    rw [← hbig]
    unfold values
    rw [List.map_append, List.map_singleton]
    congr 1
    · apply List.map_congr_left
      intro offset hoffset
      exact (stored_append (h.stored offset hoffset) dat _).2
    · exact congrArg (fun v => [v]) (stored_end hdat _).2
  have hfields : big.typLen = s.typLen ∧ big.capacity = s.capacity ∧
      big.storageSz = s.storageSz := by
    rw [← hbig]
    exact ⟨rfl, rfl, rfl⟩
  have hunfold : storeDatum catalog s dat =
      if big.storageSz < big.storageCur then
        .error (.elog "went off the end of sortasort storage")
      else if big.numVals % sortaSlop = 0 then do
        let dir ← qsortArg (sortaCmp catalog big) big.dir
        pure { big with dir := dir }
      else .ok big := by
    rw [← hbig]
    rfl
  clear hbig
  have ⟨hlen, hcap, hsz⟩ := hfields
  have hsorted := h.sorted
  rw [← length_values catalog] at hsorted
  have ⟨dir, hdir, _, hwf, hperm⟩ :=
    sortDir_spec hstored hvalues hnew h.distinct hsorted (by omega)
  rw [hunfold, if_neg (by omega)]
  refine ⟨{ big with dir := dir }, ?_, hwf, hperm, hlen, hcap, hsz, hcur⟩
  split_ifs at hdir ⊢
  · rw [hdir]
    rfl
  · rw [← Except.ok.inj hdir]

/-- The three ends of an insertion into a directory with a free entry. -/
theorem sortasortTryInsert_spec (h : WellFormed catalog s) (hdat : IsDatum catalog s.typLen dat)
    (rest : List UInt8) (hcap : s.numVals < s.capacity) :
    (dat ∈ values catalog s →
      sortasortTryInsert catalog s (dat ++ rest) s.typLen = .ok (s, 1)) ∧
    (dat ∉ values catalog s → s.storageSz ≤ s.storageCur + dat.length →
      sortasortTryInsert catalog s (dat ++ rest) s.typLen = .ok (s, 0)) ∧
    (dat ∉ values catalog s → s.storageCur + dat.length < s.storageSz →
      ∃ s', sortasortTryInsert catalog s (dat ++ rest) s.typLen = .ok (s', 1) ∧
        WellFormed catalog s' ∧ (values catalog s').Perm (dat :: values catalog s) ∧
        s'.typLen = s.typLen ∧ s'.capacity = s.capacity ∧ s'.storageSz = s.storageSz ∧
        s'.storageCur = s.storageCur + dat.length) := by
  have ⟨found, hfound, hspec⟩ := sortasortFind_spec h hdat rest
  have hlen := extractDatumLen_append hdat rest
  refine ⟨fun hmem => ?_, fun hnew hfull => ?_, fun hnew hroom => ?_⟩
  · rcases hspec with ⟨hlo, hhi, _⟩ | ⟨_, hnot⟩
    · unfold sortasortTryInsert
      rw [hfound, ok_bind, if_pos ⟨hlo, hhi⟩]
      rfl
    · exact absurd hmem hnot
  all_goals
    rcases hspec with ⟨_, _, hat⟩ | ⟨hneg, _⟩
    · exact absurd (List.mem_of_getElem? hat) hnew
    unfold sortasortTryInsert
    rw [hfound, ok_bind, if_neg (by omega), hlen, ok_bind, if_neg (by omega)]
  · rw [if_pos hfull]
    rfl
  · have ⟨s', hstore, hspec'⟩ := storeDatum_spec h hdat hnew hroom
    refine ⟨s', ?_, hspec'⟩
    rw [if_neg (by omega), if_neg (by omega), readBytes_append, ok_bind, hstore]
    rfl

end Madlib.Sketch
