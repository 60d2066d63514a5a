import Madlib.Cart.IntArray
import Madlib.Lib.Template

/-!
# Text templates

`dt_text_format` puts the values of an array in place of the `%`s of a format string.  It cuts the
string in place at every `%` that is not escaped and unescapes, in place again, the parts in front
of a value.
-/

namespace Madlib.Cart

open Madlib.Backend Madlib.Lib.Template

/-- The bytes of a `text`, none of which is zero. -/
structure PgText where
  data : List UInt8
  zero_notMem : 0 ∉ data
  size_le : data.length + 4 ≤ maxAllocSize

/-- The elements of a `text[]`, of which an array has at most `MaxAllocSize / sizeof(Datum)`. -/
structure TextArray where
  elements : List (Option PgText)
  length_le : elements.length ≤ 134217727

/-- `%` is a hole, and a backslash escapes it. -/
def pctMarks : Marks UInt8 where
  esc := 92
  hole := 37
  ne := by decide

@[simp] theorem pctMarks_hole : pctMarks.hole = 37 := rfl

@[simp] theorem pctMarks_esc : pctMarks.esc = 92 := rfl

/-! ## Strings in memory -/

/-- The string that begins at an address and ends in front of the next zero. -/
def cstringAt (mem : List UInt8) (address : Nat) : Except Fault (List UInt8) :=
  if 0 ∈ mem.drop address then .ok ((mem.drop address).takeWhile (· ≠ 0)) else .error .outOfBounds

/-- `appendStringInfo` of a string, which keeps room for a zero behind the buffer. -/
def appendStringInfo (buf s : List UInt8) : Except Fault (List UInt8) :=
  if maxAllocSize ≤ buf.length + s.length then .error (.elog "out of memory") else .ok (buf ++ s)

def cstringToText (s : List UInt8) : Except Fault (List UInt8) := do
  palloc (s.length + 4)
  pure s

/-! ## The format string -/

/-- The state of the loop of `dt_split_string`: the bytes it has gone over, as it leaves them. -/
structure Split where
  str : List UInt8
  position : List Nat
  numContEscapes : Nat

def splitStep (numPos : Nat) (s : Split) (c : UInt8) : Except Fault Split :=
  if c = 37 then
    if s.numContEscapes % 2 = 0 then do
      dtCheckError (s.position.length < numPos)
        ("the number of the elements in the array is less than " ++ "the format string expects.")
      pure ⟨s.str ++ [0], s.position ++ [s.str.length], 0⟩
    else pure ⟨s.str ++ [c], s.position, 0⟩
  else if c = 92 then pure ⟨s.str ++ [c], s.position, s.numContEscapes + 1⟩
  else pure ⟨s.str ++ [c], s.position, 0⟩

def dtSplitString (str : List UInt8) (numPos : Nat) : Except Fault Split := do
  let s ← str.foldlM (splitStep numPos) ⟨[], [], 0⟩
  dtCheckError (s.position.length = numPos)
    ("the number of the elements in the array is greater than " ++ "the format string expects. ")
  pure s

/-- The inner loop of `dt_escape_pct_sym`, from `str` up to the next `%` or the end. -/
def moveString (numEscapes : Nat) : Nat → List UInt8 → Nat → Except Fault (List UInt8 × Nat)
  | 0, _, _ => .error .unfinished
  | fuel + 1, mem, str => do
      let c ← readAt mem str
      let mem ← writeAt mem (str - numEscapes) c
      let next ← readAt mem (str + 1 : Nat)
      if next ≠ 0 ∧ next ≠ 37 then moveString numEscapes fuel mem (str + 1)
      else pure (mem, str + 1)

/-- The outer loop, and the number of the escapes it has taken out. -/
def escapeRounds : Nat → Nat → List UInt8 → Nat → Except Fault (Nat × List UInt8 × Nat)
  | 0, _, _, _ => .error .unfinished
  | fuel + 1, numEscapes, mem, str => do
      let c ← readAt mem str
      if c = 0 then pure (numEscapes, mem, str)
      else if c = 37 then do
        let before ← readAt mem (str - 1)
        dtCheckError (before = 92) "The char immediately before a % must be a \\"
        let (mem, str) ← moveString (numEscapes + 1) (mem.length + 1) mem str
        escapeRounds fuel (numEscapes + 1) mem str
      else escapeRounds fuel numEscapes mem (str + 1)

def dtEscapePctSym (mem : List UInt8) (str : Nat) : Except Fault (List UInt8) := do
  let (numEscapes, mem, str) ← escapeRounds (mem.length + 1) 0 mem str
  if 0 < numEscapes then writeAt mem (str - numEscapes) 0 else pure mem

/-! ## The text -/

structure Assembly where
  fmt : List UInt8
  lastPos : Nat
  buf : List UInt8

/-- One value, behind the part of the format string in front of its position. -/
def assembleStep (a : Assembly) (item : Nat × PgText) : Except Fault Assembly :=
  if a.lastPos = item.1 then do
    let buf ← appendStringInfo a.buf item.2.data
    pure ⟨a.fmt, a.lastPos + 1, buf⟩
  else do
    let fmt ← dtEscapePctSym a.fmt a.lastPos
    let part ← cstringAt fmt a.lastPos
    let buf ← appendStringInfo a.buf (part ++ item.2.data)
    pure ⟨fmt, item.1 + 1, buf⟩

/-- The text of a format string with at least one value. -/
def formatValues (fmt : PgText) (values : List PgText) : Except Fault (List UInt8) := do
  palloc (values.length * 4)
  let split ← dtSplitString fmt.data values.length
  let a ← (split.position.zip values).foldlM assembleStep ⟨split.str ++ [0], 0, []⟩
  if a.lastPos < split.str.length then do
    let rest ← cstringAt a.fmt a.lastPos
    let buf ← appendStringInfo a.buf rest
    cstringToText buf
  else cstringToText a.buf

def dtTextFormat : Option PgText → Option TextArray → Except Fault (List UInt8)
  | some fmt, some args => do
      palloc (fmt.data.length + 1)
      dtCheckError (∀ x ∈ args.elements, x.isSome) "the argument array must not has null value"
      let values := args.elements.reduceOption
      if values.length = 0 then cstringToText fmt.data else formatValues fmt values
  | _, _ =>
      .error (.ereport .raiseException "the format string and its arguments must not be null")

/-! ## Unescaping in place

A window of bytes that are already moved stands between the result and the bytes to come; it is as
long as the number of escapes taken out. -/

theorem moveString_round (n fuel : Nat) (a ws rest : List UInt8) (w x t : UInt8)
    (hn : n = ws.length + 1) :
    moveString n (fuel + 1) (a ++ w :: (ws ++ x :: t :: rest)) (a.length + n) =
      if t ≠ 0 ∧ t ≠ 37 then
        moveString n fuel (a ++ x :: (ws ++ x :: t :: rest)) (a.length + n + 1)
      else .ok (a ++ x :: (ws ++ x :: t :: rest), a.length + n + 1) := by
  have hread : readAt (a ++ w :: (ws ++ x :: t :: rest)) ((a.length + n : Nat) : Int) = .ok x := by
    have hsplit : a ++ w :: (ws ++ x :: t :: rest) = (a ++ w :: ws) ++ x :: (t :: rest) := by simp
    rw [hsplit]
    apply readAt_append
    simp [hn]
  have hnext : readAt (a ++ x :: (ws ++ x :: t :: rest)) ((a.length + n + 1 : Nat) : Int) =
      .ok t := by
    have hsplit : a ++ x :: (ws ++ x :: t :: rest) = (a ++ x :: ws ++ [x]) ++ t :: rest := by simp
    rw [hsplit]
    apply readAt_append
    simp [hn]
    omega
  have hwrite : writeAt (a ++ w :: (ws ++ x :: t :: rest)) (((a.length + n : Nat) : Int) - n) x =
      .ok (a ++ x :: (ws ++ x :: t :: rest)) := by
    apply writeAt_append
    omega
  rw [moveString, hread, ok_bind, hwrite, ok_bind, hnext, ok_bind, pure_eq_ok]

/-- The inner loop pushes the window over the bytes up to the next `%` or the end. -/
theorem moveString_spec {n fuel : Nat} {a ws s : List UInt8} {w x t : UInt8}
    (rest : List UInt8) (hn : n = ws.length + 1) (hs : ∀ c ∈ s, c ≠ 0 ∧ c ≠ 37)
    (ht : t = 0 ∨ t = 37)
    (hfuel : s.length < fuel) :
    ∃ window, window.length = n ∧ window.getLast? = (x :: s).getLast? ∧
      moveString n fuel (a ++ w :: (ws ++ x :: (s ++ t :: rest))) (a.length + n) =
        .ok (a ++ x :: (s ++ window ++ t :: rest), a.length + n + (s.length + 1)) := by
  induction s generalizing fuel a w ws x with
  | nil =>
      cases fuel with
      | zero => exact absurd hfuel (Nat.not_lt_zero _)
      | succ fuel =>
          have hstop : ¬(t ≠ 0 ∧ t ≠ 37) := fun h => ht.elim h.1 h.2
          refine ⟨ws ++ [x], by simp [hn], by simp, ?_⟩
          rw [List.nil_append, moveString_round n fuel a ws rest w x t hn, if_neg hstop]
          simp
  | cons y s ih =>
      cases fuel with
      | zero => exact absurd hfuel (Nat.not_lt_zero _)
      | succ fuel =>
          obtain ⟨v, vs, hvs⟩ := List.exists_cons_of_ne_nil (show ws ++ [x] ≠ [] by simp)
          have hlength : n = vs.length + 1 := by
            have hcount := congrArg List.length hvs
            simp only [List.length_append, List.length_cons, List.length_nil] at hcount
            omega
          obtain ⟨window, hcount, hlast, hmove⟩ := ih (a := a ++ [x]) (w := v) (x := y) hlength
            (fun c hc => hs c (List.mem_cons_of_mem y hc)) (Nat.lt_of_succ_lt_succ hfuel)
          refine ⟨window, hcount, by simpa using hlast, ?_⟩
          have hshape : a ++ x :: (ws ++ x :: y :: (s ++ t :: rest)) =
              (a ++ [x]) ++ v :: (vs ++ y :: (s ++ t :: rest)) := by
            have hjoin := congrArg (fun l => a ++ [x] ++ (l ++ y :: (s ++ t :: rest))) hvs
            simpa using hjoin
          have haddress : a.length + n + 1 = (a ++ [x]).length + n := by
            simp
            omega
          rw [List.cons_append, moveString_round n fuel a ws (s ++ t :: rest) w x y hn,
            if_pos (hs y List.mem_cons_self), hshape, haddress, hmove]
          simp
          omega

/-- The bytes up to the next `%`. -/
theorem exists_run (r : List UInt8) (hzero : 0 ∉ r) (post : List UInt8) :
    ∃ s r' t rest, r = s ++ r' ∧ (∀ c ∈ s, c ≠ 0 ∧ c ≠ 37) ∧ (r' = [] ∨ r'.head? = some 37) ∧
      (t = 0 ∨ t = 37) ∧ r' ++ 0 :: post = t :: rest := by
  induction r with
  | nil => exact ⟨[], [], 0, post, rfl, by simp, .inl rfl, .inl rfl, rfl⟩
  | cons c r ih =>
      by_cases hc : c = 37
      · exact ⟨[], c :: r, c, r ++ 0 :: post, rfl, by simp, .inr (by simp [hc]), .inr hc, rfl⟩
      · obtain ⟨s, r', t, rest, rfl, hs, hr', ht, htail⟩ := ih fun h => hzero (by simp [h])
        refine ⟨c :: s, r', t, rest, rfl, ?_, hr', ht, htail⟩
        intro d hd
        rcases List.mem_cons.mp hd with rfl | hd
        · exact ⟨fun h => hzero (by simp [h]), hc⟩
        · exact hs d hd

theorem exists_concat {gap : List UInt8} {c : UInt8} (hgap : gap = [] ∨ gap.getLast? = some c) :
    ∃ init, c :: gap = init ++ [c] := by
  rcases hgap with rfl | hlast
  · exact ⟨[], rfl⟩
  · obtain ⟨init, rfl⟩ := List.getLast?_eq_some_iff.mp hlast
    exact ⟨c :: init, rfl⟩

/-- The byte in front of the window's end is the last one in front of the `%`. -/
theorem readAt_before {a gap rest : List UInt8} {c : UInt8}
    (hgap : gap = [] ∨ gap.getLast? = some c) :
    readAt (a ++ c :: (gap ++ rest)) (((a.length + 1 + gap.length : Nat) : Int) - 1) = .ok c := by
  obtain ⟨init, hinit⟩ := exists_concat hgap
  have hlength := congrArg List.length hinit
  have hsplit : a ++ c :: (gap ++ rest) = (a ++ init) ++ c :: rest := by
    rw [← List.cons_append, hinit]
    simp
  rw [hsplit]
  apply readAt_append
  simp only [List.length_cons, List.length_append, List.length_nil] at hlength ⊢
  omega

section EscapeRounds

/-! In the rounds of the outer loop the byte `c` is the last of the result so far, and the last of
the window `gap` too. -/

variable {fuel : Nat} {a gap r : List UInt8} {c d : UInt8}

theorem readAt_str : readAt (a ++ c :: (gap ++ d :: r)) ((a.length + 1 + gap.length : Nat) : Int) =
    .ok d := by
  have hsplit : a ++ c :: (gap ++ d :: r) = (a ++ c :: gap) ++ d :: r := by simp
  rw [hsplit]
  apply readAt_append
  simp
  omega

theorem escapeRounds_end (post : List UInt8) :
    escapeRounds (fuel + 1) gap.length (a ++ c :: (gap ++ 0 :: post)) (a.length + 1 + gap.length) =
      .ok (gap.length, a ++ c :: (gap ++ 0 :: post), a.length + 1 + gap.length) := by
  rw [escapeRounds, readAt_str, ok_bind, if_pos rfl, pure_eq_ok]

theorem escapeRounds_keep (fuel : Nat) (a : List UInt8) (c : UInt8) (r : List UInt8)
    (hzero : d ≠ 0) (hpct : d ≠ 37) :
    escapeRounds (fuel + 1) 0 (a ++ c :: d :: r) (a.length + 1) =
      escapeRounds fuel 0 (a ++ [c] ++ d :: r) ((a ++ [c]).length + 1) := by
  have hread : readAt (a ++ c :: ([] ++ d :: r)) ((a.length + 1 + 0 : Nat) : Int) = .ok d :=
    readAt_str
  rw [List.nil_append, Nat.add_zero] at hread
  rw [escapeRounds, hread, ok_bind, if_neg hzero, if_neg hpct]
  simp

/-- At a `%` the window gets one byte longer and is pushed up to the next `%` or the end. -/
theorem escapeRounds_pct (fuel : Nat) (a post : List UInt8)
    (hgap : gap = [] ∨ gap.getLast? = some c)
    (hescaped : Escaped pctMarks (c :: 37 :: r)) (hzero : 0 ∉ r) :
    ∃ init last window r', 37 :: r = init ++ last :: r' ∧ (r' = [] ∨ r'.head? = some 37) ∧
      window.length = gap.length + 1 ∧ window.getLast? = some last ∧
      unescape 37 (c :: 37 :: r) = init ++ unescape 37 (last :: r') ∧
      escapeRounds (fuel + 1) gap.length (a ++ c :: (gap ++ 37 :: (r ++ 0 :: post)))
          (a.length + 1 + gap.length) =
        escapeRounds fuel window.length (a ++ init ++ last :: (window ++ (r' ++ 0 :: post)))
          ((a ++ init).length + 1 + window.length) := by
  have hc : c = 92 := (List.isChain_cons_cons.mp hescaped).1 rfl
  obtain ⟨s, r', t, rest, rfl, hs, hr', ht, htail⟩ := exists_run r hzero post
  obtain ⟨init, last, hinit⟩ : ∃ init last, (37 : UInt8) :: s = init ++ [last] :=
    (List.eq_nil_or_concat' _).resolve_left (List.cons_ne_nil 37 s)
  have hcount := congrArg List.length hinit
  simp only [List.length_cons, List.length_append, List.length_nil] at hcount
  have hjoin : ∀ x, (37 : UInt8) :: (s ++ x) = init ++ last :: x := by
    intro x
    rw [← List.cons_append, hinit]
    simp
  have hmem : a ++ c :: (gap ++ 37 :: (s ++ r' ++ 0 :: post)) =
      a ++ c :: (gap ++ 37 :: (s ++ t :: rest)) := by
    rw [List.append_assoc s, htail]
  obtain ⟨window, hlength, hlast, hmove⟩ := moveString_spec (a := a) (w := c) (x := 37)
    (n := gap.length + 1) rest rfl hs ht
    (show s.length < (a ++ c :: (gap ++ 37 :: (s ++ t :: rest))).length + 1 by
      simp
      omega)
  have hunescape : unescape 37 (c :: 37 :: (s ++ r')) = init ++ unescape 37 (last :: r') := by
    have hfree : (37 : UInt8) ∉ (init ++ [last]).tail := by
      rw [← hinit]
      exact fun h => (hs 37 h).2 rfl
    rw [unescape, if_pos List.head?_cons, hjoin, unescape_append hfree]
  have hshape : a ++ 37 :: (s ++ window ++ t :: rest) =
      a ++ init ++ last :: (window ++ (r' ++ 0 :: post)) := by
    rw [htail, List.append_assoc, hjoin]
    simp
  have haddress : a.length + (gap.length + 1) + (s.length + 1) =
      (a ++ init).length + 1 + window.length := by
    rw [List.length_append, hlength]
    omega
  have hstr : a.length + 1 + gap.length = a.length + (gap.length + 1) := by omega
  refine ⟨init, last, window, r', hjoin r', hr', hlength, ?_, hunescape, ?_⟩
  · rw [hlast, hinit, List.getLast?_concat]
  · rw [escapeRounds, readAt_str, ok_bind, if_neg (by decide), if_pos rfl, readAt_before hgap,
      ok_bind, dtCheckError_ok hc, ok_bind, hmem, hstr, hmove, ok_bind, hshape, haddress, ← hlength]

/-- The outer loop ends at the end of the string with everything unescaped. -/
theorem escapeRounds_spec (post : List UInt8) (hgap : gap = [] ∨ gap.getLast? = some c)
    (hstart : gap = [] ∨ r = [] ∨ r.head? = some 37) (hescaped : Escaped pctMarks (c :: r))
    (hzero : 0 ∉ r) (hfuel : r.length < fuel) :
    ∃ gap', (unescape 37 (c :: r)).length + gap'.length = gap.length + (r.length + 1) ∧
      escapeRounds fuel gap.length (a ++ c :: (gap ++ (r ++ 0 :: post)))
          (a.length + 1 + gap.length) =
        .ok (gap'.length, a ++ unescape 37 (c :: r) ++ gap' ++ 0 :: post,
          a.length + (unescape 37 (c :: r)).length + gap'.length) := by
  induction fuel generalizing a gap r c with
  | zero => exact absurd hfuel (Nat.not_lt_zero _)
  | succ fuel ih =>
      cases r with
      | nil =>
          refine ⟨gap, by simp [unescape]; omega, ?_⟩
          rw [List.nil_append, escapeRounds_end]
          simp [unescape]
      | cons d r =>
          have hrest : 0 ∉ r := fun h => hzero (by simp [h])
          by_cases hpct : d = 37
          · subst hpct
            obtain ⟨init, last, window, r', hjoin, hr', hlength, hlast, hunescape, hround⟩ :=
              escapeRounds_pct fuel a post hgap hescaped hrest
            have hcount := congrArg List.length hjoin
            simp only [List.length_cons, List.length_append] at hcount hfuel
            have hwhole : Escaped pctMarks ((c :: init) ++ last :: r') := by
              rwa [hjoin] at hescaped
            have hsuffix : Escaped pctMarks (last :: r') := List.IsChain.right_of_append hwhole
            have hzero' : 0 ∉ r' := fun h => hzero (by rw [hjoin]; simp [h])
            obtain ⟨gap', hleft, hrounds⟩ := ih (a := a ++ init) (.inr hlast) (.inr hr') hsuffix
              hzero' (by omega)
            refine ⟨gap', ?_, ?_⟩
            · rw [hunescape, List.length_append, List.length_cons]
              omega
            · rw [List.cons_append, hround, hrounds, hunescape]
              simp
              omega
          · obtain rfl : gap = [] := by
              rcases hstart with hnil | hnil | hhead
              · exact hnil
              · cases hnil
              · exact absurd (by simpa using hhead) hpct
            have hd : d ≠ 0 := fun h => hzero (by simp [h])
            obtain ⟨gap', hleft, hrounds⟩ := ih (a := a ++ [c]) (.inl rfl) (.inl rfl)
              hescaped.tail hrest (Nat.lt_of_succ_lt_succ hfuel)
            have hkeep : unescape 37 (c :: d :: r) = c :: unescape 37 (d :: r) := by
              rw [unescape, if_neg (by simpa using hpct)]
            refine ⟨gap', by rw [hkeep]; simp at hleft ⊢; omega, ?_⟩
            have hround := escapeRounds_keep fuel a c (r ++ 0 :: post) hd hpct
            rw [hkeep]
            simp only [List.nil_append, List.length_nil, Nat.add_zero, List.cons_append]
              at hrounds ⊢
            rw [hround, hrounds]
            simp
            omega

end EscapeRounds

theorem cstringAt_spec {a s post : List UInt8} (h : 0 ∉ s) :
    cstringAt (a ++ s ++ 0 :: post) a.length = .ok s := by
  have hdrop : (a ++ s ++ 0 :: post).drop a.length = s ++ 0 :: post := by simp
  have htake : (s ++ 0 :: post).takeWhile (· ≠ 0) = s := by
    rw [List.takeWhile_append_of_pos]
    · simp
    · intro c hc
      simp only [decide_eq_true_eq]
      exact fun heq => h (heq ▸ hc)
  rw [cstringAt, hdrop, if_pos (by simp), htake]

/-- A part of the format string, followed by its zero, is unescaped where it stands. -/
theorem dtEscapePctSym_spec {a part : List UInt8} (post : List UInt8) (hne : part ≠ [])
    (hhead : part.head? ≠ some 37) (hescaped : Escaped pctMarks part) (hzero : 0 ∉ part) :
    ∃ junk, (unescape 37 part).length + junk.length = part.length ∧
      dtEscapePctSym (a ++ part ++ 0 :: post) a.length =
        .ok (a ++ unescape 37 part ++ 0 :: (junk ++ post)) := by
  obtain ⟨c, r, rfl⟩ := List.exists_cons_of_ne_nil hne
  have hc : c ≠ 37 := by simpa using hhead
  have hcz : c ≠ 0 := fun h => hzero (by simp [h])
  have hmem : a ++ c :: r ++ 0 :: post = a ++ c :: ([] ++ (r ++ 0 :: post)) := by simp
  obtain ⟨gap, hlength, hrounds⟩ := escapeRounds_spec (a := a) post
    (.inl rfl) (.inl rfl) hescaped (fun h => hzero (by simp [h]))
    (show r.length < (a ++ c :: r ++ 0 :: post).length by simp; omega)
  have hread : readAt (a ++ c :: r ++ 0 :: post) ((a.length : Nat) : Int) = .ok c := by
    rw [hmem]
    exact readAt_append rfl
  have hfirst : escapeRounds ((a ++ c :: r ++ 0 :: post).length + 1) 0 (a ++ c :: r ++ 0 :: post)
      a.length = .ok (gap.length, a ++ unescape 37 (c :: r) ++ gap ++ 0 :: post,
        a.length + (unescape 37 (c :: r)).length + gap.length) := by
    rw [escapeRounds, hread, ok_bind, if_neg hcz, if_neg hc, ← hrounds, hmem]
    rfl
  rw [dtEscapePctSym, hfirst, ok_bind]
  dsimp only
  cases gap with
  | nil => exact ⟨[], by simpa using hlength, by simp⟩
  | cons g gap =>
      refine ⟨gap ++ [0], by simp at hlength ⊢; omega, ?_⟩
      have hsplit : a ++ unescape 37 (c :: r) ++ g :: gap ++ 0 :: post =
          (a ++ unescape 37 (c :: r)) ++ g :: (gap ++ 0 :: post) := by simp
      rw [if_pos (by simp), hsplit, writeAt_append (by simp)]
      simp

end Madlib.Cart
