import Madlib.Cart.TextFormat

/-!
# What a text template is formatted to

The format string is cut into its parts, one zero behind each.  Every part but the last is unescaped
in front of its value; the last one is copied as it is, and without values the whole string is.
-/

namespace Madlib.Cart

open Madlib.Backend Madlib.Lib.Template

/-- The call ends in an error of its own. -/
def Refuses {α : Type} (result : Except Fault α) : Prop :=
  ∃ e, result = .error e ∧ e.isRaised = true

theorem Refuses.bind {α β : Type} {x : Except Fault α} (h : Refuses x) (f : α → Except Fault β) :
    Refuses (x >>= f) := by
  obtain ⟨e, rfl, he⟩ := h
  exact ⟨e, rfl, he⟩

theorem refuses_dtCheckError {condition : Prop} [Decidable condition] {message : String}
    (h : ¬condition) : Refuses (dtCheckError condition message) :=
  ⟨_, dtCheckError_error h, rfl⟩

/-! ## Cutting -/

/-- The parts with a zero between them. -/
def cut : List (List UInt8) → List UInt8
  | [] => []
  | [part] => part
  | part :: next :: rest => part ++ 0 :: cut (next :: rest)

/-- Where these zeros are, in a string that begins at `base`. -/
def cuts : Nat → List (List UInt8) → List Nat
  | _, [] => []
  | _, [_] => []
  | base, part :: next :: rest =>
      (base + part.length) :: cuts (base + part.length + 1) (next :: rest)

theorem cut_cons (c : UInt8) (part : List UInt8) (rest : List (List UInt8)) :
    cut ((c :: part) :: rest) = c :: cut (part :: rest) := by
  cases rest <;> rfl

theorem cuts_cons (base : Nat) (c : UInt8) (part : List UInt8) (rest : List (List UInt8)) :
    cuts base ((c :: part) :: rest) = cuts (base + 1) (part :: rest) := by
  cases rest with
  | nil => rfl
  | cons next rest =>
      have hplace : base + (part.length + 1) = base + 1 + part.length := by omega
      simp only [cuts, List.length_cons, hplace]

theorem length_cuts (base : Nat) (part : List UInt8) (rest : List (List UInt8)) :
    (cuts base (part :: rest)).length = rest.length := by
  induction rest generalizing base part with
  | nil => rfl
  | cons next rest ih => rw [cuts, List.length_cons, List.length_cons, ih]

section Split

variable {numPos : Nat} {s : Split} {c : UInt8} {l : List UInt8}

theorem splitStep_keep (h : ¬(c = pctMarks.hole ∧ s.numContEscapes % 2 = 0)) :
    splitStep numPos s c =
      .ok ⟨s.str ++ [c], s.position, nextRun pctMarks s.numContEscapes c⟩ := by
  rw [pctMarks_hole] at h
  unfold splitStep nextRun
  rw [pctMarks_esc]
  by_cases hc : c = 37
  · have hodd : ¬s.numContEscapes % 2 = 0 := fun heven => h ⟨hc, heven⟩
    rw [if_pos hc, if_neg hodd, if_neg (by rw [hc]; decide), pure_eq_ok]
  · rw [if_neg hc]
    split <;> rfl

theorem splitStep_cut (h : c = pctMarks.hole ∧ s.numContEscapes % 2 = 0)
    (hroom : s.position.length < numPos) :
    splitStep numPos s c = .ok ⟨s.str ++ [0], s.position ++ [s.str.length], 0⟩ := by
  have hpct : c = 37 := h.1
  rw [splitStep, if_pos hpct, if_pos h.2, dtCheckError_ok hroom]
  rfl

theorem splitStep_refuses (h : c = pctMarks.hole ∧ s.numContEscapes % 2 = 0)
    (hfull : ¬s.position.length < numPos) : Refuses (splitStep numPos s c) := by
  have hpct : c = 37 := h.1
  rw [splitStep, if_pos hpct, if_pos h.2]
  exact (refuses_dtCheckError hfull).bind _

/-- The loop cuts the string where its parts end, or finds too many of them. -/
theorem foldlM_splitStep (numPos : Nat) (s : Split) (l : List UInt8) :
    (s.position.length + placeholders pctMarks s.numContEscapes l ≤ numPos →
      ∃ n, l.foldlM (splitStep numPos) s =
        .ok ⟨s.str ++ cut (parts pctMarks s.numContEscapes l),
          s.position ++ cuts s.str.length (parts pctMarks s.numContEscapes l), n⟩) ∧
    (numPos < s.position.length + placeholders pctMarks s.numContEscapes l →
      s.position.length ≤ numPos → Refuses (l.foldlM (splitStep numPos) s)) := by
  induction l generalizing s with
  | nil =>
      simp only [placeholders, parts, cut, cuts, List.foldlM_nil, pure_eq_ok, List.append_nil]
      exact ⟨fun _ => ⟨s.numContEscapes, rfl⟩, fun hmore hroom => by omega⟩
  | cons c l ih =>
      rcases parts_cons pctMarks s.numContEscapes c l with ⟨hc, hparts⟩ |
        ⟨hc, part, rest, htail, hparts⟩
      · obtain ⟨next, rest, hnext⟩ := exists_parts_eq_cons pctMarks 0 l
        have hrest := ih ⟨s.str ++ [0], s.position ++ [s.str.length], 0⟩
        simp only [hnext, List.length_append, List.length_singleton] at hrest
        rw [placeholders, if_pos hc, hparts, hnext, List.foldlM_cons]
        by_cases hroom : s.position.length < numPos
        · rw [splitStep_cut hc hroom, ok_bind]
          constructor
          · intro hle
            obtain ⟨n, hn⟩ := hrest.1 (by omega)
            refine ⟨n, ?_⟩
            rw [hn]
            simp [cut, cuts]
          · exact fun hmore _ => hrest.2 (by omega) (by omega)
        · exact ⟨fun hle => by omega, fun _ _ => (splitStep_refuses hc hroom).bind _⟩
      · have hrest := ih ⟨s.str ++ [c], s.position, nextRun pctMarks s.numContEscapes c⟩
        simp only [htail, List.length_append, List.length_singleton] at hrest
        rw [placeholders, if_neg hc, hparts, List.foldlM_cons, splitStep_keep hc, ok_bind]
        constructor
        · intro hle
          obtain ⟨n, hn⟩ := hrest.1 hle
          refine ⟨n, ?_⟩
          rw [hn, cut_cons, cuts_cons]
          simp
        · exact hrest.2

theorem dtSplitString_eq (h : placeholders pctMarks 0 l = numPos) :
    ∃ n, dtSplitString l numPos =
      .ok ⟨cut (parts pctMarks 0 l), cuts 0 (parts pctMarks 0 l), n⟩ := by
  obtain ⟨part, rest, hparts⟩ := exists_parts_eq_cons pctMarks 0 l
  have hcount : (cuts 0 (parts pctMarks 0 l)).length = numPos := by
    have hlength := length_parts pctMarks 0 l
    rw [hparts, List.length_cons] at hlength
    rw [hparts, length_cuts]
    omega
  obtain ⟨n, hn⟩ := (foldlM_splitStep numPos ⟨[], [], 0⟩ l).1 (by simp [h])
  refine ⟨n, ?_⟩
  rw [dtSplitString, hn, ok_bind]
  simp only [List.nil_append, List.length_nil]
  rw [dtCheckError_ok hcount]
  rfl

theorem dtSplitString_refuses (h : placeholders pctMarks 0 l ≠ numPos) :
    Refuses (dtSplitString l numPos) := by
  unfold dtSplitString
  have hfold := foldlM_splitStep numPos ⟨[], [], 0⟩ l
  simp only [List.length_nil, Nat.zero_add, List.nil_append] at hfold
  rcases Nat.lt_or_gt_of_ne h with hless | hmore
  · obtain ⟨n, hn⟩ := hfold.1 hless.le
    obtain ⟨part, rest, hparts⟩ := exists_parts_eq_cons pctMarks 0 l
    have hlength := length_parts pctMarks 0 l
    rw [hparts, List.length_cons] at hlength
    rw [hn, ok_bind]
    apply (refuses_dtCheckError _).bind
    simp only [hparts, length_cuts]
    omega
  · exact (hfold.2 hmore (Nat.zero_le numPos)).bind _

end Split

/-! ## Assembling -/

/-- What a part of a format string is: no `%` at its beginning, a backslash in front of every other
one, and no zero. -/
structure IsPart (part : List UInt8) : Prop where
  head : part.head? ≠ some 37
  escaped : Escaped pctMarks part
  zero_notMem : 0 ∉ part

theorem isPart_of_mem {l part : List UInt8} (hzero : 0 ∉ l) (h : part ∈ parts pctMarks 0 l) :
    IsPart part where
  head := head?_of_mem_parts rfl h
  escaped := escaped_of_mem_parts h
  zero_notMem := fun hmem => hzero (mem_of_mem_parts h hmem)

/-- The parts in front of the values, unescaped, each with its value. -/
def woven : List (List UInt8) → List (List UInt8) → List UInt8
  | part :: next :: rest, value :: values =>
      unescape 37 part ++ value ++ woven (next :: rest) values
  | _, _ => []

theorem weave_eq_woven {ps values : List (List UInt8)} (hlength : ps.length = values.length + 1) :
    weave (ps.map (unescape 37)) values = woven ps values ++ unescape 37 (ps.getLastD []) := by
  induction values generalizing ps with
  | nil =>
      obtain ⟨part, rfl⟩ := List.length_eq_one_iff.mp hlength
      rfl
  | cons value values ih =>
      match ps, hlength with
      | part :: next :: rest, hlength =>
          have hrest : weave ((next :: rest).map (unescape 37)) values =
              woven (next :: rest) values ++ unescape 37 ((next :: rest).getLastD []) :=
            ih (by simpa using hlength)
          rw [List.map_cons] at hrest
          simp only [List.map_cons, weave, woven, List.headD_cons, List.tail_cons, hrest]
          simp

theorem appendStringInfo_ok {buf s : List UInt8} (h : buf.length + s.length < maxAllocSize) :
    appendStringInfo buf s = .ok (buf ++ s) := by
  rw [appendStringInfo, if_neg (Nat.not_le.mpr h)]

theorem appendStringInfo_refuses {buf s : List UInt8}
    (h : maxAllocSize ≤ buf.length + s.length) : Refuses (appendStringInfo buf s) := by
  rw [appendStringInfo, if_pos h]
  exact ⟨_, rfl, rfl⟩

/-- The step for a value: its part is unescaped and the buffer gets both, if it has the room. -/
theorem assembleStep_eq {a part : List UInt8} (post buf : List UInt8) (h : IsPart part)
    (value : PgText) :
    ∃ front, front.length = a.length + part.length + 1 ∧
      assembleStep ⟨a ++ part ++ 0 :: post, a.length, buf⟩ (a.length + part.length, value) =
        (appendStringInfo buf (unescape 37 part ++ value.data)).map fun buf =>
          ⟨front ++ post, front.length, buf⟩ := by
  by_cases hne : part = []
  · refine ⟨a ++ [0], by simp [hne], ?_⟩
    unfold assembleStep
    rw [if_pos (by simp [hne])]
    cases happend : appendStringInfo buf value.data with
    | error e => simp [happend, hne, unescape, Except.map]
    | ok out => simp [happend, hne, unescape, Except.map]
  · obtain ⟨junk, hlength, hescape⟩ := dtEscapePctSym_spec (a := a) post hne h.head h.escaped
      h.zero_notMem
    have hread : cstringAt (a ++ unescape 37 part ++ 0 :: (junk ++ post)) a.length =
        .ok (unescape 37 part) := by
      apply cstringAt_spec
      exact fun hmem => h.zero_notMem (mem_of_mem_unescape hmem)
    refine ⟨a ++ unescape 37 part ++ 0 :: junk, ?_, ?_⟩
    · simp
      omega
    · have hplace : ¬a.length = a.length + part.length := by
        have hpos := List.length_pos_of_ne_nil hne
        omega
      unfold assembleStep
      rw [if_neg hplace, hescape, ok_bind, hread, ok_bind]
      cases happend : appendStringInfo buf (unescape 37 part ++ value.data) with
      | error e => simp [Except.map]
      | ok out =>
          simp [Except.map]
          omega

/-- The loop over the values, when the parts `ps` are left of the string. -/
def assembleAll (a buf : List UInt8) (ps : List (List UInt8)) (values : List PgText) :
    Except Fault Assembly :=
  ((cuts a.length ps).zip values).foldlM assembleStep ⟨a ++ (cut ps ++ [0]), a.length, buf⟩

theorem assembleAll_cons {part : List UInt8} (a buf next : List UInt8) (rest : List (List UInt8))
    (h : IsPart part) (value : PgText) (values : List PgText) :
    ∃ front, front.length = a.length + part.length + 1 ∧
      assembleAll a buf (part :: next :: rest) (value :: values) =
        appendStringInfo buf (unescape 37 part ++ value.data) >>= fun buf =>
          assembleAll front buf (next :: rest) values := by
  obtain ⟨front, hfront, hstep⟩ := assembleStep_eq (a := a) (cut (next :: rest) ++ [0]) buf h value
  have hmem : a ++ (cut (part :: next :: rest) ++ [0]) =
      a ++ part ++ 0 :: (cut (next :: rest) ++ [0]) := by simp [cut]
  refine ⟨front, hfront, ?_⟩
  rw [assembleAll, hmem, cuts, List.zip_cons_cons, List.foldlM_cons, hstep]
  cases appendStringInfo buf (unescape 37 part ++ value.data) with
  | error e => rfl
  | ok out =>
      simp only [Except.map, ok_bind]
      rw [assembleAll, hfront]

/-- The loop leaves the last part behind `lastPos`, or the buffer had no room. -/
theorem assembleAll_ends {a buf : List UInt8} {ps : List (List UInt8)} {values : List PgText}
    (hlength : ps.length = values.length + 1) (hparts : ∀ part ∈ ps, IsPart part) :
    (∃ front, front.length + (ps.getLastD []).length = a.length + (cut ps).length ∧
      assembleAll a buf ps values = .ok ⟨front ++ ps.getLastD [] ++ [0], front.length,
        buf ++ woven ps (values.map PgText.data)⟩) ∨
    (Refuses (assembleAll a buf ps values) ∧
      maxAllocSize ≤ (buf ++ woven ps (values.map PgText.data)).length) := by
  induction values generalizing a buf ps with
  | nil =>
      obtain ⟨part, rfl⟩ := List.length_eq_one_iff.mp hlength
      exact .inl ⟨a, rfl, by simp [assembleAll, cut, cuts, woven]⟩
  | cons value values ih =>
      match ps, hlength with
      | part :: next :: rest, hlength =>
          obtain ⟨front, hfront, hstep⟩ := assembleAll_cons a buf next rest
            (hparts part (by simp)) value values
          have hout : buf ++ woven (part :: next :: rest) ((value :: values).map PgText.data) =
              buf ++ (unescape 37 part ++ value.data) ++
                woven (next :: rest) (values.map PgText.data) := by simp [woven]
          have hlast : (part :: next :: rest).getLastD [] = (next :: rest).getLastD [] := rfl
          rw [hstep, hout, hlast]
          by_cases hroom : buf.length + (unescape 37 part ++ value.data).length < maxAllocSize
          · rw [appendStringInfo_ok hroom, ok_bind]
            rcases @ih front (buf ++ (unescape 37 part ++ value.data)) (next :: rest)
                (by simpa using hlength)
                (fun p hp => hparts p (List.mem_cons_of_mem part hp)) with
              ⟨front', hcount, hrun⟩ | hfull
            · refine .inl ⟨front', ?_, hrun⟩
              rw [hcount, hfront, cut, List.length_append, List.length_cons]
              omega
            · exact .inr hfull
          · refine .inr ⟨(appendStringInfo_refuses (Nat.le_of_not_lt hroom)).bind _, ?_⟩
            rw [List.length_append, List.length_append]
            omega

/-! ## The text -/

/-- The part of a format string behind the last place for a value. -/
def lastPart (fmt : List UInt8) : List UInt8 := (parts pctMarks 0 fmt).getLastD []

theorem lastPart_mem (fmt : List UInt8) : lastPart fmt ∈ parts pctMarks 0 fmt := by
  obtain ⟨part, rest, hparts⟩ := exists_parts_eq_cons pctMarks 0 fmt
  rw [lastPart, hparts, List.getLastD_cons]
  exact List.getLastD_mem_cons

theorem cstringToText_ok {s : List UInt8} (h : s.length + 4 ≤ maxAllocSize) :
    cstringToText s = .ok s := by
  rw [cstringToText, palloc_ok h]
  rfl

theorem cstringToText_refuses {s : List UInt8} (h : maxAllocSize < s.length + 4) :
    Refuses (cstringToText s) := by
  rw [cstringToText, palloc_error h]
  exact ⟨_, rfl, rfl⟩

/-- What is done behind the loop, the last part being copied as it is. -/
def finish (len : Nat) (a : Assembly) : Except Fault (List UInt8) :=
  if a.lastPos < len then do
    let rest ← cstringAt a.fmt a.lastPos
    let buf ← appendStringInfo a.buf rest
    cstringToText buf
  else cstringToText a.buf

theorem finish_eq {front part buf : List UInt8} (hzero : 0 ∉ part) :
    ((buf ++ part).length + 4 ≤ maxAllocSize →
      finish (front.length + part.length) ⟨front ++ part ++ [0], front.length, buf⟩ =
        .ok (buf ++ part)) ∧
    (maxAllocSize < (buf ++ part).length + 4 →
      Refuses (finish (front.length + part.length) ⟨front ++ part ++ [0], front.length, buf⟩)) := by
  unfold finish
  by_cases hne : part = []
  · rw [if_neg (by simp [hne]), hne, List.append_nil]
    exact ⟨cstringToText_ok, cstringToText_refuses⟩
  · have hpos := List.length_pos_of_ne_nil hne
    rw [if_pos (by simpa using hpos), cstringAt_spec hzero, ok_bind]
    by_cases hroom : buf.length + part.length < maxAllocSize
    · rw [appendStringInfo_ok hroom, ok_bind]
      exact ⟨cstringToText_ok, cstringToText_refuses⟩
    · constructor
      · intro hle
        rw [List.length_append] at hle
        omega
      · exact fun _ => (appendStringInfo_refuses (Nat.le_of_not_lt hroom)).bind _

section Values

variable {fmt : PgText} {values : List PgText}

theorem formatValues_refuses (hsize : values.length ≤ 134217727)
    (h : placeholders pctMarks 0 fmt.data ≠ values.length) :
    Refuses (formatValues fmt values) := by
  rw [formatValues, palloc_ok (by unfold maxAllocSize; omega), ok_bind]
  exact (dtSplitString_refuses h).bind _

/-- With as many values as places the last part is not unescaped. -/
theorem formatValues_eq (fmt : PgText) (values : List PgText)
    (hsize : values.length ≤ 134217727)
    (h : placeholders pctMarks 0 fmt.data = values.length) :
    let out := woven (parts pctMarks 0 fmt.data) (values.map PgText.data) ++ lastPart fmt.data
    (out.length + 4 ≤ maxAllocSize → formatValues fmt values = .ok out) ∧
      (maxAllocSize < out.length + 4 → Refuses (formatValues fmt values)) := by
  intro out
  obtain ⟨n, hsplit⟩ := dtSplitString_eq h
  have hlength : (parts pctMarks 0 fmt.data).length = values.length + 1 := by
    rw [length_parts, h]
  have hparts : ∀ part ∈ parts pctMarks 0 fmt.data, IsPart part := fun part hpart =>
    isPart_of_mem fmt.zero_notMem hpart
  have hlast : 0 ∉ lastPart fmt.data := (hparts _ (lastPart_mem fmt.data)).zero_notMem
  have hcode : formatValues fmt values =
      assembleAll [] [] (parts pctMarks 0 fmt.data) values >>=
        finish (cut (parts pctMarks 0 fmt.data)).length := by
    rw [formatValues, palloc_ok (by unfold maxAllocSize; omega), ok_bind, hsplit, ok_bind]
    rfl
  rw [hcode]
  rcases @assembleAll_ends [] [] _ values hlength hparts with ⟨front, hcount, hrun⟩ |
    ⟨hrefuses, hfull⟩
  · rw [List.length_nil, Nat.zero_add] at hcount
    rw [hrun, ok_bind, ← hcount]
    exact finish_eq hlast
  · constructor
    · intro hle
      simp only [List.nil_append] at hfull
      have hmore : out.length = (woven (parts pctMarks 0 fmt.data)
          (values.map PgText.data)).length + (lastPart fmt.data).length := List.length_append
      omega
    · exact fun _ => hrefuses.bind _

end Values

/-- The array of these values. -/
def TextArray.ofValues (values : List PgText) (h : values.length ≤ 134217727) : TextArray where
  elements := values.map some
  length_le := by rwa [List.length_map]

theorem dtTextFormat_ofValues (fmt : PgText) (values : List PgText)
    (h : values.length ≤ 134217727) :
    dtTextFormat (some fmt) (some (.ofValues values h)) =
      if values = [] then .ok fmt.data else formatValues fmt values := by
  have hfmt := fmt.size_le
  have hall : ∀ x ∈ (TextArray.ofValues values h).elements, x.isSome = true := by
    intro x hx
    obtain ⟨value, -, rfl⟩ := List.mem_map.mp hx
    rfl
  have hvalues : (TextArray.ofValues values h).elements.reduceOption = values := by
    simp [TextArray.ofValues, List.reduceOption]
  rw [dtTextFormat, palloc_ok (by omega), ok_bind, dtCheckError_ok hall, ok_bind, hvalues,
    cstringToText_ok hfmt]
  simp only [List.length_eq_zero_iff]

/-- An error is raised if and only if the number of the arguments is wrong, and otherwise the result
is the template with the arguments in it and its escapes resolved. -/
def Formats (result : Except Fault (List UInt8)) (fmt : List UInt8) (args : List (List UInt8)) :
    Prop :=
  (Refuses result ↔ placeholders pctMarks 0 fmt ≠ args.length) ∧
    (placeholders pctMarks 0 fmt = args.length → result = .ok (render pctMarks 0 fmt args))

theorem not_refuses_ok {α : Type} (a : α) : ¬Refuses (.ok a) := by
  rintro ⟨e, he, -⟩
  cases he

theorem formats_of_refuses {result : Except Fault (List UInt8)} {fmt : List UInt8}
    {args : List (List UInt8)} (h : placeholders pctMarks 0 fmt ≠ args.length)
    (hresult : Refuses result) : Formats result fmt args :=
  ⟨⟨fun _ => h, fun _ => hresult⟩, fun heq => absurd heq h⟩

theorem formats_iff_of_eq {result : Except Fault (List UInt8)} {fmt : List UInt8}
    {args : List (List UInt8)} (h : placeholders pctMarks 0 fmt = args.length) :
    Formats result fmt args ↔ result = .ok (render pctMarks 0 fmt args) := by
  constructor
  · exact fun hformats => hformats.2 h
  · intro hresult
    refine ⟨⟨fun hrefuses => ?_, fun hne => absurd h hne⟩, fun _ => hresult⟩
    rw [hresult] at hrefuses
    exact absurd hrefuses (not_refuses_ok _)

/-- The whole format string is returned for it. -/
theorem formats_nil_iff (fmt : List UInt8) :
    Formats (.ok fmt) fmt [] ↔ 37 ∉ fmt := by
  by_cases hcount : placeholders pctMarks 0 fmt = 0
  · have hparts := parts_of_placeholders_eq_zero hcount
    have hhead : fmt.head? ≠ some 37 :=
      head?_of_mem_parts rfl (hparts ▸ List.mem_singleton_self fmt)
    have hrender : render pctMarks 0 fmt [] = unescape 37 fmt := by
      rw [render_eq_weave, hparts]
      rfl
    rw [formats_iff_of_eq hcount, hrender, Except.ok.injEq, eq_comm, unescape_eq_self_iff hhead]
  · have hmem : 37 ∈ fmt := by
      by_contra hnot
      exact hcount (placeholders_of_notMem hnot)
    constructor
    · intro hformats
      exact absurd (hformats.1.mpr hcount) (not_refuses_ok fmt)
    · exact fun hnot => absurd hmem hnot

theorem render_eq_woven {fmt : List UInt8} {args : List (List UInt8)}
    (h : placeholders pctMarks 0 fmt = args.length) :
    render pctMarks 0 fmt args =
      woven (parts pctMarks 0 fmt) args ++ unescape 37 (lastPart fmt) := by
  have hlength : (parts pctMarks 0 fmt).length = args.length + 1 := by rw [length_parts, h]
  rw [render_eq_weave]
  exact weave_eq_woven hlength

/-- The text has room in a `text` of the backend: with all arguments it has one byte less for each
`%` of the format string. -/
def FitsText (fmt : List UInt8) (args : List (List UInt8)) : Prop :=
  fmt.length + (args.map List.length).sum + 4 ≤ maxAllocSize + fmt.count 37

theorem fitsText_iff {fmt : List UInt8} {args : List (List UInt8)}
    (h : placeholders pctMarks 0 fmt = args.length) :
    FitsText fmt args ↔ (render pctMarks 0 fmt args).length + 4 ≤ maxAllocSize := by
  have hlength := length_render (m := pctMarks) h.symm
  rw [if_neg (by simp), pctMarks_hole] at hlength
  unfold FitsText
  omega

/-- The rule holds, without arguments, for the format strings without a `%`, and with arguments if
their number is wrong or there is no `%` behind the last place and the text fits. -/
theorem dtTextFormat_formats_iff (fmt : PgText) (values : List PgText)
    (h : values.length ≤ 134217727) :
    Formats (dtTextFormat (some fmt) (some (.ofValues values h))) fmt.data
        (values.map PgText.data) ↔
      (values = [] → 37 ∉ fmt.data) ∧
      (values ≠ [] → placeholders pctMarks 0 fmt.data = values.length →
        37 ∉ lastPart fmt.data ∧ FitsText fmt.data (values.map PgText.data)) := by
  rw [dtTextFormat_ofValues]
  by_cases hnil : values = []
  · subst hnil
    simpa using formats_nil_iff fmt.data
  rw [if_neg hnil]
  by_cases hcount : placeholders pctMarks 0 fmt.data = values.length
  · have hargs : placeholders pctMarks 0 fmt.data = (values.map PgText.data).length := by
      rw [List.length_map, hcount]
    have hhead : (lastPart fmt.data).head? ≠ some 37 :=
      head?_of_mem_parts rfl (lastPart_mem fmt.data)
    have hrender := render_eq_woven hargs
    obtain ⟨hfits, hfull⟩ := formatValues_eq fmt values h hcount
    have hsame := unescape_eq_self_iff hhead
    rw [formats_iff_of_eq hargs, fitsText_iff hargs]
    constructor
    · intro hok
      have hroom : (woven (parts pctMarks 0 fmt.data) (values.map PgText.data) ++
          lastPart fmt.data).length + 4 ≤ maxAllocSize := by
        by_contra hlarge
        have hrefuses := hfull (Nat.lt_of_not_le hlarge)
        rw [hok] at hrefuses
        exact not_refuses_ok _ hrefuses
      have heq := hfits hroom
      rw [hok, Except.ok.injEq] at heq
      have hlast : unescape 37 (lastPart fmt.data) = lastPart fmt.data := by
        rw [hrender] at heq
        exact List.append_cancel_left heq
      exact ⟨fun hempty => absurd hempty hnil, fun _ _ => ⟨hsame.mp hlast, heq ▸ hroom⟩⟩
    · intro hcondition
      obtain ⟨hfree, hroom⟩ := hcondition.2 hnil hcount
      rw [hrender, hsame.mpr hfree] at hroom ⊢
      exact hfits hroom
  · have hargs : placeholders pctMarks 0 fmt.data ≠ (values.map PgText.data).length := by
      rwa [List.length_map]
    have hformats := formats_of_refuses hargs (formatValues_refuses h hcount)
    exact iff_of_true hformats ⟨fun heq => absurd heq hnil, fun _ heq => absurd heq hcount⟩

/-- The example of the source, `\\\\ % \% %` with `100` and `20`. -/
theorem dtTextFormat_formats_iff_two :
    Formats
      (dtTextFormat (some ⟨[92, 92, 92, 92, 32, 37, 32, 92, 37, 32, 37], by decide, by decide⟩)
        (some (.ofValues [⟨[49, 48, 48], by decide, by decide⟩, ⟨[50, 48], by decide, by decide⟩]
          (by decide))))
      [92, 92, 92, 92, 32, 37, 32, 92, 37, 32, 37] [[49, 48, 48], [50, 48]] :=
  (dtTextFormat_formats_iff ⟨[92, 92, 92, 92, 32, 37, 32, 92, 37, 32, 37], by decide, by decide⟩
    [⟨[49, 48, 48], by decide, by decide⟩, ⟨[50, 48], by decide, by decide⟩] (by decide)).mpr
    ⟨fun h => absurd h (List.cons_ne_nil _ _), fun _ _ => by unfold FitsText; decide⟩

/-- `% \%` with `a` gives `a \%`, and not `a %`. -/
theorem not_dtTextFormat_formats : ¬∀ (fmt : PgText) (values : List PgText)
    (h : values.length ≤ 134217727),
    Formats (dtTextFormat (some fmt) (some (.ofValues values h))) fmt.data
      (values.map PgText.data) := by
  intro hall
  have hformats := (hall ⟨[37, 32, 92, 37], by decide, by decide⟩ [⟨[97], by decide, by decide⟩]
    (by decide)).2 rfl
  rw [dtTextFormat_ofValues, if_neg (List.cons_ne_nil _ _)] at hformats
  have hresult := (formatValues_eq ⟨[37, 32, 92, 37], by decide, by decide⟩
    [⟨[97], by decide, by decide⟩] (by decide) rfl).1 (by decide)
  rw [hresult, Except.ok.injEq] at hformats
  revert hformats
  decide

end Madlib.Cart
