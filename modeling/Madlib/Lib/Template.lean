import Mathlib

/-!
# Templates

A template is a string with holes.  A hole is escaped if an odd number of escape symbols stands
directly in front of it; the others are filled with arguments from left to right.
-/

namespace Madlib.Lib.Template

/-- The two symbols with a meaning. -/
structure Marks (α : Type) where
  esc : α
  hole : α
  ne : esc ≠ hole

variable {α : Type}

/-- Strings with arguments between them. -/
def weave : List (List α) → List (List α) → List α
  | [], _ => []
  | [part], _ => part
  | part :: next :: rest, args => part ++ args.headD [] ++ weave (next :: rest) args.tail

theorem weave_cons_cons (c : α) (part : List α) (rest args : List (List α)) :
    weave ((c :: part) :: rest) args = c :: weave (part :: rest) args := by
  cases rest <;> rfl

variable [DecidableEq α] (m : Marks α)

/-- How many escape symbols stand directly in front of the symbol behind `c`. -/
def nextRun (run : ℕ) (c : α) : ℕ := if c = m.esc then run + 1 else 0

/-- How many holes are to be filled; `run` escape symbols stand in front of the string. -/
def placeholders : ℕ → List α → ℕ
  | _, [] => 0
  | run, c :: rest =>
      if c = m.hole ∧ run % 2 = 0 then placeholders 0 rest + 1
      else placeholders (nextRun m run c) rest

/-- The holes filled in, and the escape symbol in front of every escaped hole left out. -/
def render : ℕ → List α → List (List α) → List α
  | _, [], _ => []
  | run, c :: rest, args =>
      if c = m.hole ∧ run % 2 = 0 then args.headD [] ++ render 0 rest args.tail
      else if c = m.esc ∧ run % 2 = 0 ∧ rest.head? = some m.hole then render (run + 1) rest args
      else c :: render (nextRun m run c) rest args

/-! ## Parts -/

/-- The strings between the holes that are to be filled. -/
def parts : ℕ → List α → List (List α)
  | _, [] => [[]]
  | run, c :: rest =>
      if c = m.hole ∧ run % 2 = 0 then [] :: parts 0 rest
      else (parts (nextRun m run c) rest).modifyHead (c :: ·)

/-- Every symbol directly in front of a hole is left out. -/
def unescape (hole : α) : List α → List α
  | [] => []
  | c :: rest => if rest.head? = some hole then unescape hole rest else c :: unescape hole rest

variable {m} {run : ℕ} {l : List α}

theorem nextRun_odd {c : α} : nextRun m run c % 2 = 1 ↔ c = m.esc ∧ run % 2 = 0 := by
  unfold nextRun
  split
  · rename_i hc
    simp only [hc, true_and]
    omega
  · rename_i hc
    simp [hc]

theorem exists_parts_eq_cons (m : Marks α) (run : ℕ) (l : List α) :
    ∃ part rest, parts m run l = part :: rest := by
  induction l generalizing run with
  | nil => exact ⟨[], [], rfl⟩
  | cons c l ih =>
      unfold parts
      split
      · exact ⟨[], _, rfl⟩
      · obtain ⟨part, rest, hparts⟩ := ih (nextRun m run c)
        exact ⟨c :: part, rest, by rw [hparts]; rfl⟩

/-- A hole that is to be filled begins a new part, any other symbol belongs to the first one. -/
theorem parts_cons (m : Marks α) (run : ℕ) (c : α) (l : List α) :
    ((c = m.hole ∧ run % 2 = 0) ∧ parts m run (c :: l) = [] :: parts m 0 l) ∨
      (¬(c = m.hole ∧ run % 2 = 0) ∧ ∃ part rest, parts m (nextRun m run c) l = part :: rest ∧
        parts m run (c :: l) = (c :: part) :: rest) := by
  by_cases hc : c = m.hole ∧ run % 2 = 0
  · exact .inl ⟨hc, by rw [parts, if_pos hc]⟩
  · obtain ⟨part, rest, hparts⟩ := exists_parts_eq_cons m (nextRun m run c) l
    refine .inr ⟨hc, part, rest, hparts, ?_⟩
    rw [parts, if_neg hc, hparts]
    rfl

theorem length_parts (m : Marks α) (run : ℕ) (l : List α) :
    (parts m run l).length = placeholders m run l + 1 := by
  induction l generalizing run with
  | nil => rfl
  | cons c l ih =>
      unfold parts placeholders
      split
      · rw [List.length_cons, ih]
      · rw [List.length_modifyHead, ih]

theorem placeholders_of_notMem (h : m.hole ∉ l) : placeholders m run l = 0 := by
  induction l generalizing run with
  | nil => rfl
  | cons c l ih =>
      have hc : ¬(c = m.hole ∧ run % 2 = 0) := fun hhole => h (hhole.1 ▸ List.mem_cons_self)
      rw [placeholders, if_neg hc, ih fun hmem => h (List.mem_cons_of_mem c hmem)]

theorem parts_of_placeholders_eq_zero (h : placeholders m run l = 0) : parts m run l = [l] := by
  induction l generalizing run with
  | nil => rfl
  | cons c l ih =>
      unfold placeholders at h
      unfold parts
      split at h
      · cases h
      · rename_i hc
        rw [if_neg hc, ih h]
        rfl

/-- A part begins with a hole only if it is an escaped one. -/
theorem head?_part {part : List α} {rest : List (List α)} (h : parts m run l = part :: rest) :
    part.head? = some m.hole ↔ l.head? = some m.hole ∧ run % 2 = 1 := by
  cases l with
  | nil =>
      obtain ⟨rfl, -⟩ : [] = part ∧ [] = rest := by simpa [parts] using h
      simp
  | cons c l =>
      rcases parts_cons m run c l with ⟨⟨-, heven⟩, heq⟩ | ⟨hc, tail, rest', -, heq⟩
      · rw [heq, List.cons.injEq] at h
        rw [← h.1]
        simp [heven]
      · rw [heq, List.cons.injEq] at h
        rw [← h.1]
        simp only [List.head?_cons, Option.some.injEq]
        constructor
        · intro hhole
          have hodd : ¬run % 2 = 0 := fun heven => hc ⟨hhole, heven⟩
          exact ⟨hhole, by omega⟩
        · exact fun hhole => hhole.1

theorem head?_of_mem_rest {first part : List α} {rest : List (List α)}
    (h : parts m run l = first :: rest) (hpart : part ∈ rest) : part.head? ≠ some m.hole := by
  induction l generalizing run first rest with
  | nil =>
      obtain ⟨-, rfl⟩ : [] = first ∧ [] = rest := by simpa [parts] using h
      simp at hpart
  | cons c l ih =>
      rcases parts_cons m run c l with ⟨-, heq⟩ | ⟨-, tail, rest', hparts, heq⟩
      · rw [heq, List.cons.injEq] at h
        obtain ⟨next, others, hnext⟩ := exists_parts_eq_cons m 0 l
        rw [hnext] at h
        rw [← h.2] at hpart
        rcases List.mem_cons.mp hpart with rfl | hpart
        · intro hhead
          exact absurd ((head?_part hnext).mp hhead).2 (by norm_num)
        · exact ih hnext hpart
      · rw [heq, List.cons.injEq] at h
        exact ih hparts (h.2 ▸ hpart)

theorem head?_of_mem_parts {part : List α} (hrun : run % 2 = 0) (h : part ∈ parts m run l) :
    part.head? ≠ some m.hole := by
  obtain ⟨first, rest, hparts⟩ := exists_parts_eq_cons m run l
  rw [hparts] at h
  rcases List.mem_cons.mp h with rfl | h
  · intro hhead
    have hodd := ((head?_part hparts).mp hhead).2
    omega
  · exact head?_of_mem_rest hparts h

/-- Within a part an escape symbol stands in front of every hole. -/
def Escaped (m : Marks α) (part : List α) : Prop :=
  part.IsChain fun before c => c = m.hole → before = m.esc

theorem escaped_of_mem_parts {part : List α} (h : part ∈ parts m run l) : Escaped m part := by
  induction l generalizing run part with
  | nil =>
      obtain rfl : part = [] := by simpa [parts] using h
      exact List.isChain_nil
  | cons c l ih =>
      rcases parts_cons m run c l with ⟨-, heq⟩ | ⟨-, tail, rest, hparts, heq⟩
      · rw [heq] at h
        rcases List.mem_cons.mp h with rfl | h
        · exact List.isChain_nil
        · exact ih h
      · rw [heq] at h
        rcases List.mem_cons.mp h with rfl | h
        · have htail : Escaped m tail := ih (hparts ▸ List.mem_cons_self)
          apply List.isChain_cons.mpr
          refine ⟨fun x hx hhole => ?_, htail⟩
          have hhead : tail.head? = some m.hole := by
            rw [← hhole]
            exact hx
          exact (nextRun_odd.mp ((head?_part hparts).mp hhead).2).1
        · exact ih (hparts ▸ List.mem_cons_of_mem tail h)

theorem mem_of_mem_parts {part : List α} {x : α} (h : part ∈ parts m run l) (hx : x ∈ part) :
    x ∈ l := by
  induction l generalizing run part with
  | nil =>
      obtain rfl : part = [] := by simpa [parts] using h
      exact hx
  | cons c l ih =>
      rcases parts_cons m run c l with ⟨-, heq⟩ | ⟨-, tail, rest, hparts, heq⟩
      · rw [heq] at h
        rcases List.mem_cons.mp h with rfl | h
        · simp at hx
        · exact List.mem_cons_of_mem c (ih h hx)
      · rw [heq] at h
        rcases List.mem_cons.mp h with rfl | h
        · rcases List.mem_cons.mp hx with rfl | hx
          · exact List.mem_cons_self
          · exact List.mem_cons_of_mem c (ih (hparts ▸ List.mem_cons_self) hx)
        · exact List.mem_cons_of_mem c (ih (hparts ▸ List.mem_cons_of_mem tail h) hx)

/-! ## Rendering by parts -/

/-- The template is rendered by unescaping its parts and putting the arguments between them. -/
theorem render_eq_weave (args : List (List α)) :
    render m run l args = weave ((parts m run l).map (unescape m.hole)) args := by
  induction l generalizing run args with
  | nil => rfl
  | cons c l ih =>
      rcases parts_cons m run c l with ⟨hc, heq⟩ | ⟨hc, tail, rest, hparts, heq⟩
      · obtain ⟨next, rest, hparts⟩ := exists_parts_eq_cons m 0 l
        rw [render, if_pos hc, ih, heq, hparts]
        rfl
      · have hhead : tail.head? = some m.hole ↔
            c = m.esc ∧ run % 2 = 0 ∧ l.head? = some m.hole := by
          rw [head?_part hparts, nextRun_odd]
          tauto
        rw [render, if_neg hc, heq, List.map_cons, unescape]
        by_cases hdrop : tail.head? = some m.hole
        · have hnext : nextRun m run c = run + 1 := if_pos (hhead.mp hdrop).1
          rw [if_pos (hhead.mp hdrop), if_pos hdrop, ih, ← hnext, hparts, List.map_cons]
        · rw [if_neg (fun h => hdrop (hhead.mpr h)), if_neg hdrop, ih, hparts, List.map_cons,
            weave_cons_cons]

/-- One symbol is left out for each hole: the hole that is filled, or the escape symbol in front of
an escaped one, which may stand in front of the string. -/
theorem length_render {args : List (List α)} (hargs : args.length = placeholders m run l) :
    (render m run l args).length + l.count m.hole =
      l.length + (args.map List.length).sum +
        (if l.head? = some m.hole ∧ run % 2 = 1 then 1 else 0) := by
  induction l generalizing run args with
  | nil =>
      obtain rfl : args = [] := List.eq_nil_of_length_eq_zero hargs
      simp [render]
  | cons c l ih =>
      unfold placeholders at hargs
      unfold render
      by_cases hc : c = m.hole ∧ run % 2 = 0
      · rw [if_pos hc] at hargs
        obtain ⟨arg, rest, rfl⟩ := List.exists_of_length_succ args hargs
        have hrest := @ih 0 rest (by simpa using hargs)
        simp only [hc, and_self, if_true, List.headD_cons, List.tail_cons, List.length_append,
          List.count_cons_self, List.length_cons, List.map_cons, List.sum_cons]
        simp at hrest ⊢
        omega
      · rw [if_neg hc] at hargs ⊢
        have hrest := ih hargs
        by_cases hdrop : c = m.esc ∧ run % 2 = 0 ∧ l.head? = some m.hole
        · have hnext : nextRun m run c = run + 1 := if_pos hdrop.1
          have hodd : l.head? = some m.hole ∧ nextRun m run c % 2 = 1 :=
            ⟨hdrop.2.2, nextRun_odd.mpr ⟨hdrop.1, hdrop.2.1⟩⟩
          have hne : c ≠ m.hole := hdrop.1 ▸ m.ne
          rw [if_pos hodd, hnext] at hrest
          rw [if_pos hdrop, List.count_cons_of_ne hne, if_neg (by simp [hne]), List.length_cons]
          omega
        · have hodd : ¬(l.head? = some m.hole ∧ nextRun m run c % 2 = 1) := by
            rintro ⟨hhead, hnext⟩
            obtain ⟨hesc, heven⟩ := nextRun_odd.mp hnext
            exact hdrop ⟨hesc, heven, hhead⟩
          rw [if_neg hodd] at hrest
          rw [if_neg hdrop, List.length_cons, List.length_cons]
          by_cases hhole : c = m.hole
          · have heven : ¬run % 2 = 0 := fun heven => hc ⟨hhole, heven⟩
            rw [hhole, List.count_cons_self, if_pos ⟨List.head?_cons, by omega⟩]
            rw [hhole] at hrest
            omega
          · rw [List.count_cons_of_ne hhole, if_neg (by simp [hhole])]
            omega

theorem length_unescape_le (hole : α) (l : List α) : (unescape hole l).length ≤ l.length := by
  induction l with
  | nil => exact Nat.le_refl 0
  | cons c l ih =>
      unfold unescape
      split
      · exact ih.trans (Nat.le_succ _)
      · simpa using ih

theorem mem_of_mem_unescape {hole x : α} (h : x ∈ unescape hole l) : x ∈ l := by
  induction l with
  | nil => exact h
  | cons c l ih =>
      unfold unescape at h
      split at h
      · exact List.mem_cons_of_mem c (ih h)
      · rcases List.mem_cons.mp h with rfl | h
        · exact List.mem_cons_self
        · exact List.mem_cons_of_mem c (ih h)

theorem unescape_eq_self_iff {hole : α} (h : l.head? ≠ some hole) :
    unescape hole l = l ↔ hole ∉ l := by
  induction l with
  | nil => simp [unescape]
  | cons c l ih =>
      have hc : ¬hole = c := by simpa [eq_comm] using h
      unfold unescape
      split
      · rename_i hhead
        have hmem : hole ∈ l := List.mem_of_mem_head? hhead
        have hlength := length_unescape_le hole l
        constructor
        · intro heq
          rw [heq, List.length_cons] at hlength
          omega
        · intro hnot
          exact absurd (List.mem_cons_of_mem c hmem) hnot
      · rename_i hhead
        simp [ih hhead, hc]

/-- Symbols that no hole follows stay. -/
theorem unescape_append {hole c : α} {s r : List α} (h : hole ∉ (s ++ [c]).tail) :
    unescape hole (s ++ c :: r) = s ++ unescape hole (c :: r) := by
  induction s with
  | nil => rfl
  | cons x s ih =>
      have hrest : hole ∉ s ++ [c] := h
      have hhead : (s ++ c :: r).head? ≠ some hole := by
        intro heq
        apply hrest
        cases s with
        | nil => simpa [eq_comm] using heq
        | cons y s => simp [show y = hole by simpa using heq]
      have htail : hole ∉ (s ++ [c]).tail := fun hmem => hrest (List.mem_of_mem_tail hmem)
      rw [List.cons_append, unescape, if_neg hhead, ih htail]
      rfl

end Madlib.Lib.Template
