import Mathlib

/-!
# Best paths through a trellis

Running maxima and the table of best scores built from them, with back-pointers.  The maxima start
at zero, so the table also holds the scores of paths that begin at a later token.  A path that
scores more than all of these is traced back from the beginning.
-/

namespace Madlib.Lib.BestPath

/-! ## Running maxima -/

section Maximum

variable {α : Type} [LinearOrder α]

/-- The largest of a number to start with and `n` values, with the first index it has. -/
def runningMax (f : ℕ → α) (start : α × ℕ) (n : ℕ) : α × ℕ :=
  (List.range n).foldl (fun best i => if best.1 < f i then (f i, i) else best) start

/-- One of the values has replaced the number to start with. -/
structure Replaced (f : ℕ → α) (start : α) (n : ℕ) (result : α × ℕ) : Prop where
  lt : start < result.1
  index_lt : result.2 < n
  value : f result.2 = result.1
  first : ∀ i < result.2, f i < result.1

structure IsRunningMax (f : ℕ → α) (start : α × ℕ) (n : ℕ) (result : α × ℕ) : Prop where
  start_le : start.1 ≤ result.1
  le : ∀ i < n, f i ≤ result.1
  attained : result = start ∨ Replaced f start.1 n result

theorem runningMax_succ (f : ℕ → α) (start : α × ℕ) (n : ℕ) :
    runningMax f start (n + 1) =
      if (runningMax f start n).1 < f n then (f n, n) else runningMax f start n := by
  unfold runningMax
  rw [List.range_succ, List.foldl_append]
  rfl

theorem runningMax_spec (f : ℕ → α) (start : α × ℕ) (n : ℕ) :
    IsRunningMax f start n (runningMax f start n) := by
  induction n with
  | zero =>
      constructor
      · exact le_refl _
      · intro i hi
        exact absurd hi (Nat.not_lt_zero i)
      · exact .inl rfl
  | succ n ih =>
      rw [runningMax_succ]
      by_cases hlt : (runningMax f start n).1 < f n
      · rw [if_pos hlt]
        constructor
        · exact ih.start_le.trans hlt.le
        · intro i hi
          rcases Nat.lt_succ_iff_lt_or_eq.mp hi with hold | hnew
          · exact (ih.le i hold).trans hlt.le
          · rw [hnew]
        · right
          constructor
          · exact ih.start_le.trans_lt hlt
          · exact Nat.lt_succ_self n
          · rfl
          · intro i hi
            exact (ih.le i hi).trans_lt hlt
      · rw [if_neg hlt]
        constructor
        · exact ih.start_le
        · intro i hi
          rcases Nat.lt_succ_iff_lt_or_eq.mp hi with hold | hnew
          · exact ih.le i hold
          · rw [hnew]
            exact not_lt.mp hlt
        · rcases ih.attained with hstart | hreplaced
          · exact .inl hstart
          · right
            exact { hreplaced with index_lt := Nat.lt_succ_of_lt hreplaced.index_lt }

theorem runningMax_congr {f g : ℕ → α} {start : α × ℕ} {n : ℕ} (h : ∀ i < n, f i = g i) :
    runningMax f start n = runningMax g start n := by
  induction n with
  | zero => rfl
  | succ n ih =>
      rw [runningMax_succ, runningMax_succ, ih fun i hi => h i (Nat.lt_succ_of_lt hi),
        h n (Nat.lt_succ_self n)]

end Maximum

/-! ## Paths -/

/-- The labels of a token, what a path gains by its first label, and by each later one. -/
structure Trellis (α : Type) where
  width : ℕ
  init : ℕ → α
  step : ℕ → ℕ → ℕ → α

section Paths

variable {α : Type} [AddCommGroup α] [LinearOrder α]

/-- The score of labels, the last one first, when the first of them is at token `s`. -/
def scoreFrom (T : Trellis α) (first : ℕ → α) (s : ℕ) : List ℕ → α
  | [] => 0
  | [label] => first label
  | label :: prev :: rest =>
      scoreFrom T first s (prev :: rest) + T.step (s + rest.length + 1) prev label

/-- The score of a path from the beginning. -/
def score (T : Trellis α) (labels : List ℕ) : α := scoreFrom T T.init 0 labels

/-- The score of a path that begins at token `s` with nothing. -/
def restartScore (T : Trellis α) (s : ℕ) (labels : List ℕ) : α := scoreFrom T (fun _ => 0) s labels

/-- The best score of a token and a label, and the label before. -/
def best (T : Trellis α) : ℕ → ℕ → α × ℕ
  | 0, label => (T.init label, 0)
  | t + 1, label =>
      runningMax (fun prev => (best T t prev).1 + T.step (t + 1) prev label) (0, 0) T.width

/-- The labels the back-pointers lead to, the last one first. -/
def trace (T : Trellis α) : ℕ → ℕ → List ℕ
  | 0, label => [label]
  | t + 1, label => label :: trace T t (best T (t + 1) label).2

/-- A path of labels that ends in this one. -/
structure EndsIn (T : Trellis α) (label : ℕ) (rest : List ℕ) : Prop where
  label_lt : label < T.width
  rest_lt : ∀ prev ∈ rest, prev < T.width

variable {T : Trellis α} {t label : ℕ} {rest : List ℕ}

omit [AddCommGroup α] [LinearOrder α] in
theorem EndsIn.cons {prev : ℕ} (h : EndsIn T prev rest) (hlabel : label < T.width) :
    EndsIn T label (prev :: rest) where
  label_lt := hlabel
  rest_lt := List.forall_mem_cons.mpr ⟨h.label_lt, h.rest_lt⟩

omit [AddCommGroup α] [LinearOrder α] in
theorem EndsIn.tail {prev : ℕ} (h : EndsIn T label (prev :: rest)) : EndsIn T prev rest where
  label_lt := h.rest_lt prev List.mem_cons_self
  rest_lt := fun p hp => h.rest_lt p (List.mem_cons_of_mem _ hp)

theorem best_succ (T : Trellis α) (t label : ℕ) :
    IsRunningMax (fun prev => (best T t prev).1 + T.step (t + 1) prev label) (0, 0) T.width
      (best T (t + 1) label) := runningMax_spec _ _ _

theorem trace_cons (T : Trellis α) (t label : ℕ) :
    ∃ rest, trace T t label = label :: rest ∧ rest.length = t := by
  induction t generalizing label with
  | zero => exact ⟨[], rfl, rfl⟩
  | succ t ih =>
      have ⟨rest, htrace, hlength⟩ := ih (best T (t + 1) label).2
      refine ⟨_, rfl, ?_⟩
      rw [htrace, List.length_cons, hlength]

theorem best_prev_lt (hlabel : label < T.width) : (best T t label).2 < T.width := by
  cases t with
  | zero => exact Nat.zero_lt_of_lt hlabel
  | succ t =>
      rcases (best_succ T t label).attained with hstart | hreplaced
      · rw [hstart]
        exact Nat.zero_lt_of_lt hlabel
      · exact hreplaced.index_lt

theorem trace_lt (hlabel : label < T.width) : ∀ prev ∈ trace T t label, prev < T.width := by
  induction t generalizing label with
  | zero =>
      intro prev hprev
      rw [List.mem_singleton.mp hprev]
      exact hlabel
  | succ t ih => exact List.forall_mem_cons.mpr ⟨hlabel, ih (best_prev_lt hlabel)⟩

/-! ## The best scores -/

/-- The table is above all paths that begin below it. -/
theorem scoreFrom_le_best [IsOrderedAddMonoid α] {first : ℕ → α} {s : ℕ}
    (hfirst : ∀ l < T.width, first l ≤ (best T s l).1) (h : EndsIn T label rest) :
    scoreFrom T first s (label :: rest) ≤ (best T (s + rest.length) label).1 := by
  induction rest generalizing label with
  | nil => exact hfirst label h.label_lt
  | cons prev rest ih =>
      calc scoreFrom T first s (label :: prev :: rest)
          = scoreFrom T first s (prev :: rest) + T.step (s + rest.length + 1) prev label := rfl
        _ ≤ (best T (s + rest.length) prev).1 + T.step (s + rest.length + 1) prev label :=
            add_le_add_left (ih h.tail) _
        _ ≤ (best T (s + rest.length + 1) label).1 :=
            (best_succ T (s + rest.length) label).le prev h.tail.label_lt

theorem score_le_best [IsOrderedAddMonoid α] (h : EndsIn T label rest) :
    score T (label :: rest) ≤ (best T rest.length label).1 := by
  have hinit : ∀ l < T.width, T.init l ≤ (best T 0 l).1 := fun _ _ => le_refl _
  have hle := scoreFrom_le_best hinit h
  rw [Nat.zero_add] at hle
  exact hle

/-- A best score is that of a path which begins at a later token, with nothing. -/
def Restarts (T : Trellis α) (t label : ℕ) (value : α) : Prop :=
  ∃ s rest, 1 ≤ s ∧ s + rest.length = t ∧ EndsIn T label rest ∧
    restartScore T s (label :: rest) = value

omit [LinearOrder α] in
/-- Another token -/
theorem Restarts.step {prev : ℕ} {value : α} (h : Restarts T t prev value)
    (hlabel : label < T.width) :
    Restarts T (t + 1) label (value + T.step (t + 1) prev label) := by
  have ⟨s, rest, hs, hlength, hends, hscore⟩ := h
  refine ⟨s, prev :: rest, hs, ?_, hends.cons hlabel, ?_⟩
  · rw [List.length_cons, ← Nat.add_assoc, hlength]
  · rw [← hscore, ← hlength]
    rfl

omit [LinearOrder α] in
theorem score_step {prev : ℕ} (hlength : rest.length = t) :
    score T (label :: prev :: rest) = score T (prev :: rest) + T.step (t + 1) prev label := by
  rw [← hlength, ← Nat.zero_add rest.length]
  rfl

/-- The labels traced back have the best score, unless a path beginning later has it. -/
theorem trace_attains (hlabel : label < T.width) :
    score T (trace T t label) = (best T t label).1 ∨ Restarts T t label (best T t label).1 := by
  induction t generalizing label with
  | zero => exact .inl rfl
  | succ t ih =>
      rcases (best_succ T t label).attained with hstart | hreplaced
      · right
        rw [hstart]
        exact ⟨t + 1, [], Nat.le_add_left 1 t, rfl, ⟨hlabel, nofun⟩, rfl⟩
      · rw [← hreplaced.value]
        rcases ih hreplaced.index_lt with htrace | hrestart
        · left
          have ⟨rest, hrest, hlength⟩ := trace_cons T t (best T (t + 1) label).2
          rw [← htrace, hrest]
          change score T (label :: trace T t (best T (t + 1) label).2) = _
          rw [hrest, score_step hlength]
        · right
          exact hrestart.step hlabel

theorem best_attained (hlabel : label < T.width) :
    (∃ rest, EndsIn T label rest ∧ rest.length = t ∧ score T (label :: rest) = (best T t label).1) ∨
      Restarts T t label (best T t label).1 := by
  rcases trace_attains (t := t) hlabel with htrace | hrestart
  · left
    have ⟨rest, hrest, hlength⟩ := trace_cons T t label
    have hlt := trace_lt (t := t) hlabel
    rw [hrest] at htrace hlt
    exact ⟨rest, ⟨hlabel, fun p hp => hlt p (List.mem_cons_of_mem _ hp)⟩, hlength, htrace⟩
  · exact .inr hrestart

/-- A path that scores more than all that begin later: the labels traced back from the best last
label are a best path. -/
theorem trace_optimal [IsOrderedAddMonoid α] {last : ℕ} (ht : 1 ≤ t)
    (h : EndsIn T last rest) (hlength : rest.length = t)
    (hbeats : ∀ label value, Restarts T t label value → value < score T (last :: rest))
    (label' : ℕ) (rest' : List ℕ) (h' : EndsIn T label' rest') (hlength' : rest'.length = t) :
    score T (label' :: rest') ≤
      score T (trace T t (runningMax (fun l => (best T t l).1) (0, 0) T.width).2) := by
  have hspec := runningMax_spec (fun l => (best T t l).1) (0, 0) T.width
  generalize runningMax (fun l => (best T t l).1) (0, 0) T.width = top at hspec
  have habove : ∀ {l r}, EndsIn T l r → r.length = t → score T (l :: r) ≤ top.1 := by
    intro l r hends hlen
    have hle := score_le_best hends
    rw [hlen] at hle
    exact hle.trans (hspec.le l hends.label_lt)
  have hpositive : 0 < score T (last :: rest) :=
    hbeats last 0 ⟨t, [], ht, rfl, ⟨h.label_lt, nofun⟩, rfl⟩
  rcases hspec.attained with hstart | hreplaced
  · have hle := habove h hlength
    rw [hstart] at hle
    exact absurd hpositive (not_lt.mpr hle)
  · rcases trace_attains (t := t) hreplaced.index_lt with htrace | hrestart
    · rw [htrace, hreplaced.value]
      exact habove h' hlength'
    · rw [hreplaced.value] at hrestart
      exact absurd (habove h hlength) (not_le.mpr (hbeats _ _ hrestart))

/-! ## Where no maximum stays at zero -/

/-- From the second to token `n`, every label can be reached with a score above zero. -/
def Positive (T : Trellis α) (n : ℕ) : Prop :=
  ∀ t, 1 ≤ t → t ≤ n → ∀ label < T.width, 0 < (best T t label).1

theorem exists_path_of_positive {n : ℕ} (h : Positive T n) (ht : t ≤ n) (hlabel : label < T.width) :
    ∃ rest, EndsIn T label rest ∧ rest.length = t ∧
      score T (label :: rest) = (best T t label).1 := by
  induction t generalizing label with
  | zero => exact ⟨[], ⟨hlabel, nofun⟩, rfl, rfl⟩
  | succ t ih =>
      rcases (best_succ T t label).attained with hstart | hreplaced
      · have hpositive := h (t + 1) (Nat.le_add_left 1 t) ht label hlabel
        rw [hstart] at hpositive
        exact absurd hpositive (lt_irrefl 0)
      · have ⟨rest, hends, hlength, hscore⟩ := ih (Nat.le_of_succ_le ht) hreplaced.index_lt
        refine ⟨_, hends.cons hlabel, by rw [List.length_cons, hlength], ?_⟩
        rw [score_step hlength, hscore, ← hreplaced.value]

theorem restarts_lt_of_positive [IsOrderedAddMonoid α] {n : ℕ} {value : α}
    (h : Positive T n) (ht : t ≤ n) (hrestart : Restarts T t label value) :
    ∃ rest, EndsIn T label rest ∧ rest.length = t ∧ value < score T (label :: rest) := by
  have ⟨s, tail, hs, hlength, hends, hvalue⟩ := hrestart
  clear hrestart
  induction tail generalizing t label value with
  | nil =>
      have ⟨rest, hrest, hpath, hscore⟩ := exists_path_of_positive h ht hends.label_lt
      refine ⟨rest, hrest, hpath, ?_⟩
      rw [← hvalue, hscore]
      exact h t (by rw [← hlength]; exact hs) ht label hends.label_lt
  | cons prev tail ih =>
      rw [List.length_cons] at hlength
      have ⟨rest, hrest, hpath, hlt⟩ := ih (t := s + tail.length) (by omega) rfl hends.tail rfl
      refine ⟨prev :: rest, hrest.cons hends.label_lt, by rw [List.length_cons]; omega, ?_⟩
      rw [← hvalue, score_step hpath]
      exact add_lt_add_left hlt _

/-- Then a best path scores more than all that begin later. -/
theorem exists_beats_of_positive [IsOrderedAddMonoid α] (h : Positive T t) (ht : 1 ≤ t)
    (hwidth : 0 < T.width) :
    ∃ last rest, EndsIn T last rest ∧ rest.length = t ∧
      ∀ label value, Restarts T t label value → value < score T (last :: rest) := by
  have hspec := runningMax_spec (fun l => (best T t l).1) (0, 0) T.width
  generalize runningMax (fun l => (best T t l).1) (0, 0) T.width = top at hspec
  rcases hspec.attained with hstart | hreplaced
  · have hle := hspec.le 0 hwidth
    rw [hstart] at hle
    exact absurd (h t ht (le_refl t) 0 hwidth) (not_lt.mpr hle)
  · have ⟨rest, hends, hlength, hscore⟩ :=
      exists_path_of_positive h (le_refl t) hreplaced.index_lt
    refine ⟨top.2, rest, hends, hlength, ?_⟩
    intro label value hrestart
    have ⟨rest', hends', hlength', hlt⟩ := restarts_lt_of_positive h (le_refl t) hrestart
    have hle := score_le_best hends'
    rw [hlength'] at hle
    rw [hscore, hreplaced.value]
    exact hlt.trans_le (hle.trans (hspec.le label hends'.label_lt))

end Paths

end Madlib.Lib.BestPath
