import Madlib.Backend
import Madlib.Lib.MachineInt
import Madlib.Lib.BestPath

/-!
# The best label sequence

`vcrf_top1_label` fills a table of scores token by token, with the best label before each, and
traces the labels back from the best one of the last token.
-/

namespace Madlib.TextfexViterbi

open Madlib.Backend Madlib.Lib.MachineInt Madlib.Lib.BestPath

/-! ## The function -/

/-- `(int)(log(exp(d/1000.0) + 1)*1000.0 + 0.5)` and `(int)(exp(d/1000.0)*1000000)` -/
structure Rounded where
  logTerm : Int → Int
  probability : Int → Int

/-- An element of `curr_top1_array`, of `curr_norm_array` and of `path` -/
structure Cell where
  top1 : Int
  norm : Int
  path : Nat

/-- The arrays after a token, and the rows of `path` from its own to that of the second token. -/
structure Table where
  curr : List Cell
  path : List (List Nat)

section Function

variable (rounded : Rounded) (m r : List Int) (nlabel doclen : Nat)

def startFeature (label : Nat) : Int := m.getD label 0

def edgeFeature (prevlabel currlabel : Nat) : Int := m.getD ((prevlabel + 1) * nlabel + currlabel) 0

def endFeature (currlabel : Nat) : Int := m.getD ((nlabel + 1) * nlabel + currlabel) 0

def stateFeature (startPos label : Nat) : Int := r.getD (startPos * nlabel + label) 0

/-- What a label before adds up to. The end feature is fired for the last token. -/
def newScore (startPos currlabel prevlabel : Nat) (prev : Int) : Int :=
  let score := toInt32 (prev + stateFeature r nlabel startPos currlabel +
    edgeFeature m nlabel prevlabel currlabel)
  if startPos = doclen - 1 then toInt32 (score + endFeature m nlabel currlabel) else score

/-- `z=min(x,y) + log(exp(abs(x-y))+1)` -/
def logAdd (x y : Int) : Int :=
  toInt32 (min x y + rounded.logTerm (toInt32 |toInt32 (y - x)|))

/-- One round of the loop over `prevlabel` -/
def relax (startPos currlabel : Nat) (prev : List Cell) (cell : Cell) (prevlabel : Nat) : Cell :=
  let prevCell := prev.getD prevlabel ⟨0, 0, 0⟩
  let top1NewScore := newScore m r nlabel doclen startPos currlabel prevlabel prevCell.top1
  let normNewScore := newScore m r nlabel doclen startPos currlabel prevlabel prevCell.norm
  { top1 := if cell.top1 < top1NewScore then top1NewScore else cell.top1
    path := if cell.top1 < top1NewScore then prevlabel else cell.path
    norm := if cell.norm = 0 then normNewScore else logAdd rounded cell.norm normNewScore }

/-- The first token in a sentence, the start feature to be fired. -/
def firstRow : List Cell :=
  (List.range nlabel).map fun label =>
    let score := toInt32 (stateFeature r nlabel 0 label + startFeature m label)
    ⟨score, score, 0⟩

def nextRow (startPos : Nat) (prev : List Cell) : List Cell :=
  (List.range nlabel).map fun currlabel =>
    (List.range nlabel).foldl (relax rounded m r nlabel doclen startPos currlabel prev) ⟨0, 0, 0⟩

/-- The loop over `start_pos` -/
def fill : Nat → Table
  | 0 => ⟨firstRow m r nlabel, []⟩
  | startPos + 1 =>
      let table := fill startPos
      let curr := nextRow rounded m r nlabel doclen (startPos + 1) table.curr
      ⟨curr, curr.map Cell.path :: table.path⟩

/-- Trace back to get the labels for the rest tokens in a sentence. -/
def traceBack : List (List Nat) → Nat → List Nat → List Nat
  | [], _, labels => labels
  | row :: rows, top1label, labels =>
      let top1label := row.getD top1label 0
      traceBack rows top1label (top1label :: labels)

def normFactor : List Cell → Int
  | [] => 0
  | cell :: cells => cells.foldl (fun factor cell => logAdd rounded cell.norm factor) cell.norm

/-- `maxscore` and `top1label` -/
def topLabel (curr : List Cell) : Int × Nat :=
  (List.range nlabel).foldl (fun best label =>
    let score := (curr.getD label ⟨0, 0, 0⟩).top1
    if best.1 < score then (score, label) else best) (0, 0)

end Function

/-- `vcrf_top1_label` for arrays without NULLs. A single token reads the start row only. -/
def vcrfTop1Label (rounded : Rounded) (m r : List Int) (nlabel : Nat) : Except Fault (List Int) :=
  let doclen := r.length / nlabel
  let rows := if doclen = 1 then 1 else nlabel + 2
  if doclen = 0 ∨ m.length < rows * nlabel then .error .outOfBounds
  else
    let table := fill rounded m r nlabel doclen (doclen - 1)
    let (maxscore, top1label) := topLabel nlabel table.curr
    let labels := traceBack table.path top1label [top1label]
    .ok (labels.map (fun (label : Nat) => (label : Int)) ++
      [rounded.probability (toInt32 (maxscore - normFactor rounded table.curr))])

/-! ## Scores of label sequences -/

section Scores

variable (m r : List Int) (nlabel doclen : Nat)

/-- The start feature, the features of all tokens and those of consecutive labels. -/
def pathScore (labels : List Nat) : Int :=
  startFeature m (labels.headD 0) + (labels.mapIdx (stateFeature r nlabel)).sum +
    (List.zipWith (edgeFeature m nlabel) labels labels.tail).sum

/-- The score of a whole document -/
def labelScore (labels : List Nat) : Int :=
  pathScore m r nlabel labels + endFeature m nlabel (labels.getLastD 0)

structure IsLabelSequence (labels : List Nat) : Prop where
  length_eq : labels.length = doclen
  label_lt : ∀ label ∈ labels, label < nlabel

structure IsBest (labels : List Nat) : Prop where
  isLabelSequence : IsLabelSequence nlabel doclen labels
  le : ∀ other, IsLabelSequence nlabel doclen other →
    labelScore m r nlabel other ≤ labelScore m r nlabel labels

/-- The tokens as a trellis -/
def trellis : Trellis Int where
  width := nlabel
  init label := stateFeature r nlabel 0 label + startFeature m label
  step startPos prevlabel currlabel :=
    stateFeature r nlabel startPos currlabel + edgeFeature m nlabel prevlabel currlabel +
      if startPos = doclen - 1 then endFeature m nlabel currlabel else 0

theorem labelScore_reverse (label : Nat) (rest : List Nat) :
    labelScore m r nlabel (label :: rest).reverse =
      pathScore m r nlabel (label :: rest).reverse + endFeature m nlabel label := by
  unfold labelScore
  rw [List.reverse_cons, List.getLastD_concat]

theorem zipWith_tail_append {α β : Type} (f : α → α → β) (xs : List α) (p l : α) :
    List.zipWith f (xs ++ [p] ++ [l]) (xs ++ [p] ++ [l]).tail =
      List.zipWith f (xs ++ [p]) (xs ++ [p]).tail ++ [f p l] := by
  induction xs with
  | nil => rfl
  | cons x xs ih =>
      cases xs with
      | nil => rfl
      | cons y xs => exact congrArg (f x y :: ·) ih

/-- Another token adds its own features and those of the last two labels. -/
theorem pathScore_append (labels : List Nat) (prev label : Nat) :
    pathScore m r nlabel (labels ++ [prev] ++ [label]) =
      pathScore m r nlabel (labels ++ [prev]) + (stateFeature r nlabel (labels.length + 1) label +
        edgeFeature m nlabel prev label) := by
  have hhead : (labels ++ [prev] ++ [label]).headD 0 = (labels ++ [prev]).headD 0 := by
    cases labels <;> rfl
  unfold pathScore
  rw [hhead, zipWith_tail_append, List.mapIdx_append, List.sum_append, List.sum_append]
  simp only [List.mapIdx_cons, List.mapIdx_nil, List.sum_cons, List.sum_nil, List.length_append,
    List.length_singleton]
  ring_nf

/-- The scores of the trellis are those of the sequences read forwards, with the end feature for
all tokens of two or more. -/
theorem score_trellis (rest : List Nat) (label : Nat) (hlength : rest.length + 1 ≤ doclen) :
    score (trellis m r nlabel doclen) (label :: rest) =
      pathScore m r nlabel (label :: rest).reverse +
        if rest.length + 1 = doclen ∧ 1 < doclen then endFeature m nlabel label else 0 := by
  induction rest generalizing label with
  | nil =>
      have hsingle : ¬(([] : List Nat).length + 1 = doclen ∧ 1 < doclen) := by
        rw [List.length_nil]
        omega
      rw [if_neg hsingle]
      simp [score, scoreFrom, pathScore, trellis, add_comm]
  | cons prev rest ih =>
      rw [List.length_cons] at hlength
      have hmiddle : ¬(rest.length + 1 = doclen ∧ 1 < doclen) := by omega
      have hlast : (rest.length + 1 = doclen - 1) =
          ((prev :: rest).length + 1 = doclen ∧ 1 < doclen) := by
        rw [List.length_cons]
        exact propext (by omega)
      have hreverse : (label :: prev :: rest).reverse = rest.reverse ++ [prev] ++ [label] := by
        rw [List.reverse_cons, List.reverse_cons]
      rw [score_step rfl, ih prev (by omega), if_neg hmiddle, add_zero, hreverse, pathScore_append,
        List.length_reverse, List.reverse_cons]
      unfold trellis
      dsimp only
      simp only [hlast]
      ring

end Scores

/-! ## The table -/

section Filling

variable {rounded : Rounded} {m r : List Int} {nlabel doclen : Nat}

/-- An `int` -/
def InInt (x : Int) : Prop := -2147483648 ≤ x ∧ x < 2147483648

instance (x : Int) : Decidable (InInt x) := inferInstanceAs (Decidable (_ ∧ _))

theorem InInt.toInt32_eq {x : Int} (h : InInt x) : toInt32 x = x := toInt32_of_mem h.1 h.2

/-- The scores of all beginnings of label sequences, without and with the end feature. -/
def PathsFit (m r : List Int) (nlabel doclen : Nat) : Prop :=
  ∀ labels, labels ≠ [] → labels.length ≤ doclen → (∀ label ∈ labels, label < nlabel) →
    InInt (pathScore m r nlabel labels) ∧
      (labels.length = doclen → InInt (labelScore m r nlabel labels))

/-- The scores of all paths that begin at a later token with nothing are not too large. -/
def RestartsFit (m r : List Int) (nlabel doclen : Nat) : Prop :=
  ∀ t < doclen, ∀ label value, Restarts (trellis m r nlabel doclen) t label value →
    value < 2147483648

theorem score_fits (h : PathsFit m r nlabel doclen) {label : Nat} {rest : List Nat}
    (hlength : rest.length + 1 ≤ doclen) (hends : EndsIn (trellis m r nlabel doclen) label rest) :
    InInt (score (trellis m r nlabel doclen) (label :: rest)) := by
  have hlt : ∀ l ∈ (label :: rest).reverse, l < nlabel := by
    intro l hl
    rcases List.mem_cons.mp (List.mem_reverse.mp hl) with hlabel | hrest
    · rw [hlabel]
      exact hends.label_lt
    · exact hends.rest_lt l hrest
  have ⟨hpath, hwhole⟩ := h (label :: rest).reverse (by simp)
    (by rw [List.length_reverse, List.length_cons]; exact hlength) hlt
  rw [score_trellis m r nlabel doclen rest label hlength]
  by_cases hlast : rest.length + 1 = doclen ∧ 1 < doclen
  · rw [if_pos hlast]
    have hscore := hwhole (by rw [List.length_reverse, List.length_cons]; exact hlast.1)
    rwa [labelScore_reverse] at hscore
  · rw [if_neg hlast, add_zero]
    exact hpath

/-- What is added up for a cell is not below the score of a path through it. -/
theorem candidate_ge (h : PathsFit m r nlabel doclen) {t label prev : Nat} (ht : t + 1 < doclen)
    (hlabel : label < nlabel) (hprev : prev < nlabel) :
    -2147483648 ≤ (best (trellis m r nlabel doclen) t prev).1 +
      (trellis m r nlabel doclen).step (t + 1) prev label := by
  have hlength : (List.replicate t prev).length = t := List.length_replicate
  have hends : EndsIn (trellis m r nlabel doclen) prev (List.replicate t prev) := by
    refine ⟨hprev, fun p hp => ?_⟩
    rw [List.eq_of_mem_replicate hp]
    exact hprev
  have hle := score_le_best hends
  rw [hlength] at hle
  calc -2147483648
      ≤ score (trellis m r nlabel doclen) (label :: prev :: List.replicate t prev) :=
        (score_fits h (by rw [List.length_cons, hlength]; omega) (hends.cons hlabel)).1
    _ = score (trellis m r nlabel doclen) (prev :: List.replicate t prev) +
          (trellis m r nlabel doclen).step (t + 1) prev label := score_step hlength
    _ ≤ _ := by omega

/-- Whatever is added up for a cell is a score of the trellis. -/
theorem newScore_eq (hpaths : PathsFit m r nlabel doclen)
    (hrestarts : RestartsFit m r nlabel doclen) {t label prev : Nat} (ht : t + 1 < doclen) (hlabel : label < nlabel) (hprev : prev < nlabel) :
    newScore m r nlabel doclen (t + 1) label prev (best (trellis m r nlabel doclen) t prev).1 =
      (best (trellis m r nlabel doclen) t prev).1 +
        (trellis m r nlabel doclen).step (t + 1) prev label := by
  have hfits : InInt ((best (trellis m r nlabel doclen) t prev).1 +
      (trellis m r nlabel doclen).step (t + 1) prev label) := by
    rcases best_attained (T := trellis m r nlabel doclen) (t := t) hprev with hpath | hrestart
    · have ⟨rest, hends, hlength, hscore⟩ := hpath
      rw [← hscore, ← score_step hlength]
      exact score_fits hpaths (by rw [List.length_cons]; omega) (hends.cons hlabel)
    · exact ⟨candidate_ge hpaths ht hlabel hprev,
        hrestarts (t + 1) ht label _ (hrestart.step hlabel)⟩
  unfold newScore
  dsimp only
  rw [← hfits.toInt32_eq]
  unfold trellis
  dsimp only
  split_ifs
  · rw [toInt32_toInt32_add]
    congr 1
    ring
  · congr 1
    ring

theorem getD_map_range {α : Type} (f : Nat → α) (d : α) {n i : Nat} (h : i < n) :
    ((List.range n).map f).getD i d = f i := by
  rw [List.getD_eq_getElem?_getD, List.getElem?_map, List.getElem?_range h]
  rfl

/-- The score and the back-pointer of a cell are a running maximum. -/
theorem foldl_relax (startPos label n : Nat) (prev : List Cell) (cell : Cell) :
    let result := (List.range n).foldl (relax rounded m r nlabel doclen startPos label prev) cell
    (result.top1, result.path) =
      runningMax (fun prevlabel => newScore m r nlabel doclen startPos label prevlabel
        (prev.getD prevlabel ⟨0, 0, 0⟩).top1) (cell.top1, cell.path) n := by
  induction n with
  | zero => rfl
  | succ n ih =>
      dsimp only at ih ⊢
      rw [runningMax_succ, ← ih, List.range_succ, List.foldl_append, List.foldl_cons,
        List.foldl_nil]
      generalize (List.range n).foldl (relax rounded m r nlabel doclen startPos label prev) cell =
        result
      unfold relax
      dsimp only
      split_ifs <;> rfl

/-- The table after token `t`: best scores, and back-pointers that trace the same labels. -/
structure Filled (m r : List Int) (nlabel doclen t : Nat) (table : Table) : Prop where
  top1 : ∀ label < nlabel, (table.curr.getD label ⟨0, 0, 0⟩).top1 =
    (best (trellis m r nlabel doclen) t label).1
  path : ∀ label < nlabel, ∀ labels, traceBack table.path label labels =
    (trace (trellis m r nlabel doclen) t label).tail.reverse ++ labels

theorem fill_zero (hpaths : PathsFit m r nlabel doclen) (hdoc : 1 ≤ doclen) :
    Filled m r nlabel doclen 0 (fill rounded m r nlabel doclen 0) := by
  constructor
  · intro label hlabel
    have hends : EndsIn (trellis m r nlabel doclen) label [] := ⟨hlabel, nofun⟩
    have hlength : ([] : List Nat).length + 1 ≤ doclen := hdoc
    have hfits := score_fits hpaths hlength hends
    unfold fill firstRow
    rw [getD_map_range _ _ hlabel]
    exact hfits.toInt32_eq
  · intro label _ labels
    rfl

theorem fill_succ (hpaths : PathsFit m r nlabel doclen) (hrestarts : RestartsFit m r nlabel doclen)
    {t : Nat} (ht : t + 1 < doclen)
    (h : Filled m r nlabel doclen t (fill rounded m r nlabel doclen t)) :
    Filled m r nlabel doclen (t + 1) (fill rounded m r nlabel doclen (t + 1)) := by
  have hrow : ∀ label < nlabel,
      let cell := (fill rounded m r nlabel doclen (t + 1)).curr.getD label ⟨0, 0, 0⟩
      (cell.top1, cell.path) = best (trellis m r nlabel doclen) (t + 1) label := by
    intro label hlabel
    unfold fill nextRow
    dsimp only
    rw [getD_map_range _ _ hlabel, foldl_relax]
    apply runningMax_congr
    intro prev hprev
    rw [h.top1 prev hprev]
    exact newScore_eq hpaths hrestarts ht hlabel hprev
  constructor
  · intro label hlabel
    exact congrArg Prod.fst (hrow label hlabel)
  · intro label hlabel labels
    have hback : ((fill rounded m r nlabel doclen (t + 1)).curr.map Cell.path).getD label 0 =
        (best (trellis m r nlabel doclen) (t + 1) label).2 := by
      rw [← hrow label hlabel]
      exact List.getD_map _ (⟨0, 0, 0⟩ : Cell) Cell.path
    have hlt : (best (trellis m r nlabel doclen) (t + 1) label).2 < nlabel :=
      best_prev_lt (T := trellis m r nlabel doclen) hlabel
    have ⟨rest, htrace, _⟩ := trace_cons (trellis m r nlabel doclen) t
      (best (trellis m r nlabel doclen) (t + 1) label).2
    calc traceBack (fill rounded m r nlabel doclen (t + 1)).path label labels
        = traceBack (fill rounded m r nlabel doclen t).path
            (best (trellis m r nlabel doclen) (t + 1) label).2
            ((best (trellis m r nlabel doclen) (t + 1) label).2 :: labels) := by
          rw [← hback]
          rfl
      _ = (trace (trellis m r nlabel doclen) t
            (best (trellis m r nlabel doclen) (t + 1) label).2).reverse ++ labels := by
          rw [h.path _ hlt, htrace, List.reverse_cons, List.tail_cons, List.append_assoc]
          rfl
      _ = (trace (trellis m r nlabel doclen) (t + 1) label).tail.reverse ++ labels := rfl

theorem fill_spec (hpaths : PathsFit m r nlabel doclen) (hrestarts : RestartsFit m r nlabel doclen)
    {t : Nat} (ht : t < doclen) :
    Filled m r nlabel doclen t (fill rounded m r nlabel doclen t) := by
  induction t with
  | zero => exact fill_zero hpaths ht
  | succ t ih => exact fill_succ hpaths hrestarts ht (ih (Nat.lt_of_succ_lt ht))

/-- The last label the code traces back from -/
def lastLabel (m r : List Int) (nlabel doclen : Nat) : Nat :=
  (runningMax (fun label => (best (trellis m r nlabel doclen) (doclen - 1) label).1) (0, 0)
    nlabel).2

theorem lastLabel_lt (hn : 1 ≤ nlabel) : lastLabel m r nlabel doclen < nlabel := by
  unfold lastLabel
  rcases (runningMax_spec (fun label => (best (trellis m r nlabel doclen) (doclen - 1) label).1)
    (0, 0) nlabel).attained with hstart | hreplaced
  · rw [hstart]
    exact hn
  · exact hreplaced.index_lt

/-- The function returns the labels traced back in the trellis. -/
theorem vcrfTop1Label_eq (rounded : Rounded) (hn : 1 ≤ nlabel) (hdoc : 1 ≤ doclen)
    (hm : m.length = (nlabel + 2) * nlabel) (hr : r.length = doclen * nlabel)
    (hpaths : PathsFit m r nlabel doclen) (hrestarts : RestartsFit m r nlabel doclen) :
    ∃ conditional, vcrfTop1Label rounded m r nlabel =
      .ok ((trace (trellis m r nlabel doclen) (doclen - 1)
        (lastLabel m r nlabel doclen)).reverse.map (fun (label : Nat) => (label : Int)) ++
          [conditional]) := by
  have hfilled : Filled m r nlabel doclen (doclen - 1)
      (fill rounded m r nlabel doclen (doclen - 1)) :=
    fill_spec hpaths hrestarts (Nat.sub_lt hdoc Nat.one_pos)
  have hdoclen : r.length / nlabel = doclen := by
    rw [hr, Nat.mul_div_cancel _ hn]
  have hrows : (if doclen = 1 then 1 else nlabel + 2) * nlabel ≤ m.length := by
    rw [hm]
    apply Nat.mul_le_mul_right
    split_ifs <;> omega
  have htop : topLabel nlabel (fill rounded m r nlabel doclen (doclen - 1)).curr =
      runningMax (fun label => (best (trellis m r nlabel doclen) (doclen - 1) label).1) (0, 0)
        nlabel := runningMax_congr fun label hlabel => hfilled.top1 label hlabel
  have ⟨rest, htrace, _⟩ := trace_cons (trellis m r nlabel doclen) (doclen - 1)
    (lastLabel m r nlabel doclen)
  have hlabels := hfilled.path (lastLabel m r nlabel doclen) (lastLabel_lt hn)
    [lastLabel m r nlabel doclen]
  rw [htrace, List.tail_cons, ← List.reverse_cons, ← htrace] at hlabels
  unfold vcrfTop1Label
  rw [hdoclen]
  dsimp only
  rw [if_neg (by omega), htop]
  change ∃ conditional, Except.ok ((traceBack _ (lastLabel m r nlabel doclen)
    [lastLabel m r nlabel doclen]).map _ ++ _) = _
  rw [hlabels]
  exact ⟨_, rfl⟩

end Filling

/-! ## Which label sequence is returned -/

section Returned

variable (rounded : Rounded) (m r : List Int) (nlabel doclen : Nat)

/-- The labels returned are a best label sequence. -/
def ReturnsBest : Prop :=
  ∃ labels conditional,
    vcrfTop1Label rounded m r nlabel =
      .ok (labels.map (fun (label : Nat) => (label : Int)) ++ [conditional]) ∧
    IsBest m r nlabel doclen labels

/-- Some label sequence scores more than every path does that begins at a later token with
nothing, so more than zero. -/
def Beats : Prop :=
  ∃ labels, IsLabelSequence nlabel doclen labels ∧
    ∀ label value, Restarts (trellis m r nlabel doclen) (doclen - 1) label value →
      value < labelScore m r nlabel labels

/-- The first label with the largest value above zero, or label zero if there is none. -/
def FirstBest (f : Nat → Int) (n label : Nat) : Prop :=
  (label = 0 ∧ ∀ other < n, f other ≤ 0) ∨
    (label < n ∧ 0 < f label ∧ (∀ other < n, f other ≤ f label) ∧
      ∀ other < label, f other < f label)

theorem firstBest_iff {f : Nat → Int} {n label : Nat} :
    FirstBest f n label ↔ label = (runningMax f (0, 0) n).2 := by
  have hspec := runningMax_spec f (0, 0) n
  generalize runningMax f (0, 0) n = top at hspec
  unfold FirstBest
  constructor
  · rintro (⟨hlabel, hnone⟩ | ⟨hlt, hpositive, habove, hfirst⟩)
    · rcases hspec.attained with hstart | hreplaced
      · rw [hlabel, hstart]
      · have hle := hnone top.2 hreplaced.index_lt
        rw [hreplaced.value] at hle
        exact absurd hreplaced.lt (not_lt.mpr hle)
    · have hle := hspec.le label hlt
      rcases hspec.attained with hstart | hreplaced
      · rw [hstart] at hle
        exact absurd hpositive (not_lt.mpr hle)
      · have habove' := habove top.2 hreplaced.index_lt
        rcases lt_trichotomy label top.2 with hbefore | hequal | hafter
        · have hlower := hreplaced.first label hbefore
          rw [← hreplaced.value] at hlower
          omega
        · exact hequal
        · have hlower := hfirst top.2 hafter
          rw [hreplaced.value] at hlower
          omega
  · intro hlabel
    rcases hspec.attained with hstart | hreplaced
    · left
      rw [hstart] at hlabel hspec
      exact ⟨hlabel, hspec.le⟩
    · right
      rw [hlabel, hreplaced.value]
      exact ⟨hreplaced.index_lt, hreplaced.lt, hspec.le, hreplaced.first⟩

variable {rounded m r nlabel doclen}

theorem returnsBest_iff {labels : List Nat} {conditional : Int}
    (h : vcrfTop1Label rounded m r nlabel =
      .ok (labels.map (fun (label : Nat) => (label : Int)) ++ [conditional])) :
    ReturnsBest rounded m r nlabel doclen ↔ IsBest m r nlabel doclen labels := by
  constructor
  · intro ⟨labels', conditional', hreturn, hbest⟩
    have hsame := Except.ok.inj (h.symm.trans hreturn)
    have hlabels := List.append_inj_left' hsame rfl
    rw [List.map_injective_iff.mpr Nat.cast_injective hlabels]
    exact hbest
  · intro hbest
    exact ⟨labels, conditional, h, hbest⟩

theorem labelScore_eq_score (hdoc : 2 ≤ doclen) {label : Nat} {rest : List Nat}
    (hlength : rest.length + 1 = doclen) :
    labelScore m r nlabel (label :: rest).reverse =
      score (trellis m r nlabel doclen) (label :: rest) := by
  rw [score_trellis m r nlabel doclen rest label hlength.le, if_pos ⟨hlength, hdoc⟩,
    labelScore_reverse]

/-- A label sequence read backwards -/
theorem IsLabelSequence.reverse {labels : List Nat} (h : IsLabelSequence nlabel doclen labels)
    (hdoc : 1 ≤ doclen) : ∃ label rest, labels = (label :: rest).reverse ∧
      rest.length + 1 = doclen ∧ EndsIn (trellis m r nlabel doclen) label rest := by
  cases hreverse : labels.reverse with
  | nil =>
      have hlength := h.length_eq
      rw [List.reverse_eq_nil_iff.mp hreverse, List.length_nil] at hlength
      omega
  | cons label rest =>
      have hlabels : labels = (label :: rest).reverse := by
        rw [← hreverse, List.reverse_reverse]
      have hlt : ∀ l ∈ label :: rest, l < nlabel := by
        intro l hl
        exact h.label_lt l (by rw [hlabels]; exact List.mem_reverse.mpr hl)
      refine ⟨label, rest, hlabels, ?_, ?_⟩
      · rw [← h.length_eq, hlabels, List.length_reverse, List.length_cons]
      · exact ⟨hlt label List.mem_cons_self, fun l hl => hlt l (List.mem_cons_of_mem _ hl)⟩

theorem trace_isLabelSequence (hn : 1 ≤ nlabel) (hdoc : 1 ≤ doclen) :
    IsLabelSequence nlabel doclen (trace (trellis m r nlabel doclen) (doclen - 1)
      (lastLabel m r nlabel doclen)).reverse := by
  have ⟨rest, htrace, hlength⟩ := trace_cons (trellis m r nlabel doclen) (doclen - 1)
    (lastLabel m r nlabel doclen)
  have hlast : lastLabel m r nlabel doclen < (trellis m r nlabel doclen).width := lastLabel_lt hn
  have hlt := trace_lt (t := doclen - 1) hlast
  constructor
  · rw [htrace, List.length_reverse, List.length_cons, hlength]
    omega
  · intro label hlabel
    exact hlt label (List.mem_reverse.mp hlabel)

theorem trace_isBest (hn : 1 ≤ nlabel) (hdoc : 2 ≤ doclen) (h : Beats m r nlabel doclen) :
    IsBest m r nlabel doclen (trace (trellis m r nlabel doclen) (doclen - 1)
      (lastLabel m r nlabel doclen)).reverse := by
  have ⟨labels, hlabels, hbeats⟩ := h
  have ⟨label, rest, hreverse, hlength, hends⟩ := hlabels.reverse (m := m) (r := r) (by omega)
  rw [hreverse, labelScore_eq_score hdoc hlength] at hbeats
  have ⟨rest', htrace, hlength'⟩ := trace_cons (trellis m r nlabel doclen) (doclen - 1)
    (lastLabel m r nlabel doclen)
  constructor
  · exact trace_isLabelSequence hn (by omega)
  · intro other hother
    have ⟨l, tail, hl, hltail, hlends⟩ := hother.reverse (m := m) (r := r) (by omega)
    have hoptimal := trace_optimal (t := doclen - 1) (by omega) hends (by omega) hbeats l tail
      hlends (by omega)
    rw [hl, labelScore_eq_score hdoc hltail, htrace,
      labelScore_eq_score hdoc (by omega), ← htrace]
    exact hoptimal

theorem not_restarts_zero {label : Nat} {value : Int} :
    ¬Restarts (trellis m r nlabel doclen) 0 label value := by
  intro ⟨s, rest, hs, hlength, _⟩
  omega

theorem isBest_singleton {label : Nat} (hlabel : label < nlabel) :
    IsBest m r nlabel 1 [label] ↔
      ∀ other < nlabel, labelScore m r nlabel [other] ≤ labelScore m r nlabel [label] := by
  constructor
  · intro hbest other hother
    exact hbest.le [other] ⟨rfl, by simpa using hother⟩
  · intro hle
    constructor
    · exact ⟨rfl, by simpa using hlabel⟩
    · intro other hother
      have ⟨l, hl⟩ := List.length_eq_one_iff.mp hother.length_eq
      rw [hl]
      exact hle l (hother.label_lt l (by rw [hl]; exact List.mem_cons_self))

/-- If every cell from the second token on finds a score above zero, then the scores of what begins
later are not too large, and a best label sequence scores more. -/
theorem restartsFit_of_positive (hpaths : PathsFit m r nlabel doclen)
    (h : Positive (trellis m r nlabel doclen) (doclen - 1)) : RestartsFit m r nlabel doclen := by
  intro t ht label value hrestart
  have ⟨rest, hends, hlength, hlt⟩ := restarts_lt_of_positive h (by omega) hrestart
  exact hlt.trans (score_fits hpaths (by omega) hends).2

theorem beats_of_positive (hn : 1 ≤ nlabel) (hdoc : 2 ≤ doclen)
    (h : Positive (trellis m r nlabel doclen) (doclen - 1)) : Beats m r nlabel doclen := by
  have ⟨label, rest, hends, hlength, hbeats⟩ := exists_beats_of_positive h (by omega) hn
  have hlt : ∀ l ∈ label :: rest, l < nlabel :=
    List.forall_mem_cons.mpr ⟨hends.label_lt, hends.rest_lt⟩
  refine ⟨(label :: rest).reverse, ⟨?_, fun l hl => hlt l (List.mem_reverse.mp hl)⟩, ?_⟩
  · rw [List.length_reverse, List.length_cons]
    omega
  · rw [labelScore_eq_score hdoc (by omega)]
    exact hbeats

/-- With a single label there is a single sequence. -/
theorem IsLabelSequence.isBest_of_one {labels : List Nat} (h : IsLabelSequence 1 doclen labels) :
    IsBest m r 1 doclen labels := by
  have hzero : ∀ other, IsLabelSequence 1 doclen other → other = List.replicate doclen 0 := by
    intro other hother
    apply List.eq_replicate_iff.mpr
    exact ⟨hother.length_eq, fun l hl => Nat.lt_one_iff.mp (hother.label_lt l hl)⟩
  constructor
  · exact h
  · intro other hother
    rw [hzero labels h, hzero other hother]

/-- A single token is labelled without the end feature, which it is scored with.  The labels of
two or more are a best sequence when the best score is above all that begin later, from zero. -/
theorem vcrfTop1Label_returnsBest (hn : 1 ≤ nlabel) (hdoc : 1 ≤ doclen)
    (hm : m.length = (nlabel + 2) * nlabel) (hr : r.length = doclen * nlabel)
    (hpaths : PathsFit m r nlabel doclen) :
    (doclen = 1 → (ReturnsBest rounded m r nlabel doclen ↔
      ∃ label,
        FirstBest (fun l => stateFeature r nlabel 0 l + startFeature m l) nlabel label ∧
        ∀ other < nlabel, labelScore m r nlabel [other] ≤ labelScore m r nlabel [label])) ∧
    (2 ≤ doclen → RestartsFit m r nlabel doclen → nlabel = 1 ∨ Beats m r nlabel doclen →
      ReturnsBest rounded m r nlabel doclen) := by
  constructor
  · intro hsingle
    subst hsingle
    have hrestarts : RestartsFit m r nlabel 1 := by
      intro t ht label value hrestart
      rw [Nat.lt_one_iff.mp ht] at hrestart
      exact absurd hrestart not_restarts_zero
    have ⟨conditional, hreturn⟩ := vcrfTop1Label_eq rounded hn hdoc hm hr hpaths
      hrestarts
    rw [returnsBest_iff hreturn]
    change IsBest m r nlabel 1 [lastLabel m r nlabel 1] ↔ _
    rw [isBest_singleton (lastLabel_lt hn)]
    simp only [firstBest_iff]
    exact (exists_eq_left (p := fun label =>
      ∀ other < nlabel, labelScore m r nlabel [other] ≤ labelScore m r nlabel [label])).symm
  · intro hmany hrestarts hbest
    have ⟨conditional, hreturn⟩ := vcrfTop1Label_eq rounded hn hdoc hm hr hpaths
      hrestarts
    rw [returnsBest_iff hreturn]
    rcases hbest with hone | hbeats
    · subst hone
      exact (trace_isLabelSequence hn hdoc).isBest_of_one
    · exact trace_isBest hn hmany hbeats

end Returned

/-! ## Two labels, two tokens -/

theorem pathsFit_two {m r : List Int} (hone : ∀ a < 2, InInt (pathScore m r 2 [a]))
    (htwo : ∀ a < 2, ∀ b < 2, InInt (pathScore m r 2 [a, b]) ∧ InInt (labelScore m r 2 [a, b])) :
    PathsFit m r 2 2 := by
  intro labels hne hlength hlt
  match labels with
  | [] => exact absurd rfl hne
  | [a] => exact ⟨hone a (hlt a (by simp)), fun h => by simp at h⟩
  | [a, b] =>
      have hboth := htwo a (hlt a (by simp)) b (hlt b (by simp))
      exact ⟨hboth.1, fun _ => hboth.2⟩
  | _ :: _ :: _ :: _ => simp at hlength

theorem restarts_two {m r : List Int} {t label : Nat} {value : Int} (ht : t < 2)
    (h : Restarts (trellis m r 2 2) t label value) : value = 0 := by
  have ⟨s, rest, hs, hlength, _, hvalue⟩ := h
  have hrest : rest = [] := List.eq_nil_of_length_eq_zero (by omega)
  rw [hrest] at hvalue
  exact hvalue.symm

/-- The rounded terms at the only arguments they have here. -/
def roundedTwo : Rounded where
  logTerm d := if d = 1 then 694 else 693
  probability d := if d = -1386 then 250073 else 0

theorem vcrfTop1Label_returnsBest_two :
    ReturnsBest roundedTwo (List.replicate 8 0) [1, 2, 3, 4] 2 2 := by
  have hpaths : PathsFit (List.replicate 8 0) [1, 2, 3, 4] 2 2 :=
    pathsFit_two (by decide) (by decide)
  have hbeats : Beats (List.replicate 8 0) [1, 2, 3, 4] 2 2 := by
    refine ⟨[1, 1], ⟨rfl, by decide⟩, ?_⟩
    intro label value hrestart
    rw [restarts_two (by decide) hrestart]
    decide
  have hrestarts : RestartsFit (List.replicate 8 0) [1, 2, 3, 4] 2 2 := by
    intro t ht label value hrestart
    rw [restarts_two ht hrestart]
    decide
  exact (vcrfTop1Label_returnsBest (by decide) (by decide) rfl rfl hpaths).2 (le_refl 2) hrestarts
    (.inr hbeats)

/-- Negative scores leave the table at zero. -/
theorem vcrfTop1Label_negative :
    PathsFit (List.replicate 8 0) [-5, -1, -5, -1] 2 2 ∧
      ∀ rounded, ¬ReturnsBest rounded (List.replicate 8 0) [-5, -1, -5, -1] 2 2 := by
  constructor
  · exact pathsFit_two (by decide) (by decide)
  · intro rounded
    have hreturn : ∃ conditional, vcrfTop1Label rounded (List.replicate 8 0) [-5, -1, -5, -1] 2 =
        .ok ([0, 0].map (fun (label : Nat) => (label : Int)) ++ [conditional]) := ⟨_, rfl⟩
    have ⟨conditional, hreturn⟩ := hreturn
    rw [returnsBest_iff hreturn]
    intro hbest
    have hle := hbest.le [1, 1] ⟨rfl, by decide⟩
    exact absurd hle (by decide)

end Madlib.TextfexViterbi
