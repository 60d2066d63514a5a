import Mathlib

/-!
# Run-length lists

A list with repetitions is kept as a list of run lengths beside a list of run
values.  `expand` gives the list meant; the lemmas below say how it splits, how
long it is, and how two lists cut into different runs are combined position by
position.
-/

namespace Madlib.Lib.RunLength

variable {α β γ : Type}

/-- The list described by the run lengths `runs` and the run values `vals`. -/
def expand (runs : List Nat) (vals : List α) : List α :=
  (List.zipWith List.replicate runs vals).flatten

@[simp] theorem expand_nil (vals : List α) : expand [] vals = [] := by
  simp [expand]

@[simp] theorem expand_cons (n : Nat) (runs : List Nat) (v : α) (vals : List α) :
    expand (n :: runs) (v :: vals) = List.replicate n v ++ expand runs vals := by
  simp [expand]

theorem expand_append {runs runs' : List Nat} {vals vals' : List α}
    (h : runs.length = vals.length) :
    expand (runs ++ runs') (vals ++ vals') = expand runs vals ++ expand runs' vals' := by
  simp [expand, List.zipWith_append h]

theorem reverse_expand {runs : List Nat} {vals : List α} (h : runs.length = vals.length) :
    (expand runs vals).reverse = expand runs.reverse vals.reverse := by
  induction runs generalizing vals with
  | nil => simp
  | cons n runs ih =>
      have ⟨v, rest, hvals⟩ := List.exists_of_length_succ vals h.symm
      have htail : runs.length = rest.length := by
        rw [hvals] at h
        simpa using h
      rw [hvals, expand_cons, List.reverse_append, ih htail, List.reverse_replicate,
        List.reverse_cons, List.reverse_cons, expand_append (by simpa using htail)]
      simp

@[simp] theorem expand_singleton (n : Nat) (v : α) : expand [n] [v] = List.replicate n v := by
  simp

theorem length_expand {runs : List Nat} {vals : List α} (h : runs.length = vals.length) :
    (expand runs vals).length = runs.sum := by
  induction runs generalizing vals with
  | nil => simp
  | cons n runs ih =>
      cases vals with
      | nil => simp at h
      | cons v vals =>
          have h' : runs.length = vals.length := by simpa using h
          simp [ih h']

theorem map_expand (f : α → β) (runs : List Nat) (vals : List α) :
    expand runs (vals.map f) = (expand runs vals).map f := by
  induction runs generalizing vals with
  | nil => simp
  | cons n runs ih =>
      cases vals with
      | nil => simp [expand]
      | cons v vals => simp [ih]

/-- Runs of length one are the values themselves. -/
theorem expand_replicate_one (vals : List α) :
    expand (List.replicate vals.length 1) vals = vals := by
  induction vals with
  | nil => simp
  | cons v vals ih => simp [List.replicate_succ, ih]

/-- Positive runs show their values. -/
theorem expand_vals_inj {runs : List Nat} {vals vals' : List α} (hpositive : ∀ n ∈ runs, 0 < n)
    (h : runs.length = vals.length) (h' : runs.length = vals'.length)
    (heq : expand runs vals = expand runs vals') : vals = vals' := by
  induction runs generalizing vals vals' with
  | nil =>
      rw [List.length_nil] at h h'
      rw [List.length_eq_zero_iff.mp h.symm, List.length_eq_zero_iff.mp h'.symm]
  | cons n runs ih =>
      have ⟨v, rest, hvals⟩ := List.exists_of_length_succ vals h.symm
      have ⟨v', rest', hvals'⟩ := List.exists_of_length_succ vals' h'.symm
      subst hvals hvals'
      have hn := hpositive n List.mem_cons_self
      rw [expand_cons, expand_cons] at heq
      have ⟨hhead, htail⟩ := List.append_inj heq (by simp)
      have hrest : rest = rest' := ih (fun m hm => hpositive m (List.mem_cons_of_mem n hm))
        (by simpa using h) (by simpa using h') htail
      rw [(List.replicate_right_inj hn.ne').mp hhead, hrest]

/-- Positive runs show every value. -/
theorem mem_expand {runs : List Nat} {vals : List α} (hpositive : ∀ n ∈ runs, 0 < n)
    (h : runs.length = vals.length) {v : α} (hv : v ∈ vals) : v ∈ expand runs vals := by
  induction runs generalizing vals with
  | nil =>
      rw [List.length_eq_zero_iff.mp h.symm] at hv
      exact absurd hv List.not_mem_nil
  | cons n runs ih =>
      have ⟨w, rest, hvals⟩ := List.exists_of_length_succ vals h.symm
      subst hvals
      have hn := hpositive n List.mem_cons_self
      rw [expand_cons, List.mem_append]
      rcases List.mem_cons.mp hv with rfl | hrest
      · exact .inl (List.mem_replicate.mpr ⟨hn.ne', rfl⟩)
      · exact .inr (ih (fun m hm => hpositive m (List.mem_cons_of_mem n hm)) (by simpa using h) hrest)

theorem length_le_sum {runs : List Nat} (h : ∀ n ∈ runs, 0 < n) : runs.length ≤ runs.sum := by
  induction runs with
  | nil => simp
  | cons n runs ih =>
      have hn := h n (by simp)
      have htail := ih (fun m hm => h m (by simp [hm]))
      simp only [List.length_cons, List.sum_cons]
      omega

/-- The first `m` positions of two lists whose heads are runs of at least `m`. -/
theorem zipWith_runs (f : α → β → γ) {m a b : Nat} (x : α) (y : β) (xs : List α) (ys : List β)
    (ha : m ≤ a) (hb : m ≤ b) :
    List.zipWith f (List.replicate a x ++ xs) (List.replicate b y ++ ys) =
      List.replicate m (f x y) ++
        List.zipWith f (List.replicate (a - m) x ++ xs) (List.replicate (b - m) y ++ ys) := by
  obtain ⟨a', rfl⟩ := Nat.exists_eq_add_of_le ha
  obtain ⟨b', rfl⟩ := Nat.exists_eq_add_of_le hb
  rw [List.replicate_add, List.replicate_add, List.append_assoc, List.append_assoc,
    List.zipWith_append (by simp), List.zipWith_replicate]
  simp

/-- Two lists whose heads are runs agree if the runs do on their first `m` positions and the
rest agrees. -/
theorem replicate_append_eq_iff {m a b : Nat} (x y : α) (xs ys : List α) (hm : 0 < m)
    (ha : m ≤ a) (hb : m ≤ b) :
    List.replicate a x ++ xs = List.replicate b y ++ ys ↔
      x = y ∧ List.replicate (a - m) x ++ xs = List.replicate (b - m) y ++ ys := by
  have hsplit : ∀ {n : Nat} (z : α) (zs : List α), m ≤ n →
      List.replicate n z ++ zs = List.replicate m z ++ (List.replicate (n - m) z ++ zs) := by
    intro n z zs hn
    rw [← List.append_assoc, ← List.replicate_add, Nat.add_sub_cancel' hn]
  rw [hsplit x xs ha, hsplit y ys hb]
  constructor
  · intro h
    have ⟨hhead, htail⟩ := List.append_inj h (by simp)
    exact ⟨(List.replicate_right_inj hm.ne').mp hhead, htail⟩
  · intro h
    rw [h.1, ← h.2, h.1]

theorem drop_replicate_append {k n : Nat} (x : α) (xs : List α) (h : k ≤ n) :
    (List.replicate n x ++ xs).drop k = List.replicate (n - k) x ++ xs := by
  rw [List.drop_append_of_le_length (by simpa using h), List.drop_replicate]

/-- A list without equal neighbours is continued by a value other than its last. -/
theorem isChain_append_pair {vals : List α} {last new : α}
    (h : (vals ++ [last]).IsChain (· ≠ ·)) (hne : last ≠ new) :
    ((vals ++ [last]) ++ [new]).IsChain (· ≠ ·) := by
  rw [List.isChain_append]
  refine ⟨h, List.isChain_singleton _, ?_⟩
  intro x hx y hy
  simp only [List.getLast?_append, List.getLast?_singleton, List.head?_cons,
    Option.mem_def, Option.some_or, Option.some.injEq] at hx hy
  subst hx hy
  exact hne

/-! ## Maximal runs -/

theorem exists_of_mem_zipWith_replicate {runs : List Nat} {vals xs : List α}
    (h : xs ∈ List.zipWith List.replicate runs vals) : ∃ n ∈ runs, ∃ v, xs = List.replicate n v := by
  rw [← List.map_uncurry_zip_eq_zipWith, List.mem_map] at h
  have ⟨⟨n, v⟩, hmem, hxs⟩ := h
  exact ⟨n, (List.of_mem_zip hmem).1, v, hxs.symm⟩

/-! ## Cutting runs -/

/-- The list described by runs that are paired with their values. -/
def flat (pairs : List (Nat × α)) : List α := expand (pairs.map Prod.fst) (pairs.map Prod.snd)

@[simp] theorem flat_nil : flat ([] : List (Nat × α)) = [] := expand_nil []

@[simp] theorem flat_cons (n : Nat) (v : α) (pairs : List (Nat × α)) :
    flat ((n, v) :: pairs) = List.replicate n v ++ flat pairs :=
  expand_cons n _ v _

theorem flat_append (pairs pairs' : List (Nat × α)) :
    flat (pairs ++ pairs') = flat pairs ++ flat pairs' := by
  unfold flat
  rw [List.map_append, List.map_append, expand_append (by simp)]

/-- The runs and the values of an array, paired. -/
theorem flat_zip {runs : List Nat} {vals : List α} (h : runs.length = vals.length) :
    flat (runs.zip vals) = expand runs vals := by
  unfold flat
  rw [List.map_fst_zip h.le, List.map_snd_zip h.ge]

theorem length_flat (pairs : List (Nat × α)) :
    (flat pairs).length = (pairs.map Prod.fst).sum :=
  length_expand (by simp)

/-- The runs of the first `k` elements. -/
def takeRuns : Nat → List (Nat × α) → List (Nat × α)
  | _, [] => []
  | k, (n, v) :: rest =>
      if k = 0 then [] else if k ≤ n then [(k, v)] else (n, v) :: takeRuns (k - n) rest

/-- The runs behind the first `k` elements. -/
def dropRuns : Nat → List (Nat × α) → List (Nat × α)
  | _, [] => []
  | k, (n, v) :: rest => if k < n then (n - k, v) :: rest else dropRuns (k - n) rest

theorem flat_takeRuns (k : Nat) (pairs : List (Nat × α)) :
    flat (takeRuns k pairs) = (flat pairs).take k := by
  induction pairs generalizing k with
  | nil => simp [takeRuns]
  | cons pair rest ih =>
      have hsplit : pair = (pair.1, pair.2) := rfl
      rw [hsplit, takeRuns, flat_cons, List.take_append, List.take_replicate,
        List.length_replicate]
      by_cases hzero : k = 0
      · rw [if_pos hzero, hzero, Nat.zero_min, Nat.zero_sub, List.take_zero]
        rfl
      · rw [if_neg hzero]
        by_cases hk : k ≤ pair.1
        · rw [if_pos hk, flat_cons, flat_nil, Nat.min_eq_left hk, Nat.sub_eq_zero_of_le hk,
            List.take_zero]
        · rw [if_neg hk, flat_cons, ih, Nat.min_eq_right (by omega)]

theorem flat_dropRuns (k : Nat) (pairs : List (Nat × α)) :
    flat (dropRuns k pairs) = (flat pairs).drop k := by
  induction pairs generalizing k with
  | nil => simp [dropRuns]
  | cons pair rest ih =>
      have hsplit : pair = (pair.1, pair.2) := rfl
      rw [hsplit, dropRuns, flat_cons, List.drop_append, List.drop_replicate,
        List.length_replicate]
      by_cases hk : k < pair.1
      · rw [if_pos hk, flat_cons, Nat.sub_eq_zero_of_le hk.le, List.drop_zero]
      · rw [if_neg hk, ih, Nat.sub_eq_zero_of_le (Nat.le_of_not_lt hk), List.replicate_zero,
          List.nil_append]

theorem takeRuns_zero (pairs : List (Nat × α)) : takeRuns 0 pairs = [] := by
  cases pairs with
  | nil => rfl
  | cons pair rest => simp [takeRuns]

variable [DecidableEq α]

/-- The lengths of the maximal runs of a list. -/
def runLens (xs : List α) : List Nat := (xs.splitBy (· == ·)).map List.length

theorem isChain_zipWith_replicate {runs : List Nat} {vals : List α}
    (hpositive : ∀ n ∈ runs, 0 < n) (hchain : vals.IsChain (· ≠ ·)) :
    (List.zipWith List.replicate runs vals).IsChain fun xs ys =>
      ∃ hx hy, (xs.getLast hx == ys.head hy) = false := by
  induction runs generalizing vals with
  | nil => simp
  | cons n runs ih =>
      cases vals with
      | nil => simp
      | cons v vals =>
          have htail := ih (fun m hm => hpositive m (List.mem_cons_of_mem n hm)) hchain.tail
          cases runs with
          | nil => simp
          | cons m runs =>
              cases vals with
              | nil => simp
              | cons w vals =>
                  have hn := hpositive n List.mem_cons_self
                  have hm := hpositive m (List.mem_cons_of_mem n List.mem_cons_self)
                  have hne : v ≠ w := (List.isChain_cons_cons.mp hchain).1
                  refine List.isChain_cons_cons.mpr ⟨⟨?_, ?_, ?_⟩, htail⟩
                  · simpa using hn.ne'
                  · simpa using hm.ne'
                  · simpa using hne

/-- Positive runs of values that change from one to the next are the maximal ones. -/
theorem runLens_expand {runs : List Nat} {vals : List α} (hpositive : ∀ n ∈ runs, 0 < n)
    (h : runs.length = vals.length) (hchain : vals.IsChain (· ≠ ·)) :
    runLens (expand runs vals) = runs := by
  have hnil : [] ∉ List.zipWith List.replicate runs vals := by
    intro hmem
    have ⟨n, hn, v, hzero⟩ := exists_of_mem_zipWith_replicate hmem
    have hpos := hpositive n hn
    rw [eq_comm, List.replicate_eq_nil_iff] at hzero
    omega
  have hruns : ∀ xs ∈ List.zipWith List.replicate runs vals, xs.IsChain fun x y => x == y := by
    intro xs hxs
    have ⟨n, _, v, hreplicate⟩ := exists_of_mem_zipWith_replicate hxs
    rw [hreplicate]
    exact List.isChain_replicate_of_rel n (by simp)
  rw [runLens, expand, List.splitBy_flatten hnil hruns (isChain_zipWith_replicate hpositive hchain),
    List.map_zipWith]
  simp only [List.length_replicate]
  rw [← List.map_uncurry_zip_eq_zipWith]
  exact List.map_fst_zip h.le

end Madlib.Lib.RunLength
