import Madlib.Lib.Call

/-!
# Calls that are recorded

The state of a call may be the list of what has been recorded so far.  A property of all records
is an invariant of such a call, and the rules for loops carry it through a program together with
what is known of the program's own data.
-/

namespace Madlib.Lib.Call

variable {σ ε κ κ' α β ρ : Type}

/-- One more record. -/
def record (k : κ) : Call (List κ) ε Unit := modify fun log => log ++ [k]

/-- The records of a call, with more said about each. -/
def tagged (tag : κ → κ') (c : Call (List κ) ε α) : Call (List κ') ε α := fun log =>
  ((c []).1, log ++ (c []).2.map tag)

/-- All records have the property. -/
def All (P : κ → Prop) (log : List κ) : Prop := ∀ k ∈ log, P k

theorem all_nil (P : κ → Prop) : All P [] := fun _ h => absurd h List.not_mem_nil

theorem keeps_record {P : κ → Prop} {k : κ} (h : P k) :
    Keeps (All P) (record k : Call (List κ) ε Unit) fun _ => True := by
  apply keeps_modify
  intro log hlog k' hk'
  rcases List.mem_append.mp hk' with hold | hnew
  · exact hlog k' hold
  · rw [List.mem_singleton.mp hnew]
    exact h

theorem keeps_tagged {P : κ' → Prop} {tag : κ → κ'} {c : Call (List κ) ε α} {post : α → Prop}
    (h : Keeps (All fun k => P (tag k)) c post) : Keeps (All P) (tagged tag c) post := by
  intro log hlog
  have ⟨hrecords, hpost⟩ := h [] (all_nil _)
  refine ⟨fun k hk => ?_, hpost⟩
  rcases List.mem_append.mp hk with hold | hnew
  · exact hlog k hold
  · obtain ⟨k', hk', rfl⟩ := List.mem_map.mp hnew
    exact hrecords k' hk'

/-! ## Loops -/

variable {I : σ → Prop}

theorem foldlM_nil (f : β → ρ → Call σ ε β) (b : β) : [].foldlM f b = pure b := rfl

theorem foldlM_cons (f : β → ρ → Call σ ε β) (b : β) (r : ρ) (rows : List ρ) :
    (r :: rows).foldlM f b = f b r >>= fun b' => rows.foldlM f b' := rfl

/-- A loop over rows, whose invariant knows the rows it has seen. -/
theorem keeps_foldlM_of_append (inv : List ρ → β → Prop) {f : β → ρ → Call σ ε β} {b : β}
    (seen rows : List ρ) (hb : inv seen b)
    (h : ∀ seen' r rest, seen ++ rows = seen' ++ r :: rest → ∀ b, inv seen' b →
      Keeps I (f b r) (inv (seen' ++ [r]))) :
    Keeps I (rows.foldlM f b) (inv (seen ++ rows)) := by
  induction rows generalizing seen b with
  | nil =>
      rw [foldlM_nil, List.append_nil]
      exact keeps_pure hb
  | cons r rows ih =>
      rw [foldlM_cons]
      apply (h seen r rows rfl b hb).bind
      intro b' hb'
      have hrest := ih (seen ++ [r]) hb'
      rw [List.append_assoc, List.singleton_append] at hrest
      exact hrest h

theorem keeps_foldlM (inv : List ρ → β → Prop) {f : β → ρ → Call σ ε β} {b : β} {rows : List ρ}
    (hb : inv [] b)
    (h : ∀ seen r rest, rows = seen ++ r :: rest → ∀ b, inv seen b →
      Keeps I (f b r) (inv (seen ++ [r]))) :
    Keeps I (rows.foldlM f b) (inv rows) :=
  keeps_foldlM_of_append inv [] rows hb h

/-- A loop over indices, whose invariant counts the rounds. -/
theorem keeps_foldlM_range (inv : ℕ → β → Prop) {f : β → ℕ → Call σ ε β} {b : β} {n : ℕ}
    (hb : inv 0 b) (h : ∀ i < n, ∀ b, inv i b → Keeps I (f b i) (inv (i + 1))) :
    Keeps I ((List.range n).foldlM f b) (inv n) := by
  have hloop : Keeps I ((List.range n).foldlM f b) (inv (List.range n).length) := by
    apply keeps_foldlM (fun seen b => inv seen.length b) hb
    intro seen i rest hrange b hb
    have hlen := congrArg List.length hrange
    rw [List.length_range, List.length_append, List.length_cons] at hlen
    have hi : i = seen.length := by
      have hget := congrArg (fun l => l[seen.length]?) hrange
      rw [List.getElem?_range (by omega), List.getElem?_append_right (le_refl _),
        Nat.sub_self] at hget
      exact (Option.some.inj hget).symm
    rw [List.length_append, List.length_singleton, hi]
    exact h seen.length (by omega) b hb
  rwa [List.length_range] at hloop

/-- What is returned for each row. -/
theorem keeps_mapM' {f : ρ → Call σ ε α} {R : ρ → α → Prop} {rows : List ρ}
    (h : ∀ r ∈ rows, Keeps I (f r) (R r)) : Keeps I (rows.mapM' f) (List.Forall₂ R rows) := by
  induction rows with
  | nil => exact keeps_pure .nil
  | cons r rows ih =>
      rw [List.mapM'_cons]
      apply (h r List.mem_cons_self).bind
      intro a ha
      apply (ih fun r' hr' => h r' (List.mem_cons_of_mem r hr')).bind
      intro rest hrest
      exact keeps_pure (.cons ha hrest)

theorem exists_row {R : ρ → α → Prop} {rows : List ρ} {results : List α}
    (h : List.Forall₂ R rows results) {a : α} (ha : a ∈ results) : ∃ r ∈ rows, R r a := by
  induction h with
  | nil => cases ha
  | @cons r b rows results hr _ ih =>
      rcases List.mem_cons.mp ha with rfl | hmem
      · exact ⟨r, List.mem_cons_self, hr⟩
      · obtain ⟨r', hr', hR⟩ := ih hmem
        exact ⟨r', List.mem_cons_of_mem r hr', hR⟩

end Madlib.Lib.Call
