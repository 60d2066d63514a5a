import Mathlib

/-!
# Levels through two tables that take turns

The rows of a level are inserted into one table, from the rows of the level before in the other.
Rows that are done are moved to a table of results.  The levels end early when no row is left.
-/

namespace Madlib.Lib.LevelTables

variable {ρ σ κ : Type}

structure Tables (ρ σ : Type) where
  current : List ρ
  other : List ρ
  result : List σ

def Tables.move (out : ρ → σ) (t : Tables ρ σ) (gone : ρ → Bool) : Tables ρ σ where
  current := t.current.filter fun row => !gone row
  other := t.other
  result := t.result ++ (t.current.filter gone).map out

/-- A level into the other table; the rows that are done are moved condition by condition. -/
def Tables.round (out : ρ → σ) (insert : List ρ → List ρ) (gone : List (ρ → Bool))
    (t : Tables ρ σ) : Tables ρ σ :=
  gone.foldl (Tables.move out) ⟨insert t.current, t.current, t.result⟩

def Tables.run (out : ρ → σ) (insert : ℕ → List ρ → List ρ) (gone : List (ρ → Bool)) :
    List ℕ → Tables ρ σ → Tables ρ σ
  | [], t => t
  | level :: levels, t =>
      if t.current.isEmpty then ⟨[], t.current, t.result⟩
      else Tables.run out insert gone levels (t.round out (insert level) gone)

/-- One of the conditions holds. -/
def Done (gone : List (ρ → Bool)) (row : ρ) : Prop := ∃ g ∈ gone, g row = true

/-! ## Moving rows -/

section Move

variable {out : ρ → σ} {gone : List (ρ → Bool)} {t : Tables ρ σ} {row : ρ}

theorem other_moves : (gone.foldl (Tables.move out) t).other = t.other := by
  induction gone generalizing t with
  | nil => rfl
  | cons g gone ih =>
      rw [List.foldl_cons, ih]
      rfl

theorem mem_current_moves :
    row ∈ (gone.foldl (Tables.move out) t).current ↔ row ∈ t.current ∧ ¬Done gone row := by
  induction gone generalizing t with
  | nil => simp [Done]
  | cons g gone ih =>
      rw [List.foldl_cons, ih]
      simp [Tables.move, Done, and_assoc]

theorem mem_result_moves {row : σ} : row ∈ (gone.foldl (Tables.move out) t).result ↔
    row ∈ t.result ∨ ∃ x ∈ t.current, Done gone x ∧ row = out x := by
  induction gone generalizing t with
  | nil => simp [Done]
  | cons g gone ih =>
      rw [List.foldl_cons, ih]
      have hsplit : ∀ x ∈ t.current,
          Done (g :: gone) x ↔ g x = true ∨ g x = false ∧ Done gone x := by
        intro x _
        cases hg : g x <;> simp [Done, hg]
      constructor
      · rintro (hrow | ⟨x, hx, hdone, rfl⟩)
        · rcases List.mem_append.mp hrow with hrow | hrow
          · exact .inl hrow
          · obtain ⟨x, hx, rfl⟩ := List.mem_map.mp hrow
            obtain ⟨hx, hg⟩ := List.mem_filter.mp hx
            exact .inr ⟨x, hx, (hsplit x hx).mpr (.inl hg), rfl⟩
        · obtain ⟨hx, hg⟩ := List.mem_filter.mp hx
          exact .inr ⟨x, hx, (hsplit x hx).mpr (.inr ⟨by simpa using hg, hdone⟩), rfl⟩
      · rintro (hrow | ⟨x, hx, hdone, rfl⟩)
        · exact .inl (List.mem_append_left _ hrow)
        · rcases (hsplit x hx).mp hdone with hg | ⟨hg, hdone⟩
          · exact .inl (List.mem_append_right _
              (List.mem_map_of_mem (List.mem_filter.mpr ⟨hx, hg⟩)))
          · exact .inr ⟨x, List.mem_filter.mpr ⟨hx, by simpa using hg⟩, hdone, rfl⟩

/-- No row is lost or doubled. -/
theorem moves_perm {key : ρ → κ} {key' : σ → κ} (hkey : ∀ x, key' (out x) = key x) :
    ((gone.foldl (Tables.move out) t).result.map key' ++
      (gone.foldl (Tables.move out) t).current.map key).Perm
      (t.result.map key' ++ t.current.map key) := by
  induction gone generalizing t with
  | nil => rfl
  | cons g gone ih =>
      rw [List.foldl_cons]
      refine ih.trans ?_
      have hout : ∀ rows : List ρ, (rows.map out).map key' = rows.map key := by
        intro rows
        rw [List.map_map]
        exact List.map_congr_left fun x _ => hkey x
      show (((t.result ++ (t.current.filter g).map out).map key') ++
        (t.current.filter fun row => !g row).map key).Perm _
      rw [List.map_append, List.append_assoc, hout, ← List.map_append]
      exact ((List.filter_append_perm g t.current).map key).append_left _

end Move

/-! ## The levels -/

/-- `S k` are the rows of level `k`, those that are done included. -/
structure Inserts (S : ℕ → ρ → Prop) (insert : ℕ → List ρ → List ρ) (gone : List (ρ → Bool))
    (key : ρ → κ) : Prop where
  mem : ∀ k source, (∀ row, row ∈ source ↔ S k row ∧ ¬Done gone row) →
    ∀ row, row ∈ insert (k + 1) source ↔ S (k + 1) row
  keys : ∀ k source, ((insert k source).map key).Sublist (source.map key)

section Levels

variable {S : ℕ → ρ → Prop} {out : ρ → σ} {insert : ℕ → List ρ → List ρ}
  {gone : List (ρ → Bool)} {key : ρ → κ} {key' : σ → κ}

/-- Behind a level without rows there are none. -/
theorem Inserts.empty (h : Inserts S insert gone key) {k : ℕ}
    (hempty : ∀ row, ¬(S k row ∧ ¬Done gone row)) {level : ℕ} (hlevel : k < level) (row : ρ) :
    ¬S level row := by
  have hnext : ∀ k, (∀ row, ¬(S k row ∧ ¬Done gone row)) → ∀ row, ¬S (k + 1) row := by
    intro k hempty row hrow
    have hmem : row ∈ insert (k + 1) [] :=
      (h.mem k [] (fun other => by simp [hempty other]) row).mpr hrow
    have hnil : insert (k + 1) [] = [] := by simpa using h.keys (k + 1) []
    rw [hnil] at hmem
    exact absurd hmem List.not_mem_nil
  induction level, hlevel using Nat.le_induction generalizing row with
  | base => exact hnext k hempty row
  | succ level _ ih => exact hnext level (fun other hother => ih other hother.1) row

/-- What is known of the tables behind level `k`. -/
structure Behind (S : ℕ → ρ → Prop) (gone : List (ρ → Bool)) (key : ρ → κ) (key' : σ → κ) (k : ℕ)
    (t : Tables ρ σ) : Prop where
  current : ∀ row, row ∈ t.current ↔ S k row ∧ ¬Done gone row
  nodup : (t.result.map key' ++ t.current.map key).Nodup

theorem Behind.round (h : Inserts S insert gone key) (hkey : ∀ x, key' (out x) = key x) {k : ℕ}
    {t : Tables ρ σ} (ht : Behind S gone key key' k t) :
    Behind S gone key key' (k + 1) (t.round out (insert (k + 1)) gone) where
  current row := by
    rw [Tables.round, mem_current_moves]
    exact and_congr_left fun _ => h.mem k t.current ht.current row
  nodup := by
    rw [Tables.round, (moves_perm hkey).nodup_iff]
    exact ((h.keys (k + 1) t.current).append_left _).nodup ht.nodup

/-- The result has the rows that are done on their level; the tables have rows that are not. -/
structure Ran (S : ℕ → ρ → Prop) (out : ρ → σ) (gone : List (ρ → Bool)) (key' : σ → κ) (lo hi : ℕ)
    (t t' : Tables ρ σ) : Prop where
  result : ∀ row, row ∈ t'.result ↔ row ∈ t.result ∨
    ∃ level x, lo < level ∧ level ≤ hi ∧ S level x ∧ Done gone x ∧ row = out x
  nodup : (t'.result.map key').Nodup
  current : ∀ row ∈ t'.current, ∃ level, S level row ∧ ¬Done gone row
  other : ∀ row ∈ t'.other, row ∈ t.other ∨ ∃ level, S level row ∧ ¬Done gone row

theorem run_levels (h : Inserts S insert gone key) (out : ρ → σ)
    (hkey : ∀ x, key' (out x) = key x) (n : ℕ) {k : ℕ} {t : Tables ρ σ}
    (ht : Behind S gone key key' k t) :
    Ran S out gone key' k (k + n) t (t.run out insert gone (List.range' (k + 1) n)) := by
  induction n generalizing k t with
  | zero =>
      refine ⟨fun row => ?_, ht.nodup.of_append_left, fun row hrow => ⟨k, (ht.current row).mp hrow⟩,
        fun row hrow => .inl hrow⟩
      refine ⟨.inl, fun hrow => hrow.resolve_right ?_⟩
      rintro ⟨level, x, hlo, hhi, -⟩
      omega
  | succ n ih =>
      rw [List.range'_succ, Tables.run]
      by_cases hcurrent : t.current = []
      · rw [hcurrent, List.isEmpty_nil, if_pos rfl]
        have hempty : ∀ row, ¬(S k row ∧ ¬Done gone row) := by
          intro row hrow
          rw [← ht.current row, hcurrent] at hrow
          exact absurd hrow List.not_mem_nil
        refine ⟨fun row => ?_, ht.nodup.of_append_left,
          fun row hrow => absurd hrow List.not_mem_nil,
          fun row hrow => absurd hrow List.not_mem_nil⟩
        refine ⟨.inl, fun hrow => hrow.resolve_right ?_⟩
        rintro ⟨level, x, hlo, -, hx, -⟩
        exact h.empty hempty hlo x hx
      · rw [if_neg (by simpa using hcurrent)]
        obtain ⟨hresult, hnodup, hleft, hother⟩ := ih (ht.round h hkey)
        refine ⟨fun row => ?_, hnodup, hleft, fun row hrow => ?_⟩
        · rw [hresult row, Tables.round, mem_result_moves]
          constructor
          · rintro ((hrow | ⟨x, hx, hdone, rfl⟩) | ⟨level, x, hlo, hhi, hx⟩)
            · exact .inl hrow
            · have hx := (h.mem k t.current ht.current x).mp hx
              exact .inr ⟨k + 1, x, by omega, by omega, hx, hdone, rfl⟩
            · exact .inr ⟨level, x, by omega, by omega, hx⟩
          · rintro (hrow | ⟨level, x, hlo, hhi, hx, hdone, rfl⟩)
            · exact .inl (.inl hrow)
            · rcases Nat.eq_or_lt_of_le hlo with rfl | hlt
              · have hx := (h.mem k t.current ht.current x).mpr hx
                exact .inl (.inr ⟨x, hx, hdone, rfl⟩)
              · exact .inr ⟨level, x, hlt, by omega, hx, hdone, rfl⟩
        · refine .inr ((hother row hrow).elim (fun hrow => ⟨k, ?_⟩) id)
          rw [Tables.round, other_moves] at hrow
          exact (ht.current row).mp hrow

end Levels

end Madlib.Lib.LevelTables
