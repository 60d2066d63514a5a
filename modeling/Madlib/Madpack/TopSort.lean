import Madlib.Lib.Loop
import Madlib.Lib.Levels

/-!
# Ordering modules by their dependencies

`configyml.topsort` peels a dictionary of dependency lists: in each round the keys
left without dependencies, and the dependencies that are not keys, get the current
level, and the latter are struck from the remaining lists.  A round that changes
nothing reports a cycle.
-/

namespace Madlib.Madpack

open Madlib.Lib.Loop Madlib.Lib.Levels

/-- An edge list dictionary: each key with the list of what it depends on. -/
abbrev DepDict (κ : Type) := AList fun _ : κ => List κ

abbrev DepEntry (κ : Type) := Sigma fun _ : κ => List κ

/-- The dictionary `out` of `topsort`. -/
abbrev LevelDict (κ : Type) := AList fun _ : κ => Nat

variable {κ : Type}

/-- The keys with no values. -/
def keynoval (depdict : DepDict κ) : List κ :=
  (depdict.entries.filter fun t => t.2 = []).map fun t => t.1

theorem mem_keynoval {depdict : DepDict κ} {k : κ} :
    k ∈ keynoval depdict ↔ (⟨k, []⟩ : DepEntry κ) ∈ depdict.entries := by
  simp only [keynoval, List.mem_map, List.mem_filter, decide_eq_true_eq]
  constructor
  · rintro ⟨⟨k', deps⟩, ⟨ht, hdeps⟩, hk⟩
    simp only at hdeps hk
    rw [← hk, ← hdeps]
    exact ht
  · intro h
    exact ⟨⟨k, []⟩, ⟨h, rfl⟩, rfl⟩

theorem mem_of_entry {depdict : DepDict κ} {k : κ} {deps : List κ}
    (h : (⟨k, deps⟩ : DepEntry κ) ∈ depdict.entries) : k ∈ depdict :=
  AList.mem_keys.mpr (List.mem_keys_of_mem h)

theorem entry_of_mem {depdict : DepDict κ} {k : κ} (h : k ∈ depdict) :
    ∃ deps, (⟨k, deps⟩ : DepEntry κ) ∈ depdict.entries :=
  List.exists_of_mem_keys (AList.mem_keys.mp h)

variable [DecidableEq κ]

def DependsOn (depdict : DepDict κ) (k v : κ) : Prop :=
  ∃ deps, depdict.lookup k = some deps ∧ v ∈ deps

/-- The dependency relation restricted to the keys. -/
def KeyDependsOn (depdict : DepDict κ) (k v : κ) : Prop :=
  DependsOn depdict k v ∧ v ∈ depdict

/-- The values that are not keys. -/
def valnotkey (depdict : DepDict κ) : List κ :=
  (depdict.entries.flatMap fun t => t.2).dedup.filter fun v => v ∉ depdict

def candidates (depdict : DepDict κ) : List κ := keynoval depdict ∪ valnotkey depdict

/-- One pass of `for c in candidates`, on `out` and `found`. -/
def assignLevel (curlevel : Nat) (s : LevelDict κ × Nat) (c : κ) : LevelDict κ × Nat :=
  if c ∈ s.1 then s else (s.1.insert c curlevel, s.2 + 1)

def assignLevels (curlevel : Nat) (out : LevelDict κ) (cs : List κ) : LevelDict κ × Nat :=
  cs.foldl (assignLevel curlevel) (out, 0)

/-- An entry of the next dictionary. -/
def strike (depdict : DepDict κ) (t : DepEntry κ) : DepEntry κ :=
  ⟨t.1, t.2.filter fun v => v ∉ valnotkey depdict⟩

def nextEntries (depdict : DepDict κ) : List (DepEntry κ) :=
  (depdict.entries.filter fun t => t.2 ≠ []).map (strike depdict)

theorem nodupKeys_nextEntries (depdict : DepDict κ) : (nextEntries depdict).NodupKeys := by
  have hkeys : (nextEntries depdict).keys =
      (depdict.entries.filter fun t => t.2 ≠ []).keys := by
    simp [nextEntries, List.keys, strike, Function.comp_def]
  rw [List.NodupKeys, hkeys]
  exact depdict.nodupKeys.sublist List.filter_sublist

def newdepdict (depdict : DepDict κ) : DepDict κ :=
  ⟨nextEntries depdict, nodupKeys_nextEntries depdict⟩

/-- The variables of `topsort` at the head of its loop. -/
structure TopsortState (κ : Type) where
  depdict : DepDict κ
  out : LevelDict κ
  curlevel : Nat

/-- The variables after a round that changes the dictionary. -/
def nextState (s : TopsortState κ) : TopsortState κ :=
  let assigned := assignLevels s.curlevel s.out (candidates s.depdict)
  ⟨newdepdict s.depdict, assigned.1, if assigned.2 > 0 then s.curlevel + 1 else s.curlevel⟩

def topsortRound (s : TopsortState κ) :
    Except (DepDict κ) (Step (TopsortState κ) (LevelDict κ)) :=
  if s.depdict.entries.length > 0 then
    -- two dictionaries are equal whatever the order of their entries
    if (newdepdict s.depdict).entries.Perm s.depdict.entries then .error s.depdict
    else .ok (.next (nextState s))
  else .ok (.done s.out)

def topsortStart (depdict : DepDict κ) : TopsortState κ := ⟨depdict, ∅, 0⟩

/-- `topsort`, given the number of rounds it may take; its error is a `MadPackConfigError`
with the text of the dictionary that no longer changes. -/
def topsort (fuel : Nat) (depdict : DepDict κ) : Option (Except (DepDict κ) (LevelDict κ)) :=
  run topsortRound fuel (topsortStart depdict)

/-! ## One round -/

theorem mem_valnotkey {depdict : DepDict κ} {v : κ} :
    v ∈ valnotkey depdict ↔ (∃ t ∈ depdict.entries, v ∈ t.2) ∧ v ∉ depdict := by
  simp [valnotkey]

theorem dependsOn_iff {depdict : DepDict κ} {k v : κ} : DependsOn depdict k v ↔
    ∃ deps, (⟨k, deps⟩ : DepEntry κ) ∈ depdict.entries ∧ v ∈ deps := by
  unfold DependsOn
  simp only [← AList.mem_lookup_iff, Option.mem_def]

theorem DependsOn.mem {depdict : DepDict κ} {k v : κ} (h : DependsOn depdict k v) :
    k ∈ depdict := by
  have ⟨deps, ht, _⟩ := dependsOn_iff.mp h
  exact mem_of_entry ht

theorem mem_newdepdict_entries {depdict : DepDict κ} {k : κ} {deps : List κ} :
    (⟨k, deps⟩ : DepEntry κ) ∈ (newdepdict depdict).entries ↔
      ∃ old, (⟨k, old⟩ : DepEntry κ) ∈ depdict.entries ∧ old ≠ [] ∧
        deps = old.filter fun v => v ∉ valnotkey depdict := by
  simp only [newdepdict, nextEntries, List.mem_map, List.mem_filter, decide_eq_true_eq, strike]
  constructor
  · rintro ⟨⟨k', old⟩, ⟨ht, hne⟩, heq⟩
    cases heq
    exact ⟨old, ht, hne, rfl⟩
  · rintro ⟨old, ht, hne, rfl⟩
    exact ⟨⟨k, old⟩, ⟨ht, hne⟩, rfl⟩

theorem foldl_assignLevel (curlevel : Nat) (cs : List κ) (s : LevelDict κ × Nat) (c : κ) :
    (cs.foldl (assignLevel curlevel) s).1.lookup c =
      if c ∈ cs ∧ c ∉ s.1 then some curlevel else s.1.lookup c := by
  induction cs generalizing s with
  | nil => simp
  | cons b cs ih =>
      rw [List.foldl_cons, ih]
      unfold assignLevel
      by_cases hb : b ∈ s.1
      · rw [if_pos hb]
        by_cases hc : c ∈ s.1
        · simp [hc]
        · have hne : c ≠ b := fun h => hc (h ▸ hb)
          simp [hc, hne]
      · rw [if_neg hb]
        by_cases hcb : c = b
        · subst hcb
          simp [hb]
        · simp [hcb, AList.lookup_insert_ne]

theorem lookup_assignLevels (curlevel : Nat) (out : LevelDict κ) (cs : List κ) (c : κ) :
    (assignLevels curlevel out cs).1.lookup c =
      if c ∈ cs ∧ c ∉ out then some curlevel else out.lookup c :=
  foldl_assignLevel curlevel cs (out, 0) c

theorem foldl_assignLevel_found (curlevel : Nat) (cs : List κ) (s : LevelDict κ × Nat) :
    s.2 ≤ (cs.foldl (assignLevel curlevel) s).2 ∧
      ((∃ c ∈ cs, c ∉ s.1) → s.2 < (cs.foldl (assignLevel curlevel) s).2) := by
  induction cs generalizing s with
  | nil => simp
  | cons b cs ih =>
      rw [List.foldl_cons]
      by_cases hb : b ∈ s.1
      · rw [show assignLevel curlevel s b = s from if_pos hb]
        refine ⟨(ih s).1, ?_⟩
        rintro ⟨c, hc, hout⟩
        rcases List.mem_cons.mp hc with rfl | hc
        · exact absurd hb hout
        · exact (ih s).2 ⟨c, hc, hout⟩
      · rw [show assignLevel curlevel s b = (s.1.insert b curlevel, s.2 + 1) from if_neg hb]
        have hle := (ih (s.1.insert b curlevel, s.2 + 1)).1
        simp only at hle
        exact ⟨by omega, fun _ => by omega⟩

theorem found_pos {curlevel : Nat} {out : LevelDict κ} {cs : List κ} {c : κ} (hc : c ∈ cs)
    (hout : c ∉ out) : 0 < (assignLevels curlevel out cs).2 :=
  (foldl_assignLevel_found curlevel cs (out, 0)).2 ⟨c, hc, hout⟩

/-! ## The rounds -/

/-- The work left: every entry, and every value it lists. -/
def remaining (depdict : DepDict κ) : Nat := (depdict.entries.map fun t => t.2.length + 1).sum

theorem strike_eq_or_length_lt (depdict : DepDict κ) (t : DepEntry κ) :
    strike depdict t = t ∨ (strike depdict t).2.length < t.2.length := by
  by_cases hkept : ∀ v ∈ t.2, v ∉ valnotkey depdict
  · left
    have hfilter : t.2.filter (fun v => v ∉ valnotkey depdict) = t.2 := by
      rw [List.filter_eq_self]
      exact fun v hv => decide_eq_true (hkept v hv)
    rw [strike, hfilter]
  · right
    push Not at hkept
    have ⟨v, hv, hstruck⟩ := hkept
    refine List.length_filter_lt_length_iff_exists.mpr ⟨v, hv, ?_⟩
    simpa using hstruck

/-- Dropping entries and striking values leaves less work, or changes nothing. -/
theorem sum_strike (depdict : DepDict κ) (entries : List (DepEntry κ)) :
    ((entries.filter fun t => t.2 ≠ []).map (strike depdict)) = entries ∨
      (((entries.filter fun t => t.2 ≠ []).map (strike depdict)).map fun t => t.2.length + 1).sum <
        (entries.map fun t => t.2.length + 1).sum := by
  induction entries with
  | nil => exact .inl rfl
  | cons t entries ih =>
      have hle : (((entries.filter fun t => t.2 ≠ []).map (strike depdict)).map
          fun t => t.2.length + 1).sum ≤ (entries.map fun t => t.2.length + 1).sum := by
        rcases ih with heq | hlt
        · rw [heq]
        · exact hlt.le
      by_cases ht : t.2 = []
      · right
        rw [List.filter_cons_of_neg (by simpa using ht), List.map_cons, List.sum_cons]
        omega
      · rw [List.filter_cons_of_pos (by simpa using ht), List.map_cons, List.map_cons,
          List.map_cons, List.sum_cons, List.sum_cons]
        rcases strike_eq_or_length_lt depdict t with heq | hlt
        · rcases ih with ih | ih
          · exact .inl (by rw [heq, ih])
          · right
            rw [heq]
            omega
        · right
          omega

theorem remaining_lt {depdict : DepDict κ}
    (h : ¬ (newdepdict depdict).entries.Perm depdict.entries) :
    remaining (newdepdict depdict) < remaining depdict := by
  rcases sum_strike depdict depdict.entries with heq | hlt
  · exact absurd (List.Perm.of_eq heq) h
  · exact hlt

/-- What the rounds keep, for a run started with the dictionary `full`. -/
structure Peeled (full : DepDict κ) (s : TopsortState κ) : Prop where
  below : ∀ c l, s.out.lookup c = some l → l < s.curlevel
  entries : ∀ k deps, (⟨k, deps⟩ : DepEntry κ) ∈ s.depdict.entries →
    ∃ fullDeps, (⟨k, fullDeps⟩ : DepEntry κ) ∈ full.entries ∧ deps ⊆ fullDeps ∧
      ∀ v ∈ fullDeps, v ∉ deps → v ∈ s.out
  covered : ∀ k ∈ full, k ∈ s.depdict ∨ k ∈ s.out
  pending : ∀ k ∈ s.depdict, k ∉ s.out
  lower : ∀ k v, DependsOn full k v → ∀ l, s.out.lookup k = some l →
    ∃ lv, s.out.lookup v = some lv ∧ lv < l
  known : ∀ c ∈ s.out, c ∈ full ∨ ∃ k, DependsOn full k c

theorem peeled_start (full : DepDict κ) : Peeled full (topsortStart full) where
  below := by simp [topsortStart]
  entries := fun k deps h => ⟨deps, h, List.Subset.refl _, fun v hv hn => absurd hv hn⟩
  covered := fun k hk => .inl hk
  pending := by simp [topsortStart]
  lower := by simp [topsortStart]
  known := by simp [topsortStart]

variable {full : DepDict κ} {s : TopsortState κ}

theorem lookup_nextState (s : TopsortState κ) (c : κ) : (nextState s).out.lookup c =
    if c ∈ candidates s.depdict ∧ c ∉ s.out then some s.curlevel else s.out.lookup c :=
  lookup_assignLevels _ _ _ _

theorem mem_nextState (s : TopsortState κ) (c : κ) :
    c ∈ (nextState s).out ↔ c ∈ candidates s.depdict ∨ c ∈ s.out := by
  rw [← AList.lookup_isSome, lookup_nextState]
  by_cases hout : c ∈ s.out
  · simp [hout, AList.lookup_isSome]
  · by_cases hc : c ∈ candidates s.depdict
    · simp [hc, hout]
    · simp [hc, hout, AList.lookup_isSome]

theorem mem_candidates {depdict : DepDict κ} {c : κ} :
    c ∈ candidates depdict ↔ c ∈ keynoval depdict ∨ c ∈ valnotkey depdict := by
  simp [candidates]

/-- A level the round already had, or the current one for a key whose dependencies all
have levels, or for a value that is not a key of the whole dictionary. -/
theorem Peeled.lookup_cases (h : Peeled full s) {c : κ} {l : Nat}
    (hc : (nextState s).out.lookup c = some l) :
    s.out.lookup c = some l ∨
      l = s.curlevel ∧ c ∉ s.out ∧ c ∈ candidates s.depdict ∧
        ∀ v, DependsOn full c v → v ∈ s.out := by
  rw [lookup_nextState] at hc
  by_cases hnew : c ∈ candidates s.depdict ∧ c ∉ s.out
  · rw [if_pos hnew] at hc
    refine .inr ⟨(Option.some.inj hc).symm, hnew.2, hnew.1, fun v hv => ?_⟩
    rcases mem_candidates.mp hnew.1 with hkey | hval
    · have ⟨fullDeps, hfull, _, hstruck⟩ := h.entries c [] (mem_keynoval.mp hkey)
      have ⟨deps, hdeps, hmem⟩ := dependsOn_iff.mp hv
      have hsame : deps = fullDeps :=
        Option.some.inj ((AList.mem_lookup_iff.mpr hdeps).symm.trans
          (AList.mem_lookup_iff.mpr hfull))
      exact hstruck v (hsame ▸ hmem) List.not_mem_nil
    · rcases h.covered c hv.mem with hkey | hout
      · exact absurd hkey (mem_valnotkey.mp hval).2
      · exact absurd hout hnew.2
  · rw [if_neg hnew] at hc
    exact .inl hc

theorem curlevel_le_nextState (s : TopsortState κ) : s.curlevel ≤ (nextState s).curlevel := by
  simp only [nextState]
  split <;> omega

theorem Peeled.next (h : Peeled full s) : Peeled full (nextState s) where
  below := by
    intro c l hc
    rcases h.lookup_cases hc with hold | ⟨rfl, hout, hcand, _⟩
    · exact (h.below c l hold).trans_le (curlevel_le_nextState s)
    · simp only [nextState]
      rw [if_pos (found_pos hcand hout)]
      omega
  entries := by
    intro k deps hnew
    have ⟨old, hold, _, hdeps⟩ := mem_newdepdict_entries.mp hnew
    have ⟨fullDeps, hfull, hsub, hstruck⟩ := h.entries k old hold
    refine ⟨fullDeps, hfull, fun v hv => ?_, fun v hv hn => ?_⟩
    · rw [hdeps] at hv
      exact hsub (List.mem_of_mem_filter hv)
    · rw [mem_nextState]
      by_cases hmem : v ∈ old
      · have hval : v ∈ valnotkey s.depdict := by
          by_contra hkey
          exact hn (hdeps ▸ List.mem_filter.mpr ⟨hmem, decide_eq_true hkey⟩)
        exact .inl (mem_candidates.mpr (.inr hval))
      · exact .inr (hstruck v hv hmem)
  covered := by
    intro k hk
    rw [mem_nextState]
    rcases h.covered k hk with hkey | hout
    · have ⟨deps, hdeps⟩ := entry_of_mem hkey
      by_cases hnil : deps = []
      · subst hnil
        exact .inr (.inl (mem_candidates.mpr (.inl (mem_keynoval.mpr hdeps))))
      · exact .inl (mem_of_entry (mem_newdepdict_entries.mpr ⟨deps, hdeps, hnil, rfl⟩))
    · exact .inr (.inr hout)
  pending := by
    intro k hk
    have ⟨deps, hdeps⟩ := entry_of_mem hk
    have ⟨old, hold, hne, _⟩ := mem_newdepdict_entries.mp hdeps
    rw [mem_nextState]
    rintro (hcand | hout)
    · rcases mem_candidates.mp hcand with hkey | hval
      · have hnil := (AList.mem_lookup_iff.mpr hold).symm.trans
          (AList.mem_lookup_iff.mpr (mem_keynoval.mp hkey))
        exact hne (Option.some.inj hnil)
      · exact (mem_valnotkey.mp hval).2 (mem_of_entry hold)
    · exact h.pending k (mem_of_entry hold) hout
  lower := by
    intro k v hkv l hl
    rcases h.lookup_cases hl with hold | ⟨rfl, _, _, hdeps⟩
    · have ⟨lv, hlv, hlt⟩ := h.lower k v hkv l hold
      refine ⟨lv, ?_, hlt⟩
      have hout : v ∈ s.out := AList.lookup_isSome.mp (by rw [hlv]; rfl)
      rw [lookup_nextState, if_neg (fun hn => hn.2 hout), hlv]
    · have hout : v ∈ s.out := hdeps v hkv
      have ⟨lv, hlv⟩ := Option.isSome_iff_exists.mp (AList.lookup_isSome.mpr hout)
      refine ⟨lv, ?_, h.below v lv hlv⟩
      rw [lookup_nextState, if_neg (fun hn => hn.2 hout), hlv]
  known := by
    intro c hc
    rcases (mem_nextState s c).mp hc with hcand | hout
    · rcases mem_candidates.mp hcand with hkey | hval
      · have ⟨fullDeps, hfull, _⟩ := h.entries c [] (mem_keynoval.mp hkey)
        exact .inl (mem_of_entry hfull)
      · have ⟨⟨k, deps⟩, hdeps, hmem⟩ := (mem_valnotkey.mp hval).1
        have ⟨fullDeps, hfull, hsub, _⟩ := h.entries k deps hdeps
        exact .inr ⟨k, dependsOn_iff.mpr ⟨fullDeps, hfull, hsub hmem⟩⟩
    · exact h.known c hout

/-- A round that changes nothing leaves every key with dependencies, all of them keys. -/
theorem Peeled.hasCycle (h : Peeled full s) (hne : s.depdict.entries ≠ [])
    (hsame : (newdepdict s.depdict).entries.Perm s.depdict.entries) :
    HasCycle (KeyDependsOn full) := by
  apply hasCycle_of_serial s.depdict.keys.toFinset
  · have ⟨t, ht⟩ := List.exists_mem_of_ne_nil _ hne
    exact ⟨t.1, List.mem_toFinset.mpr (List.mem_map_of_mem ht)⟩
  · intro k hk
    have ⟨deps, hdeps⟩ := entry_of_mem (AList.mem_keys.mpr (List.mem_toFinset.mp hk))
    have ⟨old, hold, hold_ne, hfilter⟩ :=
      mem_newdepdict_entries.mp (hsame.mem_iff.mpr hdeps)
    have hsame_deps : old = deps := Option.some.inj
      ((AList.mem_lookup_iff.mpr hold).symm.trans (AList.mem_lookup_iff.mpr hdeps))
    subst hsame_deps
    have ⟨v, hv⟩ := List.exists_mem_of_ne_nil _ hold_ne
    have hkept : v ∉ valnotkey s.depdict := by
      rw [hfilter] at hv
      simpa using (List.mem_filter.mp hv).2
    have hkey : v ∈ s.depdict := by
      by_contra hnot
      exact hkept (mem_valnotkey.mpr ⟨⟨_, hold, hv⟩, hnot⟩)
    have ⟨fullDeps, hfull, hsub, _⟩ := h.entries k old hold
    have ⟨vdeps, hvdeps⟩ := entry_of_mem hkey
    have ⟨vfull, hvfull, _⟩ := h.entries v vdeps hvdeps
    exact ⟨v, List.mem_toFinset.mpr (AList.mem_keys.mp hkey),
      dependsOn_iff.mpr ⟨fullDeps, hfull, hsub hv⟩, mem_of_entry hvfull⟩

/-- Every key and every value it lists has a level, the values lower ones. -/
structure Levelled (depdict : DepDict κ) (levels : LevelDict κ) : Prop where
  keys : ∀ k ∈ depdict, ∃ l, levels.lookup k = some l
  lower : ∀ k v, DependsOn depdict k v →
    ∃ lk lv, levels.lookup k = some lk ∧ levels.lookup v = some lv ∧ lv < lk
  known : ∀ c ∈ levels, c ∈ depdict ∨ ∃ k, DependsOn depdict k c

theorem Peeled.levelled (h : Peeled full s) (hnil : s.depdict.entries = []) :
    Levelled full s.out := by
  have hout : ∀ k ∈ full, ∃ l, s.out.lookup k = some l := by
    intro k hk
    rcases h.covered k hk with hkey | hout
    · have ⟨deps, hdeps⟩ := entry_of_mem hkey
      rw [hnil] at hdeps
      exact absurd hdeps List.not_mem_nil
    · exact Option.isSome_iff_exists.mp (AList.lookup_isSome.mpr hout)
  refine ⟨hout, fun k v hkv => ?_, h.known⟩
  have ⟨lk, hlk⟩ := hout k hkv.mem
  have ⟨lv, hlv, hlt⟩ := h.lower k v hkv lk hlk
  exact ⟨lk, lv, hlk, hlv, hlt⟩

theorem Levelled.not_hasCycle {depdict : DepDict κ} {levels : LevelDict κ}
    (h : Levelled depdict levels) : ¬ HasCycle (KeyDependsOn depdict) := by
  apply not_hasCycle_of_level fun k => (levels.lookup k).getD 0
  intro k v hkv
  have ⟨lk, lv, hlk, hlv, hlt⟩ := h.lower k v hkv.1
  rw [hlk, hlv]
  exact hlt

/-- What `topsort` may end with. -/
def Outcome (depdict : DepDict κ) : Except (DepDict κ) (LevelDict κ) → Prop
  | .error _ => HasCycle (KeyDependsOn depdict)
  | .ok levels => Levelled depdict levels

theorem topsort_ends (depdict : DepDict κ) :
    ∃ result, Outcome depdict result ∧ Returns topsortRound (topsortStart depdict) result := by
  apply ends_of_invariant (Peeled depdict) (fun s => remaining s.depdict) (Outcome depdict)
  · intro s hs
    unfold topsortRound
    by_cases hnil : s.depdict.entries = []
    · right
      left
      refine ⟨s.out, ?_, hs.levelled hnil⟩
      rw [if_neg (by simp [hnil])]
    · rw [if_pos (List.length_pos_of_ne_nil hnil)]
      by_cases hsame : (newdepdict s.depdict).entries.Perm s.depdict.entries
      · right
        right
        exact ⟨s.depdict, if_pos hsame, hs.hasCycle hnil hsame⟩
      · left
        exact ⟨nextState s, if_neg hsame, hs.next, remaining_lt hsame⟩
  · exact peeled_start depdict

theorem Outcome.error_iff {depdict : DepDict κ} {result : Except (DepDict κ) (LevelDict κ)}
    (h : Outcome depdict result) :
    (∃ e, result = .error e) ↔ HasCycle (KeyDependsOn depdict) := by
  cases result with
  | error e => exact ⟨fun _ => h, fun _ => ⟨e, rfl⟩⟩
  | ok levels =>
      constructor
      · rintro ⟨e, he⟩
        cases he
      · intro hcycle
        exact absurd hcycle h.not_hasCycle

end Madlib.Madpack
