import Madlib.Madpack.TopSort

/-!
# Module order

`topsort_modules` reads the dependency dictionary off the modules of `Modules.yml`,
levels it and sorts the modules by their levels, unless the dependencies are cyclic or
name a module that is not listed.
-/

namespace Madlib.Madpack

open Madlib.Lib.Loop Madlib.Lib.Levels

variable {κ : Type}

/-- A module of `Modules.yml`, whose `depends` may be missing. -/
structure Module (κ : Type) where
  name : κ
  depends : Option (List κ)
deriving DecidableEq

/-- How `topsort_modules` fails: "invalid cyclic dependency between modules" with the
dictionary, "required modules missing from Modules.yml" with who requires each, or a name
without a level. -/
inductive ModulesError (κ : Type) where
  | cyclic (depdict : DepDict κ)
  | missing (required : List (κ × List κ))
  | keyError (name : κ)

variable [DecidableEq κ]

def modulesDict (modules : List (Module κ)) : DepDict κ :=
  modules.foldl (fun depdict m => depdict.insert m.name (m.depends.getD [])) ∅

/-- Each missing module with the modules that require it. -/
def missing (moduleDict : LevelDict κ) (depdict : DepDict κ) : List (κ × List κ) :=
  (moduleDict.keys.filter fun m => m ∉ depdict).map fun m =>
    (m, (depdict.entries.filter fun t => m ∈ t.2).map fun t => t.1)

def sortKey (moduleDict : LevelDict κ) (m : Module κ) : Except (ModulesError κ) (Nat × Module κ) :=
  match moduleDict.lookup m.name with
  | some level => .ok (level, m)
  | none => .error (.keyError m.name)

/-- `sorted(modules, key=...)`, a stable sort. -/
def sortModules (moduleDict : LevelDict κ) (modules : List (Module κ)) :
    Except (ModulesError κ) (List (Module κ)) := do
  let keyed ← modules.mapM (sortKey moduleDict)
  pure ((keyed.mergeSort fun a b => a.1 ≤ b.1).map fun a => a.2)

def orderModules (modules : List (Module κ)) :
    Except (DepDict κ) (LevelDict κ) → Except (ModulesError κ) (List (Module κ))
  | .error depdict => .error (.cyclic depdict)
  | .ok moduleDict =>
      if (missing moduleDict (modulesDict modules)).length > 0 then
        .error (.missing (missing moduleDict (modulesDict modules)))
      else sortModules moduleDict modules

def topsortModules (fuel : Nat) (modules : List (Module κ)) :
    Option (Except (ModulesError κ) (List (Module κ))) :=
  (topsort fuel (modulesDict modules)).map (orderModules modules)

/-! ## The dictionary -/

theorem mem_foldl_insert {modules : List (Module κ)} {depdict : DepDict κ} {k : κ} :
    k ∈ modules.foldl (fun depdict m => depdict.insert m.name (m.depends.getD [])) depdict ↔
      k ∈ depdict ∨ ∃ m ∈ modules, m.name = k := by
  induction modules generalizing depdict with
  | nil => simp
  | cons m modules ih =>
      rw [List.foldl_cons, ih, AList.mem_insert]
      simp only [List.exists_mem_cons_iff]
      tauto

theorem mem_modulesDict {modules : List (Module κ)} {k : κ} :
    k ∈ modulesDict modules ↔ ∃ m ∈ modules, m.name = k := by
  unfold modulesDict
  rw [mem_foldl_insert]
  simp

theorem lookup_foldl_insert {modules : List (Module κ)} {depdict : DepDict κ} {k : κ}
    (h : ∀ m ∈ modules, m.name ≠ k) :
    (modules.foldl (fun depdict m => depdict.insert m.name (m.depends.getD [])) depdict).lookup k =
      depdict.lookup k := by
  induction modules generalizing depdict with
  | nil => rfl
  | cons m modules ih =>
      rw [List.foldl_cons, ih fun m' hm' => h m' (List.mem_cons_of_mem m hm')]
      exact AList.lookup_insert_ne (h m List.mem_cons_self).symm

/-- Modules with distinct names keep their own dependencies. -/
theorem lookup_modulesDict {modules : List (Module κ)}
    (h : (modules.map fun m => m.name).Nodup) {m : Module κ} (hm : m ∈ modules) :
    (modulesDict modules).lookup m.name = some (m.depends.getD []) := by
  have hgen : ∀ depdict : DepDict κ, (modules.foldl
      (fun depdict m => depdict.insert m.name (m.depends.getD [])) depdict).lookup m.name =
        some (m.depends.getD []) := by
    induction modules with
    | nil => cases hm
    | cons m' modules ih =>
        intro depdict
        rw [List.map_cons, List.nodup_cons] at h
        rw [List.foldl_cons]
        rcases List.mem_cons.mp hm with rfl | hm
        · rw [lookup_foldl_insert]
          · exact AList.lookup_insert depdict
          · intro m' hm' heq
            exact h.1 (heq ▸ List.mem_map_of_mem hm')
        · exact ih h.2 hm _
  exact hgen ∅

/-! ## The order -/

theorem missing_eq_nil {moduleDict : LevelDict κ} {depdict : DepDict κ}
    (h : Levelled depdict moduleDict) (hlisted : ∀ k v, DependsOn depdict k v → v ∈ depdict) :
    missing moduleDict depdict = [] := by
  unfold missing
  rw [List.map_eq_nil_iff, List.filter_eq_nil_iff]
  intro c hc
  rcases h.known c (AList.mem_keys.mpr hc) with hkey | ⟨k, hdep⟩
  · simpa using hkey
  · simpa using hlisted k c hdep

def level (moduleDict : LevelDict κ) (m : Module κ) : Nat := (moduleDict.lookup m.name).getD 0

theorem mapM_sortKey {moduleDict : LevelDict κ} {modules : List (Module κ)}
    (h : ∀ m ∈ modules, ∃ l, moduleDict.lookup m.name = some l) :
    modules.mapM (sortKey moduleDict) =
      .ok (modules.map fun m => (level moduleDict m, m)) := by
  induction modules with
  | nil => rfl
  | cons m modules ih =>
      have ⟨l, hl⟩ := h m List.mem_cons_self
      have hkey : sortKey moduleDict m = .ok (level moduleDict m, m) := by
        simp only [sortKey, level, hl, Option.getD_some]
      rw [List.mapM_cons, hkey, ih fun m' hm' => h m' (List.mem_cons_of_mem m hm')]
      rfl

theorem sortModules_eq {moduleDict : LevelDict κ} {modules : List (Module κ)}
    (h : ∀ m ∈ modules, ∃ l, moduleDict.lookup m.name = some l) :
    sortModules moduleDict modules =
      .ok (modules.mergeSort fun a b => level moduleDict a ≤ level moduleDict b) := by
  unfold sortModules
  rw [mapM_sortKey h]
  have hkeyed := List.map_mergeSort
    (r := fun a b : Module κ => decide (level moduleDict a ≤ level moduleDict b))
    (s := fun a b : Nat × Module κ => decide (a.1 ≤ b.1))
    (f := fun m => (level moduleDict m, m)) (l := modules) fun a _ b _ => rfl
  change Except.ok (((modules.map fun m => (level moduleDict m, m)).mergeSort
    fun a b => decide (a.1 ≤ b.1)).map fun a => a.2) = _
  rw [← hkeyed, List.map_map]
  simp [Function.comp_def]

theorem pairwise_sorted (moduleDict : LevelDict κ) (modules : List (Module κ)) :
    (modules.mergeSort fun a b => level moduleDict a ≤ level moduleDict b).Pairwise
      fun a b => level moduleDict a ≤ level moduleDict b := by
  have hsorted : (modules.mergeSort fun a b => level moduleDict a ≤ level moduleDict b).Pairwise
      fun a b => decide (level moduleDict a ≤ level moduleDict b) = true := by
    apply List.pairwise_mergeSort
    · intro a b c hab hbc
      rw [decide_eq_true_iff] at hab hbc ⊢
      exact hab.trans hbc
    · intro a b
      rcases Nat.le_total (level moduleDict a) (level moduleDict b) with hab | hba
      · simp [hab]
      · simp [hba]
  exact hsorted.imp of_decide_eq_true

/-- In a list sorted by level a module stands after what it depends on. -/
theorem dependency_before {moduleDict : LevelDict κ} {depdict : DepDict κ}
    (h : Levelled depdict moduleDict) (out : List (Module κ))
    (hsorted : out.Pairwise fun a b => level moduleDict a ≤ level moduleDict b)
    (i j : Fin out.length) (hdep : DependsOn depdict (out.get i).name (out.get j).name) :
    j < i := by
  have ⟨lk, lv, hlk, hlv, hlt⟩ := h.lower _ _ hdep
  have hlevel : level moduleDict (out.get j) < level moduleDict (out.get i) := by
    simp only [level, hlk, hlv, Option.getD_some]
    exact hlt
  by_contra hle
  rcases eq_or_lt_of_le (not_lt.mp hle) with heq | hij
  · rw [heq] at hlevel
    exact lt_irrefl _ hlevel
  · exact absurd (List.pairwise_iff_get.mp hsorted i j hij) (not_le.mpr hlevel)

theorem orderModules_eq {modules : List (Module κ)} {moduleDict : LevelDict κ}
    (h : Levelled (modulesDict modules) moduleDict)
    (hlisted : ∀ k v, DependsOn (modulesDict modules) k v → ∃ m ∈ modules, m.name = v) :
    orderModules modules (.ok moduleDict) =
      .ok (modules.mergeSort fun a b => level moduleDict a ≤ level moduleDict b) := by
  have hmissing : missing moduleDict (modulesDict modules) = [] :=
    missing_eq_nil h fun k v hkv => mem_modulesDict.mpr (hlisted k v hkv)
  simp only [orderModules, hmissing, List.length_nil, gt_iff_lt, lt_irrefl, if_false]
  exact sortModules_eq fun m hm => h.keys m.name (mem_modulesDict.mpr ⟨m, hm, rfl⟩)

theorem topsort_orders_modules (depdict : DepDict κ) (modules : List (Module κ)) :
    (∃ result bound, (∀ fuel, bound ≤ fuel → topsort fuel depdict = some result) ∧
      ((∃ e, result = .error e) ↔ HasCycle (KeyDependsOn depdict)) ∧
      ∀ levels, result = .ok levels →
        (∀ k ∈ depdict, ∃ l, levels.lookup k = some l) ∧
        ∀ k v, DependsOn depdict k v →
          ∃ lk lv, levels.lookup k = some lk ∧ levels.lookup v = some lv ∧ lv < lk) ∧
    (¬ HasCycle (KeyDependsOn (modulesDict modules)) →
      (∀ k v, DependsOn (modulesDict modules) k v → ∃ m ∈ modules, m.name = v) →
      ∃ out bound, (∀ fuel, bound ≤ fuel → topsortModules fuel modules = some (.ok out)) ∧
        out.Perm modules ∧
        (∀ i j : Fin out.length,
          DependsOn (modulesDict modules) (out.get i).name (out.get j).name → j < i) ∧
        ((modules.map fun m => m.name).Nodup → ∀ i j : Fin out.length,
          (out.get j).name ∈ (out.get i).depends.getD [] → j < i)) := by
  constructor
  · have ⟨result, hout, bound, hrun⟩ := topsort_ends depdict
    refine ⟨result, bound, hrun, hout.error_iff, ?_⟩
    rintro levels rfl
    exact ⟨hout.keys, hout.lower⟩
  · intro hcycle hlisted
    have ⟨result, hout, bound, hrun⟩ := topsort_ends (modulesDict modules)
    cases result with
    | error e => exact absurd hout hcycle
    | ok moduleDict =>
        have hbefore := dependency_before hout
        have hsorted := pairwise_sorted moduleDict modules
        refine ⟨_, bound, fun fuel hfuel => ?_, List.mergeSort_perm _ _,
          hbefore _ hsorted, fun hnames i j hmem => ?_⟩
        · unfold topsortModules topsort
          rw [hrun fuel hfuel, Option.map_some, orderModules_eq hout hlisted]
        · apply hbefore _ hsorted i j
          have hi := (List.mergeSort_perm modules _).mem_iff.mp (List.get_mem _ i)
          exact ⟨_, lookup_modulesDict hnames hi, hmem⟩

end Madlib.Madpack
