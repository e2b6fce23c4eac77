import Mathlib.Data.List.Nodup
import Ragx.PromptTemplates

/-!
# The prompt registry

Prompt files are read into a table of names and versions. Overrides of a knowledge base are to name
a file by its stem, and the name that an override gives is then looked up among the prompt names.
A stem is longer than the name of its prompt, so the two only agree where there is no override or
where the override leads nowhere either way.
-/
namespace Ragx

/-- The prompt files, each of which is called after its prompt. -/
structure PromptsDir where
  files : List Prompt
  nodup : (files.map fun p => (p.name, p.version)).Nodup

/-- The prompts by name and version. -/
structure PromptRegistry where
  byName : OrderedDict String (OrderedDict ℤ Prompt)

/-- The files in the order of their names. -/
def PromptsDir.sorted (dir : PromptsDir) : List Prompt :=
  dir.files.mergeSort fun p q => p.key ++ ".yaml" ≤ q.key ++ ".yaml"

def addVersion (versions : Option (OrderedDict ℤ Prompt)) (p : Prompt) : OrderedDict ℤ Prompt :=
  (versions.getD .empty).insert p.version p

def PromptsDir.load (dir : PromptsDir) : PromptRegistry :=
  ⟨OrderedDict.accumulate Prompt.name addVersion .empty dir.sorted⟩

/-- A path at which there may be no directory. -/
def loadAll (path : String) : Option PromptsDir → Except Exc PromptRegistry
  | none => .error (configError "prompts directory not found" [("path", .str path)])
  | some dir => .ok dir.load

namespace PromptRegistry

def names (registry : PromptRegistry) : List String :=
  registry.byName.keys.mergeSort fun a b => a ≤ b

/-- Without `version`, the latest one. -/
def get (registry : PromptRegistry) (name : String) (version : Option ℤ := none) :
    Except Exc Prompt :=
  let versions := registry.byName.getD name .empty
  match versions.keys.max? with
  | none => .error (configError "unknown prompt"
      [("name", .str name), ("known", .arr (registry.names.map .str))])
  | some latest =>
    let chosen := version.getD latest
    match versions.get? chosen with
    | some p => .ok p
    | none => .error (configError "prompt version not found"
        [("name", .str name), ("version", .num chosen),
          ("available", .arr ((versions.keys.mergeSort fun a b => a ≤ b).map fun v => .num v))])

def render (registry : PromptRegistry) (name : String) (version : Option ℤ) (vars : PromptVars) :
    Except Exc (String × String) := do
  let p ← registry.get name version
  p.render vars

def resolveOverride (name : String) (overrides : OrderedDict String String) : String :=
  overrides.getD name name

def renderForKb (registry : PromptRegistry) (name : String)
    (kbOverrides : Option (OrderedDict String String)) (vars : PromptVars)
    (version : Option ℤ := none) : Except Exc (String × String) :=
  registry.render (resolveOverride name (kbOverrides.getD .empty)) version vars

end PromptRegistry

/-! ## Rendering a prompt -/

/-- Every placeholder of the prompt has a value. -/
def PromptVars.Cover (vars : PromptVars) (p : Prompt) : Prop :=
  ∀ name, HasPlaceholder p.system name ∨ HasPlaceholder p.user name →
    ∃ value, vars.values.get? name = some value

theorem missing_isEmpty_iff {p : Prompt} {vars : PromptVars} :
    (p.vars.filter fun name => (vars.values.get? name).isNone).isEmpty = true ↔ vars.Cover p := by
  rw [List.isEmpty_iff, List.filter_eq_nil_iff]
  unfold Prompt.vars PromptVars.Cover
  simp only [List.mem_append, mem_findPlaceholders, Bool.not_eq_true, Option.isNone_eq_false_iff,
    Option.isSome_iff_exists]

/-- A prompt is rendered if its placeholders have values, and else that is the error. -/
theorem Prompt.render_cases (p : Prompt) (vars : PromptVars) :
    (vars.Cover p ∧ ∃ system user, p.render vars = .ok (system, user) ∧
      Rendered vars p.system system ∧ Rendered vars p.user user) ∨
    (¬ vars.Cover p ∧ ∃ message details, p.render vars = .error (configError message details)) := by
  unfold Prompt.render
  dsimp only
  split_ifs with hmissing
  · exact .inl ⟨missing_isEmpty_iff.mp hmissing, _, _, rfl, rendered_sub vars p.system,
      rendered_sub vars p.user⟩
  · exact .inr ⟨fun hcover => hmissing (missing_isEmpty_iff.mpr hcover), _, _, rfl⟩

/-! ## What the registry holds -/

section Load

variable (dir : PromptsDir) {name : String} {version : ℤ} {p : Prompt}

/-- The versions of one prompt as pairs. -/
def versionPairs (ps : List Prompt) : List (ℤ × Prompt) := ps.map fun p => (p.version, p)

theorem foldl_addVersion (ps : List Prompt) (old : Option (OrderedDict ℤ Prompt)) :
    (ps.foldl (fun old p => some (addVersion old p)) old).getD .empty =
      (old.getD .empty).update (versionPairs ps) := by
  induction ps generalizing old with
  | nil => rfl
  | cons p ps ih =>
    rw [List.foldl_cons, ih]
    rfl

/-- The prompts of a name in the order of their files. -/
def PromptsDir.named (name : String) : List Prompt :=
  dir.sorted.filter fun p => decide (p.name = name)

theorem PromptsDir.mem_named : p ∈ dir.named name ↔ p ∈ dir.files ∧ p.name = name := by
  unfold named sorted
  rw [List.mem_filter, List.mem_mergeSort, decide_eq_true_iff]

theorem PromptsDir.getD_load :
    dir.load.byName.getD name .empty = OrderedDict.ofList (versionPairs (dir.named name)) := by
  unfold load OrderedDict.getD OrderedDict.ofList
  rw [OrderedDict.get?_accumulate]
  exact foldl_addVersion _ none

theorem PromptsDir.nodup_versionPairs :
    ((versionPairs (dir.named name)).map Prod.fst).Nodup := by
  have hsorted : (dir.sorted.map fun p => (p.name, p.version)).Nodup :=
    ((List.mergeSort_perm dir.files _).map _).nodup_iff.mpr dir.nodup
  have hnamed : ((dir.named name).map fun p => (p.name, p.version)).Nodup :=
    hsorted.sublist (List.filter_sublist.map _)
  have hpairs : ((dir.named name).map fun p => (p.name, p.version)) =
      ((versionPairs (dir.named name)).map Prod.fst).map (Prod.mk name) := by
    unfold versionPairs
    rw [List.map_map, List.map_map]
    refine List.map_congr_left fun p hp => ?_
    rw [((dir.mem_named).mp hp).2]
    rfl
  rw [hpairs] at hnamed
  exact hnamed.of_map _

theorem PromptsDir.get?_load :
    (dir.load.byName.getD name .empty).get? version = some p ↔
      p ∈ dir.files ∧ p.name = name ∧ p.version = version := by
  rw [getD_load]
  constructor
  · intro h
    have hpair := OrderedDict.mem_entries_ofList (OrderedDict.mem_entries.mpr h)
    obtain ⟨q, hq, heq⟩ := List.mem_map.mp hpair
    obtain ⟨rfl, rfl⟩ := Prod.mk.inj heq
    obtain ⟨hfile, hname⟩ := dir.mem_named.mp hq
    exact ⟨hfile, hname, rfl⟩
  · rintro ⟨hfile, hname, rfl⟩
    refine OrderedDict.get?_update_of_mem _ dir.nodup_versionPairs ?_
    exact List.mem_map_of_mem (dir.mem_named.mpr ⟨hfile, hname⟩)

theorem PromptsDir.mem_keys_load :
    version ∈ (dir.load.byName.getD name .empty).keys ↔
      ∃ p ∈ dir.files, p.name = name ∧ p.version = version := by
  unfold OrderedDict.keys
  rw [List.mem_map]
  constructor
  · rintro ⟨⟨v, p⟩, hentry, rfl⟩
    exact ⟨p, dir.get?_load.mp (OrderedDict.mem_entries.mp hentry)⟩
  · rintro ⟨p, h⟩
    exact ⟨(version, p), OrderedDict.mem_entries.mpr (dir.get?_load.mpr h), rfl⟩

end Load

/-- The highest version of a prompt. -/
def PromptsDir.IsLatest (dir : PromptsDir) (name : String) (p : Prompt) : Prop :=
  p ∈ dir.files ∧ p.name = name ∧ ∀ q ∈ dir.files, q.name = name → q.version ≤ p.version

/-- Looking up a name gives its highest version, or there is none and that is the error. -/
theorem PromptsDir.get_cases (dir : PromptsDir) (name : String) :
    (∃ p, dir.load.get name = .ok p ∧ dir.IsLatest name p) ∨
    ((∀ p ∈ dir.files, p.name ≠ name) ∧
      ∃ details, dir.load.get name = .error (configError "unknown prompt" details)) := by
  unfold PromptRegistry.get
  dsimp only
  cases hlatest : (dir.load.byName.getD name .empty).keys.max? with
  | none =>
    refine .inr ⟨fun p hp hname => ?_, _, rfl⟩
    have hkey := dir.mem_keys_load.mpr ⟨p, hp, hname, rfl⟩
    rw [List.max?_eq_none_iff.mp hlatest] at hkey
    exact absurd hkey List.not_mem_nil
  | some latest =>
    obtain ⟨hmem, hmax⟩ := List.max?_eq_some_iff.mp hlatest
    obtain ⟨p, hp, hname, rfl⟩ := dir.mem_keys_load.mp hmem
    refine .inl ⟨p, ?_, hp, hname, fun q hq hqname => ?_⟩
    · dsimp only [Option.getD_none]
      rw [dir.get?_load.mpr ⟨hp, hname, rfl⟩]
    · exact hmax _ (dir.mem_keys_load.mpr ⟨q, hq, hqname, rfl⟩)

theorem PromptsDir.IsLatest.unique {dir : PromptsDir} {name : String} {p q : Prompt}
    (hp : dir.IsLatest name p) (hq : dir.IsLatest name q) : p = q := by
  have hversion : p.version = q.version :=
    le_antisymm (hq.2.2 p hp.1 hp.2.1) (hp.2.2 q hq.1 hq.2.1)
  exact List.inj_on_of_nodup_map dir.nodup hp.1 hq.1
    (Prod.ext (hp.2.1.trans hq.2.1.symm) hversion)

theorem PromptsDir.get_eq_ok_iff {dir : PromptsDir} {name : String} {p : Prompt} :
    dir.load.get name = .ok p ↔ dir.IsLatest name p := by
  obtain ⟨q, hget, hlatest⟩ | ⟨hnone, details, hget⟩ := dir.get_cases name
  · rw [hget, Except.ok.injEq]
    exact ⟨fun h => h ▸ hlatest, fun h => hlatest.unique h⟩
  · rw [hget]
    exact ⟨nofun, fun h => absurd h.2.1 (hnone p h.1)⟩

end Ragx
