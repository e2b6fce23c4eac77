import Mathlib.Data.List.Sort
import Ragx.EventRuns
import Ragx.Models

/-!
# Plugin requests

A plugin is asked for by name, by the field of a knowledge base's configuration, or as the
default of the profile. All three come down to an interface, a name and a knowledge base, to an
error of the configuration, or to no plugin at all.
-/
namespace Ragx

/-- What instances are cached under. -/
structure PluginKey where
  interface : String
  name : String
  kbId : String
deriving DecidableEq

/-- The plugins that a knowledge base names. -/
structure PluginNames where
  parser : String := "text"
  processor : Option String := none
  vectorStore : String := "sqlite"
  graphStore : Option String := none
  embedder : String := "hash"
  reranker : Option String := none

/-- The interfaces with a field of `KBConfig`, which has the same name. -/
def PluginNames.fields (names : PluginNames) : OrderedDict String (Option String) :=
  .ofList [("parser", some names.parser), ("processor", names.processor),
    ("embedder", some names.embedder), ("reranker", names.reranker),
    ("vector_store", some names.vectorStore), ("graph_store", names.graphStore)]

inductive PluginRequest where
  | resolve (interface name : String) (kbId : String)
  | resolveFromKb (interface : String) (kbCfg : PluginNames) (kbId : String)
  | resolveDefault (interface : String) (kbId : String)

/-- The profile, and the factories once the plugins are discovered. -/
structure PluginRegistry where
  profile : String
  factories : List (String × String)

namespace PluginRegistry

def ifaceTypes : List String :=
  ["parser", "processor", "embedder", "reranker", "vector_store", "graph_store", "llm_provider"]

def liteDefaults : OrderedDict String (Option String) :=
  .ofList [("parser", some "text"), ("processor", none), ("embedder", some "hash"),
    ("reranker", none), ("vector_store", some "sqlite"), ("graph_store", some "nx"),
    ("llm_provider", some "openai_compat")]

def fullDefaults : OrderedDict String (Option String) :=
  .ofList [("parser", some "deepdoc"), ("processor", some "vlm"), ("embedder", some "st"),
    ("reranker", some "bge"), ("vector_store", some "es"), ("graph_store", some "neo4j"),
    ("llm_provider", some "openai_compat")]

def defaultPlugin (profile interface : String) : Option String :=
  ((if profile = "full" then fullDefaults else liteDefaults).get? interface).join

def configError (message : String) (details : List (String × Json)) : Exc where
  cls := .config
  code := 9003
  message := message
  details := details

def sorted (texts : List String) : Json := .arr ((texts.insertionSort (· ≤ ·)).map .str)

/-- `_iface_key` of a text. -/
def ifaceKey (interface : String) : Except Exc String :=
  if interface ∈ ifaceTypes then .ok interface
  else .error (configError "unknown plugin interface"
    [("interface", .str interface), ("known", sorted ifaceTypes)])

variable (registry : PluginRegistry)

def names (interface : String) : List String :=
  (registry.factories.filter fun factory => factory.1 = interface).map Prod.snd

def notFound (key : PluginKey) : Exc :=
  configError "plugin not found" [("interface", .str key.interface), ("name", .str key.name),
    ("known", sorted (registry.names key.interface))]

def resolveKey (interface name kbId : String) : Except Exc (Option PluginKey) :=
  (ifaceKey interface).map fun key => some ⟨key, name, kbId⟩

/-- The instance that a request is for. -/
def key : PluginRequest → Except Exc (Option PluginKey)
  | .resolve interface name kbId => resolveKey interface name kbId
  | .resolveFromKb interface kbCfg kbId =>
    match kbCfg.fields.get? interface with
    | none => .error (configError "interface has no KBConfig mapping"
        [("interface", .str interface)])
    | some field =>
      match field.filter (· ≠ "") with
      | none => .error (configError "KBConfig does not enable this interface"
          [("interface", .str interface), ("field", .str interface)])
      | some name => resolveKey interface name kbId
  | .resolveDefault interface kbId =>
    match (defaultPlugin registry.profile interface).filter (· ≠ "") with
    | none => .ok none
    | some name => resolveKey interface name kbId

end PluginRegistry

/-! ## The life of plugin instances

Instances are created when they are first asked for, by any number of callers at a time: a
caller looks under the lock, creates an instance outside of it, and puts it under the lock where
no other caller was faster. The hooks are called for the instances that are there when
`startup_all` and `shutdown_all` make their lists. Requests are served in between. -/

/-- Which hooks an instance has. -/
structure PluginHooks (I : Type) where
  startup : I → Bool
  shutdown : I → Bool

/-- Where a caller is in `resolve`. -/
inductive ResolveStage (I : Type) where
  | looking
  | creating
  | created (inst : I)
  | stored

/-- Where the application is in its lifespan. -/
inductive LifespanPhase where
  | created
  | starting
  | serving
  | stopping
  | stopped
deriving DecidableEq

structure PluginWorld (I : Type) where
  instances : OrderedDict PluginKey I := .empty
  callers : OrderedDict ℕ (PluginKey × ResolveStage I) := .empty
  /-- What the calls have returned and raised so far. -/
  returned : List (PluginKey × I) := []
  raised : List Exc := []
  phase : LifespanPhase := .created
  /-- What is left of the list that the hooks are called for. -/
  left : List I := []
  startList : List I := []
  stopList : List I := []
  /-- What was returned before `shutdown_all`. -/
  returnedBefore : List I := []
  /-- The hooks that have completed. -/
  started : List I := []
  stopped : List I := []

inductive LifecycleEvent (I : Type) where
  | request (caller : ℕ) (request : PluginRequest)
  | look (caller : ℕ)
  | create (caller : ℕ) (inst : I)
  | store (caller : ℕ)
  | answer (caller : ℕ)
  | startup
  | startHook
  | serve
  | use (inst : I)
  | shutdown
  | stopHook
  | exit

namespace PluginWorld

variable {I : Type}

def moveTo (s : PluginWorld I) (caller : ℕ) (key : PluginKey) (stage : ResolveStage I) :
    PluginWorld I :=
  { s with callers := s.callers.insert caller (key, stage) }

def answered (s : PluginWorld I) (caller : ℕ) (key : PluginKey) (inst : I) : PluginWorld I :=
  { s with callers := s.callers.erase caller, returned := s.returned ++ [(key, inst)] }

/-- `self._instances.setdefault(cfg_key, instance)`. -/
def setDefault (instances : OrderedDict PluginKey I) (key : PluginKey) (inst : I) :
    OrderedDict PluginKey I :=
  if (instances.get? key).isSome then instances else instances.insert key inst

variable (hooks : PluginHooks I) (registry : PluginRegistry)

def step [DecidableEq I] (s : PluginWorld I) : LifecycleEvent I → Option (PluginWorld I)
  | .request caller request =>
    match s.callers.get? caller with
    | some _ => none
    | none =>
      match registry.key request with
      | .ok (some key) => some (s.moveTo caller key .looking)
      | .ok none => some s
      | .error e => some { s with raised := s.raised ++ [e] }
  | .look caller =>
    match s.callers.get? caller with
    | some (key, .looking) =>
      match s.instances.get? key with
      | some inst => some (s.answered caller key inst)
      | none =>
        if (key.interface, key.name) ∈ registry.factories then
          some (s.moveTo caller key .creating)
        else some { s with
          callers := s.callers.erase caller
          raised := s.raised ++ [registry.notFound key] }
    | _ => none
  | .create caller inst =>
    match s.callers.get? caller with
    | some (key, .creating) => some (s.moveTo caller key (.created inst))
    | _ => none
  | .store caller =>
    match s.callers.get? caller with
    | some (key, .created inst) =>
      some { s.moveTo caller key .stored with instances := setDefault s.instances key inst }
    | _ => none
  | .answer caller =>
    match s.callers.get? caller with
    | some (key, .stored) => (s.instances.get? key).map (s.answered caller key)
    | _ => none
  | .startup =>
    if s.phase = .created then
      some { s with phase := .starting, startList := s.instances.values,
                    left := s.instances.values }
    else none
  | .startHook =>
    match s.phase, s.left with
    | .starting, inst :: left =>
      some { s with
        left := left
        started := if hooks.startup inst then s.started ++ [inst] else s.started }
    | _, _ => none
  | .serve => if s.phase = .starting ∧ s.left = [] then some { s with phase := .serving } else none
  | .use inst =>
    if s.phase = .serving ∧ inst ∈ s.returned.map Prod.snd then some s else none
  | .shutdown =>
    if s.phase = .serving then
      some { s with phase := .stopping, stopList := s.instances.values,
                    left := s.instances.values, returnedBefore := s.returned.map Prod.snd }
    else none
  | .stopHook =>
    match s.phase, s.left with
    | .stopping, inst :: left =>
      some { s with
        left := left
        stopped := if hooks.shutdown inst then s.stopped ++ [inst] else s.stopped }
    | _, _ => none
  | .exit =>
    if s.phase = .stopping ∧ s.left = [] then some { s with phase := .stopped } else none

/-! ## What the life cycle promises -/

/-- One instance for one key; its startup hook has completed once when a request uses it; the
shutdown hook of all that was returned before has completed once when `shutdown_all` returns. -/
structure Lawful [DecidableEq I] (s : PluginWorld I) (e : LifecycleEvent I)
    (s' : PluginWorld I) : Prop where
  same : ∀ key inst inst', (key, inst) ∈ s'.returned → (key, inst') ∈ s'.returned → inst = inst'
  started : ∀ inst, e = .use inst → hooks.startup inst = true → s.started.count inst = 1
  stopped : e = .exit → ∀ inst ∈ s.returnedBefore, hooks.shutdown inst = true →
    s.stopped.count inst = 1

/-- What a request uses was there, under one key, when the application started; nothing that was
returned is there under two keys when it stops. -/
def Listed [DecidableEq I] (s : PluginWorld I) (e : LifecycleEvent I) (_ : PluginWorld I) :
    Prop :=
  match e with
  | .use inst => hooks.startup inst = true → s.startList.count inst = 1
  | .exit => ∀ inst ∈ s.returnedBefore, hooks.shutdown inst = true → s.stopList.count inst ≤ 1
  | _ => True

instance [DecidableEq I] (s : PluginWorld I) : ∀ (e : LifecycleEvent I) (s' : PluginWorld I),
    Decidable (Listed hooks s e s')
  | .use inst, _ =>
    inferInstanceAs (Decidable (hooks.startup inst = true → s.startList.count inst = 1))
  | .exit, _ =>
    inferInstanceAs (Decidable (∀ inst ∈ s.returnedBefore, hooks.shutdown inst = true →
      s.stopList.count inst ≤ 1))
  | .request _ _, _ | .look _, _ | .create _ _, _ | .store _, _ | .answer _, _ | .startup, _
  | .startHook, _ | .serve, _ | .shutdown, _ | .stopHook, _ => inferInstanceAs (Decidable True)

/-- Which hooks have completed, as far as the application has come. -/
def HooksDone (s : PluginWorld I) : Prop :=
  match s.phase with
  | .created => s.started = [] ∧ s.stopped = []
  | .starting => s.startList.filter hooks.startup = s.started ++ s.left.filter hooks.startup ∧
      s.stopped = []
  | .serving => s.startList.filter hooks.startup = s.started ∧ s.stopped = []
  | .stopping => s.stopList.filter hooks.shutdown = s.stopped ++ s.left.filter hooks.shutdown ∧
      ∀ inst ∈ s.returnedBefore, inst ∈ s.stopList
  | .stopped => True

structure Kept (s : PluginWorld I) : Prop where
  returned : ∀ key inst, (key, inst) ∈ s.returned → s.instances.get? key = some inst
  stored : ∀ caller key, s.callers.get? caller = some (key, .stored) →
    (s.instances.get? key).isSome = true
  hooks : HooksDone hooks s

/-! ## What every step keeps -/

theorem get?_setDefault {instances : OrderedDict PluginKey I} {key key' : PluginKey}
    {inst inst' : I} (h : instances.get? key' = some inst') :
    (setDefault instances key inst).get? key' = some inst' := by
  unfold setDefault
  split_ifs with hthere
  · exact h
  · rw [OrderedDict.get?_insert, if_neg, h]
    rintro rfl
    exact hthere (h ▸ rfl)

theorem isSome_setDefault (instances : OrderedDict PluginKey I) (key : PluginKey) (inst : I) :
    ((setDefault instances key inst).get? key).isSome = true := by
  unfold setDefault
  split_ifs with hthere
  · exact hthere
  · rw [OrderedDict.get?_insert, if_pos rfl]
    rfl

theorem get?_of_erase {callers : OrderedDict ℕ (PluginKey × ResolveStage I)} {caller caller' : ℕ}
    {c : PluginKey × ResolveStage I} (h : (callers.erase caller).get? caller' = some c) :
    callers.get? caller' = some c := by
  rw [OrderedDict.erase, OrderedDict.get?_filterKeys] at h
  split_ifs at h with hkeep
  exact h

variable {hooks registry} {s s' : PluginWorld I}

namespace Kept

variable (hs : Kept hooks s)

include hs

theorem raise (e : Exc) : Kept hooks { s with raised := s.raised ++ [e] } :=
  ⟨hs.returned, hs.stored, hs.hooks⟩

theorem moveTo (caller : ℕ) {key : PluginKey} {stage : ResolveStage I}
    (hstage : stage = .stored → (s.instances.get? key).isSome = true) :
    Kept hooks (s.moveTo caller key stage) := by
  refine ⟨hs.returned, fun caller' key' h => ?_, hs.hooks⟩
  rw [PluginWorld.moveTo, OrderedDict.get?_insert] at h
  split_ifs at h with hcaller
  · cases h
    exact hstage rfl
  · exact hs.stored caller' key' h

theorem answered (caller : ℕ) {key : PluginKey} {inst : I}
    (hget : s.instances.get? key = some inst) : Kept hooks (s.answered caller key inst) := by
  refine ⟨fun key' inst' h => ?_, fun caller' key' h => ?_, hs.hooks⟩
  · rcases List.mem_append.mp h with hold | hnew
    · exact hs.returned key' inst' hold
    · cases List.mem_singleton.mp hnew
      exact hget
  · exact hs.stored caller' key' (get?_of_erase h)

theorem store (key : PluginKey) (inst : I) :
    Kept hooks { s with instances := setDefault s.instances key inst } := by
  refine ⟨fun key' inst' h => get?_setDefault (hs.returned key' inst' h), fun caller' key' h => ?_,
    hs.hooks⟩
  obtain ⟨inst', hget⟩ := Option.isSome_iff_exists.mp (hs.stored caller' key' h)
  exact Option.isSome_iff_exists.mpr ⟨inst', get?_setDefault hget⟩

/-- What was returned is an instance of the registry. -/
theorem mem_values {inst : I} (h : inst ∈ s.returned.map Prod.snd) :
    inst ∈ s.instances.values := by
  obtain ⟨⟨key, inst⟩, hmem, rfl⟩ := List.mem_map.mp h
  have hentry := OrderedDict.mem_entries.mpr (hs.returned key inst hmem)
  exact List.mem_map_of_mem hentry

/-- A caller that has stored its instance is answered. -/
theorem isSome_answer [DecidableEq I] {caller : ℕ} {key : PluginKey}
    (h : s.callers.get? caller = some (key, .stored)) :
    (step hooks registry s (.answer caller)).isSome = true := by
  obtain ⟨inst, hget⟩ := Option.isSome_iff_exists.mp (hs.stored caller key h)
  simp [step, h, hget]

end Kept

theorem kept_init : Kept hooks ({} : PluginWorld I) := by
  refine ⟨?_, ?_, rfl, rfl⟩
  · intro key inst h
    cases h
  · intro caller key h
    cases h

/-- One more hook is done, and one less is left. -/
theorem filter_done {p : I → Bool} {whole done left : List I} {inst : I}
    (h : whole.filter p = done ++ (inst :: left).filter p) :
    whole.filter p = (if p inst then done ++ [inst] else done) ++ left.filter p := by
  rw [h, List.filter_cons]
  split_ifs
  · simp
  · rfl

variable [DecidableEq I] {e : LifecycleEvent I}

theorem kept_look (hs : Kept hooks s) {caller : ℕ}
    (hstep : step hooks registry s (.look caller) = some s') : Kept hooks s' := by
  simp only [step] at hstep
  split at hstep
  case h_1 key hcaller =>
    cases hget : s.instances.get? key with
    | some inst =>
      simp only [hget, Option.some.injEq] at hstep
      exact hstep ▸ hs.answered caller hget
    | none =>
      simp only [hget] at hstep
      split_ifs at hstep with hfactory
      · cases hstep
        exact hs.moveTo caller (by simp)
      · cases hstep
        exact ⟨hs.returned, fun caller' key' h => hs.stored caller' key' (get?_of_erase h),
          hs.hooks⟩
  case h_2 => cases hstep

theorem kept_store (hs : Kept hooks s) {caller : ℕ}
    (hstep : step hooks registry s (.store caller) = some s') : Kept hooks s' := by
  simp only [step] at hstep
  split at hstep
  case h_1 key inst hcaller =>
    cases hstep
    exact (hs.store key inst).moveTo caller fun _ => isSome_setDefault s.instances key inst
  case h_2 => cases hstep

theorem kept_request (hs : Kept hooks s) {caller : ℕ} {request : PluginRequest}
    (hstep : step hooks registry s (.request caller request) = some s') : Kept hooks s' := by
  simp only [step] at hstep
  split at hstep
  · cases hstep
  · split at hstep
    · cases hstep
      exact hs.moveTo caller (by simp)
    · cases hstep
      exact hs
    · cases hstep
      exact hs.raise _

theorem kept_answer (hs : Kept hooks s) {caller : ℕ}
    (hstep : step hooks registry s (.answer caller) = some s') : Kept hooks s' := by
  simp only [step] at hstep
  split at hstep
  · obtain ⟨inst, hget, rfl⟩ := Option.map_eq_some_iff.mp hstep
    exact hs.answered caller hget
  · cases hstep

theorem kept_startup (hs : Kept hooks s)
    (hstep : step hooks registry s .startup = some s') : Kept hooks s' := by
  simp only [step] at hstep
  split_ifs at hstep with hphase
  cases hstep
  have hdone := hs.hooks
  rw [HooksDone, hphase] at hdone
  refine ⟨hs.returned, hs.stored, ?_⟩
  show _ = s.started ++ _ ∧ s.stopped = []
  rw [hdone.1]
  exact ⟨rfl, hdone.2⟩

theorem kept_startHook (hs : Kept hooks s)
    (hstep : step hooks registry s .startHook = some s') : Kept hooks s' := by
  simp only [step] at hstep
  split at hstep
  case h_1 inst left hphase hleft =>
    cases hstep
    have hdone := hs.hooks
    rw [HooksDone, hphase, hleft] at hdone
    refine ⟨hs.returned, hs.stored, ?_⟩
    show HooksDone hooks { s with phase := s.phase, left := left, started := _ }
    rw [HooksDone, hphase]
    exact ⟨filter_done hdone.1, hdone.2⟩
  case h_2 => cases hstep

theorem kept_shutdown (hs : Kept hooks s)
    (hstep : step hooks registry s .shutdown = some s') : Kept hooks s' := by
  simp only [step] at hstep
  split_ifs at hstep with hphase
  cases hstep
  have hdone := hs.hooks
  rw [HooksDone, hphase] at hdone
  refine ⟨hs.returned, hs.stored, ?_, fun inst h => hs.mem_values h⟩
  show _ = s.stopped ++ _
  rw [hdone.2]
  rfl

theorem kept_stopHook (hs : Kept hooks s)
    (hstep : step hooks registry s .stopHook = some s') : Kept hooks s' := by
  simp only [step] at hstep
  split at hstep
  case h_1 inst left hphase hleft =>
    cases hstep
    have hdone := hs.hooks
    rw [HooksDone, hphase, hleft] at hdone
    refine ⟨hs.returned, hs.stored, ?_⟩
    show HooksDone hooks { s with phase := s.phase, left := left, stopped := _ }
    rw [HooksDone, hphase]
    exact ⟨filter_done hdone.1, hdone.2⟩
  case h_2 => cases hstep

theorem kept_step (hs : Kept hooks s) (hstep : step hooks registry s e = some s') :
    Kept hooks s' := by
  cases e with
  | request caller request => exact kept_request hs hstep
  | look caller => exact kept_look hs hstep
  | create caller inst =>
    simp only [step] at hstep
    split at hstep
    · cases hstep
      exact hs.moveTo caller (by simp)
    · cases hstep
  | store caller => exact kept_store hs hstep
  | answer caller => exact kept_answer hs hstep
  | startup => exact kept_startup hs hstep
  | startHook => exact kept_startHook hs hstep
  | serve =>
    simp only [step] at hstep
    split_ifs at hstep with hphase
    cases hstep
    have hdone := hs.hooks
    rw [HooksDone, hphase.1, hphase.2] at hdone
    exact ⟨hs.returned, hs.stored, by simpa using hdone.1, hdone.2⟩
  | use inst =>
    simp only [step] at hstep
    split_ifs at hstep
    cases hstep
    exact hs
  | shutdown => exact kept_shutdown hs hstep
  | stopHook => exact kept_stopHook hs hstep
  | exit =>
    simp only [step] at hstep
    split_ifs at hstep
    cases hstep
    exact ⟨hs.returned, hs.stored, trivial⟩

/-- A step is lawful exactly if what it uses, or what was returned before it, is listed. -/
theorem lawful_iff_listed (hs : Kept hooks s) (hstep : step hooks registry s e = some s') :
    Lawful hooks s e s' ↔ Listed hooks s e s' := by
  have hs' := kept_step hs hstep
  have hsame : ∀ key inst inst', (key, inst) ∈ s'.returned → (key, inst') ∈ s'.returned →
      inst = inst' := by
    intro key inst inst' h h'
    exact Option.some.inj ((hs'.returned key inst h).symm.trans (hs'.returned key inst' h'))
  cases e with
  | use inst =>
    simp only [step] at hstep
    split_ifs at hstep with hphase
    have hdone := hs.hooks
    rw [HooksDone, hphase.1] at hdone
    have hcount (hhook : hooks.startup inst = true) :
        s.started.count inst = s.startList.count inst := by
      rw [← hdone.1, List.count_filter hhook]
    constructor
    · intro h hhook
      rw [← hcount hhook]
      exact h.started inst rfl hhook
    · intro h
      refine ⟨hsame, ?_, by simp⟩
      rintro inst' ⟨⟩ hhook
      rw [hcount hhook]
      exact h hhook
  | exit =>
    simp only [step] at hstep
    split_ifs at hstep with hphase
    have hdone := hs.hooks
    rw [HooksDone, hphase.1, hphase.2] at hdone
    have hstopped : s.stopList.filter hooks.shutdown = s.stopped := by simpa using hdone.1
    have hcount {inst : I} (hhook : hooks.shutdown inst = true) :
        s.stopped.count inst = s.stopList.count inst := by
      rw [← hstopped, List.count_filter hhook]
    constructor
    · intro h inst hinst hhook
      rw [← hcount hhook]
      exact (h.stopped rfl inst hinst hhook).le
    · intro h
      refine ⟨hsame, by simp, fun _ inst hinst hhook => ?_⟩
      have hpos := List.count_pos_iff.mpr (hdone.2 inst hinst)
      rw [hcount hhook]
      exact le_antisymm (h inst hinst hhook) hpos
  | request _ _ | look _ | create _ _ | store _ | answer _ | startup | startHook | serve
  | shutdown | stopHook =>
    exact iff_of_true ⟨hsame, by simp, by simp⟩ trivial

/-- Over any interleaving of calls, hooks and uses the life cycle keeps its promises exactly if
what requests use was listed by `startup_all`, under one key, and nothing that was returned is
listed twice by `shutdown_all`. -/
theorem lifecycle_iff (hooks : PluginHooks I) (registry : PluginRegistry)
    (events : List (LifecycleEvent I)) :
    EveryStep (step hooks registry) (Lawful hooks) {} events ↔
      EveryStep (step hooks registry) (Listed hooks) {} events :=
  everyStep_congr (I := Kept hooks)
    (fun _ _ _ hs hstep => ⟨lawful_iff_listed hs hstep, fun _ => kept_step hs hstep⟩) kept_init

section Sample

def allHooks : PluginHooks ℕ := ⟨fun _ => true, fun _ => true⟩

def sqliteRegistry : PluginRegistry := ⟨"lite", [("vector_store", "sqlite")]⟩

/-- The store of a knowledge base is asked for while requests are served. -/
def lateEvents : List (LifecycleEvent ℕ) :=
  [.startup, .serve, .request 0 (.resolveFromKb "vector_store" {} "kb"), .look 0, .create 0 7,
    .store 0, .answer 0]

theorem isSome_run_lateEvents :
    (run (step allHooks sqliteRegistry) {} lateEvents).isSome = true := by decide

def lateWorld : PluginWorld ℕ :=
  (run (step allHooks sqliteRegistry) {} lateEvents).get isSome_run_lateEvents

/-- It is used without its startup hook. -/
theorem not_lawful_lateEvents :
    ¬ EveryStep (step allHooks sqliteRegistry) (Lawful allHooks) {} (lateEvents ++ [.use 7]) := by
  intro h
  have hrun : run (step allHooks sqliteRegistry) {} lateEvents = some lateWorld :=
    (Option.some_get _).symm
  have hused : lateWorld.phase = .serving ∧ 7 ∈ lateWorld.returned.map Prod.snd := by decide
  have hstep : step allHooks sqliteRegistry lateWorld (.use 7) = some lateWorld := by
    rw [step, if_pos hused]
  have hcount := ((everyStep_cons hstep).mp (h.of_append hrun)).1.started 7 rfl rfl
  revert hcount
  decide

end Sample

end PluginWorld

end Ragx
