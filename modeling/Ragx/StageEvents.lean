import Ragx.AgenticBudget
import Ragx.ChatCompletions
import Ragx.Simulations

/-!
# The events of the agentic stages

The orchestrator of the application puts an event into its queue whenever a stage of a run starts
or ends, and all runs share the queue, under one trace id. The main result is what the events of a
run are, however the runs interleave: the first part of a script that is the same for all runs,
up to the stage that a run is in or has failed in, and the whole of it exactly for a run with a
result of its own.
-/
namespace Ragx

/-! ## Events -/

inductive PipelineStage where
  | planner
  | executor
  | synthesis
  | verifier
deriving DecidableEq

def PipelineStage.value : PipelineStage → String
  | .planner => "planner"
  | .executor => "executor"
  | .synthesis => "synthesis"
  | .verifier => "verifier"

def TokenUsage.modelDump (u : TokenUsage) : Json :=
  .obj [("prompt_tokens", .num u.promptTokens), ("completion_tokens", .num u.completionTokens),
    ("total", .num u.total), ("estimated", .bool u.estimated)]

inductive StageEvent where
  | stageStart (stage : PipelineStage)
  | stageEnd (stage : PipelineStage) (durationMs : ℚ) (budgetUsed : ℕ)
  /-- The ids of the tasks, with their queries. -/
  | plan (tasks : List (String × String)) (branch : String)
  | taskUpdate (taskId status : String) (subAnswer : Option String)
      (citations : Option (List Citation))
  | synthesis (draft : String) (citations : List Citation)
  | done (mode : QueryMode) (degraded : Bool) (usage : TokenUsage) (costUsd : ℚ)

namespace StageEvent

def type : StageEvent → String
  | .stageStart _ => "stage_start"
  | .stageEnd _ _ _ => "stage_end"
  | .plan _ _ => "plan"
  | .taskUpdate _ _ _ _ => "task_update"
  | .synthesis _ _ => "synthesis"
  | .done _ _ _ _ => "done"

def payload (traceId : String) : StageEvent → List (String × Json)
  | .stageStart stage => [("stage", .str stage.value)]
  | .stageEnd stage durationMs budgetUsed =>
    [("stage", .str stage.value), ("duration_ms", .num durationMs),
      ("budget_used", .num budgetUsed)]
  | .plan tasks branch =>
    [("tasks", .arr (tasks.map fun task =>
        .obj [("task_id", .str task.1), ("seed_query", .str task.2)])),
      ("branch", .str branch)]
  | .taskUpdate taskId status subAnswer citations =>
    [("task_id", .str taskId), ("status", .str status)] ++
      (subAnswer.toList.map fun answer => ("sub_answer", .str answer)) ++
      citations.toList.map fun cs => ("citations", .arr (cs.map Citation.modelDump))
  | .synthesis draft citations =>
    [("draft", .str draft), ("citations", .arr (citations.map Citation.modelDump))]
  | .done mode degraded usage costUsd =>
    [("mode", .str mode.value), ("degraded", .bool degraded),
      ("usage", usage.modelDump), ("cost_usd", .num costUsd), ("trace_id", .str traceId)]

/-- `SSEEmitter.emit`: what is put into the queue. A member of the payload overwrites one of the
same name. -/
def emit (traceId ts : String) (event : StageEvent) : Json :=
  .obj (OrderedDict.ofList ([("type", .str event.type), ("trace_id", .str traceId),
    ("ts", .str ts)] ++ event.payload traceId)).entries

end StageEvent

/-! ## Runs of one orchestrator -/

/-- What the clocks say, and the ids that are drawn, in one step. -/
structure StepReadings where
  durationMs : PipelineStage → ℚ
  taskId : ℕ → String
  ts : ℕ → String

structure OrchestratorEvent where
  r : ℕ
  event : RunEvent
  readings : StepReadings

structure OrchestratorRun where
  phase : RunPhase := .created
  budgetUsed : ℕ := 0
  cited : List RetrievalHit := []
  degraded : Bool := false

/-- The counter is that of the executor. -/
structure SharedOrchestrator where
  usageTotal : ℕ := 0
  runs : OrderedDict ℕ OrchestratorRun := .empty
  queue : List Json := []

/-- Behind the planner, for a run that has nothing to do. -/
def emptyEvents : List StageEvent :=
  [.stageStart .synthesis, .synthesis notFoundAnswer [], .stageEnd .synthesis 0 0,
    .done .agentic false {} 0]

def plannedIds (query : String) (plan : TaskPlan) (taskId : ℕ → String) : List (String × String) :=
  (plannedTasks query plan).mapIdx fun i task => (taskId i, task.seedQuery)

/-- The hits that the answers of the tasks stand on. -/
def citedBy (tasks : List TaskRun) : List RetrievalHit := ((gather tasks).getD []).flatMap (·.cited)

/-- What a step of a run emits that leads to a phase. -/
def OrchestratorRun.emits (query : String) (run : OrchestratorRun) (usageTotal : ℕ)
    (phase : RunPhase) (readings : StepReadings) : RunEvent → List StageEvent
  | .start => [.stageStart .planner]
  | .intent (.ok _) _ =>
    match phase with
    | .ended => .stageEnd .planner (readings.durationMs .planner) run.budgetUsed :: emptyEvents
    | _ => []
  | .plan (.ok plan) _ =>
    .stageEnd .planner (readings.durationMs .planner) run.budgetUsed ::
      if (plannedTasks query plan).isEmpty then emptyEvents
      else [.plan (plannedIds query plan readings.taskId) "answer", .stageStart .executor]
  | .gathered =>
    match run.phase, phase with
    | .executing _, .synthesising _ =>
      [.stageEnd .executor (readings.durationMs .executor) (run.budgetUsed + usageTotal),
        .stageStart .synthesis]
    | .executing tasks, .verifying =>
      [.stageEnd .executor (readings.durationMs .executor) (run.budgetUsed + usageTotal),
        .stageStart .synthesis,
        .synthesis notFoundAnswer ((citedBy tasks).map Citation.ofHit),
        .stageEnd .synthesis (readings.durationMs .synthesis) (run.budgetUsed + usageTotal),
        .stageStart .verifier]
    | _, _ => []
  | .synthesised (.ok resp) =>
    [.synthesis resp.text (run.cited.map Citation.ofHit),
      .stageEnd .synthesis (readings.durationMs .synthesis) run.budgetUsed, .stageStart .verifier]
  | .verified (.ok verdict) _ =>
    .stageEnd .verifier (readings.durationMs .verifier) run.budgetUsed ::
      if verdict.passed then [.done .agentic false {} 0] else []
  | _ => []

/-- The run itself after the step. -/
def OrchestratorRun.next (run : OrchestratorRun) (usageTotal : ℕ) (e : RunEvent)
    (phase : RunPhase) : OrchestratorRun where
  phase
  budgetUsed := match e, phase with
    | .gathered, .synthesising _ | .gathered, .verifying => run.budgetUsed + usageTotal
    | _, _ => run.budgetUsed
  cited := match e, run.phase with
    | .gathered, .executing tasks => citedBy tasks
    | _, _ => run.cited
  degraded := match phase with
    | .degrading => true
    | _ => run.degraded

namespace SharedOrchestrator

variable (setup : ℕ → AgenticSetup) (traceId : String)

def runOf (o : SharedOrchestrator) (r : ℕ) : OrchestratorRun := (o.runs.get? r).getD {}

/-- Where the event leads its run. -/
def nextPhase (o : SharedOrchestrator) (e : OrchestratorEvent) : Option RunPhase :=
  (setup e.r).nextPhase { phase := (o.runOf e.r).phase, budgetUsed := (o.runOf e.r).budgetUsed
                          ledger := .init (setup e.r).budgetCap } e.event

/-- What is emitted on the way to a phase. -/
def emitted (o : SharedOrchestrator) (e : OrchestratorEvent) (phase : RunPhase) :
    List StageEvent :=
  (o.runOf e.r).emits (setup e.r).query o.usageTotal phase e.readings e.event

def step (o : SharedOrchestrator) (e : OrchestratorEvent) : Option SharedOrchestrator := do
  let phase ← o.nextPhase setup e
  return {
    usageTotal := match e.event, phase with
      | .plan _ _, .executing _ => 0
      | .answered _ reply, _ => o.usageTotal + replyUsage reply
      | _, _ => o.usageTotal
    runs := o.runs.insert e.r ((o.runOf e.r).next o.usageTotal e.event phase)
    queue := o.queue ++ (o.emitted setup e phase).mapIdx fun i event =>
      event.emit traceId (e.readings.ts i) }

/-- The events that a step emits, with the run that they are about. -/
def logged (o : SharedOrchestrator) (e : OrchestratorEvent) (_ : SharedOrchestrator) :
    List (ℕ × StageEvent) :=
  match o.nextPhase setup e with
  | none => []
  | some phase => (o.emitted setup e phase).map (e.r, ·)

end SharedOrchestrator

/-- The events of one run. -/
def ownEvents (r : ℕ) (log : List (ℕ × StageEvent)) : List StageEvent :=
  (log.filter fun entry => entry.1 = r).map Prod.snd

/-! ## The script -/

/-- What is not the same for all runs. -/
structure RunFacts where
  durationMs : PipelineStage → ℚ
  plan : List (String × String) := []
  budgetUsed : ℕ := 0
  draft : String := ""
  citations : List Citation := []

namespace RunFacts

variable (f : RunFacts)

/-- The events of a run that goes through all the stages. -/
def script : List StageEvent := [
  .stageStart .planner,
  .stageEnd .planner (f.durationMs .planner) 0,
  .plan f.plan "answer",
  .stageStart .executor,
  .stageEnd .executor (f.durationMs .executor) f.budgetUsed,
  .stageStart .synthesis,
  .synthesis f.draft f.citations,
  .stageEnd .synthesis (f.durationMs .synthesis) f.budgetUsed,
  .stageStart .verifier,
  .stageEnd .verifier (f.durationMs .verifier) f.budgetUsed,
  .done .agentic false {} 0]

/-- The events of a run without tasks. -/
def emptyScript : List StageEvent :=
  .stageStart .planner :: .stageEnd .planner (f.durationMs .planner) 0 :: emptyEvents

/-- The events of a run that has been degraded: it stops in a stage, or with a verdict against
the answer. -/
def Stopped (log : List StageEvent) : Prop := ∃ n ∈ [1, 4, 6, 9, 10], log = f.script.take n

end RunFacts

/-- What a run has emitted, phase by phase. -/
def OrchestratorRun.Logged (run : OrchestratorRun) (log : List StageEvent) : Prop :=
  ∃ f : RunFacts, match run.phase with
    | .created => run.degraded = false ∧ run.budgetUsed = 0 ∧ log = []
    | .deciding | .planning => run.degraded = false ∧ run.budgetUsed = 0 ∧ log = f.script.take 1
    | .executing _ => run.degraded = false ∧ run.budgetUsed = 0 ∧ log = f.script.take 4
    | .synthesising _ => run.degraded = false ∧ run.budgetUsed = f.budgetUsed ∧
        run.cited.map Citation.ofHit = f.citations ∧ log = f.script.take 6
    | .verifying => run.degraded = false ∧ run.budgetUsed = f.budgetUsed ∧
        run.cited.map Citation.ofHit = f.citations ∧ log = f.script.take 9
    | .degrading | .fallingBack => run.degraded = true ∧ f.Stopped log
    | .ended => (run.degraded = true ∧ f.Stopped log) ∨
        (run.degraded = false ∧ (log = f.script ∨ log = f.emptyScript))

section Steps

variable {setup : AgenticSetup} {run : OrchestratorRun} {log : List StageEvent} {phase : RunPhase}
  {ledger : CallLedger RunCall}

/-- What failed has left its run where it was. -/
theorem OrchestratorRun.logged_degraded (f : RunFacts) {n : ℕ} (hn : n ∈ [1, 4, 6, 9, 10])
    {run' : OrchestratorRun} (hphase : run'.phase = .degrading) (hdegraded : run'.degraded = true) :
    run'.Logged (f.script.take n) := by
  refine ⟨f, ?_⟩
  rw [hphase]
  exact ⟨hdegraded, n, hn, rfl⟩

/-- A step keeps to the script. -/
theorem OrchestratorRun.logged_next (h : run.Logged log) {e : RunEvent}
    (hphase : setup.nextPhase { phase := run.phase, budgetUsed := run.budgetUsed, ledger } e =
      some phase) (usageTotal : ℕ) (readings : StepReadings) :
    (run.next usageTotal e phase).Logged
      (log ++ run.emits setup.query usageTotal phase readings e) := by
  obtain ⟨reached, used, cited, degraded⟩ := run
  obtain ⟨f, h⟩ := h
  unfold AgenticSetup.nextPhase at hphase
  cases e with
  | start =>
    dsimp only at h hphase
    split at hphase
    · cases hphase
      obtain ⟨hdegraded, hused, rfl⟩ := h
      exact ⟨f, hdegraded, hused, rfl⟩
    · cases hphase
  | intent reply usage =>
    dsimp only at h hphase
    split at hphase
    · cases hphase
      obtain ⟨-, -, rfl⟩ := h
      exact logged_degraded f (n := 1) (by simp) rfl rfl
    · obtain ⟨hdegraded, rfl, rfl⟩ := h
      split_ifs at hphase
      · cases hphase
        exact ⟨{ f with durationMs := readings.durationMs }, .inr ⟨hdegraded, .inr rfl⟩⟩
      · cases hphase
        exact ⟨f, hdegraded, rfl, rfl⟩
    · cases hphase
  | plan reply usage =>
    dsimp only at h hphase
    split at hphase
    · cases hphase
      obtain ⟨-, -, rfl⟩ := h
      exact logged_degraded f (n := 1) (by simp) rfl rfl
    · rename_i plan
      obtain ⟨hdegraded, rfl, rfl⟩ := h
      let f' : RunFacts := { f with
        durationMs := readings.durationMs, plan := plannedIds setup.query plan readings.taskId }
      simp only [emits]
      split_ifs at hphase with hempty hcap
      · cases hphase
        rw [if_pos hempty]
        exact ⟨f', .inr ⟨hdegraded, .inr rfl⟩⟩
      · cases hphase
        rw [if_neg hempty]
        exact logged_degraded f' (n := 4) (by simp) rfl rfl
      · cases hphase
        rw [if_neg hempty]
        exact ⟨f', hdegraded, rfl, rfl⟩
    · cases hphase
  | retrieved i =>
    dsimp only at h hphase
    split at hphase
    · obtain ⟨t, t', -, -, rfl⟩ := resumeTask_eq_some hphase
      exact ⟨f, h.1, h.2.1, (List.append_nil log).trans h.2.2⟩
    · cases hphase
  | rewritten i reply usage =>
    dsimp only at h hphase
    split at hphase
    · obtain ⟨t, t', -, -, rfl⟩ := resumeTask_eq_some hphase
      exact ⟨f, h.1, h.2.1, (List.append_nil log).trans h.2.2⟩
    · cases hphase
  | answered i reply =>
    dsimp only at h hphase
    split at hphase
    · obtain ⟨t, t', -, -, rfl⟩ := resumeTask_eq_some hphase
      exact ⟨f, h.1, h.2.1, (List.append_nil log).trans h.2.2⟩
    · cases hphase
  | gathered =>
    dsimp only at h hphase
    split at hphase
    · rename_i tasks
      obtain ⟨hdegraded, rfl, rfl⟩ := h
      obtain ⟨results, -, hphase⟩ := Option.bind_eq_some_iff.mp hphase
      split at hphase
      · cases hphase
        exact logged_degraded f (n := 4) (by simp) rfl rfl
      · let f' : RunFacts := { f with
          durationMs := fun stage => match stage with
            | .planner => f.durationMs .planner
            | stage => readings.durationMs stage
          budgetUsed := 0 + usageTotal
          draft := notFoundAnswer
          citations := (citedBy tasks).map Citation.ofHit }
        split_ifs at hphase
        · cases hphase
          exact ⟨f', hdegraded, rfl, rfl, rfl⟩
        · cases hphase
          exact ⟨f', hdegraded, rfl, rfl, rfl⟩
    · cases hphase
  | synthesised reply =>
    dsimp only at h hphase
    split at hphase
    · cases hphase
      obtain ⟨-, -, -, rfl⟩ := h
      exact logged_degraded f (n := 6) (by simp) rfl rfl
    · rename_i resp
      cases hphase
      obtain ⟨hdegraded, rfl, hcited, rfl⟩ := h
      let f' : RunFacts := { f with
        durationMs := fun stage => match stage with
          | .synthesis => readings.durationMs .synthesis
          | stage => f.durationMs stage
        draft := resp.text }
      refine ⟨f', hdegraded, rfl, hcited, ?_⟩
      dsimp only [emits]
      rw [hcited]
      rfl
    · cases hphase
  | verified reply usage =>
    dsimp only at h hphase
    split at hphase
    · cases hphase
      obtain ⟨-, -, -, rfl⟩ := h
      exact logged_degraded f (n := 9) (by simp) rfl rfl
    · rename_i verdict
      obtain ⟨hdegraded, rfl, -, rfl⟩ := h
      let f' : RunFacts := { f with
        durationMs := fun stage => match stage with
          | .verifier => readings.durationMs .verifier
          | stage => f.durationMs stage }
      simp only [emits]
      split_ifs at hphase with hpassed
      · cases hphase
        rw [if_pos hpassed]
        exact ⟨f', .inr ⟨hdegraded, .inl rfl⟩⟩
      · cases hphase
        rw [if_neg hpassed]
        exact logged_degraded f' (n := 10) (by simp) rfl rfl
    · cases hphase
  | degrade =>
    dsimp only at h hphase
    split at hphase
    · obtain ⟨hdegraded, n, hn, rfl⟩ := h
      have hstopped : f.Stopped (f.script.take n ++ []) := ⟨n, hn, List.append_nil _⟩
      split_ifs at hphase
      · cases hphase
        exact ⟨f, hdegraded, hstopped⟩
      · cases hphase
        exact ⟨f, .inl ⟨hdegraded, hstopped⟩⟩
    · cases hphase
  | fellBack reply =>
    dsimp only at h hphase
    split at hphase
    · cases hphase
      obtain ⟨hdegraded, n, hn, rfl⟩ := h
      exact ⟨f, .inl ⟨hdegraded, n, hn, List.append_nil _⟩⟩
    · cases hphase

end Steps

theorem OrchestratorRun.type_ne_of_mem_take {f : RunFacts} {n : ℕ} (hn : n ≤ 10)
    {event : StageEvent} (h : event ∈ f.script.take n) : event.type ≠ "done" := by
  have htake : event ∈ f.script.take 10 := by
    rw [← List.take_append_drop n (f.script.take 10), List.take_take, min_eq_left hn]
    exact List.mem_append_left _ h
  have hall : ∀ event ∈ f.script.take 10, event.type ≠ "done" := by
    simp [RunFacts.script, StageEvent.type]
  exact hall event htake

/-- The last event of the script is there exactly for a run with a result of its own. -/
theorem OrchestratorRun.done_iff {run : OrchestratorRun} {log : List StageEvent}
    (h : run.Logged log) : (∃ event ∈ log, event.type = "done") ↔
      run.phase = .ended ∧ run.degraded = false := by
  obtain ⟨f, h⟩ := h
  have hpart : ∀ n ≤ 10, log = f.script.take n →
      ¬∃ event ∈ log, event.type = "done" := by
    rintro n hn rfl ⟨event, hmem, htype⟩
    exact type_ne_of_mem_take hn hmem htype
  have hstopped : f.Stopped log → ¬∃ event ∈ log, event.type = "done" := by
    rintro ⟨n, hn, hlog⟩
    refine hpart n ?_ hlog
    revert hn
    simp only [List.mem_cons, List.not_mem_nil, or_false]
    omega
  cases hphase : run.phase with
  | created =>
    rw [hphase] at h
    exact iff_of_false (hpart 0 (by omega) h.2.2) (by simp)
  | deciding | planning =>
    rw [hphase] at h
    exact iff_of_false (hpart 1 (by omega) h.2.2) (by simp)
  | executing =>
    rw [hphase] at h
    exact iff_of_false (hpart 4 (by omega) h.2.2) (by simp)
  | synthesising =>
    rw [hphase] at h
    exact iff_of_false (hpart 6 (by omega) h.2.2.2) (by simp)
  | verifying =>
    rw [hphase] at h
    exact iff_of_false (hpart 9 (by omega) h.2.2.2) (by simp)
  | degrading | fallingBack =>
    rw [hphase] at h
    exact iff_of_false (hstopped h.2) (by simp)
  | ended =>
    rw [hphase] at h
    obtain ⟨hdegraded, hlog⟩ | ⟨hdegraded, rfl | rfl⟩ := h
    · exact iff_of_false (hstopped hlog) (by simp [hdegraded])
    · exact iff_of_true ⟨.done .agentic false {} 0, by simp [RunFacts.script], rfl⟩
        ⟨rfl, hdegraded⟩
    · exact iff_of_true
        ⟨.done .agentic false {} 0, by simp [RunFacts.emptyScript, emptyEvents], rfl⟩
        ⟨rfl, hdegraded⟩

/-! ## All runs of an orchestrator -/

theorem ownEvents_append (r r' : ℕ) (log : List (ℕ × StageEvent)) (events : List StageEvent) :
    ownEvents r (log ++ events.map (r', ·)) =
      ownEvents r log ++ if r' = r then events else [] := by
  rw [ownEvents, List.filter_append, List.map_append, ownEvents]
  congr 1
  split_ifs with h
  · simp [List.filter_map, Function.comp_def, h]
  · simp [List.filter_map, Function.comp_def, h]

namespace SharedOrchestrator

variable {setup : ℕ → AgenticSetup} {traceId : String}

/-- What the queue holds are the events, and each run has its own in order. -/
def Kept (traceId : String) (o : SharedOrchestrator) (log : List (ℕ × StageEvent)) : Prop :=
  (∀ r, (o.runOf r).Logged (ownEvents r log)) ∧
    List.Forall₂ (fun text entry => ∃ ts, text = entry.2.emit traceId ts) o.queue log

theorem kept_step {o o' : SharedOrchestrator} {e : OrchestratorEvent}
    {log : List (ℕ × StageEvent)} (h : Kept traceId o log)
    (hstep : step setup traceId o e = some o') :
    Kept traceId o' (log ++ logged setup o e o') := by
  obtain ⟨hlogged, hqueue⟩ := h
  obtain ⟨phase, hphase, ho⟩ := Option.bind_eq_some_iff.mp hstep
  cases ho
  have hout : ∀ o', logged setup o e o' = (o.emitted setup e phase).map (e.r, ·) := by
    intro o'
    simp only [logged, hphase]
  rw [hout]
  refine ⟨fun r => ?_, ?_⟩
  · rw [ownEvents_append, runOf, OrderedDict.get?_insert]
    split_ifs with hr
    · subst hr
      exact OrchestratorRun.logged_next (hlogged e.r) hphase o.usageTotal e.readings
    · rw [List.append_nil]
      exact hlogged r
  · refine List.rel_append hqueue ?_
    rw [List.forall₂_map_right_iff]
    generalize o.emitted setup e phase = events
    rw [List.forall₂_iff_get]
    refine ⟨by simp, fun i hi hi' => ⟨e.readings.ts i, ?_⟩⟩
    simp

def quietSetup (_ : ℕ) : AgenticSetup where
  budgetCap := 100
  prepare _ _ := .ok none
  fallbackCall := none
  query := "q"
  kbId := "kb_1"

def quietReadings : StepReadings := ⟨fun _ => 1, fun _ => "task_1", fun _ => "2026-01-01T00:00:00"⟩

def quietEvents : List OrchestratorEvent := [
  ⟨0, .start, quietReadings⟩, ⟨1, .start, quietReadings⟩,
  ⟨1, .intent (.error (.foreign "timed out")) 0, quietReadings⟩,
  ⟨0, .intent (.ok { branch := "empty" }) 5, quietReadings⟩, ⟨1, .degrade, quietReadings⟩]

end SharedOrchestrator

end Ragx
