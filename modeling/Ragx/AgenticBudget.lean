import Ragx.AgenticTasks
import Ragx.CallLedger
import Ragx.EventRuns

/-!
# The token budget of an agentic run

A run asks its planner, runs its sub-tasks side by side, puts their answers together and has the
result verified, and falls back to the standard service if anything fails. The budget is
checked once, before the sub-tasks. The main result says when the run keeps to its cap.
-/
namespace Ragx

/-! ## The run -/

/-- The calls of a run; a sub-task makes one of each kind at most. -/
inductive RunCall where
  | intent
  | plan
  | rewrite (i : ℕ)
  | answer (i : ℕ)
  | synthesis
  | verify
  | fallback
deriving DecidableEq

/-- Where a run is: in front of its planner, at a call, among its tasks, or on its way to the
standard service. -/
inductive RunPhase where
  | created
  | deciding
  | planning
  | executing (tasks : List TaskRun)
  | synthesising (valid : List String)
  | verifying
  | degrading
  | fallingBack
  | ended

/-- What a run works with. The standard service may find nothing and make no call. -/
structure AgenticSetup where
  budgetCap : ℕ
  prepare : Prepare
  fallbackCall : Option ChatRequest
  query : String
  kbId : String

structure BudgetedRun where
  phase : RunPhase := .created
  /-- `state["budget_used"]`. -/
  budgetUsed : ℕ := 0
  /-- The counter of the executor. -/
  usageTotal : ℕ := 0
  ledger : CallLedger RunCall

/-- The replies come with the usage that their providers meter; a chat reports its own. -/
inductive RunEvent where
  | start
  | intent (reply : Except Exc IntentDecision) (usage : ℕ)
  | plan (reply : Except Exc TaskPlan) (usage : ℕ)
  | retrieved (i : ℕ)
  | rewritten (i : ℕ) (reply : Except Exc String) (usage : ℕ)
  | answered (i : ℕ) (reply : Except Exc ChatResponse)
  | gathered
  | synthesised (reply : Except Exc ChatResponse)
  | verified (reply : Except Exc VerifyResult) (usage : ℕ)
  | degrade
  | fellBack (reply : Except Exc ChatResponse)

/-- The sub-tasks of a plan: at most eight, without empty queries. -/
def plannedTasks (query : String) (plan : TaskPlan) : List Task :=
  let seeds := (plan.tasks.take maxTasks).map fun seed => seed.getD query
  ((seeds.filter (· ≠ "")).map fun seed => { seedQuery := seed }).take maxTasks

/-- The planner's tasks are those of the plan that it gets. -/
theorem answerPlan_eq_plannedTasks (llm : Llm) (query topicsContext : String)
    (topics : List String) (h : topicsContext = if topics.isEmpty then "" else
      "\nAvailable topics: " ++ ", ".intercalate topics) :
    (answerPlan llm query topics).map (·.take maxTasks) =
      ((llm.structuredPlan (planRequest (answerPlanPrompt topicsContext) query)).mapError
        (agenticPlanError "answer plan failed")).map (plannedTasks query) := by
  subst h
  unfold answerPlan
  dsimp only
  cases llm.structuredPlan _ <;> rfl

/-- The answers that are put together. -/
def validAnswers (results : List SubAnswer) : List String :=
  (results.map (·.answer)).filter fun a => a ≠ "" && a ≠ noData

/-- The call that the task at a place waits for. -/
def TaskRun.pendingAt (i : ℕ) (t : TaskRun) : List RunCall :=
  match t.stage with
  | .rewriting _ => [.rewrite i]
  | .answering _ _ => [.answer i]
  | _ => []

/-- The calls in flight. -/
def RunPhase.pending : RunPhase → List RunCall
  | .deciding => [.intent]
  | .planning => [.plan]
  | .executing tasks => (tasks.mapIdx TaskRun.pendingAt).flatten
  | .synthesising _ => [.synthesis]
  | .verifying => [.verify]
  | .fallingBack => [.fallback]
  | .created | .degrading | .ended => []

/-- The call that an event is the reply to, with its usage. -/
def RunEvent.settles : RunEvent → Option (RunCall × ℕ)
  | .intent _ usage => some (.intent, usage)
  | .plan _ usage => some (.plan, usage)
  | .rewritten i _ usage => some (.rewrite i, usage)
  | .answered i reply => some (.answer i, replyUsage reply)
  | .synthesised reply => some (.synthesis, replyUsage reply)
  | .verified _ usage => some (.verify, usage)
  | .fellBack reply => some (.fallback, replyUsage reply)
  | .start | .retrieved _ | .gathered | .degrade => none

/-- A task goes on. -/
def resumeTask (tasks : List TaskRun) (i : ℕ) (next : TaskRun → Option TaskRun) :
    Option RunPhase := do
  let t ← tasks[i]?
  let t ← next t
  return .executing (tasks.set i t)

namespace AgenticSetup

variable (setup : AgenticSetup)

/-- Where an event leads. Whatever fails leads to the standard service; an empty plan and a
verified answer end the run. -/
def nextPhase (run : BudgetedRun) : RunEvent → Option RunPhase
  | .start =>
    match run.phase with
    | .created => some .deciding
    | _ => none
  | .intent reply _ =>
    match run.phase, reply with
    | .deciding, .error _ => some .degrading
    | .deciding, .ok decision => some (if decision.branch = "empty" then .ended else .planning)
    | _, _ => none
  | .plan reply _ =>
    match run.phase, reply with
    | .planning, .error _ => some .degrading
    | .planning, .ok plan =>
      let tasks := plannedTasks setup.query plan
      if tasks.isEmpty then some .ended
      -- the one check of the budget, in front of the executor
      else if setup.budgetCap ≤ run.budgetUsed then some .degrading
      else some (.executing (tasks.map .start))
    | _, _ => none
  | .retrieved i =>
    match run.phase with
    | .executing tasks => resumeTask tasks i (·.retrieved setup.prepare setup.kbId)
    | _ => none
  | .rewritten i reply _ =>
    match run.phase with
    | .executing tasks => resumeTask tasks i (·.rewritten reply)
    | _ => none
  | .answered i reply =>
    match run.phase with
    | .executing tasks => resumeTask tasks i (·.answered reply)
    | _ => none
  | .gathered =>
    match run.phase with
    | .executing tasks => do
      match tasksResult (← gather tasks) with
      | .error _ => some .degrading
      | .ok results =>
        if (validAnswers results).isEmpty then some .verifying
        else some (.synthesising (validAnswers results))
    | _ => none
  | .synthesised reply =>
    match run.phase, reply with
    | .synthesising _, .error _ => some .degrading
    | .synthesising _, .ok _ => some .verifying
    | _, _ => none
  | .verified reply _ =>
    match run.phase, reply with
    | .verifying, .error _ => some .degrading
    | .verifying, .ok verdict => some (if verdict.passed then .ended else .degrading)
    | _, _ => none
  | .degrade =>
    match run.phase with
    | .degrading => some (if setup.fallbackCall.isSome then .fallingBack else .ended)
    | _ => none
  | .fellBack _ =>
    match run.phase with
    | .fallingBack => some .ended
    | _ => none

/-- The executor starts its counter with the tasks, counts the answers, and adds it to the
budget when it has results; the planner, the rewrites and the later calls are never counted. -/
def step (run : BudgetedRun) (e : RunEvent) : Option BudgetedRun := do
  let phase ← setup.nextPhase run e
  return {
    phase
    usageTotal := match e, phase with
      | .plan _ _, .executing _ => 0
      | .answered _ reply, _ => run.usageTotal + replyUsage reply
      | _, _ => run.usageTotal
    budgetUsed := match e, phase with
      | .gathered, .synthesising _ | .gathered, .verifying => run.budgetUsed + run.usageTotal
      | _, _ => run.budgetUsed
    ledger := match e.settles with
      | none => run.ledger
      | some (k, usage) => run.ledger.settle setup.budgetCap run.phase.pending k usage }

def begin : BudgetedRun where
  ledger := .init setup.budgetCap

end AgenticSetup

/-! ## Keeping to the cap -/

/-- A sub-task has answered. -/
def RunPhase.HasSubAnswer : RunPhase → Prop
  | .executing tasks => ∃ t ∈ tasks, ∃ sub, t.result? = some sub ∧ validAnswers [sub] ≠ []
  | _ => False

namespace AgenticSetup

variable (setup : AgenticSetup)

/-- What is spent exceeds the cap by no more than the calls have used that were in flight when
it was reached. At the cap, and with an answer of a sub-task, no sub-task makes another call, and
the answers that there are get put together. -/
structure KeepsToCap (run : BudgetedRun) (e : RunEvent) (run' : BudgetedRun) : Prop where
  spent_le : run'.ledger.spent ≤ setup.budgetCap + run'.ledger.overrun
  skips : setup.budgetCap ≤ run.ledger.spent → run.phase.HasSubAnswer →
    ∀ i, (.rewrite i ∈ run'.phase.pending → .rewrite i ∈ run.phase.pending) ∧
      (.answer i ∈ run'.phase.pending → .answer i ∈ run.phase.pending)
  synthesises : e = .gathered → ∀ tasks results, run.phase = .executing tasks →
    gather tasks = some results → validAnswers results ≠ [] →
      run'.phase = .synthesising (validAnswers results)

/-- A step issues a call only if what is spent by then is below the cap. -/
def IssuesInBudget (run : BudgetedRun) (_ : RunEvent) (run' : BudgetedRun) : Prop :=
  setup.budgetCap ≤ run'.ledger.spent → run'.phase.pending ⊆ run.phase.pending

end AgenticSetup

/-! ## What a step keeps -/

theorem resumeTask_eq_some {tasks : List TaskRun} {i : ℕ} {next : TaskRun → Option TaskRun}
    {p : RunPhase} (h : resumeTask tasks i next = some p) :
    ∃ t t', tasks[i]? = some t ∧ next t = some t' ∧ p = .executing (tasks.set i t') := by
  obtain ⟨t, ht, h⟩ := Option.bind_eq_some_iff.mp h
  obtain ⟨t', ht', h⟩ := Option.bind_eq_some_iff.mp h
  cases h
  exact ⟨t, t', ht, ht', rfl⟩

theorem mem_pending_executing {tasks : List TaskRun} {i : ℕ} {t : TaskRun} {k : RunCall}
    (ht : tasks[i]? = some t) (hk : k ∈ t.pendingAt i) :
    k ∈ (RunPhase.executing tasks).pending := by
  obtain ⟨hi, hget⟩ := List.getElem?_eq_some_iff.mp ht
  subst hget
  exact List.mem_flatten.mpr ⟨_, List.mem_mapIdx.mpr ⟨i, hi, rfl⟩, hk⟩

/-- The tasks of a run mark their results. -/
def RunPhase.Sound : RunPhase → Prop
  | .executing tasks => ∀ t ∈ tasks, t.Sound
  | _ => True

theorem RunPhase.sound_of_resumeTask {tasks : List TaskRun} {i : ℕ}
    {next : TaskRun → Option TaskRun} {p : RunPhase} (hsound : ∀ t ∈ tasks, t.Sound)
    (h : resumeTask tasks i next = some p) (hnext : ∀ t t', next t = some t' → t'.Sound) :
    p.Sound := by
  obtain ⟨t, t', -, ht', rfl⟩ := resumeTask_eq_some h
  intro u hu
  obtain hu | rfl := List.mem_or_eq_of_mem_set hu
  · exact hsound u hu
  · exact hnext t u ht'

/-- Answers that can be put together keep the executor from failing. -/
theorem tasksResult_of_validAnswers {tasks : List TaskRun} {results : List SubAnswer}
    (hsound : ∀ t ∈ tasks, t.Sound) (hgather : gather tasks = some results)
    (hvalid : validAnswers results ≠ []) : tasksResult results = .ok results := by
  refine if_neg fun hall => hvalid (List.filter_eq_nil_iff.mpr fun a ha => ?_)
  obtain ⟨sub, hsub, rfl⟩ := List.mem_map.mp ha
  obtain ⟨t, ht, hresult⟩ := exists_of_mem_gather hgather hsub
  have hmissing := hsound t ht sub hresult (List.all_eq_true.mp hall sub hsub)
  simp [hmissing]

namespace AgenticSetup

variable {setup : AgenticSetup} {run run' : BudgetedRun} {e : RunEvent}

/-- Tasks start and go on sound; the other phases have none. -/
theorem sound_nextPhase {p : RunPhase} (hsound : run.phase.Sound)
    (h : setup.nextPhase run e = some p) : p.Sound := by
  cases p with
  | executing tasks' =>
    cases hphase : run.phase with
    | executing tasks =>
      rw [hphase] at hsound
      cases e with
      | retrieved i =>
        simp only [nextPhase, hphase] at h
        exact RunPhase.sound_of_resumeTask hsound h fun _ _ => TaskRun.sound_of_retrieved
      | rewritten i reply usage =>
        simp only [nextPhase, hphase] at h
        exact RunPhase.sound_of_resumeTask hsound h fun _ _ => TaskRun.sound_of_rewritten
      | answered i reply =>
        simp only [nextPhase, hphase] at h
        exact RunPhase.sound_of_resumeTask hsound h fun _ _ => TaskRun.sound_of_answered
      | gathered =>
        simp only [nextPhase, hphase] at h
        obtain ⟨results, -, h⟩ := Option.bind_eq_some_iff.mp h
        grind
      | _ => simp [nextPhase, hphase] at h
    | planning =>
      cases e with
      | plan reply usage =>
        simp only [nextPhase, hphase] at h
        cases reply with
        | error e => simp at h
        | ok plan =>
          simp only at h
          split_ifs at h
          · exact nomatch h
          · exact nomatch h
          · obtain rfl := RunPhase.executing.inj (Option.some.inj h)
            intro t ht
            obtain ⟨task, -, rfl⟩ := List.mem_map.mp ht
            exact TaskRun.sound_start task
      | _ => simp [nextPhase, hphase] at h
    | _ =>
      cases e <;> simp [nextPhase, hphase] at h <;> grind
  | _ => trivial

theorem step_eq_some (h : setup.step run e = some run') :
    ∃ p, setup.nextPhase run e = some p ∧ run'.phase = p ∧
      run'.ledger = match e.settles with
        | none => run.ledger
        | some (k, usage) => run.ledger.settle setup.budgetCap run.phase.pending k usage := by
  obtain ⟨p, hp, h⟩ := Option.bind_eq_some_iff.mp h
  cases h
  exact ⟨p, hp, rfl, rfl⟩

/-- A reply comes to a call in flight. -/
theorem mem_pending_of_settles {p : RunPhase} {k : RunCall} {usage : ℕ}
    (h : setup.nextPhase run e = some p) (hk : e.settles = some (k, usage)) :
    k ∈ run.phase.pending := by
  cases e with
  | start | retrieved | gathered | degrade => exact nomatch hk
  | intent | plan | synthesised | verified | fellBack =>
    cases hk
    cases hphase : run.phase <;> simp [nextPhase, hphase] at h
    exact List.mem_singleton_self _
  | rewritten i reply u =>
    cases hk
    cases hphase : run.phase <;> simp only [nextPhase, hphase, reduceCtorEq] at h
    obtain ⟨t, t', ht, hnext, -⟩ := resumeTask_eq_some h
    obtain ⟨req, hstage⟩ := TaskRun.stage_of_rewritten hnext
    refine mem_pending_executing ht ?_
    rw [TaskRun.pendingAt, hstage]
    exact List.mem_singleton_self _
  | answered i reply =>
    cases hk
    cases hphase : run.phase <;> simp only [nextPhase, hphase, reduceCtorEq] at h
    obtain ⟨t, t', ht, hnext, -⟩ := resumeTask_eq_some h
    obtain ⟨req, cited, hstage⟩ := TaskRun.stage_of_answered hnext
    refine mem_pending_executing ht ?_
    rw [TaskRun.pendingAt, hstage]
    exact List.mem_singleton_self _

theorem spent_le_step (h : setup.step run e = some run') :
    run.ledger.spent ≤ run'.ledger.spent := by
  obtain ⟨p, -, -, hledger⟩ := step_eq_some h
  rw [hledger]
  cases e.settles with
  | none => exact le_rfl
  | some reply => exact Nat.le_add_right _ _

/-- A call is settled first, and others are issued then. -/
theorem within_step (hwithin : run.ledger.Within setup.budgetCap run.phase.pending)
    (h : setup.step run e = some run') (hissues : setup.IssuesInBudget run e run') :
    run'.ledger.Within setup.budgetCap run'.phase.pending := by
  obtain ⟨p, hp, -, hledger⟩ := step_eq_some h
  have hsettled : run'.ledger.Within setup.budgetCap run.phase.pending := by
    rw [hledger]
    cases hk : e.settles with
    | none => exact hwithin
    | some reply => exact hwithin.settle (mem_pending_of_settles hp hk) reply.2
  exact hsettled.issue hissues

/-- The results with answers go into the synthesis, also at the cap. -/
theorem phase_of_gathered (hsound : run.phase.Sound) (h : setup.step run .gathered = some run')
    {tasks : List TaskRun} {results : List SubAnswer} (hphase : run.phase = .executing tasks)
    (hgather : gather tasks = some results) (hvalid : validAnswers results ≠ []) :
    run'.phase = .synthesising (validAnswers results) := by
  obtain ⟨p, hp, rfl, -⟩ := step_eq_some h
  rw [hphase] at hsound
  have hresult := tasksResult_of_validAnswers hsound hgather hvalid
  simp [nextPhase, hphase, hgather, hresult, hvalid] at hp
  exact hp.symm

end AgenticSetup

/-! ## A run of an application -/

/-- The run of an orchestrator. The standard service makes one call at most. -/
def AgenticOrchestrator.setup (o : AgenticOrchestrator) (s : Services) (query kbId : String) :
    AgenticSetup where
  budgetCap := o.budgetCap
  prepare := o.executor.prepare s
  fallbackCall := (o.standardFallback.standardCalls s query ((s.embedOne query).toOption.getD [])
    kbId o.traceId none).findSome? fun
      | .chat req => some req
      | _ => none
  query := query
  kbId := kbId

theorem prepare_soleRegistry (kbCfg : KBConfig) (kb query : String) :
    ∃ prepared,
      (agenticOrchestrator kbCfg (soleRegistry defaultChunk 1 emptyGraph)).executor.prepare
        (answeringServices plainSqlite 1) query kb = .ok (some prepared) := by
  have htokens : defaultChunk.tokenCount ≤ 4096 := by decide
  obtain ⟨h, hanswer, -⟩ :=
    answerFrom_soleRegistry kbCfg 1 emptyGraph plainSqlite kb query rfl htokens
  rw [TaskRun.answerFrom_eq] at hanswer
  cases hp : (agenticOrchestrator kbCfg (soleRegistry defaultChunk 1 emptyGraph)).executor.prepare
      (answeringServices plainSqlite 1) query kb with
  | error e => simp [hp, Except.bind] at hanswer
  | ok prepared =>
    cases prepared with
    | none => simp [hp, Except.bind] at hanswer
    | some prepared => exact ⟨prepared, rfl⟩

/-- A query of an application with one chunk. -/
def soleSetup (kbCfg : KBConfig) : AgenticSetup :=
  (agenticOrchestrator kbCfg (soleRegistry defaultChunk 1 emptyGraph)).setup
    (answeringServices plainSqlite 1) "question" "kb_a"

theorem prepare_soleSetup (kbCfg : KBConfig) :
    ∃ prepared, (soleSetup kbCfg).prepare "seed" (soleSetup kbCfg).kbId = .ok (some prepared) :=
  prepare_soleRegistry kbCfg "kb_a" "seed"

/-- A run with one task, in calls of 100 tokens. -/
def cheapRun : List RunEvent :=
  [.start, .intent (.ok { branch := "answer" }) 100, .plan (.ok { tasks := [some "seed"] }) 100,
    .retrieved 0, .answered 0 (answerOf 100), .gathered, .synthesised (answerOf 100),
    .verified (.ok { passed := true }) 100]

end Ragx
