import Mathlib.Logic.Relation
import Ragx.AgenticBudget

/-!
# Runs with the replies of one model

The orchestrator is a function of the model's replies, and a system that waits for them call by
call. With the replies of one model the system can come to the end that the function has:
it finishes where the function has a result, and degrades where it fails.
-/
namespace Ragx

/-- The sub-answers as the model gets them. -/
def combinedAnswers (valid : List String) : String :=
  "\n\n".intercalate (valid.mapIdx fun i a => s!"--- Sub-answer {i + 1} ---\n{a}")

theorem synthesise_eq (llm : Llm) (results : List SubAnswer) (query kbId : String) :
    synthesise llm (results.map (·.answer)) query kbId =
      if (validAnswers results).isEmpty then .ok notFoundAnswer
      else (llm.chat (synthesisRequest query (combinedAnswers (validAnswers results)) kbId)).map
        (·.text) := rfl

/-- Where the verification of an answer leads. -/
def verifiedPhase (llm : Llm) (query kbId answer : String) : RunPhase :=
  match llm.structuredVerify (verifyRequest answer query "" kbId) with
  | .ok verdict => if verdict.passed then .ended else .degrading
  | .error _ => .degrading

/-- Where the sub-answers lead. -/
def synthesisedPhase (llm : Llm) (query kbId : String) (subs : List SubAnswer) : RunPhase :=
  match synthesise llm (subs.map (·.answer)) query kbId with
  | .error _ => .degrading
  | .ok answer => verifiedPhase llm query kbId answer

/-- Where a result of the orchestrator leads. -/
def graphPhase (out : Except Exc QueryOutcome) : RunPhase :=
  match out with
  | .error _ => .degrading
  | .ok _ => .ended

namespace AgenticOrchestrator

variable (o : AgenticOrchestrator) (s : Services) (llm : Llm) (query kbId : String)

/-- The event brings the model's reply to the call that the run waits for. -/
def Replies (run : BudgetedRun) (e : RunEvent) : Prop :=
  match run.phase, e with
  | .deciding, .intent reply _ => reply = llm.structuredIntent (planRequest intentPrompt query)
  | .planning, .plan reply _ => ∃ topicsContext,
      reply = llm.structuredPlan (planRequest (answerPlanPrompt topicsContext) query)
  | .executing tasks, .rewritten i reply _ => ∃ task req,
      tasks[i]? = some ⟨task, .rewriting req⟩ ∧ reply = llm.structuredRewrite req
  | .executing tasks, .answered i reply => ∃ task req cited,
      tasks[i]? = some ⟨task, .answering req cited⟩ ∧ reply = llm.chat req
  | .synthesising valid, .synthesised reply =>
      reply = llm.chat (synthesisRequest query (combinedAnswers valid) kbId)
  | .verifying, .verified reply _ => ∃ answer,
      reply = llm.structuredVerify (verifyRequest answer query "" kbId)
  | _, _ => True

def NextRun (run run' : BudgetedRun) : Prop :=
  ∃ e, (o.setup s query kbId).step run e = some run' ∧ Replies llm query kbId run e

/-- Where the tasks of a plan lead. -/
def executedPhase (tasks : List Task) : RunPhase :=
  match o.executor.run s llm kbId tasks with
  | .error _ => .degrading
  | .ok subs => synthesisedPhase llm query kbId subs

/-- Where a plan for the topics leads. -/
def plannedPhase (topics : List String) : RunPhase :=
  match answerPlan llm query topics with
  | .error _ => .degrading
  | .ok tasks =>
    if (tasks.take maxTasks).isEmpty then .ended
    else if o.budgetCap ≤ 0 then .degrading
    else o.executedPhase s llm query kbId (tasks.take maxTasks)

abbrev Reaches : BudgetedRun → BudgetedRun → Prop :=
  Relation.ReflTransGen (o.NextRun s llm query kbId)

variable {o s llm query kbId} {r : BudgetedRun}

theorem exists_nextRun {e : RunEvent} {p : RunPhase}
    (h : (o.setup s query kbId).nextPhase r e = some p) (hreply : Replies llm query kbId r e) :
    ∃ r', o.NextRun s llm query kbId r r' ∧ r'.phase = p ∧
      (e ≠ .gathered → r'.budgetUsed = r.budgetUsed) := by
  refine ⟨_, ⟨e, Option.bind_eq_some_iff.mpr ⟨p, h, rfl⟩, hreply⟩, rfl, fun hne => ?_⟩
  cases e with
  | gathered => exact absurd rfl hne
  | _ => rfl

/-! ## The tasks -/

variable (o s llm query kbId) {tasks : List TaskRun} {i : ℕ} {t : TaskRun}

theorem resumeTask_of_get (ht : tasks[i]? = some t) {next : TaskRun → Option TaskRun}
    {t' : TaskRun} (hnext : next t = some t') :
    resumeTask tasks i next = some (.executing (tasks.set i t')) := by
  simp [resumeTask, ht, hnext]

/-- A task goes on by one step. -/
theorem exists_resumed (hphase : r.phase = .executing tasks) (ht : tasks[i]? = some t) :
    ∃ r', o.Reaches s llm query kbId r r' ∧
      r'.phase = .executing (tasks.set i (t.next o.executor s llm kbId)) := by
  have hone {e : RunEvent} {t' : TaskRun} (hnext : t.next o.executor s llm kbId = t')
      (hp : (o.setup s query kbId).nextPhase r e = some (.executing (tasks.set i t')))
      (hreply : Replies llm query kbId r e) : ∃ r', o.Reaches s llm query kbId r r' ∧
        r'.phase = .executing (tasks.set i (t.next o.executor s llm kbId)) := by
    obtain ⟨r', hr', hphase', -⟩ := exists_nextRun hp hreply
    exact ⟨r', .single hr', hnext ▸ hphase'⟩
  obtain ⟨task, stage⟩ := t
  cases stage with
  | retrieving q rewritten =>
    obtain ⟨t', ht'⟩ : ∃ t', TaskRun.retrieved (o.executor.prepare s) kbId
        ⟨task, .retrieving q rewritten⟩ = some t' := by
      unfold TaskRun.retrieved
      dsimp only
      split
      · exact ⟨_, rfl⟩
      · exact ⟨_, rfl⟩
      · split_ifs <;> exact ⟨_, rfl⟩
    have hnext : TaskRun.next o.executor s llm kbId ⟨task, .retrieving q rewritten⟩ = t' :=
      congrArg (Option.getD · _) ht'
    refine hone (e := .retrieved i) hnext ?_ ?_
    · rw [AgenticSetup.nextPhase, hphase]
      exact resumeTask_of_get ht ht'
    · simp [Replies, hphase]
  | rewriting req =>
    obtain ⟨t', ht'⟩ : ∃ t', TaskRun.rewritten (llm.structuredRewrite req)
        ⟨task, .rewriting req⟩ = some t' := by
      unfold TaskRun.rewritten
      dsimp only
      split <;> exact ⟨_, rfl⟩
    have hnext : TaskRun.next o.executor s llm kbId ⟨task, .rewriting req⟩ = t' :=
      congrArg (Option.getD · _) ht'
    refine hone (e := .rewritten i (llm.structuredRewrite req) 0) hnext ?_ ?_
    · rw [AgenticSetup.nextPhase, hphase]
      exact resumeTask_of_get ht ht'
    · simp only [Replies, hphase]
      exact ⟨task, req, ht, rfl⟩
  | answering req cited =>
    refine hone (e := .answered i (llm.chat req)) rfl ?_ ?_
    · rw [AgenticSetup.nextPhase, hphase]
      exact resumeTask_of_get ht rfl
    · simp only [Replies, hphase]
      exact ⟨task, req, cited, ht, rfl⟩
  | ended result =>
    obtain ⟨hi, hget⟩ := List.getElem?_eq_some_iff.mp ht
    refine ⟨r, .refl, ?_⟩
    rw [TaskRun.next_ended, hphase, ← hget, List.set_getElem_self]

theorem exists_iterated (n : ℕ) (hphase : r.phase = .executing tasks) (ht : tasks[i]? = some t) :
    ∃ r', o.Reaches s llm query kbId r r' ∧
      r'.phase = .executing (tasks.set i ((TaskRun.next o.executor s llm kbId)^[n] t)) := by
  obtain ⟨hi, hget⟩ := List.getElem?_eq_some_iff.mp ht
  induction n generalizing r tasks t with
  | zero =>
    refine ⟨r, .refl, ?_⟩
    rw [hphase, Function.iterate_zero, id, ← hget, List.set_getElem_self]
  | succ n ih =>
    obtain ⟨r', hr', hphase'⟩ := exists_resumed o s llm query kbId hphase ht
    have hset : (tasks.set i (t.next o.executor s llm kbId))[i]? =
        some (t.next o.executor s llm kbId) := List.getElem?_set_self hi
    obtain ⟨hi', hget'⟩ := List.getElem?_eq_some_iff.mp hset
    obtain ⟨r'', hr'', hphase''⟩ := ih hphase' hset hi' hget'
    refine ⟨r'', hr'.trans hr'', ?_⟩
    rw [hphase'', List.set_set, Function.iterate_succ_apply]

/-- The tasks can be run to their ends, one after the other. -/
theorem exists_finished {done : List TaskRun} {rest : List Task}
    (hphase : r.phase = .executing (done ++ rest.map .start)) :
    ∃ r', o.Reaches s llm query kbId r r' ∧ r'.phase = .executing (done ++
      rest.map fun task => (TaskRun.next o.executor s llm kbId)^[4] (.start task)) := by
  induction rest generalizing r done with
  | nil => exact ⟨r, .refl, hphase⟩
  | cons task rest ih =>
    have hget : (done ++ (task :: rest).map .start)[done.length]? = some (TaskRun.start task) := by
      simp
    obtain ⟨r', hr', hphase'⟩ := exists_iterated o s llm query kbId 4 hphase hget
    have hset : (done ++ (task :: rest).map TaskRun.start).set done.length
        ((TaskRun.next o.executor s llm kbId)^[4] (.start task)) =
          (done ++ [(TaskRun.next o.executor s llm kbId)^[4] (.start task)]) ++
            rest.map TaskRun.start := by
      simp
    rw [hset] at hphase'
    obtain ⟨r'', hr'', hphase''⟩ := ih hphase'
    refine ⟨r'', hr'.trans hr'', ?_⟩
    rw [hphase'', List.append_assoc]
    rfl

/-! ## The whole run -/

theorem exists_verified (hphase : r.phase = .verifying) (answer : String) :
    ∃ r', o.Reaches s llm query kbId r r' ∧ r'.phase = verifiedPhase llm query kbId answer := by
  let reply := llm.structuredVerify (verifyRequest answer query "" kbId)
  have hp : (o.setup s query kbId).nextPhase r (.verified reply 0) =
      some (verifiedPhase llm query kbId answer) := by
    simp only [AgenticSetup.nextPhase, hphase, verifiedPhase, reply]
    cases llm.structuredVerify (verifyRequest answer query "" kbId) <;> rfl
  have hreply : Replies llm query kbId r (.verified reply 0) := by
    simp only [Replies, hphase]
    exact ⟨answer, rfl⟩
  obtain ⟨r', hr', hphase', -⟩ := exists_nextRun hp hreply
  exact ⟨r', .single hr', hphase'⟩

/-- The answers are put together, if there are any, and what comes of it is verified. -/
theorem exists_synthesised {results : List SubAnswer}
    (hphase : r.phase = if (validAnswers results).isEmpty then .verifying
      else .synthesising (validAnswers results)) :
    ∃ r', o.Reaches s llm query kbId r r' ∧
      r'.phase = synthesisedPhase llm query kbId results := by
  rw [synthesisedPhase, synthesise_eq]
  split_ifs at hphase ⊢ with hvalid
  · exact exists_verified o s llm query kbId hphase notFoundAnswer
  · let req := synthesisRequest query (combinedAnswers (validAnswers results)) kbId
    let reply := llm.chat req
    have hreply : Replies llm query kbId r (.synthesised reply) := by
      simp only [Replies, hphase]
      rfl
    cases hchat : llm.chat req with
    | error e =>
      have hp : (o.setup s query kbId).nextPhase r (.synthesised reply) = some .degrading := by
        simp only [AgenticSetup.nextPhase, hphase, reply, hchat]
      obtain ⟨r', hr', hphase', -⟩ := exists_nextRun hp hreply
      exact ⟨r', .single hr', hphase'⟩
    | ok resp =>
      have hp : (o.setup s query kbId).nextPhase r (.synthesised reply) = some .verifying := by
        simp only [AgenticSetup.nextPhase, hphase, reply, hchat]
      obtain ⟨r', hr', hphase', -⟩ := exists_nextRun hp hreply
      obtain ⟨r'', hr'', hphase''⟩ := exists_verified o s llm query kbId hphase' resp.text
      exact ⟨r'', .head hr' hr'', hphase''⟩

/-- The tasks are run, and their answers are put together and verified. -/
theorem exists_executed {plan : List Task} (hphase : r.phase = .executing (plan.map .start)) :
    ∃ r', o.Reaches s llm query kbId r r' ∧
      r'.phase = o.executedPhase s llm query kbId plan := by
  have hstart : r.phase = .executing ([] ++ plan.map .start) := hphase
  obtain ⟨r₁, hr₁, hphase₁⟩ := exists_finished o s llm query kbId hstart
  obtain ⟨results, hgather, hrun⟩ := run_eq_tasksResult o.executor s llm kbId plan
  rw [List.nil_append] at hphase₁
  have hreply : Replies llm query kbId r₁ .gathered := by
    simp [Replies, hphase₁]
  rw [executedPhase, hrun]
  cases htasks : tasksResult results with
  | error e =>
    have hp : (o.setup s query kbId).nextPhase r₁ .gathered = some .degrading := by
      simp only [AgenticSetup.nextPhase, hphase₁, hgather, htasks, Option.bind_eq_bind,
        Option.bind_some]
    obtain ⟨r₂, hr₂, hphase₂, -⟩ := exists_nextRun hp hreply
    exact ⟨r₂, hr₁.tail hr₂, hphase₂⟩
  | ok subs =>
    obtain rfl : subs = results := by
      unfold tasksResult at htasks
      split_ifs at htasks
      exact (Except.ok.inj htasks).symm
    have hp : (o.setup s query kbId).nextPhase r₁ .gathered =
        some (if (validAnswers subs).isEmpty then .verifying
          else .synthesising (validAnswers subs)) := by
      simp only [AgenticSetup.nextPhase, hphase₁, hgather, htasks, Option.bind_eq_bind,
        Option.bind_some]
      split_ifs <;> rfl
    obtain ⟨r₂, hr₂, hphase₂, -⟩ := exists_nextRun hp hreply
    obtain ⟨r₃, hr₃, hphase₃⟩ := exists_synthesised o s llm query kbId hphase₂
    exact ⟨r₃, (hr₁.tail hr₂).trans hr₃, hphase₃⟩

/-- From the plan on the run goes as the orchestrator does. -/
theorem exists_planned (hphase : r.phase = .planning) (hused : r.budgetUsed = 0)
    (topics : List String) : ∃ r', o.Reaches s llm query kbId r r' ∧
      r'.phase = o.plannedPhase s llm query kbId topics := by
  unfold plannedPhase
  let topicsContext := if topics.isEmpty then "" else
    "\nAvailable topics: " ++ ", ".intercalate topics
  let reply := llm.structuredPlan (planRequest (answerPlanPrompt topicsContext) query)
  have hreply : Replies llm query kbId r (.plan reply 0) := by
    simp only [Replies, hphase]
    exact ⟨topicsContext, rfl⟩
  have hanswer := answerPlan_eq_plannedTasks llm query topicsContext topics rfl
  cases hplan : llm.structuredPlan (planRequest (answerPlanPrompt topicsContext) query) with
  | error e =>
    rw [hplan] at hanswer
    have hp : (o.setup s query kbId).nextPhase r (.plan reply 0) = some .degrading := by
      simp only [AgenticSetup.nextPhase, hphase, reply, hplan]
    obtain ⟨r', hr', hphase', -⟩ := exists_nextRun hp hreply
    cases htasks : answerPlan llm query topics with
    | error e' => exact ⟨r', .single hr', hphase'⟩
    | ok tasks =>
      rw [htasks] at hanswer
      cases hanswer
  | ok plan =>
    rw [hplan] at hanswer
    cases htasks : answerPlan llm query topics with
    | error e =>
      rw [htasks] at hanswer
      cases hanswer
    | ok tasks =>
      rw [htasks] at hanswer
      have heq : tasks.take maxTasks = plannedTasks query plan := Except.ok.inj hanswer
      dsimp only
      rw [heq]
      have hp : (o.setup s query kbId).nextPhase r (.plan reply 0) =
          some (if (plannedTasks query plan).isEmpty then .ended
            else if o.budgetCap ≤ 0 then .degrading
            else .executing ((plannedTasks query plan).map .start)) := by
        simp only [AgenticSetup.nextPhase, hphase, reply, hplan, hused, setup]
        split_ifs <;> rfl
      obtain ⟨r', hr', hphase', -⟩ := exists_nextRun hp hreply
      split_ifs at hphase' ⊢
      · exact ⟨r', .single hr', hphase'⟩
      · exact ⟨r', .single hr', hphase'⟩
      · obtain ⟨r'', hr'', hphase''⟩ := exists_executed o s llm query kbId hphase'
        exact ⟨r'', .head hr' hr'', hphase''⟩

/-- The end of the orchestrator, from the plan on. -/
theorem runGraph_of_planned {decision : IntentDecision}
    (hintent : llm.structuredIntent (planRequest intentPrompt query) = .ok decision)
    (hbranch : decision.branch ≠ "empty") :
    graphPhase (o.runGraph s llm query kbId) = o.plannedPhase s llm query kbId
      (if decision.branch = "discovery" then scopeDiscovery o.graphStore else []) := by
  have hanswer : ("answer" = "empty") = False := by decide
  unfold runGraph planner intentDecision plannedPhase executedPhase synthesisedPhase
  simp only [hintent, Except.mapError, bind, Except.bind, if_neg hbranch]
  cases answerPlan llm query
    (if decision.branch = "discovery" then scopeDiscovery o.graphStore else []) with
  | error e => rfl
  | ok tasks =>
    simp only [pure, Except.pure, hanswer, decide_false, Bool.false_or]
    split_ifs with hnone hcap
    · rfl
    · simp only [checkBudget, if_pos hcap, graphPhase]
    · simp only [checkBudget, if_neg hcap]
      cases o.executor.run s llm kbId (tasks.take maxTasks) with
      | error e => rfl
      | ok subs =>
        dsimp only
        cases synthesise llm (subs.map (·.answer)) query kbId with
        | error e => rfl
        | ok answer =>
          dsimp only [verifiedPhase]
          cases llm.structuredVerify (verifyRequest answer query "" kbId) with
          | error e => rfl
          | ok verdict =>
            dsimp only
            split_ifs <;> rfl

/-- With the replies of one model the run can end where the orchestrator has a result, and
degrade where it fails. -/
theorem exists_run_runGraph :
    ∃ r, o.Reaches s llm query kbId (o.setup s query kbId).begin r ∧
      r.phase = graphPhase (o.runGraph s llm query kbId) := by
  obtain ⟨r₁, hr₁, hphase₁, hused₁⟩ : ∃ r, o.NextRun s llm query kbId
      (o.setup s query kbId).begin r ∧ r.phase = .deciding ∧
        (RunEvent.start ≠ .gathered → r.budgetUsed = 0) :=
    exists_nextRun (e := .start) rfl trivial
  let reply := llm.structuredIntent (planRequest intentPrompt query)
  have hreply : Replies llm query kbId r₁ (.intent reply 0) := by
    simp only [Replies, hphase₁, reply]
  cases hintent : llm.structuredIntent (planRequest intentPrompt query) with
  | error e =>
    have hgraph : o.runGraph s llm query kbId =
        .error (agenticPlanError "intent decision failed" e) := by
      simp [runGraph, planner, intentDecision, hintent, Except.mapError, bind, Except.bind]
    have hp : (o.setup s query kbId).nextPhase r₁ (.intent reply 0) = some .degrading := by
      simp only [AgenticSetup.nextPhase, hphase₁, reply, hintent]
    obtain ⟨r₂, hr₂, hphase₂, -⟩ := exists_nextRun hp hreply
    exact ⟨r₂, .head hr₁ (.single hr₂), by rw [hgraph, hphase₂, graphPhase]⟩
  | ok decision =>
    have hp : (o.setup s query kbId).nextPhase r₁ (.intent reply 0) =
        some (if decision.branch = "empty" then .ended else .planning) := by
      simp only [AgenticSetup.nextPhase, hphase₁, reply, hintent]
    obtain ⟨r₂, hr₂, hphase₂, hused₂⟩ := exists_nextRun hp hreply
    by_cases hbranch : decision.branch = "empty"
    · have hgraph : o.runGraph s llm query kbId = .ok o.emptyResult := by
        simp [runGraph, planner, intentDecision, hintent, hbranch, Except.mapError, bind,
          Except.bind, pure, Except.pure]
      exact ⟨r₂, .head hr₁ (.single hr₂), by rw [hgraph, hphase₂, if_pos hbranch, graphPhase]⟩
    · rw [if_neg hbranch] at hphase₂
      have hused : r₂.budgetUsed = 0 := (hused₂ (by simp)).trans (hused₁ (by simp))
      rw [runGraph_of_planned o s llm query kbId hintent hbranch]
      obtain ⟨r₃, hr₃, hphase₃⟩ := exists_planned o s llm query kbId hphase₂ hused
        (if decision.branch = "discovery" then scopeDiscovery o.graphStore else [])
      exact ⟨r₃, .head hr₁ (.head hr₂ hr₃), hphase₃⟩

end AgenticOrchestrator

end Ragx
