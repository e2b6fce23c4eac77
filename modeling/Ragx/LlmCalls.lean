import Ragx.App

/-!
# The calls behind an answer

The requests that a query makes to the language model, in order; the sub-tasks of
a plan run side by side and stand one after the other. The list leaves none out:
two models that answer the listed requests alike give the same result.
-/
namespace Ragx

/-- A request to the model, for free text or for one of the four structured outputs. -/
inductive LlmCall where
  | chat (req : ChatRequest)
  | intent (req : ChatRequest)
  | plan (req : ChatRequest)
  | rewrite (req : ChatRequest)
  | verify (req : ChatRequest)

/-- Two models answer the request alike. -/
def LlmCall.Agree (llm llm' : Llm) : LlmCall → Prop
  | .chat req => llm.chat req = llm'.chat req
  | .intent req => llm.structuredIntent req = llm'.structuredIntent req
  | .plan req => llm.structuredPlan req = llm'.structuredPlan req
  | .rewrite req => llm.structuredRewrite req = llm'.structuredRewrite req
  | .verify req => llm.structuredVerify req = llm'.structuredVerify req

/-- The calls that follow a finished step; a failed one ends the list. -/
def callsAfter {α : Type*} (x : Except Exc α) (calls : α → List LlmCall) : List LlmCall :=
  match x with
  | .ok a => calls a
  | .error _ => []

@[simp] theorem callsAfter_ok {α : Type*} (a : α) (calls : α → List LlmCall) :
    callsAfter (.ok a) calls = calls a := rfl

@[simp] theorem callsAfter_error {α : Type*} (e : Exc) (calls : α → List LlmCall) :
    callsAfter (.error e) calls = [] := rfl

/-! ## The standard path -/

namespace QueryService

def generateCalls (svc : QueryService) (s : Services) (query context kbId traceId : String) :
    List LlmCall :=
  callsAfter (s.renderForKb "generate_standard" svc.kbCfg.promptOverrides
    [("query", query), ("assembled_context", context)]) fun (system, user) =>
      if s.llm.isSome then [.chat (generateRequest system user kbId traceId)] else []

def standardCalls (svc : QueryService) (s : Services) (query : String) (qvec : List ℚ)
    (kbId traceId : String) (filter : Option FilterExpr) : List LlmCall :=
  callsAfter ((svc.retrieverFor kbId).retrieve s.db query qvec (some (excludeCache filter)))
    fun hits =>
      if hits.isEmpty then []
      else callsAfter (assemble svc.cfg hits) fun (context, _) =>
        svc.generateCalls s query context kbId traceId

end QueryService

/-! ## The agentic path -/

def answerPlanCalls (discoveryTopics : List String) (query : String) : List LlmCall :=
  let topicsContext :=
    if discoveryTopics.isEmpty then ""
    else "\nAvailable topics: " ++ ", ".intercalate discoveryTopics
  [.plan (planRequest (answerPlanPrompt topicsContext) query)]

def plannerCalls (llm : Llm) (graphStore : Option GraphStore) (query : String) : List LlmCall :=
  .intent (planRequest intentPrompt query) ::
    callsAfter (intentDecision llm query) fun intent =>
      if intent.branch = "empty" then []
      else
        let topics := if intent.branch = "discovery" then scopeDiscovery graphStore else []
        answerPlanCalls topics query

namespace ParallelExecutor

def answerCalls (ex : ParallelExecutor) (s : Services) (query kbId : String) : List LlmCall :=
  callsAfter (s.embedOne query) fun qvec =>
    callsAfter (ex.retriever.retrieve s.db query qvec none) fun hits =>
      if hits.isEmpty then []
      else callsAfter (assemble ex.cfg hits) fun (context, _) =>
        [.chat (answerRequest query context kbId)]

def retryCalls (ex : ParallelExecutor) (s : Services) (llm : Llm) (task : Task) (kbId : String) :
    List LlmCall :=
  if maxRetries ≤ task.retries then []
  else .rewrite (rewriteRequest task.seedQuery kbId) ::
    callsAfter (llm.structuredRewrite (rewriteRequest task.seedQuery kbId)) fun rewritten =>
      ex.answerCalls s rewritten kbId

def taskCalls (ex : ParallelExecutor) (s : Services) (llm : Llm) (kbId : String) (task : Task) :
    List LlmCall :=
  ex.answerCalls s task.seedQuery kbId ++
    callsAfter (ex.answerFrom s llm task.seedQuery kbId) fun sub =>
      if sub.isSome then [] else ex.retryCalls s llm task kbId

end ParallelExecutor

def synthesisCalls (subAnswers : List String) (query kbId : String) : List LlmCall :=
  let valid := subAnswers.filter fun a => a ≠ "" && a ≠ noData
  if valid.isEmpty then []
  else
    let combined := "\n\n".intercalate
      (valid.mapIdx fun i a => s!"--- Sub-answer {i + 1} ---\n{a}")
    [.chat (synthesisRequest query combined kbId)]

namespace AgenticOrchestrator

def graphCalls (o : AgenticOrchestrator) (s : Services) (llm : Llm) (query kbId : String) :
    List LlmCall :=
  plannerCalls llm o.graphStore query ++
    callsAfter (planner llm o.graphStore query) fun plan =>
      if plan.branch = "empty" || plan.tasks.isEmpty then []
      else callsAfter (o.checkBudget 0) fun _ =>
        plan.tasks.flatMap (o.executor.taskCalls s llm kbId) ++
          callsAfter (o.executor.run s llm kbId plan.tasks) fun subs =>
            synthesisCalls (subs.map (·.answer)) query kbId ++
              callsAfter (synthesise llm (subs.map (·.answer)) query kbId) fun answer =>
                [.verify (verifyRequest answer query "" kbId)]

/-- A failed run is followed by the standard path, without a filter. -/
def agenticCalls (o : AgenticOrchestrator) (s : Services) (llm : Llm) (query kbId : String) :
    List LlmCall :=
  o.graphCalls s llm query kbId ++
    match o.runGraph s llm query kbId with
    | .ok _ => []
    | .error _ => o.standardFallback.standardCalls s query ((s.embedOne query).toOption.getD [])
        kbId o.traceId none

end AgenticOrchestrator

/-- The calls of a query of the application. -/
def appCalls (kbCfg : KBConfig) (s : Services) (reg : Registry) (query : String) (qvec : List ℚ)
    (kbId traceId : String) (override : RequestOverride) (filter : Option FilterExpr) :
    List LlmCall :=
  match routeQuery kbCfg.flags (fun _ => false) query override, s.llm with
  | .agentic, some llm => (agenticOrchestrator kbCfg reg).agenticCalls s llm query kbId
  | _, _ => (standardService kbCfg reg).standardCalls s query qvec kbId traceId filter

section Calls

variable {kbCfg : KBConfig} {s : Services} {reg : Registry} {query kbId traceId : String}
  {qvec : List ℚ} {override : RequestOverride} {filter : Option FilterExpr}

theorem appCalls_of_agentic {llm : Llm} (hllm : s.llm = some llm)
    (hroute : routeQuery kbCfg.flags (fun _ => false) query override = .agentic) :
    appCalls kbCfg s reg query qvec kbId traceId override filter =
      (agenticOrchestrator kbCfg reg).agenticCalls s llm query kbId := by
  unfold appCalls
  rw [hroute, hllm]

theorem appCalls_of_not_agentic
    (h : s.llm = none ∨ routeQuery kbCfg.flags (fun _ => false) query override ≠ .agentic) :
    appCalls kbCfg s reg query qvec kbId traceId override filter =
      (standardService kbCfg reg).standardCalls s query qvec kbId traceId filter := by
  unfold appCalls
  split
  · rename_i llm hroute hllm
    exact absurd hroute (h.resolve_left (by rw [hllm]; nofun))
  · rfl

end Calls

/-! ## No call is left out -/

/-- The collaborators around another model. -/
def Services.withLlm (s : Services) (llm : Llm) : Services := { s with llm := some llm }

section Agree

variable {s : Services} {llm llm' : Llm} {query kbId traceId : String} {qvec : List ℚ}

/-- What follows a step may use that its own calls are answered alike. -/
theorem bind_congr_of_calls {α β : Type} {x : Except Exc α} {f g : α → Except Exc β}
    {calls : α → List LlmCall} (h : ∀ call ∈ callsAfter x calls, call.Agree llm llm')
    (hfg : ∀ a, (∀ call ∈ calls a, call.Agree llm llm') → f a = g a) : x >>= f = x >>= g := by
  cases x with
  | error e => rfl
  | ok a => exact hfg a h

namespace QueryService

theorem generate_congr {svc : QueryService} {context : String}
    (h : ∀ call ∈ svc.generateCalls (s.withLlm llm) query context kbId traceId,
      call.Agree llm llm') :
    svc.generate (s.withLlm llm) query context kbId traceId =
      svc.generate (s.withLlm llm') query context kbId traceId := by
  refine bind_congr_of_calls h fun prompt hprompt => ?_
  have hchat : llm.chat (generateRequest prompt.1 prompt.2 kbId traceId) =
      llm'.chat (generateRequest prompt.1 prompt.2 kbId traceId) :=
    hprompt _ (List.mem_singleton.mpr rfl)
  simp only [Services.chat, Services.withLlm, hchat]

theorem queryStandard_congr {svc : QueryService} {filter : Option FilterExpr}
    (h : ∀ call ∈ svc.standardCalls (s.withLlm llm) query qvec kbId traceId filter,
      call.Agree llm llm') :
    svc.queryStandard (s.withLlm llm) query qvec kbId traceId filter =
      svc.queryStandard (s.withLlm llm') query qvec kbId traceId filter := by
  refine bind_congr_of_calls h fun hits hhits => ?_
  split_ifs with hempty
  · rfl
  · rw [if_neg hempty] at hhits
    refine bind_congr_of_calls hhits fun assembled hassembled => ?_
    simp only [generate_congr hassembled]

end QueryService

theorem answerPlan_congr {discoveryTopics : List String}
    (h : ∀ call ∈ answerPlanCalls discoveryTopics query, call.Agree llm llm') :
    answerPlan llm query discoveryTopics = answerPlan llm' query discoveryTopics := by
  have hplan := h _ (List.mem_singleton.mpr rfl)
  simp only [LlmCall.Agree] at hplan
  simp only [answerPlan, hplan]

theorem planner_congr {graphStore : Option GraphStore}
    (h : ∀ call ∈ plannerCalls llm graphStore query, call.Agree llm llm') :
    planner llm graphStore query = planner llm' graphStore query := by
  obtain ⟨hintent, hrest⟩ := List.forall_mem_cons.mp h
  have hdecision : intentDecision llm query = intentDecision llm' query :=
    congrArg (Except.mapError (agenticPlanError "intent decision failed")) hintent
  unfold planner
  rw [← hdecision]
  refine bind_congr_of_calls hrest fun intent hplan => ?_
  by_cases hempty : intent.branch = "empty"
  · rw [if_pos hempty, if_pos hempty]
  · rw [if_neg hempty] at hplan ⊢
    rw [if_neg hempty]
    dsimp only
    rw [answerPlan_congr hplan]

namespace ParallelExecutor

variable {ex : ParallelExecutor} {task : Task}

theorem answerFrom_congr (h : ∀ call ∈ ex.answerCalls s query kbId, call.Agree llm llm') :
    ex.answerFrom s llm query kbId = ex.answerFrom s llm' query kbId := by
  refine bind_congr_of_calls h fun qvec hqvec => ?_
  refine bind_congr_of_calls hqvec fun hits hhits => ?_
  split_ifs with hempty
  · rfl
  · rw [if_neg hempty] at hhits
    refine bind_congr_of_calls hhits fun assembled hassembled => ?_
    have hchat : llm.chat (answerRequest query assembled.1 kbId) =
        llm'.chat (answerRequest query assembled.1 kbId) :=
      hassembled _ (List.mem_singleton.mpr rfl)
    simp only [hchat]

theorem maybeSeedRetry_congr (h : ∀ call ∈ ex.retryCalls s llm task kbId, call.Agree llm llm') :
    ex.maybeSeedRetry s llm task kbId = ex.maybeSeedRetry s llm' task kbId := by
  unfold maybeSeedRetry
  unfold retryCalls at h
  dsimp only
  split_ifs with hretries
  · rfl
  · rw [if_neg hretries] at h
    obtain ⟨hrewrite, hrest⟩ := List.forall_mem_cons.mp h
    simp only [LlmCall.Agree] at hrewrite
    rw [← hrewrite]
    cases hr : llm.structuredRewrite (rewriteRequest task.seedQuery kbId) with
    | error e => rfl
    | ok rewritten =>
      rw [hr, callsAfter_ok] at hrest
      simp only [answerFrom_congr hrest]

theorem execTask_congr (h : ∀ call ∈ ex.taskCalls s llm kbId task, call.Agree llm llm') :
    ex.execTask s llm kbId task = ex.execTask s llm' kbId task := by
  obtain ⟨hanswer, hrest⟩ := List.forall_mem_append.mp h
  unfold execTask
  rw [← answerFrom_congr hanswer]
  refine bind_congr_of_calls hrest fun sub hsub => ?_
  cases sub with
  | some sub => rfl
  | none => exact maybeSeedRetry_congr hsub

theorem run_congr {tasks : List Task}
    (h : ∀ call ∈ tasks.flatMap (ex.taskCalls s llm kbId), call.Agree llm llm') :
    ex.run s llm kbId tasks = ex.run s llm' kbId tasks := by
  have hexec (task : Task) (hm : task ∈ tasks) :
      ex.execTask s llm kbId task = ex.execTask s llm' kbId task :=
    execTask_congr fun call hcall => h call (List.mem_flatMap.mpr ⟨task, hm, hcall⟩)
  unfold run
  rw [List.map_congr_left fun task hm => by rw [hexec task hm]]

end ParallelExecutor

theorem synthesise_congr {subAnswers : List String}
    (h : ∀ call ∈ synthesisCalls subAnswers query kbId, call.Agree llm llm') :
    synthesise llm subAnswers query kbId = synthesise llm' subAnswers query kbId := by
  unfold synthesise
  unfold synthesisCalls at h
  dsimp only at h ⊢
  split_ifs with hvalid
  · rfl
  · rw [if_neg hvalid] at h
    have hchat := h _ (List.mem_singleton.mpr rfl)
    simp only [LlmCall.Agree] at hchat
    rw [hchat]

namespace AgenticOrchestrator

variable {o : AgenticOrchestrator}

theorem runGraph_congr (h : ∀ call ∈ o.graphCalls s llm query kbId, call.Agree llm llm') :
    o.runGraph s llm query kbId = o.runGraph s llm' query kbId := by
  obtain ⟨hplanner, hrest⟩ := List.forall_mem_append.mp h
  unfold runGraph
  rw [← planner_congr hplanner]
  refine bind_congr_of_calls hrest fun plan hplan => ?_
  split_ifs with hempty
  · rfl
  · rw [if_neg hempty] at hplan
    refine bind_congr_of_calls hplan fun _ hbudget => ?_
    obtain ⟨htasks, hafter⟩ := List.forall_mem_append.mp hbudget
    rw [← ParallelExecutor.run_congr htasks]
    refine bind_congr_of_calls hafter fun subs hsubs => ?_
    obtain ⟨hsynthesis, hverify⟩ := List.forall_mem_append.mp hsubs
    rw [← synthesise_congr hsynthesis]
    refine bind_congr_of_calls hverify fun answer hanswer => ?_
    have hverdict : llm.structuredVerify (verifyRequest answer query "" kbId) =
        llm'.structuredVerify (verifyRequest answer query "" kbId) :=
      hanswer _ (List.mem_singleton.mpr rfl)
    rw [hverdict]

end AgenticOrchestrator

/-- Two models that answer the listed requests alike give the same result. -/
theorem query_congr {kbCfg : KBConfig} {reg : Registry} {override : RequestOverride}
    {filter : Option FilterExpr}
    (h : ∀ call ∈ appCalls kbCfg (s.withLlm llm) reg query qvec kbId traceId override filter,
      call.Agree llm llm') :
    (createApp kbCfg (s.withLlm llm) reg).query (s.withLlm llm) query qvec kbId traceId override
        filter =
      (createApp kbCfg (s.withLlm llm') reg).query (s.withLlm llm') query qvec kbId traceId override
        filter := by
  by_cases hroute : routeQuery kbCfg.flags (fun _ => false) query override = .agentic
  · rw [appCalls_of_agentic rfl hroute] at h
    obtain ⟨hgraph, hfallback⟩ := List.forall_mem_append.mp h
    rw [query_of_agentic rfl hroute, query_of_agentic rfl hroute]
    unfold AgenticOrchestrator.runAgentic
    have hrun : (agenticOrchestrator kbCfg reg).runGraph (s.withLlm llm') llm' query kbId =
        (agenticOrchestrator kbCfg reg).runGraph (s.withLlm llm) llm query kbId :=
      (AgenticOrchestrator.runGraph_congr hgraph).symm
    rw [hrun]
    cases hr : (agenticOrchestrator kbCfg reg).runGraph (s.withLlm llm) llm query kbId with
    | ok out => rfl
    | error e =>
      rw [hr] at hfallback
      have hstandard := QueryService.queryStandard_congr hfallback
      have hservice : (agenticOrchestrator kbCfg reg).standardFallback =
          standardService kbCfg reg := rfl
      unfold AgenticOrchestrator.fallback
      rw [hservice, query_standardService, query_standardService]
      exact congrArg (Except.map
        (AgenticOrchestrator.degrade (AgenticOrchestrator.degradeReason e))) hstandard
  · rw [appCalls_of_not_agentic (Or.inr hroute)] at h
    rw [query_of_not_agentic (Or.inr hroute), query_of_not_agentic (Or.inr hroute)]
    exact QueryService.queryStandard_congr h

end Agree

end Ragx
