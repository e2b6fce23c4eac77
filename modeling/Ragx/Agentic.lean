import Ragx.QueryService

/-!
# The agentic pipeline

Plan, execute the sub-tasks in parallel, synthesise, verify; any failure
degrades to the standard service. The sub-tasks share nothing that their results
depend on, so the gathered results are those of the tasks one by one.
-/
namespace Ragx

/-! ## Planner -/

def maxTasks : ℕ := 8

/-- One sub-task of the plan. -/
structure Task where
  seedQuery : String
  retries : ℕ := 0
deriving DecidableEq, Repr

structure Plan where
  branch : String
  tasks : List Task

/-- Planner requests carry no knowledge base and so the default one. -/
def planRequest (system query : String) : ChatRequest where
  messages := [⟨"system", system⟩, ⟨"user", query⟩]
  role := .plan
  temperature := 0
  jsonMode := true

def intentPrompt : String :=
  "You are a RAG query intent classifier. Given a query, decide if it can be answered directly " ++
  "(answer), needs scope discovery (discovery), or the corpus likely has no relevant content " ++
  "(empty). Output JSON: \x7b\"branch\": \"empty|discovery|answer\", \"reason\": \"...\"\x7d."

def answerPlanPrompt (topicsContext : String) : String :=
  "You are a RAG sub-query planner. Given a user query, produce up to 8 sub-tasks with seed " ++
  "queries that together cover the user's intent. Output JSON: \x7b\"tasks\": " ++
  "[\x7b\"seed_query\": \"...\"\x7d, ...]\x7d" ++ topicsContext

def agenticPlanError (message : String) (cause : Exc) : Exc where
  cls := .agenticPlan
  code := 7001
  message := message
  details := [("error", .str cause.message)]

def intentDecision (llm : Llm) (query : String) : Except Exc IntentDecision :=
  (llm.structuredIntent (planRequest intentPrompt query)).mapError
    (agenticPlanError "intent decision failed")

/-- Topic titles of the planner's graph store, asked with a zero vector. -/
def scopeDiscovery (graphStore : Option GraphStore) : List String :=
  match graphStore with
  | none => []
  | some graph => (((graph.topics (List.replicate 8 0) 9).toOption.getD []).map (·.title))

def answerPlan (llm : Llm) (query : String) (discoveryTopics : List String) :
    Except Exc (List Task) :=
  let topicsContext :=
    if discoveryTopics.isEmpty then ""
    else "\nAvailable topics: " ++ ", ".intercalate discoveryTopics
  match llm.structuredPlan (planRequest (answerPlanPrompt topicsContext) query) with
  | .error e => .error (agenticPlanError "answer plan failed" e)
  | .ok plan =>
    let seeds := (plan.tasks.take maxTasks).map fun seed => seed.getD query
    .ok ((seeds.filter (· ≠ "")).map fun seed => { seedQuery := seed })

def planner (llm : Llm) (graphStore : Option GraphStore) (query : String) : Except Exc Plan := do
  let intent ← intentDecision llm query
  if intent.branch = "empty" then return ⟨"empty", []⟩
  else
    let topics := if intent.branch = "discovery" then scopeDiscovery graphStore else []
    let tasks ← answerPlan llm query topics
    return ⟨"answer", tasks.take maxTasks⟩

/-! ## Executor -/

def maxRetries : ℕ := 1

def noData : String := "[NO DATA]"

/-- A task's answer with the hits that its citations stand for. -/
structure SubAnswer where
  answer : String
  cited : List RetrievalHit := []
  noData : Bool := false

structure ParallelExecutor where
  retriever : HybridRetriever
  cfg : RetrievalConfig

def answerRequest (query context kbId : String) : ChatRequest where
  messages := [
    ⟨"system", "You are a RAG assistant. Answer the user's question using ONLY the provided " ++
      "context. If the context does not contain the answer, say so. Do not invent information."⟩,
    ⟨"user", "Context:\n" ++ context ++ "\n\nQuestion: " ++ query⟩]
  role := .generate
  temperature := 0
  kbId := kbId

def rewriteRequest (seedQuery kbId : String) : ChatRequest where
  messages := [
    ⟨"system", "Rewrite the following query to improve retrieval. " ++
      "Output JSON: \x7b\"query\": \"...\"\x7d"⟩,
    ⟨"user", seedQuery⟩]
  role := .rewrite
  temperature := 0
  jsonMode := true
  kbId := kbId

namespace ParallelExecutor

/-- Retrieve and answer, without a filter: the orchestrator's state has none. -/
def answerFrom (ex : ParallelExecutor) (s : Services) (llm : Llm) (query kbId : String) :
    Except Exc (Option SubAnswer) := do
  let qvec ← s.embedOne query
  let hits ← ex.retriever.retrieve s.db query qvec none
  if hits.isEmpty then return none
  else
    let (context, used) ← assemble ex.cfg hits
    let resp ← llm.chat (answerRequest query context kbId)
    return some { answer := resp.text, cited := used }

/-- An empty recall is retried once with a rewritten query. -/
def maybeSeedRetry (ex : ParallelExecutor) (s : Services) (llm : Llm) (task : Task)
    (kbId : String) : Except Exc SubAnswer :=
  let missing : SubAnswer := { answer := noData, noData := true }
  if maxRetries ≤ task.retries then .ok missing
  else match llm.structuredRewrite (rewriteRequest task.seedQuery kbId) with
    | .error _ => .ok missing
    | .ok rewritten => (ex.answerFrom s llm rewritten kbId).map fun sub => sub.getD missing

def execTask (ex : ParallelExecutor) (s : Services) (llm : Llm) (kbId : String) (task : Task) :
    Except Exc SubAnswer := do
  match ← ex.answerFrom s llm task.seedQuery kbId with
  | some sub => return sub
  | none => ex.maybeSeedRetry s llm task kbId

/-- A task that raises has no data; a plan without any data fails. -/
def run (ex : ParallelExecutor) (s : Services) (llm : Llm) (kbId : String) (tasks : List Task) :
    Except Exc (List SubAnswer) :=
  let results := tasks.map fun task =>
    match ex.execTask s llm kbId task with
    | .ok sub => sub
    | .error _ => { answer := Ragx.noData, noData := true }
  if results.all (·.noData) then
    .error {
      cls := .agenticTasksFailed, code := 7002, message := "all tasks failed"
      details := [("task_count", .num tasks.length)] }
  else .ok results

end ParallelExecutor

/-! ## Synthesis and verification -/

def synthesisRequest (query combined kbId : String) : ChatRequest where
  messages := [
    ⟨"system", "You are a RAG synthesis engine. Given a user query and multiple sub-answers, " ++
      "produce a single coherent response. Cite the sources using [n] markers where n refers to " ++
      "the sub-answer number. Be concise and factual."⟩,
    ⟨"user", "Query: " ++ query ++ "\n\nSub-answers:\n" ++ combined⟩]
  role := .synthesize
  temperature := 0
  kbId := kbId

def notFoundAnswer : String := "Unable to find relevant information in the knowledge base."

def synthesise (llm : Llm) (subAnswers : List String) (query kbId : String) :
    Except Exc String :=
  let valid := subAnswers.filter fun a => a ≠ "" && a ≠ noData
  if valid.isEmpty then .ok notFoundAnswer
  else
    let combined := "\n\n".intercalate
      (valid.mapIdx fun i a => s!"--- Sub-answer {i + 1} ---\n{a}")
    (llm.chat (synthesisRequest query combined kbId)).map (·.text)

def verifyRequest (answer query context kbId : String) : ChatRequest where
  messages := [
    ⟨"system", "You are a RAG verification engine. Given a query, the retrieved context, and the " ++
      "answer, determine if the answer is fully supported by the context. Check for " ++
      "hallucinations, unsupported claims, or missing key information. Output JSON: " ++
      "\x7b\"passed\": true/false, \"issues\": \"...\", \"confidence\": 0.0-1.0\x7d"⟩,
    ⟨"user", "Query: " ++ query ++ "\n\nContext:\n" ++ String.ofList (context.toList.take 4000) ++
      "\n\nAnswer:\n" ++ String.ofList (answer.toList.take 2000)⟩]
  role := .synthesize
  temperature := 0
  jsonMode := true
  kbId := kbId

/-! ## Orchestrator -/

structure AgenticOrchestrator where
  graphStore : Option GraphStore
  executor : ParallelExecutor
  standardFallback : QueryService
  budgetCap : ℕ
  traceId : String := ""

namespace AgenticOrchestrator

def checkBudget (o : AgenticOrchestrator) (used : ℕ) : Except Exc Unit :=
  if o.budgetCap ≤ used then
    .error {
      cls := .budgetExceeded, code := 6003, message := "agentic token budget exceeded"
      details := [("used", .num used), ("cap", .num o.budgetCap)] }
  else .ok ()

def emptyResult (o : AgenticOrchestrator) : QueryOutcome where
  result := {
    answer := notFoundAnswer, mode := .agentic, traceId := o.traceId
    details := [("empty", .bool true)] }
  cited := []
  citations_eq := rfl

/-- The graph of one run. The budget is only checked before the executor starts, when there
are no sub-answers that could be synthesised instead. The verifier sees no context. -/
def runGraph (o : AgenticOrchestrator) (s : Services) (llm : Llm) (query kbId : String) :
    Except Exc QueryOutcome := do
  let plan ← planner llm o.graphStore query
  if plan.branch = "empty" || plan.tasks.isEmpty then return o.emptyResult
  else
    o.checkBudget 0
    let subs ← o.executor.run s llm kbId plan.tasks
    let answer ← synthesise llm (subs.map (·.answer)) query kbId
    let verdict ← llm.structuredVerify (verifyRequest answer query "" kbId)
    if verdict.passed then
      return ⟨{ answer, citations := (subs.flatMap (·.cited)).map Citation.ofHit
                mode := .agentic, traceId := o.traceId }, subs.flatMap (·.cited), rfl⟩
    else throw {
      cls := .agentic, code := 7003, message := "verification failed"
      details := [("issues", .str verdict.issues)] }

def fallback (o : AgenticOrchestrator) (s : Services) (query kbId : String) :
    Except Exc QueryOutcome :=
  o.standardFallback.query s query ((s.embedOne query).toOption.getD []) kbId o.traceId {} none

def degradeReason (e : Exc) : Json :=
  if e.isAgenticError || e.cls = .budgetExceeded then
    .num (if e.code = 0 then 7000 else e.code : ℕ)
  else .str "unexpected"

/-- The standard answer, marked as degraded. -/
def degrade (reason : Json) (out : QueryOutcome) : QueryOutcome where
  result := { out.result with
    degraded := true, mode := .standard
    details := out.result.details ++ [("degrade_reason", reason)] }
  cited := out.cited
  citations_eq := out.citations_eq

def runAgentic (o : AgenticOrchestrator) (s : Services) (llm : Llm) (query kbId : String)
    (_ : List ℚ) : Except Exc QueryOutcome :=
  match o.runGraph s llm query kbId with
  | .ok out => .ok out
  | .error e => (o.fallback s query kbId).map (degrade (degradeReason e))

end AgenticOrchestrator

/-! ## What a run can cite -/

namespace ParallelExecutor

variable {ex : ParallelExecutor} {s : Services} {llm : Llm} {kbId : String}

/-- What the executor can cite. -/
def Cites (ex : ParallelExecutor) (s : Services) (h : RetrievalHit) : Prop :=
  ∃ query qvec hits, ex.retriever.retrieve s.db query qvec none = .ok hits ∧ h ∈ hits

theorem cites_answerFrom {query : String} {sub : SubAnswer} {h : RetrievalHit}
    (ha : ex.answerFrom s llm query kbId = .ok (some sub)) (hm : h ∈ sub.cited) :
    ex.Cites s h := by
  unfold answerFrom at ha
  cases hv : s.embedOne query with
  | error e => rw [hv] at ha; cases ha
  | ok qvec =>
    rw [hv] at ha
    cases hr : ex.retriever.retrieve s.db query qvec none with
    | error e => simp [bind, Except.bind, hr] at ha
    | ok hits =>
      simp only [bind, Except.bind, hr] at ha
      split_ifs at ha
      · cases ha
      · cases has : assemble ex.cfg hits with
        | error e => simp [has] at ha
        | ok assembled =>
          simp only [has] at ha
          split at ha
          · cases ha
          · cases ha
            exact ⟨query, qvec, hits, hr, mem_assemble has hm⟩

theorem cites_maybeSeedRetry {task : Task} {sub : SubAnswer} {h : RetrievalHit}
    (ht : ex.maybeSeedRetry s llm task kbId = .ok sub) (hm : h ∈ sub.cited) : ex.Cites s h := by
  unfold maybeSeedRetry at ht
  dsimp only at ht
  split_ifs at ht
  · cases ht
    exact absurd hm List.not_mem_nil
  · split at ht
    · cases ht
      exact absurd hm List.not_mem_nil
    · rename_i rewritten _
      cases ha : ex.answerFrom s llm rewritten kbId with
      | error e => rw [ha] at ht; cases ht
      | ok found =>
        rw [ha] at ht
        cases ht
        cases found with
        | none => exact absurd hm List.not_mem_nil
        | some sub => exact cites_answerFrom ha hm

theorem cites_execTask {task : Task} {sub : SubAnswer} {h : RetrievalHit}
    (ht : ex.execTask s llm kbId task = .ok sub) (hm : h ∈ sub.cited) : ex.Cites s h := by
  unfold execTask at ht
  cases ha : ex.answerFrom s llm task.seedQuery kbId with
  | error e => rw [ha] at ht; cases ht
  | ok found =>
    rw [ha] at ht
    cases found with
    | none => exact cites_maybeSeedRetry ht hm
    | some sub' =>
      cases ht
      exact cites_answerFrom ha hm

theorem cites_run {tasks : List Task} {subs : List SubAnswer} {sub : SubAnswer}
    {h : RetrievalHit} (hr : ex.run s llm kbId tasks = .ok subs) (hsub : sub ∈ subs)
    (hm : h ∈ sub.cited) : ex.Cites s h := by
  unfold run at hr
  dsimp only at hr
  split_ifs at hr
  cases hr
  obtain ⟨task, _, rfl⟩ := List.mem_map.mp hsub
  split at hm
  · rename_i sub' hexec
    exact cites_execTask hexec hm
  · exact absurd hm List.not_mem_nil

end ParallelExecutor

namespace AgenticOrchestrator

variable {o : AgenticOrchestrator} {s : Services} {llm : Llm} {query kbId : String}

/-- What a finished run has made: nothing, or an answer that was put together and passed. -/
theorem runGraph_cases {out : QueryOutcome} (hr : o.runGraph s llm query kbId = .ok out) :
    out = o.emptyResult ∨
      ∃ tasks subs answer, o.executor.run s llm kbId tasks = .ok subs ∧
        out = ⟨{ answer, citations := (subs.flatMap (·.cited)).map Citation.ofHit
                 mode := .agentic, traceId := o.traceId }, subs.flatMap (·.cited), rfl⟩ := by
  unfold runGraph at hr
  cases hp : planner llm o.graphStore query with
  | error e =>
    rw [hp] at hr
    cases hr
  | ok plan =>
    simp only [hp, bind, Except.bind] at hr
    split at hr
    · exact Or.inl (Except.ok.inj hr).symm
    · split at hr
      · cases hr
      · split at hr
        · cases hr
        · rename_i subs hexec
          split at hr
          · cases hr
          · split at hr
            · cases hr
            · split at hr
              · exact Or.inr ⟨plan.tasks, subs, _, hexec, (Except.ok.inj hr).symm⟩
              · cases hr

/-- What an agentic run cites comes from the executor's retriever. -/
theorem cites_runGraph {out : QueryOutcome} {h : RetrievalHit}
    (hr : o.runGraph s llm query kbId = .ok out) (hm : h ∈ out.cited) :
    o.executor.Cites s h := by
  rcases runGraph_cases hr with rfl | ⟨_, subs, _, hexec, rfl⟩
  · exact absurd hm List.not_mem_nil
  · obtain ⟨sub, hsub, hin⟩ := List.mem_flatMap.mp hm
    exact ParallelExecutor.cites_run hexec hsub hin

theorem cites_runAgentic {qvec : List ℚ} {out : QueryOutcome} {h : RetrievalHit}
    (hr : o.runAgentic s llm query kbId qvec = .ok out) (hm : h ∈ out.cited) :
    o.executor.Cites s h ∨
      ∃ out', o.fallback s query kbId = .ok out' ∧ out'.cited = out.cited := by
  unfold runAgentic at hr
  split at hr
  · rename_i out' hgraph
    cases hr
    exact Or.inl (cites_runGraph hgraph hm)
  · rename_i e _
    cases hf : o.fallback s query kbId with
    | error e => rw [hf] at hr; cases hr
    | ok out' =>
      rw [hf] at hr
      cases hr
      exact Or.inr ⟨out', rfl, rfl⟩

end AgenticOrchestrator

end Ragx
