import Ragx.LlmCalls

/-!
# Usage and traces of a query

A collector adds up the usage of the calls that the standard path makes. When the query is
finished its trace is flushed, and then it has the usage of the result.
-/
namespace Ragx

/-! ## Usage -/

namespace TokenUsage

/-- `__add__`. -/
def add (u v : TokenUsage) : TokenUsage where
  promptTokens := u.promptTokens + v.promptTokens
  completionTokens := u.completionTokens + v.completionTokens
  total := u.total + v.total
  estimated := u.estimated || v.estimated

def sum (us : List TokenUsage) : TokenUsage := us.foldl add {}

theorem foldl_add (u : TokenUsage) (us : List TokenUsage) :
    us.foldl add u = {
      promptTokens := u.promptTokens + (us.map (·.promptTokens)).sum
      completionTokens := u.completionTokens + (us.map (·.completionTokens)).sum
      total := u.total + (us.map (·.total)).sum
      estimated := u.estimated || us.any (·.estimated) } := by
  induction us generalizing u with
  | nil => simp
  | cons v vs ih =>
    rw [List.foldl_cons, ih]
    simp [add, Nat.add_assoc, Bool.or_assoc]

theorem sum_eq_zero {us : List TokenUsage} : sum us = {} ↔ ∀ u ∈ us, u = {} := by
  have hfields (u : TokenUsage) : u = {} ↔ u.promptTokens = 0 ∧ u.completionTokens = 0 ∧
      u.total = 0 ∧ u.estimated = false := by
    cases u
    simp
  rw [hfields, sum, foldl_add]
  simp only [Nat.zero_add, Bool.false_or, List.sum_eq_zero_iff_forall_eq_nat, List.forall_mem_map,
    List.any_eq_false, Bool.not_eq_true, hfields]
  exact ⟨fun h u hu => ⟨h.1 u hu, h.2.1 u hu, h.2.2.1 u hu, h.2.2.2 u hu⟩,
    fun h => ⟨fun u hu => (h u hu).1, fun u hu => (h u hu).2.1, fun u hu => (h u hu).2.2.1,
      fun u hu => (h u hu).2.2.2⟩⟩

theorem total_sum_eq_zero {us : List TokenUsage} : (sum us).total = 0 ↔ ∀ u ∈ us, u.total = 0 := by
  rw [sum, foldl_add]
  simp only [Nat.zero_add, List.sum_eq_zero_iff_forall_eq_nat, List.forall_mem_map]

end TokenUsage

/-! ## Traces -/

structure TraceLLMCall where
  role : String
  model : String
  tokens : TokenUsage := {}
  costUsd : ℚ := 0
  promptName : Option String := none

structure RAGTrace where
  traceId : String
  kbId : String
  mode : QueryMode
  query : String
  llmCalls : List TraceLLMCall := []
  degraded : Bool := false
  usage : TokenUsage := {}
  costUsd : ℚ := 0

structure RAGTraceCollector where
  traceId : String
  kbId : String
  query : String
  mode : QueryMode
  llmCalls : List TraceLLMCall := []
  degraded : Bool := false
  usage : TokenUsage := {}

namespace RAGTraceCollector

def addLlmCall (c : RAGTraceCollector) (call : TraceLLMCall) : RAGTraceCollector :=
  { c with llmCalls := c.llmCalls ++ [call], usage := c.usage.add call.tokens }

def setDegraded (c : RAGTraceCollector) (degraded : Bool) : RAGTraceCollector := { c with degraded }

def setUsage (c : RAGTraceCollector) (usage : TokenUsage) : RAGTraceCollector := { c with usage }

def build (c : RAGTraceCollector) : RAGTrace where
  traceId := c.traceId
  kbId := c.kbId
  mode := c.mode
  query := c.query
  llmCalls := c.llmCalls
  degraded := c.degraded
  usage := c.usage
  costUsd := (c.llmCalls.map (·.costUsd)).sum

/-- What `_flush_trace` saves. -/
def flush (c : RAGTraceCollector) (result : QueryResult) : RAGTrace :=
  ((c.setDegraded result.degraded).setUsage result.usage).build

/-- The collector adds up what the calls used, until it is flushed. -/
theorem usage_addLlmCalls (c : RAGTraceCollector) (calls : List TraceLLMCall) :
    (calls.foldl addLlmCall c).usage = (calls.map (·.tokens)).foldl TokenUsage.add c.usage := by
  induction calls generalizing c with
  | nil => rfl
  | cons call calls ih => exact ih (c.addLlmCall call)

theorem traceId_addLlmCalls (c : RAGTraceCollector) (calls : List TraceLLMCall) :
    (calls.foldl addLlmCall c).traceId = c.traceId := by
  induction calls generalizing c with
  | nil => rfl
  | cons call calls ih => exact ih (c.addLlmCall call)

end RAGTraceCollector

/-- A call as the standard path records it, once the model has answered. -/
def TraceLLMCall.ofCall (s : Services) : LlmCall → Option TraceLLMCall
  | .chat req =>
    match s.chat req with
    | .ok resp => some {
        role := "generate", model := resp.model.getD "", tokens := resp.usage
        promptName := some "generate_standard" }
    | .error _ => none
  | _ => none

/-- The trace of a standard query with that result. -/
def QueryService.standardTrace (svc : QueryService) (s : Services) (mode : QueryMode)
    (query : String) (qvec : List ℚ) (kbId traceId : String) (filter : Option FilterExpr)
    (result : QueryResult) : RAGTrace :=
  let calls := (svc.standardCalls s query qvec kbId traceId filter).filterMap
    (TraceLLMCall.ofCall s)
  (calls.foldl RAGTraceCollector.addLlmCall { traceId, kbId, query, mode }).flush result

theorem QueryService.traceId_standardTrace {svc : QueryService} {s : Services} {mode : QueryMode}
    {query : String} {qvec : List ℚ} {kbId traceId : String} {filter : Option FilterExpr}
    {result : QueryResult} :
    (svc.standardTrace s mode query qvec kbId traceId filter result).traceId = traceId :=
  RAGTraceCollector.traceId_addLlmCalls _ _

/-- The trace that the fallback of a failed agentic run saves under the orchestrator's id. -/
def AgenticOrchestrator.fallbackTraces (o : AgenticOrchestrator) (s : Services) (llm : Llm)
    (query kbId : String) : List RAGTrace :=
  match o.runGraph s llm query kbId, o.fallback s query kbId with
  | .error _, .ok out =>
    let svc := o.standardFallback
    [svc.standardTrace s (routeQuery svc.kbCfg.flags svc.cacheHit query {}) query
      ((s.embedOne query).toOption.getD []) kbId o.traceId none out.result]
  | _, _ => []

/-- The traces that a query with that result saves. An agentic one records none of its calls. -/
def appTraces (kbCfg : KBConfig) (s : Services) (reg : Registry) (query : String) (qvec : List ℚ)
    (kbId traceId : String) (override : RequestOverride) (filter : Option FilterExpr)
    (result : QueryResult) : List RAGTrace :=
  match routeQuery kbCfg.flags (fun _ => false) query override, s.llm with
  | .agentic, some llm =>
    (agenticOrchestrator kbCfg reg).fallbackTraces s llm query kbId ++
      [RAGTraceCollector.flush { traceId, kbId, query, mode := result.mode } result]
  | mode, _ => [(standardService kbCfg reg).standardTrace s mode query qvec kbId traceId filter
      result]

/-- Of the saved traces the last is the request's own, and has the usage of the result. -/
theorem exists_appTraces (kbCfg : KBConfig) (s : Services) (reg : Registry) (query : String)
    (qvec : List ℚ) (kbId traceId : String) (override : RequestOverride)
    (filter : Option FilterExpr) (result : QueryResult) :
    ∃ front trace, appTraces kbCfg s reg query qvec kbId traceId override filter result =
      front ++ [trace] ∧ trace.traceId = traceId ∧ trace.usage = result.usage := by
  unfold appTraces
  split
  · exact ⟨_, _, rfl, rfl, rfl⟩
  · exact ⟨[], _, (List.nil_append _).symm, QueryService.traceId_standardTrace, rfl⟩

end Ragx
