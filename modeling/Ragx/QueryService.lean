import Ragx.HybridRetriever

/-!
# The standard query path

Route, retrieve, assemble under the token budget, generate. A finished query is
kept together with the hits its citations were made from, so that a statement
about citations can speak about the cited chunks.
-/
namespace Ragx

/-! ## Configuration -/

structure FeatureFlags where
  kgEnabled : Bool := false
  vlmEnabled : Bool := false
  agenticEnabled : Bool := false
  cacheEnabled : Bool := true
  avEnabled : Bool := false
deriving DecidableEq, Repr

/-- Budgets of a knowledge base; the bounds are those of the settings model. -/
structure BudgetConfig where
  contextTokenBudget : ℕ := 4096
  agenticTokenBudget : ℕ := 100000
  dailyCostLimitUsd : ℚ := 50
  context_ge : 128 ≤ contextTokenBudget := by decide
  agentic_ge : 1024 ≤ agenticTokenBudget := by decide
  daily_nonneg : 0 ≤ dailyCostLimitUsd := by decide +kernel

structure KBConfig where
  graphStore : Option String := none
  flags : FeatureFlags := {}
  budgets : BudgetConfig := {}
  promptOverrides : OrderedDict String String := .empty

/-! ## Collaborators -/

structure IntentDecision where
  branch : String
  reason : String := ""

/-- A planned task carries a seed query, or leaves it to the user's query. -/
structure TaskPlan where
  tasks : List (Option String)

structure VerifyResult where
  passed : Bool
  issues : String := ""
  confidence : ℚ := 0

/-- The language model: free text and the four structured outputs asked of it. -/
structure Llm where
  chat : ChatRequest → Except Exc ChatResponse
  structuredIntent : ChatRequest → Except Exc IntentDecision
  structuredPlan : ChatRequest → Except Exc TaskPlan
  structuredRewrite : ChatRequest → Except Exc String
  structuredVerify : ChatRequest → Except Exc VerifyResult

/-- Everything the query path calls apart from the stores. -/
structure Services where
  db : Sqlite
  embedder : List String → Except Exc (List (List ℚ))
  renderForKb : String → OrderedDict String String → List (String × String) →
    Except Exc (String × String)
  llm : Option Llm

/-- `(await embedder.embed([text]))[0]`. -/
def Services.embedOne (s : Services) (text : String) : Except Exc (List ℚ) := do
  match ← s.embedder [text] with
  | v :: _ => return v
  | [] => throw (.foreign "list index out of range")

/-- `self.llm.chat(req)`; without a model the attribute lookup fails. -/
def Services.chat (s : Services) (req : ChatRequest) : Except Exc ChatResponse :=
  match s.llm with
  | some llm => llm.chat req
  | none => .error (.foreign "'NoneType' object has no attribute 'chat'")

/-- The kb-scoped plugin instances: one vector store and one graph store for each
knowledge base, all vector stores of one configured dimension. -/
structure Registry where
  dimension : ℕ
  vectorStore : String → SqliteVectorStore
  graphStore : String → GraphStore
  kbId_eq : ∀ kb, (vectorStore kb).kbId = kb
  dimension_eq : ∀ kb, (vectorStore kb).dimension = dimension

/-! ## Context assembly -/

def RetrievalHit.isGraph (h : RetrievalHit) : Bool :=
  h.sources.any fun s => s = .graphLow || s = .graphHigh

/-- Takes hits until the first that would exceed the budget; returns the new total. -/
def fillContext (budget : ℤ) (used : ℕ) : List RetrievalHit → List RetrievalHit × ℕ
  | [] => ([], used)
  | h :: hs =>
    if budget < used + h.chunk.tokenCount then ([], used)
    else
      let rest := fillContext budget (used + h.chunk.tokenCount) hs
      (h :: rest.1, rest.2)

/-- The hits that enter the context: dense and keyword hits first, then graph hits. -/
def assembledHits (cfg : RetrievalConfig) (hits : List RetrievalHit) : List RetrievalHit :=
  let db := fillContext cfg.contextTokenBudget 0 (hits.filter fun h => !h.isGraph)
  let graph := fillContext cfg.contextTokenBudget db.2 (hits.filter (·.isGraph))
  db.1 ++ graph.1

def Citation.ofHit (h : RetrievalHit) : Citation where
  chunkId := h.chunk.chunkId
  docId := h.chunk.docId
  filename :=
    match h.chunk.metadata.get? "filename" with
    | some (.str name) => name
    | _ => ""
  page := h.chunk.page
  snippet := String.ofList (h.chunk.text.toList.take 200)
  score := h.rerankScore.getD h.rrfScore

/-- Context text and cited hits; the pool sizes divide by the sum of the quotas. -/
def assemble (cfg : RetrievalConfig) (hits : List RetrievalHit) :
    Except Exc (String × List RetrievalHit) :=
  if cfg.quotaDenseBm25 + cfg.quotaGraph = 0 then .error (.foreign "division by zero")
  else
    let used := assembledHits cfg hits
    .ok ("\n\n".intercalate (used.map (·.chunk.text)), used)

@[simp]
theorem fillContext_nil (budget : ℤ) (used : ℕ) : fillContext budget used [] = ([], used) := rfl

theorem mem_fillContext {budget : ℤ} {used : ℕ} {hits : List RetrievalHit} {h : RetrievalHit}
    (hm : h ∈ (fillContext budget used hits).1) : h ∈ hits := by
  induction hits generalizing used with
  | nil => exact hm
  | cons x xs ih =>
    unfold fillContext at hm
    split_ifs at hm
    · exact absurd hm List.not_mem_nil
    · rcases List.mem_cons.mp hm with rfl | hm
      · exact List.mem_cons_self
      · exact List.mem_cons_of_mem x (ih hm)

theorem mem_assemble {cfg : RetrievalConfig} {hits used : List RetrievalHit} {context : String}
    {h : RetrievalHit} (ha : assemble cfg hits = .ok (context, used)) (hm : h ∈ used) :
    h ∈ hits := by
  unfold assemble at ha
  split_ifs at ha
  cases ha
  rcases List.mem_append.mp hm with hm | hm
  · exact (List.mem_filter.mp (mem_fillContext hm)).1
  · exact (List.mem_filter.mp (mem_fillContext hm)).1

/-- A single hit within the budget is cited. -/
theorem assemble_single {cfg : RetrievalConfig} {h : RetrievalHit}
    (hq : cfg.quotaDenseBm25 + cfg.quotaGraph ≠ 0)
    (hb : (h.chunk.tokenCount : ℤ) ≤ cfg.contextTokenBudget) :
    ∃ context, assemble cfg [h] = .ok (context, [h]) := by
  have hbudget : ¬ cfg.contextTokenBudget < ((0 : ℕ) : ℤ) + h.chunk.tokenCount := by
    push_cast
    omega
  have hfill : (fillContext cfg.contextTokenBudget 0 [h]).1 = [h] := by
    rw [fillContext, if_neg hbudget]
    rfl
  have hused : assembledHits cfg [h] = [h] := by
    cases hg : h.isGraph with
    | false => simp [assembledHits, hg, hfill]
    | true => simp [assembledHits, hg, hfill]
  exact ⟨_, by rw [assemble, if_neg hq, hused]⟩

/-! ## Routing -/

def entityConnectors : List String := ["和", "与", "以及", "and", "比较", "对比", "关系"]

def heuristicAgentic (query : String) : Bool :=
  (entityConnectors.any (containsText · query) && decide (2 ≤ query.toList.count '的')) ||
    decide (40 < query.length)

/-- `cacheHit` is the answer of the router's own cache; the application wires none. -/
def routeQuery (flags : FeatureFlags) (cacheHit : String → Bool) (query : String)
    (override : RequestOverride) : QueryMode :=
  if flags.cacheEnabled && override.mode != some .agentic && cacheHit query then .fast
  else match override.mode with
    | some .agentic => if flags.agenticEnabled then .agentic else .standard
    | some .standard => .standard
    | _ => if flags.agenticEnabled && heuristicAgentic query then .agentic else .standard

/-! ## The service -/

structure QueryResult where
  answer : String
  citations : List Citation := []
  mode : QueryMode
  traceId : String
  usage : TokenUsage := {}
  costUsd : ℚ := 0
  degraded : Bool := false
  details : List (String × Json) := []

/-- A query result with the hits its citations stand for. -/
structure QueryOutcome where
  result : QueryResult
  cited : List RetrievalHit
  citations_eq : result.citations = cited.map Citation.ofHit

structure QueryService where
  retriever : HybridRetriever
  cfg : RetrievalConfig
  kbCfg : KBConfig
  registry : Option Registry
  /-- The wired orchestrator, as a function of query, knowledge base and vector. -/
  agentic : Option (String → String → List ℚ → Except Exc QueryOutcome) := none
  cacheHit : String → Bool := fun _ => false

/-- A retriever over the plugin instances of one knowledge base. -/
def Registry.retriever (reg : Registry) (kbCfg : KBConfig) (cfg : RetrievalConfig)
    (kbId : String) : HybridRetriever where
  store := reg.vectorStore kbId
  graphStore := kbCfg.graphStore.map fun _ => reg.graphStore kbId
  resolver := kbCfg.graphStore.map fun _ => ⟨reg.vectorStore kbId⟩
  cfg := cfg
  kgEnabled := kbCfg.flags.kgEnabled

namespace QueryService

def retrieverFor (svc : QueryService) (kbId : String) : HybridRetriever :=
  match svc.registry with
  | none => svc.retriever
  | some reg => reg.retriever svc.kbCfg svc.cfg kbId

/-- `doc_id != CACHE_DOC_ID`. -/
def cacheExclusion : FilterClause := ⟨"doc_id", .ne, .str cacheDocId⟩

def excludeCache : Option FilterExpr → FilterExpr
  | none => { and_ := some [cacheExclusion] }
  | some f =>
    match f.and_ with
    | some (c :: cs) => { and_ := some ((c :: cs) ++ [cacheExclusion]), or_ := f.or_ }
    | _ => { and_ := some [cacheExclusion], or_ := f.or_ }

def emptyAnswer : String := "知识库中未检索到相关内容。"

def generateRequest (system user kbId traceId : String) : ChatRequest :=
  { messages := [⟨"system", system⟩, ⟨"user", user⟩], role := .generate
    kbId := kbId, traceId := some traceId }

def generate (svc : QueryService) (s : Services) (query context kbId traceId : String) :
    Except Exc String := do
  let (system, user) ← s.renderForKb "generate_standard" svc.kbCfg.promptOverrides
    [("query", query), ("assembled_context", context)]
  let resp ← s.chat (generateRequest system user kbId traceId)
  return resp.text

/-- The critical path; an empty recall is answered honestly. -/
def queryStandard (svc : QueryService) (s : Services) (query : String) (qvec : List ℚ)
    (kbId traceId : String) (filter : Option FilterExpr) : Except Exc QueryOutcome := do
  let hits ← (svc.retrieverFor kbId).retrieve s.db query qvec (some (excludeCache filter))
  if hits.isEmpty then
    return ⟨{ answer := emptyAnswer, mode := .standard, traceId
              details := [("empty", .bool true), ("reason", .str "4002")] }, [], rfl⟩
  else do
    let (context, used) ← assemble svc.cfg hits
    let answer ← svc.generate s query context kbId traceId
    return ⟨{ answer, citations := used.map Citation.ofHit, mode := .standard, traceId }, used, rfl⟩

/-- An agentic query hands over query, knowledge base and vector, but no filter. -/
def query (svc : QueryService) (s : Services) (query : String) (qvec : List ℚ)
    (kbId traceId : String) (override : RequestOverride) (filter : Option FilterExpr) :
    Except Exc QueryOutcome :=
  match routeQuery svc.kbCfg.flags svc.cacheHit query override, svc.agentic with
  | .fast, _ => .ok ⟨{ answer := "", mode := .fast, traceId }, [], rfl⟩
  | .agentic, some run => run query kbId qvec
  | _, _ => svc.queryStandard s query qvec kbId traceId filter

/-- A finished standard query has found nothing, or hits that were assembled and put to the
model. -/
theorem exists_hits_queryStandard {svc : QueryService} {s : Services} {query : String}
    {qvec : List ℚ} {kbId traceId : String} {filter : Option FilterExpr} {out : QueryOutcome}
    (hq : svc.queryStandard s query qvec kbId traceId filter = .ok out) :
    ∃ hits,
      (svc.retrieverFor kbId).retrieve s.db query qvec (some (excludeCache filter)) = .ok hits ∧
      (hits = [] ∧
          out = ⟨{ answer := emptyAnswer, mode := .standard, traceId
                   details := [("empty", .bool true), ("reason", .str "4002")] }, [], rfl⟩ ∨
        hits ≠ [] ∧ ∃ context used answer, assemble svc.cfg hits = .ok (context, used) ∧
          svc.generate s query context kbId traceId = .ok answer ∧
          out = ⟨{ answer, citations := used.map Citation.ofHit, mode := .standard, traceId },
            used, rfl⟩) := by
  unfold queryStandard at hq
  cases hr : (svc.retrieverFor kbId).retrieve s.db query qvec (some (excludeCache filter)) with
  | error e =>
    rw [hr] at hq
    cases hq
  | ok hits =>
    refine ⟨hits, rfl, ?_⟩
    simp only [hr, bind, Except.bind] at hq
    split_ifs at hq with hempty
    · exact Or.inl ⟨List.isEmpty_iff.mp hempty, (Except.ok.inj hq).symm⟩
    · refine Or.inr ⟨fun hnil => hempty (List.isEmpty_iff.mpr hnil), ?_⟩
      cases ha : assemble svc.cfg hits with
      | error e =>
        rw [ha] at hq
        cases hq
      | ok assembled =>
        rw [ha] at hq
        dsimp only at hq
        cases hg : svc.generate s query assembled.1 kbId traceId with
        | error e =>
          rw [hg] at hq
          cases hq
        | ok answer =>
          rw [hg] at hq
          exact ⟨_, _, answer, rfl, hg, (Except.ok.inj hq).symm⟩

/-- What a finished standard query has found: nothing, or hits that were put to the model. -/
theorem queryStandard_cases {svc : QueryService} {s : Services} {query : String} {qvec : List ℚ}
    {kbId traceId : String} {filter : Option FilterExpr} {out : QueryOutcome}
    (hq : svc.queryStandard s query qvec kbId traceId filter = .ok out) :
    out = ⟨{ answer := emptyAnswer, mode := .standard, traceId
             details := [("empty", .bool true), ("reason", .str "4002")] }, [], rfl⟩ ∨
      ∃ hits context used answer,
        (svc.retrieverFor kbId).retrieve s.db query qvec (some (excludeCache filter)) = .ok hits ∧
        assemble svc.cfg hits = .ok (context, used) ∧
        svc.generate s query context kbId traceId = .ok answer ∧
        out = ⟨{ answer, citations := used.map Citation.ofHit, mode := .standard, traceId }, used,
          rfl⟩ := by
  obtain ⟨hits, hr, ⟨_, hout⟩ | ⟨_, context, used, answer, ha, hg, hout⟩⟩ :=
    exists_hits_queryStandard hq
  · exact Or.inl hout
  · exact Or.inr ⟨hits, context, used, answer, hr, ha, hg, hout⟩

/-- Only retrieved hits are cited. -/
theorem mem_queryStandard {svc : QueryService} {s : Services} {query : String} {qvec : List ℚ}
    {kbId traceId : String} {filter : Option FilterExpr} {out : QueryOutcome} {h : RetrievalHit}
    (hq : svc.queryStandard s query qvec kbId traceId filter = .ok out) (hm : h ∈ out.cited) :
    ∃ hits, (svc.retrieverFor kbId).retrieve s.db query qvec (some (excludeCache filter)) =
      .ok hits ∧ h ∈ hits := by
  rcases queryStandard_cases hq with rfl | ⟨hits, _, _, _, hr, ha, _, rfl⟩
  · exact absurd hm List.not_mem_nil
  · exact ⟨hits, hr, mem_assemble ha hm⟩

/-- The merged filter passes what the caller's filter passes, except cache chunks. -/
theorem satisfied_excludeCache (db : Sqlite) (filter : Option FilterExpr) (chunk : Chunk) :
    (excludeCache filter).satisfied db chunk =
      (satisfiedBy db filter chunk && chunk.docId != cacheDocId) := by
  have hclause : db.holds (clauseSql cacheExclusion) chunk = (chunk.docId != cacheDocId) :=
    db.docId_ne cacheDocId chunk
  cases filter with
  | none => simp [excludeCache, FilterExpr.satisfied, satisfiedBy, hclause]
  | some f =>
    obtain ⟨andGroup, orGroup⟩ := f
    cases andGroup with
    | none => simp [excludeCache, FilterExpr.satisfied, satisfiedBy, hclause, Bool.and_comm]
    | some group =>
      cases group with
      | nil => simp [excludeCache, FilterExpr.satisfied, satisfiedBy, hclause, Bool.and_comm]
      | cons c cs =>
        simp only [excludeCache, FilterExpr.satisfied, satisfiedBy, Option.getD_some,
          List.all_append, List.all_cons, List.all_nil, hclause, Bool.and_true]
        rw [Bool.and_right_comm]

end QueryService

end Ragx
