import Ragx.Agentic

/-!
# The wired application

`createApp` builds one retriever over the plugins of the `default` knowledge
base, the standard service, and around it the agentic service, whose executor and
planner keep the default instances. The main result says for which queries an
answer depends on its own knowledge base alone.
-/
namespace Ragx

def defaultKb : String := "default"

/-- The service without an agentic route, the default and the fallback. -/
def standardService (kbCfg : KBConfig) (reg : Registry) : QueryService where
  retriever := reg.retriever kbCfg {} defaultKb
  cfg := {}
  kbCfg := kbCfg
  registry := some reg

/-- The orchestrator over the default instances. -/
def agenticOrchestrator (kbCfg : KBConfig) (reg : Registry) : AgenticOrchestrator where
  graphStore := kbCfg.graphStore.map fun _ => reg.graphStore defaultKb
  executor := { retriever := reg.retriever kbCfg {} defaultKb, cfg := {} }
  standardFallback := standardService kbCfg reg
  budgetCap := kbCfg.budgets.agenticTokenBudget

/-- The query service of an application; without a model there is no agentic route. -/
def createApp (kbCfg : KBConfig) (s : Services) (reg : Registry) : QueryService :=
  match kbCfg.flags.agenticEnabled, s.llm with
  | true, some llm =>
    { standardService kbCfg reg with
      agentic := some ((agenticOrchestrator kbCfg reg).runAgentic s llm) }
  | _, _ => standardService kbCfg reg

/-! ## Which stores a query reads -/

/-- A retriever over the instances of one knowledge base finds its chunks only. -/
theorem Registry.mem_retriever {reg : Registry} {kbCfg : KBConfig} {cfg : RetrievalConfig}
    {kb query : String} {db : Sqlite} {qvec : List ℚ} {filter : Option FilterExpr}
    {hits : List RetrievalHit} {h : RetrievalHit}
    (hr : (reg.retriever kbCfg cfg kb).retrieve db query qvec filter = .ok hits) (hm : h ∈ hits) :
    h.chunk ∈ (reg.vectorStore kb).chunks := by
  rcases HybridRetriever.mem_retrieve hr hm with ⟨hstored, _⟩ | ⟨_, resolver, hres, hstored⟩
  · exact hstored
  · obtain ⟨_, _, rfl⟩ := Option.map_eq_some_iff.mp hres
    exact hstored

section Query

variable {kbCfg : KBConfig} {s : Services} {reg reg' : Registry} {kb query traceId : String}
  {qvec : List ℚ} {override : RequestOverride} {filter : Option FilterExpr}

/-- The application's router has no cache and never answers from one. -/
theorem routeQuery_ne_fast (flags : FeatureFlags) (query : String) (override : RequestOverride) :
    routeQuery flags (fun _ => false) query override ≠ .fast := by
  unfold routeQuery
  rw [Bool.and_false, if_neg Bool.false_ne_true]
  split
  · split_ifs <;> nofun
  · nofun
  · split_ifs <;> nofun

theorem agenticEnabled_of_route {flags : FeatureFlags} {cacheHit : String → Bool}
    (h : routeQuery flags cacheHit query override = .agentic) : flags.agenticEnabled = true := by
  by_contra hflag
  rw [Bool.not_eq_true] at hflag
  simp only [routeQuery, hflag, Bool.false_and, Bool.false_eq_true, if_false] at h
  split_ifs at h
  split at h <;> cases h

theorem query_standardService :
    (standardService kbCfg reg).query s query qvec kb traceId override filter =
      (standardService kbCfg reg).queryStandard s query qvec kb traceId filter := by
  have hroute := routeQuery_ne_fast kbCfg.flags query override
  unfold QueryService.query
  split
  · exact absurd ‹_› hroute
  · rename_i hagentic
    cases hagentic
  · rfl

theorem query_of_not_agentic
    (h : s.llm = none ∨ routeQuery kbCfg.flags (fun _ => false) query override ≠ .agentic) :
    (createApp kbCfg s reg).query s query qvec kb traceId override filter =
      (standardService kbCfg reg).queryStandard s query qvec kb traceId filter := by
  unfold createApp
  split
  · rename_i llm _ hllm
    have hroute := h.resolve_left (by rw [hllm]; nofun)
    unfold QueryService.query
    split
    · exact absurd ‹_› (routeQuery_ne_fast kbCfg.flags query override)
    · exact absurd ‹_› hroute
    · rfl
  · exact query_standardService

theorem query_of_agentic {llm : Llm} (hllm : s.llm = some llm)
    (hroute : routeQuery kbCfg.flags (fun _ => false) query override = .agentic) :
    (createApp kbCfg s reg).query s query qvec kb traceId override filter =
      (agenticOrchestrator kbCfg reg).runAgentic s llm query kb qvec := by
  have happ : createApp kbCfg s reg = { standardService kbCfg reg with
      agentic := some ((agenticOrchestrator kbCfg reg).runAgentic s llm) } := by
    rw [createApp, agenticEnabled_of_route hroute, hllm]
  rw [happ]
  unfold QueryService.query
  split
  · exact absurd ‹_› (routeQuery_ne_fast kbCfg.flags query override)
  · rename_i run _ hrun
    cases hrun
    rfl
  · rename_i hnot
    exact absurd hroute fun h => hnot _ h rfl

theorem mem_queryStandard {out : QueryOutcome} {h : RetrievalHit}
    (hq : (standardService kbCfg reg).queryStandard s query qvec kb traceId filter = .ok out)
    (hm : h ∈ out.cited) : h.chunk ∈ (reg.vectorStore kb).chunks := by
  obtain ⟨hits, hr, hin⟩ := QueryService.mem_queryStandard hq hm
  exact Registry.mem_retriever hr hin

end Query

/-! ## Isolation -/

/-- Two registries with the same instances for one knowledge base. -/
structure AgreeOn (kb : String) (reg reg' : Registry) : Prop where
  vectorStore : reg.vectorStore kb = reg'.vectorStore kb
  graphStore : reg.graphStore kb = reg'.graphStore kb

/-- Whatever the stores hold and the collaborators answer, a query for `kb` cites chunks of
`kb` and gives the same result in every world with the same instances for `kb`. -/
structure Isolated (kbCfg : KBConfig) (hasLlm : Bool) (kb query : String)
    (override : RequestOverride) : Prop where
  cites_own : ∀ (s : Services) (reg : Registry) (qvec : List ℚ) (traceId : String)
    (filter : Option FilterExpr) (out : QueryOutcome), s.llm.isSome = hasLlm →
      (createApp kbCfg s reg).query s query qvec kb traceId override filter = .ok out →
        ∀ h ∈ out.cited, h.chunk ∈ (reg.vectorStore kb).chunks
  reads_own : ∀ (s : Services) (reg reg' : Registry) (qvec : List ℚ) (traceId : String)
    (filter : Option FilterExpr), s.llm.isSome = hasLlm → AgreeOn kb reg reg' →
      (createApp kbCfg s reg).query s query qvec kb traceId override filter =
        (createApp kbCfg s reg').query s query qvec kb traceId override filter

section Isolation

variable {kbCfg : KBConfig} {s : Services} {reg reg' : Registry} {kb query traceId : String}
  {qvec : List ℚ} {override : RequestOverride} {filter : Option FilterExpr}

theorem AgreeOn.retriever_eq (h : AgreeOn kb reg reg') (kbCfg : KBConfig)
    (cfg : RetrievalConfig) : reg.retriever kbCfg cfg kb = reg'.retriever kbCfg cfg kb := by
  rw [Registry.retriever, Registry.retriever, h.vectorStore, h.graphStore]

theorem AgreeOn.queryStandard_eq (h : AgreeOn kb reg reg') :
    (standardService kbCfg reg).queryStandard s query qvec kb traceId filter =
      (standardService kbCfg reg').queryStandard s query qvec kb traceId filter := by
  have hretriever : (standardService kbCfg reg).retrieverFor kb =
      (standardService kbCfg reg').retrieverFor kb := h.retriever_eq kbCfg {}
  rw [QueryService.queryStandard, hretriever]
  rfl

/-- In the default knowledge base the agentic route reads nothing else. -/
theorem AgreeOn.runAgentic_eq {llm : Llm} (h : AgreeOn defaultKb reg reg') :
    (agenticOrchestrator kbCfg reg).runAgentic s llm query defaultKb qvec =
      (agenticOrchestrator kbCfg reg').runAgentic s llm query defaultKb qvec := by
  have hgraph : (agenticOrchestrator kbCfg reg).runGraph s llm query defaultKb =
      (agenticOrchestrator kbCfg reg').runGraph s llm query defaultKb := by
    have hretriever := h.retriever_eq kbCfg {}
    simp only [AgenticOrchestrator.runGraph, agenticOrchestrator, hretriever, h.graphStore]
    rfl
  have hfallback : (agenticOrchestrator kbCfg reg).fallback s query defaultKb =
      (agenticOrchestrator kbCfg reg').fallback s query defaultKb := by
    rw [AgenticOrchestrator.fallback, AgenticOrchestrator.fallback]
    exact query_standardService.trans (h.queryStandard_eq.trans query_standardService.symm)
  rw [AgenticOrchestrator.runAgentic, AgenticOrchestrator.runAgentic, hgraph, hfallback]

theorem isolated_of_not_agentic {hasLlm : Bool}
    (h : hasLlm = false ∨ routeQuery kbCfg.flags (fun _ => false) query override ≠ .agentic) :
    Isolated kbCfg hasLlm kb query override := by
  have hnot (s : Services) (hs : s.llm.isSome = hasLlm) : s.llm = none ∨
      routeQuery kbCfg.flags (fun _ => false) query override ≠ .agentic := by
    refine h.imp_left fun hno => ?_
    rw [hno, Option.isSome_eq_false_iff, Option.isNone_iff_eq_none] at hs
    exact hs
  constructor
  · intro s reg qvec traceId filter out hs hq h hm
    rw [query_of_not_agentic (hnot s hs)] at hq
    exact mem_queryStandard hq hm
  · intro s reg reg' qvec traceId filter hs hagree
    rw [query_of_not_agentic (hnot s hs), query_of_not_agentic (hnot s hs)]
    exact hagree.queryStandard_eq

theorem isolated_default {hasLlm : Bool} : Isolated kbCfg hasLlm defaultKb query override := by
  by_cases hroute : routeQuery kbCfg.flags (fun _ => false) query override = .agentic
  · cases hasLlm with
    | false => exact isolated_of_not_agentic (Or.inl rfl)
    | true =>
      constructor
      · intro s reg qvec traceId filter out hs hq h hm
        obtain ⟨llm, hllm⟩ := Option.isSome_iff_exists.mp hs
        rw [query_of_agentic hllm hroute] at hq
        rcases AgenticOrchestrator.cites_runAgentic hq hm with
          ⟨query', qvec', hits, hr, hin⟩ | ⟨out', hf, hcited⟩
        · exact Registry.mem_retriever hr hin
        · rw [AgenticOrchestrator.fallback] at hf
          exact mem_queryStandard (query_standardService.symm.trans hf) (hcited ▸ hm)
      · intro s reg reg' qvec traceId filter hs hagree
        obtain ⟨llm, hllm⟩ := Option.isSome_iff_exists.mp hs
        rw [query_of_agentic hllm hroute, query_of_agentic hllm hroute]
        exact hagree.runAgentic_eq
  · exact isolated_of_not_agentic (Or.inr hroute)

end Isolation

/-! ## A world with one chunk -/

def emptyStore (kb : String) (dimension : ℕ) : SqliteVectorStore where
  kbId := kb
  dimension := dimension
  rows := []
  kb_scoped := fun _ h => absurd h List.not_mem_nil
  dimension_eq := fun _ h => absurd h List.not_mem_nil
  ids_nodup := List.nodup_nil

def soleStore (chunk : Chunk) (dimension : ℕ) : SqliteVectorStore where
  kbId := chunk.kbId
  dimension := dimension
  rows := [{ toChunk := chunk, vector := List.replicate dimension 0 }]
  kb_scoped := by simp
  dimension_eq := by simp
  ids_nodup := List.nodup_singleton _

/-- The only stored chunk of any knowledge base is `chunk`. -/
def soleRegistry (chunk : Chunk) (dimension : ℕ) (graph : GraphStore) : Registry where
  dimension := dimension
  vectorStore kb :=
    if kb = chunk.kbId then soleStore chunk dimension else emptyStore kb dimension
  graphStore _ := graph
  kbId_eq kb := by
    split_ifs with h
    · exact h.symm
    · rfl
  dimension_eq kb := by split_ifs <;> rfl

/-- A model that answers every request: one task, any answer, a passed verification. -/
def answeringLlm : Llm where
  chat _ := .ok { text := "answer" }
  structuredIntent _ := .ok { branch := "answer" }
  structuredPlan _ := .ok { tasks := [some "seed"] }
  structuredRewrite _ := .ok "seed"
  structuredVerify _ := .ok { passed := true }

def answeringServices (db : Sqlite) (dimension : ℕ) : Services where
  db := db
  embedder texts := .ok (texts.map fun _ => List.replicate dimension 0)
  renderForKb _ _ _ := .ok ("", "")
  llm := some answeringLlm

def emptyGraph : GraphStore where
  supportsCommunity := false
  matchEntities _ _ := .ok []
  neighbors _ _ _ := .ok {}
  topics _ _ := .ok []

theorem planner_answeringLlm (graphStore : Option GraphStore) (query : String) :
    planner answeringLlm graphStore query = .ok ⟨"answer", [{ seedQuery := "seed" }]⟩ := by
  rfl

theorem vectorStore_soleRegistry (chunk : Chunk) (dimension : ℕ) (graph : GraphStore) :
    (soleRegistry chunk dimension graph).vectorStore chunk.kbId = soleStore chunk dimension :=
  if_pos rfl

/-- The default budget holds a chunk of up to 4096 tokens. -/
theorem assemble_default {h : RetrievalHit} (htokens : h.chunk.tokenCount ≤ 4096) :
    ∃ context, assemble {} [h] = .ok (context, [h]) := by
  have hquota : ({} : RetrievalConfig).quotaDenseBm25 + ({} : RetrievalConfig).quotaGraph ≠ 0 := by
    decide +kernel
  have hbudget : (h.chunk.tokenCount : ℤ) ≤ ({} : RetrievalConfig).contextTokenBudget :=
    Int.ofNat_le.mpr htokens
  exact assemble_single hquota hbudget

section SoleChunk

variable {chunk : Chunk} {dimension : ℕ} {graph : GraphStore} {db : Sqlite} {kbCfg : KBConfig}

theorem chunks_soleRegistry_of_ne {kb : String} (h : kb ≠ chunk.kbId) :
    ((soleRegistry chunk dimension graph).vectorStore kb).chunks = [] := by
  simp only [soleRegistry, if_neg h]
  rfl

theorem searchDense_soleStore (dimension : ℕ) {filter : Option FilterExpr} {topK : ℤ}
    (hk : 0 < topK) (hpass : satisfiedBy db filter chunk = true) :
    ∃ hit, (soleStore chunk dimension).searchDense db (List.replicate dimension 0) topK filter =
      .ok [hit] ∧ hit.chunk = chunk := by
  obtain ⟨n, hn⟩ : ∃ n, (max topK 0).toNat = n + 1 := ⟨(max topK 0).toNat - 1, by omega⟩
  have hlength : (List.replicate dimension (0 : ℚ)).length =
      (soleStore chunk dimension).dimension :=
    List.length_replicate
  refine ⟨{ chunk, score := db.cosine (List.replicate dimension 0) (List.replicate dimension 0)
            source := .dense }, ?_, rfl⟩
  rw [SqliteVectorStore.searchDense, if_neg (not_not.mpr hlength), hn]
  simp [soleStore, hpass]

/-- A retriever that can only see the sole chunk. -/
structure SeesOnly (r : HybridRetriever) (chunk : Chunk) (dimension : ℕ) : Prop where
  store : r.store = soleStore chunk dimension
  resolver : ∀ resolver, r.resolver = some resolver → resolver.store = r.store
  cfg : r.cfg = {}
  reranker : r.reranker = none

theorem seesOnly_soleRegistry (kbCfg : KBConfig) (chunk : Chunk) (dimension : ℕ)
    (graph : GraphStore) :
    SeesOnly ((soleRegistry chunk dimension graph).retriever kbCfg {} chunk.kbId) chunk
      dimension := by
  refine ⟨vectorStore_soleRegistry chunk dimension graph, fun resolver hres => ?_, rfl, rfl⟩
  obtain ⟨_, _, rfl⟩ := Option.map_eq_some_iff.mp hres
  rfl

/-- A route that finds the sole chunk makes it the only hit. -/
theorem SeesOnly.retrieve_eq {r : HybridRetriever} (hr : SeesOnly r chunk dimension)
    {query name : String} {qvec : List ℚ} {filter : Option FilterExpr} {hits : List ScoredChunk}
    (hroute : (name, .ok hits) ∈ r.routes db query qvec filter) (hne : hits ≠ []) :
    ∃ h, r.retrieve db query qvec filter = .ok [h] ∧ h.chunk = chunk := by
  refine HybridRetriever.retrieve_single hr.reranker (by rw [hr.cfg]; decide) ?_ hr.resolver
    hroute hne
  intro c hc
  rw [hr.store] at hc
  exact List.mem_singleton.mp hc

/-- The dense route finds the sole chunk, if the filter lets it. -/
theorem SeesOnly.retrieve_dense {r : HybridRetriever} (hr : SeesOnly r chunk dimension)
    (query : String) {filter : Option FilterExpr} (hpass : satisfiedBy db filter chunk = true) :
    ∃ h, r.retrieve db query (List.replicate dimension 0) filter = .ok [h] ∧ h.chunk = chunk := by
  obtain ⟨hit, hdense, -⟩ := searchDense_soleStore dimension (show (0 : ℤ) < 20 by omega) hpass
  have hroute : ("dense", .ok [hit]) ∈ r.routes db query (List.replicate dimension 0) filter := by
    refine List.mem_append_left _ (List.mem_append_left _ (List.mem_singleton.mpr ?_))
    rw [hr.store, hr.cfg]
    exact congrArg (Prod.mk "dense") hdense.symm
  exact hr.retrieve_eq hroute (List.cons_ne_nil _ _)

theorem answerFrom_soleRegistry (kbCfg : KBConfig) (dimension : ℕ) (graph : GraphStore)
    (db : Sqlite) (kb query : String) (hkb : chunk.kbId = defaultKb)
    (htokens : chunk.tokenCount ≤ 4096) :
    ∃ h, (agenticOrchestrator kbCfg (soleRegistry chunk dimension graph)).executor.answerFrom
      (answeringServices db dimension) answeringLlm query kb =
        .ok (some { answer := "answer", cited := [h] }) ∧ h.chunk = chunk := by
  have hpass : satisfiedBy db none chunk = true := rfl
  obtain ⟨h, hretrieve, hchunk⟩ :=
    (seesOnly_soleRegistry kbCfg chunk dimension graph).retrieve_dense query hpass
  obtain ⟨context, hassemble⟩ := assemble_default (hchunk ▸ htokens)
  rw [hkb] at hretrieve
  refine ⟨h, ?_, hchunk⟩
  have hembed : (answeringServices db dimension).embedOne query =
      .ok (List.replicate dimension 0) := rfl
  have hfound : (agenticOrchestrator kbCfg
      (soleRegistry chunk dimension graph)).executor.retriever.retrieve
        (answeringServices db dimension).db query (List.replicate dimension 0) none = .ok [h] :=
    hretrieve
  have hassembled : assemble (agenticOrchestrator kbCfg
      (soleRegistry chunk dimension graph)).executor.cfg [h] = .ok (context, [h]) := hassemble
  simp only [ParallelExecutor.answerFrom, hembed, hfound, hassembled, bind, Except.bind]
  rfl

/-- The agentic route cites a chunk of the default knowledge base, whatever the query's own. -/
theorem runAgentic_soleRegistry (kbCfg : KBConfig) (dimension : ℕ) (graph : GraphStore)
    (db : Sqlite) (kb query : String) (qvec : List ℚ) (hkb : chunk.kbId = defaultKb)
    (htokens : chunk.tokenCount ≤ 4096) :
    ∃ out h, (agenticOrchestrator kbCfg (soleRegistry chunk dimension graph)).runAgentic
      (answeringServices db dimension) answeringLlm query kb qvec = .ok out ∧ out.cited = [h] ∧
        h.chunk = chunk := by
  obtain ⟨h, hanswer, hchunk⟩ :=
    answerFrom_soleRegistry kbCfg dimension graph db kb "seed" hkb htokens
  have hrun : (agenticOrchestrator kbCfg (soleRegistry chunk dimension graph)).executor.run
      (answeringServices db dimension) answeringLlm kb [{ seedQuery := "seed" }] =
        .ok [{ answer := "answer", cited := [h] }] := by
    simp [ParallelExecutor.run, ParallelExecutor.execTask, hanswer, bind, Except.bind]
    rfl
  have hplan : planner answeringLlm
      (agenticOrchestrator kbCfg (soleRegistry chunk dimension graph)).graphStore query =
        .ok ⟨"answer", [{ seedQuery := "seed" }]⟩ := planner_answeringLlm _ query
  have hbudget : (agenticOrchestrator kbCfg (soleRegistry chunk dimension graph)).checkBudget 0 =
      .ok () := by
    have hcap := kbCfg.budgets.agentic_ge
    have hpos : ¬ kbCfg.budgets.agenticTokenBudget ≤ 0 := by omega
    exact if_neg hpos
  have hgraph : ∃ out, (agenticOrchestrator kbCfg (soleRegistry chunk dimension graph)).runGraph
      (answeringServices db dimension) answeringLlm query kb = .ok out ∧ out.cited = [h] := by
    refine ⟨⟨{ answer := "answer", citations := [h].map Citation.ofHit, mode := .agentic
               traceId := "" }, [h], rfl⟩, ?_, rfl⟩
    simp only [AgenticOrchestrator.runGraph, hplan, hbudget, hrun, bind, Except.bind]
    rfl
  obtain ⟨out, hout, hcited⟩ := hgraph
  refine ⟨out, h, ?_, hcited, hchunk⟩
  rw [AgenticOrchestrator.runAgentic, hout]

end SoleChunk

/-! ## When a query is isolated -/

/-- A database in which no phrase matches, and only the inequality of document ids is tested. -/
def plainSqlite : Sqlite where
  holds test chunk :=
    match test.op, test.params with
    | .ne, [.str value] => chunk.docId != value
    | _, _ => false
  bm25 _ _ _ := none
  cosine _ _ := 0
  docId_ne _ _ := rfl

def defaultChunk : Chunk where
  chunkId := "chk_1"
  docId := "doc_1"
  kbId := defaultKb
  atomIds := []
  text := "text"
  tokenCount := 1

/-- The agentic route answers from the default knowledge base. -/
theorem not_isolated_of_agentic {kbCfg : KBConfig} {kb query : String} {override : RequestOverride}
    (hkb : kb ≠ defaultKb)
    (hroute : routeQuery kbCfg.flags (fun _ => false) query override = .agentic) :
    ¬ Isolated kbCfg true kb query override := by
  intro hisolated
  have hdefault : defaultChunk.kbId = defaultKb := rfl
  obtain ⟨out, h, hrun, hcited, hchunk⟩ :=
    runAgentic_soleRegistry kbCfg 1 emptyGraph plainSqlite kb query [0] hdefault (by decide)
  have hquery : (createApp kbCfg (answeringServices plainSqlite 1)
      (soleRegistry defaultChunk 1 emptyGraph)).query (answeringServices plainSqlite 1) query [0]
        kb "" override none = .ok out :=
    (query_of_agentic rfl hroute).trans hrun
  have hin := hisolated.cites_own _ _ _ _ _ out rfl hquery h (by simp [hcited])
  rw [chunks_soleRegistry_of_ne hkb] at hin
  exact absurd hin List.not_mem_nil

end Ragx
