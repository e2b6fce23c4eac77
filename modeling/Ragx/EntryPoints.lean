import Ragx.App

/-!
# The retrieval entry points

Chunks reach a caller through the query service, through a retriever, through the
search route and through the MCP search tool. The main result says, for each of
them, when every delivered chunk passes the caller's filter and none is a
synthetic chunk of the semantic cache.
-/
namespace Ragx

/-! ## Filter validation -/

def FilterOp.value : FilterOp → String
  | .eq => "eq"
  | .ne => "ne"
  | .gt => "gt"
  | .ge => "ge"
  | .lt => "lt"
  | .le => "le"
  | .isIn => "in"
  | .contains => "contains"

def validateClause (clause : FilterClause) : Except Exc Unit :=
  if clause.field = "" then
    .error {
      cls := .filterValidation, code := 4003, message := "filter field must be non-empty"
      details := [("op", .str clause.op.value)] }
  else match clause.op, clause.value with
    | .isIn, .arr _ => .ok ()
    | .isIn, _ => .error {
        cls := .filterValidation, code := 4003, message := "'in' filter requires a list value"
        details := [("field", .str clause.field)] }
    | _, _ => .ok ()

/-- The operators are valid by their type. -/
def validateFilter : Option FilterExpr → Except Exc Unit
  | none => .ok ()
  | some f => (f.and_.getD [] ++ f.or_.getD []).forM validateClause

/-! ## The search route and the MCP tool -/

structure SearchRequest where
  kbId : String
  query : String
  topK : ℕ := 8
  filter : Option FilterExpr := none
  top_k_ge : 1 ≤ topK := by decide
  top_k_le : topK ≤ 50 := by decide

structure SearchResultItem where
  chunkId : String
  docId : String
  text : String
  page : Option ℤ := none
  score : ℚ
  source : String

/-- The items of an answer and the hits they stand for. -/
structure SearchResult where
  hits : List RetrievalHit
  results : List SearchResultItem
  traceId : String

/-- The tool's answer with the hits behind it. -/
structure McpSearchResult where
  kbId : String
  query : String
  hits : List RetrievalHit
  results : List SearchResultItem

def RetrievalSource.value : RetrievalSource → String
  | .dense => "dense"
  | .bm25 => "bm25"
  | .graphLow => "graph_low"
  | .graphHigh => "graph_high"

def SearchResultItem.ofHit (h : RetrievalHit) : SearchResultItem where
  chunkId := h.chunk.chunkId
  docId := h.chunk.docId
  text := h.chunk.text
  page := h.chunk.page
  score := h.rerankScore.getD h.rrfScore
  source := ",".intercalate (h.sources.map RetrievalSource.value)

/-- The tool's items have no page and never the reranker's score. -/
def SearchResultItem.ofHitMcp (h : RetrievalHit) : SearchResultItem :=
  { SearchResultItem.ofHit h with page := none, score := h.rrfScore }

/-- The search route's retriever has no resolver, and its graph routes stay off. -/
def searchRetriever (kbCfg : KBConfig) (reg : Registry) (kbId : String) : HybridRetriever where
  store := reg.vectorStore kbId
  graphStore := kbCfg.graphStore.map fun _ => reg.graphStore kbId
  resolver := none
  cfg := {}

/-- `POST /v1/search`, under the caller's filter as it is. -/
def search (kbCfg : KBConfig) (s : Services) (reg : Registry) (kbAcl : Option (List String))
    (traceId : String) (req : SearchRequest) : Except Exc SearchResult := do
  validateFilter req.filter
  requireKbAccess kbAcl req.kbId
  let qvec ← s.embedOne req.query
  let hits ← (searchRetriever kbCfg reg req.kbId).retrieve s.db req.query qvec req.filter
  let shown := hits.take req.topK
  return { hits := shown, results := shown.map SearchResultItem.ofHit, traceId }

/-- The search behind the tool, under the caller's filter as it is. -/
def searchFn (kbCfg : KBConfig) (s : Services) (reg : Registry) (kbId query : String) (topK : ℤ)
    (filter : Option FilterExpr) : Except Exc McpSearchResult := do
  let qvec ← s.embedOne query
  let hits ← (reg.retriever kbCfg {} kbId).retrieve s.db query qvec filter
  let shown := sliceTo hits topK
  return { kbId, query, hits := shown, results := shown.map SearchResultItem.ofHitMcp }

/-- `ragx_search`; errors are texts. A session's allow-list admits nothing else, also when it
is empty. -/
def execSearch (kbCfg : KBConfig) (s : Services) (reg : Registry) (kbAcl : Option (List String))
    (kbId query : String) (topK : ℤ) (filter : Option FilterExpr) :
    Except String McpSearchResult :=
  if kbAcl.all (kbId ∈ ·) then
    (searchFn kbCfg s reg kbId query topK filter).mapError fun e => "Search failed: " ++ e.message
  else .error ("kb_id '" ++ kbId ++ "' is not authorised for this MCP session")

/-! ## What reaches the caller -/

inductive EntryPoint where
  | query
  | retrieve
  | search
  | mcpSearch
deriving DecidableEq, Repr

/-- Some call of the entry point under the filter hands out the chunk. -/
def Delivers (kbCfg : KBConfig) (s : Services) (reg : Registry) (filter : Option FilterExpr)
    (chunk : Chunk) : EntryPoint → Prop
  | .query => ∃ kb query qvec traceId override out,
    (createApp kbCfg s reg).query s query qvec kb traceId override filter = .ok out ∧
      ∃ h ∈ out.cited, h.chunk = chunk
  | .retrieve => ∃ kb query qvec hits,
    (reg.retriever kbCfg {} kb).retrieve s.db query qvec filter = .ok hits ∧
      ∃ h ∈ hits, h.chunk = chunk
  | .search => ∃ kbAcl traceId req result, req.filter = filter ∧
    search kbCfg s reg kbAcl traceId req = .ok result ∧ ∃ h ∈ result.hits, h.chunk = chunk
  | .mcpSearch => ∃ kbAcl kb query topK result,
    execSearch kbCfg s reg kbAcl kb query topK filter = .ok result ∧
      ∃ h ∈ result.hits, h.chunk = chunk

/-- Whatever the stores hold and the collaborators answer, every delivered chunk passes the
filter and is no cache chunk. -/
def Conforms (db : Sqlite) (kbCfg : KBConfig) (hasLlm : Bool) (dimension : ℕ)
    (filter : Option FilterExpr) (entry : EntryPoint) : Prop :=
  ∀ (s : Services) (reg : Registry) (chunk : Chunk), s.db = db → s.llm.isSome = hasLlm →
    reg.dimension = dimension → Delivers kbCfg s reg filter chunk entry →
      satisfiedBy db filter chunk = true ∧ chunk.docId ≠ cacheDocId

/-- The graph routes of the query path's retriever can return something. -/
def GraphLive (kbCfg : KBConfig) (dimension : ℕ) : Prop :=
  kbCfg.flags.kgEnabled = true ∧ kbCfg.graphStore.isSome = true ∧ dimension = 8

/-- No cache chunk passes the filter itself. -/
def ExcludesCache (db : Sqlite) (filter : Option FilterExpr) : Prop :=
  ∀ chunk, satisfiedBy db filter chunk = true → chunk.docId ≠ cacheDocId

/-- When an entry point conforms. -/
def Guarded (db : Sqlite) (kbCfg : KBConfig) (hasLlm : Bool) (dimension : ℕ)
    (filter : Option FilterExpr) : EntryPoint → Prop
  | .query => hasLlm = false ∨ (¬ GraphLive kbCfg dimension ∧ kbCfg.flags.agenticEnabled = false)
  | .retrieve => ¬ GraphLive kbCfg dimension ∧ ExcludesCache db filter
  | .search => validateFilter filter ≠ .ok () ∨ ExcludesCache db filter
  | .mcpSearch => ¬ GraphLive kbCfg dimension ∧ ExcludesCache db filter

section Guarded

variable {db : Sqlite} {kbCfg : KBConfig} {hasLlm : Bool} {dimension : ℕ} {s : Services}
  {reg : Registry} {filter : Option FilterExpr} {chunk : Chunk}

/-- Without live graph routes every retrieved chunk passes the filter. -/
theorem satisfied_of_not_live {kb query : String} {cfg : RetrievalConfig} {qvec : List ℚ}
    {hits : List RetrievalHit} {h : RetrievalHit} (hlive : ¬ GraphLive kbCfg reg.dimension)
    (hr : (reg.retriever kbCfg cfg kb).retrieve s.db query qvec filter = .ok hits) (hm : h ∈ hits) :
    satisfiedBy s.db filter h.chunk = true := by
  rcases HybridRetriever.mem_retrieve hr hm with
    ⟨_, hpass⟩ | ⟨⟨hkg, hgraph, resolver, hres, hdim⟩, _⟩
  · exact hpass
  · obtain ⟨_, _, rfl⟩ := Option.map_eq_some_iff.mp hres
    refine absurd ⟨hkg, ?_, (reg.dimension_eq kb).symm.trans hdim⟩ hlive
    rw [← Option.isSome_map]
    exact hgraph

/-- Without a model the generation fails, and only empty answers are left. -/
theorem cited_of_no_llm {kb query traceId : String} {qvec : List ℚ} {out : QueryOutcome}
    (hllm : s.llm = none)
    (hq : (standardService kbCfg reg).queryStandard s query qvec kb traceId filter = .ok out) :
    out.cited = [] := by
  rcases QueryService.queryStandard_cases hq with rfl | ⟨_, _, _, _, _, _, hgenerate, _⟩
  · rfl
  · simp only [QueryService.generate, Services.chat, hllm, bind, Except.bind] at hgenerate
    split at hgenerate <;> cases hgenerate

theorem conforms_query (hg : Guarded db kbCfg hasLlm dimension filter .query) :
    Conforms db kbCfg hasLlm dimension filter .query := by
  rintro s reg chunk rfl hllm rfl ⟨kb, query, qvec, traceId, override, out, hq, h, hm, rfl⟩
  rcases hg with hno | ⟨hlive, hagentic⟩
  · rw [hno, Option.isSome_eq_false_iff, Option.isNone_iff_eq_none] at hllm
    rw [query_of_not_agentic (Or.inl hllm)] at hq
    rw [cited_of_no_llm hllm hq] at hm
    exact absurd hm List.not_mem_nil
  · have hroute : routeQuery kbCfg.flags (fun _ => false) query override ≠ .agentic := by
      intro hroute
      rw [agenticEnabled_of_route hroute] at hagentic
      cases hagentic
    rw [query_of_not_agentic (Or.inr hroute)] at hq
    obtain ⟨hits, hr, hin⟩ := QueryService.mem_queryStandard hq hm
    have hpass := satisfied_of_not_live hlive hr hin
    have hboth := (QueryService.satisfied_excludeCache s.db filter h.chunk).symm.trans hpass
    rw [Bool.and_eq_true_iff, bne_iff_ne] at hboth
    exact hboth

theorem conforms_retrieve (hg : Guarded db kbCfg hasLlm dimension filter .retrieve) :
    Conforms db kbCfg hasLlm dimension filter .retrieve := by
  rintro s reg chunk rfl - rfl ⟨kb, query, qvec, hits, hr, h, hm, rfl⟩
  have hpass := satisfied_of_not_live hg.1 hr hm
  exact ⟨hpass, hg.2 h.chunk hpass⟩

theorem mem_searchFn {kb query : String} {topK : ℤ} {result : McpSearchResult} {h : RetrievalHit}
    (hr : searchFn kbCfg s reg kb query topK filter = .ok result) (hm : h ∈ result.hits) :
    ∃ qvec hits, (reg.retriever kbCfg {} kb).retrieve s.db query qvec filter = .ok hits ∧
      h ∈ hits := by
  simp only [searchFn, bind, Except.bind] at hr
  split at hr
  · cases hr
  · split at hr
    · cases hr
    · rename_i hretrieve
      cases hr
      exact ⟨_, _, hretrieve, mem_of_mem_sliceTo hm⟩

theorem conforms_mcpSearch (hg : Guarded db kbCfg hasLlm dimension filter .mcpSearch) :
    Conforms db kbCfg hasLlm dimension filter .mcpSearch := by
  rintro s reg chunk rfl - rfl ⟨kbAcl, kb, query, topK, result, hr, h, hm, rfl⟩
  unfold execSearch at hr
  split_ifs at hr
  cases hfn : searchFn kbCfg s reg kb query topK filter with
  | error e => rw [hfn] at hr; cases hr
  | ok found =>
    rw [hfn] at hr
    cases hr
    obtain ⟨qvec, hits, hretrieve, hin⟩ := mem_searchFn hfn hm
    have hpass := satisfied_of_not_live hg.1 hretrieve hin
    exact ⟨hpass, hg.2 h.chunk hpass⟩

/-- The search route has no resolver, so its graph routes find nothing. -/
theorem conforms_search (hg : Guarded db kbCfg hasLlm dimension filter .search) :
    Conforms db kbCfg hasLlm dimension filter .search := by
  rintro s reg chunk rfl - rfl ⟨kbAcl, traceId, req, result, rfl, hr, h, hm, rfl⟩
  unfold search at hr
  cases hvalid : validateFilter req.filter with
  | error e => rw [hvalid] at hr; cases hr
  | ok u =>
    have hexcludes := hg.resolve_left (not_not.mpr hvalid)
    rw [hvalid] at hr
    simp only [bind, Except.bind] at hr
    split at hr
    · cases hr
    · split at hr
      · cases hr
      · split at hr
        · cases hr
        · rename_i hits hretrieve
          cases hr
          rcases HybridRetriever.mem_retrieve hretrieve (List.mem_of_mem_take hm) with
            ⟨_, hpass⟩ | ⟨_, resolver, hres, _⟩
          · exact ⟨hpass, hexcludes h.chunk hpass⟩
          · cases hres

end Guarded

/-! ## Chunks that should not be delivered -/

/-- A cached answer that mentions an entity. -/
def cacheChunk : Chunk where
  chunkId := "cache_1"
  docId := cacheDocId
  kbId := defaultKb
  atomIds := []
  text := "text"
  tokenCount := 1
  metadata := .ofList [("entity_ids", .arr [.str "ent_1"])]

/-- A graph store that matches one entity to every query. -/
def linkedGraph : GraphStore where
  supportsCommunity := false
  matchEntities _ _ := .ok [{
    entityId := "ent_1", kbId := defaultKb, name := "entity", nameNorm := "entity"
    type := "concept", description := "", sourceDocIds := [], confidence := 1 }]
  neighbors _ _ _ := .ok {}
  topics _ _ := .ok []

section Unguarded

variable {db : Sqlite} {kbCfg : KBConfig} {hasLlm : Bool} {dimension : ℕ}
  {filter : Option FilterExpr} {chunk : Chunk}

theorem resolveEntities_cacheChunk (db : Sqlite) :
    ∃ hit, GraphChunkResolver.resolveEntities db ⟨soleStore cacheChunk 8⟩ ["ent_1"] 20 =
      .ok [hit] := by
  have hpass : satisfiedBy db none cacheChunk = true := rfl
  obtain ⟨found, hfound, hchunk⟩ :=
    searchDense_soleStore 8 (show (0 : ℤ) < 10000 by omega) hpass
  obtain ⟨hit, hover⟩ : ∃ hit, GraphChunkResolver.overlapHit ["ent_1"] cacheChunk = some hit :=
    ⟨_, rfl⟩
  refine ⟨hit, ?_⟩
  simp only [GraphChunkResolver.resolveEntities, hfound, bind, Except.bind, List.filterMap_cons,
    hchunk, hover, List.filterMap_nil, List.insertionSort_cons, List.insertionSort_nil,
    List.orderedInsert_nil]
  rfl

/-- A live graph route delivers a cache chunk under any filter. -/
theorem retrieve_cacheChunk (db : Sqlite) (query : String) (qvec : List ℚ)
    (filter : Option FilterExpr) (hlive : GraphLive kbCfg dimension) :
    ∃ h, ((soleRegistry cacheChunk dimension linkedGraph).retriever kbCfg {} defaultKb).retrieve db
      query qvec filter = .ok [h] ∧ h.chunk = cacheChunk := by
  obtain ⟨hkg, hgraph, rfl⟩ := hlive
  obtain ⟨name, hname⟩ := Option.isSome_iff_exists.mp hgraph
  obtain ⟨hit, hresolve⟩ := resolveEntities_cacheChunk db
  have hstore : (soleRegistry cacheChunk 8 linkedGraph).vectorStore defaultKb =
      soleStore cacheChunk 8 := vectorStore_soleRegistry cacheChunk 8 linkedGraph
  have hlow : ((soleRegistry cacheChunk 8 linkedGraph).retriever kbCfg {} defaultKb).graphLow db
      qvec = .ok [hit] := by
    simp only [HybridRetriever.graphLow, Registry.retriever, hname, Option.map_some, hstore]
    exact hresolve
  have hstored : ((soleRegistry cacheChunk 8 linkedGraph).retriever kbCfg {} defaultKb).graphStore =
      some linkedGraph := by
    simp only [Registry.retriever, hname, Option.map_some]
    rfl
  have henabled : ((soleRegistry cacheChunk 8 linkedGraph).retriever kbCfg {}
      defaultKb).kgEnabled = true := hkg
  have hroute : ("graph_low", .ok [hit]) ∈ ((soleRegistry cacheChunk 8 linkedGraph).retriever kbCfg
      {} defaultKb).routes db query qvec filter := by
    refine List.mem_append_right _ ?_
    simp only [henabled, hstored]
    exact List.mem_append_left _ (List.mem_singleton.mpr (congrArg (Prod.mk "graph_low") hlow.symm))
  exact (seesOnly_soleRegistry kbCfg cacheChunk 8 linkedGraph).retrieve_eq hroute
    (List.cons_ne_nil _ _)

theorem queryStandard_answering (dimension : ℕ) (traceId : String) {reg : Registry}
    {kb query : String} {h : RetrievalHit} {qvec : List ℚ} (htokens : h.chunk.tokenCount ≤ 4096)
    (hr : (reg.retriever kbCfg {} kb).retrieve db query qvec
      (some (QueryService.excludeCache filter)) = .ok [h]) :
    ∃ out, (standardService kbCfg reg).queryStandard (answeringServices db dimension) query qvec kb
      traceId filter = .ok out ∧ out.cited = [h] := by
  obtain ⟨context, hassemble⟩ := assemble_default htokens
  refine ⟨⟨{ answer := "answer", citations := [h].map Citation.ofHit, mode := .standard
             traceId }, [h], rfl⟩, ?_, rfl⟩
  have hretriever : (standardService kbCfg reg).retrieverFor kb = reg.retriever kbCfg {} kb := rfl
  have hdb : (answeringServices db dimension).db = db := rfl
  have hcfg : (standardService kbCfg reg).cfg = {} := rfl
  simp only [QueryService.queryStandard, hretriever, hdb, hr, hcfg, hassemble, bind, Except.bind]
  rfl

/-- An unguarded retriever returns a cache chunk in some world. -/
theorem exists_retrieved (h : GraphLive kbCfg dimension ∨ ¬ ExcludesCache db filter) :
    ∃ (reg : Registry) (kb : String) (hit : RetrievalHit), reg.dimension = dimension ∧
      (reg.retriever kbCfg {} kb).retrieve db "query" (List.replicate dimension 0) filter =
        .ok [hit] ∧ hit.chunk.docId = cacheDocId := by
  rcases h with hlive | hexcludes
  · obtain ⟨hit, hr, hchunk⟩ :=
      retrieve_cacheChunk db "query" (List.replicate dimension 0) filter hlive
    exact ⟨_, _, hit, rfl, hr, congrArg (·.docId) hchunk⟩
  · simp only [ExcludesCache, not_forall, not_not] at hexcludes
    obtain ⟨chunk, hpass, hcache⟩ := hexcludes
    obtain ⟨hit, hr, hchunk⟩ :=
      (seesOnly_soleRegistry kbCfg chunk dimension emptyGraph).retrieve_dense "query" hpass
    exact ⟨_, _, hit, rfl, hr, by rw [hchunk, hcache]⟩

/-- The collaborators, with a model or without one. -/
def sampleServices (db : Sqlite) (dimension : ℕ) (hasLlm : Bool) : Services :=
  { answeringServices db dimension with llm := if hasLlm then some answeringLlm else none }

theorem isSome_llm_sampleServices :
    (sampleServices db dimension hasLlm).llm.isSome = hasLlm := by
  cases hasLlm <;> rfl

/-- A delivered cache chunk refutes the guarantee. -/
theorem not_conforms_of_delivers {entry : EntryPoint} {reg : Registry}
    (hdim : reg.dimension = dimension) (hcache : chunk.docId = cacheDocId)
    (hd : Delivers kbCfg (sampleServices db dimension hasLlm) reg filter chunk entry) :
    ¬ Conforms db kbCfg hasLlm dimension filter entry :=
  fun hc => (hc _ reg chunk rfl isSome_llm_sampleServices hdim hd).2 hcache

theorem not_conforms_retrieve (h : GraphLive kbCfg dimension ∨ ¬ ExcludesCache db filter) :
    ¬ Conforms db kbCfg hasLlm dimension filter .retrieve := by
  obtain ⟨reg, kb, hit, hdim, hr, hcache⟩ := exists_retrieved h
  exact not_conforms_of_delivers hdim hcache
    ⟨kb, "query", _, [hit], hr, hit, List.mem_singleton.mpr rfl, rfl⟩

theorem not_conforms_mcpSearch (h : GraphLive kbCfg dimension ∨ ¬ ExcludesCache db filter) :
    ¬ Conforms db kbCfg hasLlm dimension filter .mcpSearch := by
  obtain ⟨reg, kb, hit, hdim, hr, hcache⟩ := exists_retrieved h
  refine not_conforms_of_delivers hdim hcache ⟨none, kb, "query", 8,
    ⟨kb, "query", [hit], [SearchResultItem.ofHitMcp hit]⟩, ?_, hit, List.mem_singleton.mpr rfl, rfl⟩
  have hembed : (sampleServices db dimension hasLlm).embedOne "query" =
      .ok (List.replicate dimension 0) := rfl
  have hdb : (sampleServices db dimension hasLlm).db = db := rfl
  simp only [execSearch, Option.all_none, if_true, searchFn, hembed, hdb, hr, bind, Except.bind]
  rfl

theorem not_conforms_search (hvalid : validateFilter filter = .ok ())
    (h : ¬ ExcludesCache db filter) :
    ¬ Conforms db kbCfg hasLlm dimension filter .search := by
  simp only [ExcludesCache, not_forall, not_not] at h
  obtain ⟨chunk, hpass, hcache⟩ := h
  have hsees : SeesOnly (searchRetriever kbCfg (soleRegistry chunk dimension emptyGraph)
      chunk.kbId) chunk dimension :=
    ⟨vectorStore_soleRegistry chunk dimension emptyGraph, nofun, rfl, rfl⟩
  obtain ⟨hit, hr, hchunk⟩ := hsees.retrieve_dense "query" hpass
  have hdim : (soleRegistry chunk dimension emptyGraph).dimension = dimension := rfl
  have hhit : hit.chunk.docId = cacheDocId := by rw [hchunk, hcache]
  refine not_conforms_of_delivers hdim hhit ⟨none, "",
      { kbId := chunk.kbId, query := "query", filter := filter },
      ⟨[hit], [SearchResultItem.ofHit hit], ""⟩, rfl, ?_, hit, List.mem_singleton.mpr rfl, rfl⟩
  have hembed : (sampleServices db dimension hasLlm).embedOne "query" =
      .ok (List.replicate dimension 0) := rfl
  have hdb : (sampleServices db dimension hasLlm).db = db := rfl
  simp only [search, requireKbAccess, hvalid, hembed, hdb, hr, bind, Except.bind]
  rfl

theorem not_conforms_query
    (h : GraphLive kbCfg dimension ∨ kbCfg.flags.agenticEnabled = true) :
    ¬ Conforms db kbCfg true dimension filter .query := by
  rcases h with hlive | hagentic
  · obtain ⟨hit, hr, hchunk⟩ := retrieve_cacheChunk db "query" []
      (some (QueryService.excludeCache filter)) hlive
    have htokens : hit.chunk.tokenCount ≤ 4096 := by
      rw [hchunk]
      decide
    obtain ⟨out, hout, hcited⟩ := queryStandard_answering dimension "" htokens hr
    have hroute : routeQuery kbCfg.flags (fun _ => false) "query" { mode := some .standard } ≠
        .agentic := by
      simp [routeQuery]
    have hdim : (soleRegistry cacheChunk dimension linkedGraph).dimension = dimension := rfl
    have hcache : cacheChunk.docId = cacheDocId := rfl
    refine not_conforms_of_delivers hdim hcache
      ⟨defaultKb, "query", [], "", { mode := some .standard }, out, ?_, hit, ?_, hchunk⟩
    · exact (query_of_not_agentic (Or.inr hroute)).trans hout
    · simp [hcited]
  · have hdefault : cacheChunk.kbId = defaultKb := rfl
    obtain ⟨out, hit, hout, hcited, hchunk⟩ := runAgentic_soleRegistry kbCfg dimension emptyGraph db
      defaultKb "query" [] hdefault (by decide)
    have hroute : routeQuery kbCfg.flags (fun _ => false) "query" { mode := some .agentic } =
        .agentic := by
      simp [routeQuery, hagentic]
    have hdim : (soleRegistry cacheChunk dimension emptyGraph).dimension = dimension := rfl
    have hcache : cacheChunk.docId = cacheDocId := rfl
    refine not_conforms_of_delivers hdim hcache
      ⟨defaultKb, "query", [], "", { mode := some .agentic }, out, ?_, hit, ?_, hchunk⟩
    · exact (query_of_agentic rfl hroute).trans hout
    · simp [hcited]

end Unguarded

/-- Everything but one document. -/
def otherDocuments : FilterExpr where
  and_ := some [⟨"doc_id", .ne, .str "doc_9"⟩]

end Ragx
