import Ragx.Fusion
import Ragx.SqliteVectorStore

/-!
# Hybrid retrieval over four routes

Dense and keyword recall ask the vector store with the caller's filter; the two
graph routes map entities to chunks by scanning the store without one. A route
that fails counts as empty.
-/
namespace Ragx

/-- The part of the graph store protocol that retrieval uses. -/
structure GraphStore where
  supportsCommunity : Bool
  matchEntities : List ℚ → ℤ → Except Exc (List Entity)
  neighbors : List String → ℤ → ℤ → Except Exc SubGraph
  topics : List ℚ → ℤ → Except Exc (List TopicSummary)

/-- Maps graph hits to chunks through the `entity_ids` of their metadata. -/
structure GraphChunkResolver where
  store : SqliteVectorStore

namespace GraphChunkResolver

def entityIdsOf (chunk : Chunk) : List String :=
  ((chunk.metadata.get? "entity_ids").map Json.strings).getD []

def confidenceOf (chunk : Chunk) (entityId : String) : ℚ :=
  ((chunk.metadata.get? "entity_conf").bind (Json.numberAt entityId)).getD 0

/-- A graph hit for a stored chunk that shares an entity with the given ones. -/
def overlapHit (entityIds : List String) (chunk : Chunk) : Option ScoredChunk :=
  let overlap := (entityIdsOf chunk).filter (· ∈ entityIds)
  if overlap.isEmpty then none
  else some { chunk, score := maxOf (overlap.map (confidenceOf chunk)), source := .graphLow }

/-- The store is asked for everything with a zero vector of length 8. -/
def resolveEntities (db : Sqlite) (resolver : GraphChunkResolver) (entityIds : List String)
    (topK : ℤ) : Except Exc (List ScoredChunk) :=
  if entityIds.isEmpty then .ok []
  else do
    let hits ← resolver.store.searchDense db (List.replicate 8 0) 10000 none
    let out := hits.filterMap fun h => overlapHit entityIds h.chunk
    return sliceTo (out.insertionSort fun a b => b.score ≤ a.score) topK

theorem chunk_of_overlapHit {entityIds : List String} {chunk : Chunk} {sc : ScoredChunk}
    (h : overlapHit entityIds chunk = some sc) : sc.chunk = chunk := by
  unfold overlapHit at h
  dsimp only at h
  split_ifs at h
  cases h
  rfl

/-- Resolved hits are stored chunks, and none are found unless the store's
dimension is 8. -/
theorem mem_resolveEntities {db : Sqlite} {resolver : GraphChunkResolver}
    {entityIds : List String} {topK : ℤ} {hits : List ScoredChunk} {h : ScoredChunk}
    (hr : resolver.resolveEntities db entityIds topK = .ok hits) (hm : h ∈ hits) :
    h.chunk ∈ resolver.store.chunks ∧ resolver.store.dimension = 8 := by
  unfold resolveEntities at hr
  split_ifs at hr with hempty
  · cases hr
    exact absurd hm List.not_mem_nil
  · cases hd : resolver.store.searchDense db (List.replicate 8 0) 10000 none with
    | error e =>
      rw [hd] at hr
      cases hr
    | ok found =>
      rw [hd] at hr
      cases hr
      have hsorted := (List.mem_insertionSort _).mp (mem_of_mem_sliceTo hm)
      obtain ⟨f, hf, hover⟩ := List.mem_filterMap.mp hsorted
      have hdim : resolver.store.dimension = 8 :=
        (SqliteVectorStore.length_of_searchDense hd).symm
      exact ⟨chunk_of_overlapHit hover ▸ (SqliteVectorStore.mem_searchDense hd hf).1, hdim⟩

end GraphChunkResolver

structure HybridRetriever where
  store : SqliteVectorStore
  graphStore : Option GraphStore
  resolver : Option GraphChunkResolver
  cfg : RetrievalConfig
  reranker : Option Reranker := none
  kgEnabled : Bool := false

namespace HybridRetriever

def graphLow (db : Sqlite) (r : HybridRetriever) (qvec : List ℚ) :
    Except Exc (List ScoredChunk) :=
  match r.resolver, r.graphStore with
  | some resolver, some graph => do
    let entities ← graph.matchEntities qvec r.cfg.graphLowTopK
    if entities.isEmpty then return []
    let sub ← graph.neighbors (entities.map (·.entityId)) r.cfg.graphNeighborsHops
      r.cfg.graphNeighborsLimit
    let merged := firstSeen ((entities ++ sub.entities).map (·.entityId))
    resolver.resolveEntities db merged r.cfg.denseTopK
  | _, _ => .ok []

def graphHigh (db : Sqlite) (r : HybridRetriever) (qvec : List ℚ) :
    Except Exc (List ScoredChunk) :=
  match r.resolver, r.graphStore with
  | some resolver, some graph => do
    let topics ← graph.topics qvec r.cfg.graphHighTopK
    resolver.resolveEntities db (topics.flatMap (·.memberEntityIds)) r.cfg.denseTopK
  | _, _ => .ok []

/-- The routes that are started, in order. -/
def routes (db : Sqlite) (r : HybridRetriever) (query : String) (qvec : List ℚ)
    (filter : Option FilterExpr) : List (String × Except Exc (List ScoredChunk)) :=
  [("dense", r.store.searchDense db qvec r.cfg.denseTopK filter)] ++
    (if r.store.supportsBm25 then
      [("bm25", r.store.searchKeyword db query r.cfg.bm25TopK filter)] else []) ++
    match r.kgEnabled, r.graphStore with
    | true, some graph =>
      [("graph_low", r.graphLow db qvec)] ++
        if graph.supportsCommunity then [("graph_high", r.graphHigh db qvec)] else []
    | _, _ => []

/-- A failed route is an empty one. -/
def raw (db : Sqlite) (r : HybridRetriever) (query : String) (qvec : List ℚ)
    (filter : Option FilterExpr) : RouteResults :=
  .ofList ((r.routes db query qvec filter).map fun route => (route.1, route.2.toOption.getD []))

def retrieve (db : Sqlite) (r : HybridRetriever) (query : String) (qvec : List ℚ)
    (filter : Option FilterExpr) : Except Exc (List RetrievalHit) :=
  fuseAndRerank r.cfg r.reranker query (r.raw db query qvec filter)

/-- The graph routes can return something: the flag is on, both stores are wired
and the resolver's zero vector has the dimension of its store. -/
def GraphRoutesLive (r : HybridRetriever) : Prop :=
  r.kgEnabled = true ∧ r.graphStore.isSome = true ∧
    ∃ resolver, r.resolver = some resolver ∧ resolver.store.dimension = 8

theorem mem_graphLow {db : Sqlite} {r : HybridRetriever} {qvec : List ℚ}
    {hits : List ScoredChunk} {h : ScoredChunk} (hg : r.graphLow db qvec = .ok hits)
    (hm : h ∈ hits) :
    ∃ resolver, r.resolver = some resolver ∧ h.chunk ∈ resolver.store.chunks ∧
      resolver.store.dimension = 8 := by
  unfold graphLow at hg
  split at hg
  · rename_i resolver graph hres _
    cases he : graph.matchEntities qvec r.cfg.graphLowTopK with
    | error e =>
      rw [he] at hg
      cases hg
    | ok entities =>
      rw [he] at hg
      simp only [bind, Except.bind] at hg
      split_ifs at hg
      · cases hg
        exact absurd hm List.not_mem_nil
      · split at hg
        · cases hg
        · exact ⟨resolver, hres, GraphChunkResolver.mem_resolveEntities hg hm⟩
  · cases hg
    exact absurd hm List.not_mem_nil

theorem mem_graphHigh {db : Sqlite} {r : HybridRetriever} {qvec : List ℚ}
    {hits : List ScoredChunk} {h : ScoredChunk} (hg : r.graphHigh db qvec = .ok hits)
    (hm : h ∈ hits) :
    ∃ resolver, r.resolver = some resolver ∧ h.chunk ∈ resolver.store.chunks ∧
      resolver.store.dimension = 8 := by
  unfold graphHigh at hg
  split at hg
  · rename_i resolver graph hres _
    cases ht : graph.topics qvec r.cfg.graphHighTopK with
    | error e =>
      rw [ht] at hg
      cases hg
    | ok topics =>
      rw [ht] at hg
      exact ⟨resolver, hres, GraphChunkResolver.mem_resolveEntities hg hm⟩
  · cases hg
    exact absurd hm List.not_mem_nil

/-- A hit of a route is a stored chunk that passes the filter, or it comes from
a live graph route. -/
theorem mem_routes {db : Sqlite} {r : HybridRetriever} {query : String} {qvec : List ℚ}
    {filter : Option FilterExpr} {name : String} {hits : List ScoredChunk} {h : ScoredChunk}
    (hr : (name, .ok hits) ∈ r.routes db query qvec filter) (hm : h ∈ hits) :
    (h.chunk ∈ r.store.chunks ∧ satisfiedBy db filter h.chunk = true) ∨
      (r.GraphRoutesLive ∧ ∃ resolver, r.resolver = some resolver ∧
        h.chunk ∈ resolver.store.chunks) := by
  unfold routes at hr
  rcases List.mem_append.mp hr with hr | hgraph
  · refine Or.inl ?_
    rcases List.mem_append.mp hr with hdense | hkeyword
    · have heq := (Prod.mk.injEq .. ▸ List.mem_singleton.mp hdense).2
      exact SqliteVectorStore.mem_searchDense heq.symm hm
    · split_ifs at hkeyword
      · have heq := (Prod.mk.injEq .. ▸ List.mem_singleton.mp hkeyword).2
        exact SqliteVectorStore.mem_searchKeyword heq.symm hm
      · exact absurd hkeyword List.not_mem_nil
  · refine Or.inr ?_
    split at hgraph
    · rename_i graph hkg hstore
      have hsome : r.graphStore.isSome = true := by rw [hstore]; rfl
      rcases List.mem_append.mp hgraph with hlow | hhigh
      · have heq := (Prod.mk.injEq .. ▸ List.mem_singleton.mp hlow).2
        obtain ⟨resolver, hres, hstored, hdim⟩ := mem_graphLow heq.symm hm
        exact ⟨⟨hkg, hsome, resolver, hres, hdim⟩, resolver, hres, hstored⟩
      · split_ifs at hhigh
        · have heq := (Prod.mk.injEq .. ▸ List.mem_singleton.mp hhigh).2
          obtain ⟨resolver, hres, hstored, hdim⟩ := mem_graphHigh heq.symm hm
          exact ⟨⟨hkg, hsome, resolver, hres, hdim⟩, resolver, hres, hstored⟩
        · exact absurd hhigh List.not_mem_nil
    · exact absurd hgraph List.not_mem_nil

theorem mem_raw {db : Sqlite} {r : HybridRetriever} {query : String} {qvec : List ℚ}
    {filter : Option FilterExpr} {route : String × List ScoredChunk} {h : ScoredChunk}
    (hr : route ∈ (r.raw db query qvec filter).entries) (hm : h ∈ route.2) :
    ∃ hits, (route.1, .ok hits) ∈ r.routes db query qvec filter ∧ h ∈ hits := by
  obtain ⟨⟨name, result⟩, hmem, rfl⟩ := List.mem_map.mp (OrderedDict.mem_entries_ofList hr)
  cases result with
  | error e => exact absurd hm List.not_mem_nil
  | ok hits => exact ⟨hits, hmem, hm⟩

/-- Every retrieved chunk is stored and passes the filter, or a live graph route
found it. -/
theorem mem_retrieve {db : Sqlite} {r : HybridRetriever} {query : String} {qvec : List ℚ}
    {filter : Option FilterExpr} {hits : List RetrievalHit} {h : RetrievalHit}
    (hr : r.retrieve db query qvec filter = .ok hits) (hm : h ∈ hits) :
    (h.chunk ∈ r.store.chunks ∧ satisfiedBy db filter h.chunk = true) ∨
      (r.GraphRoutesLive ∧ ∃ resolver, r.resolver = some resolver ∧
        h.chunk ∈ resolver.store.chunks) := by
  obtain ⟨h', hfused, hchunk⟩ := mem_rerank hr hm
  obtain ⟨route, hroute, sc, hsc, hsource⟩ := mem_fuse hfused
  obtain ⟨found, hfound, hin⟩ := mem_raw hroute hsc
  rw [← hchunk, ← hsource]
  exact mem_routes hfound hin

theorem routes_nodup (db : Sqlite) (r : HybridRetriever) (query : String) (qvec : List ℚ)
    (filter : Option FilterExpr) : ((r.routes db query qvec filter).map Prod.fst).Nodup := by
  have hbm : r.store.supportsBm25 = true := rfl
  unfold routes
  rw [if_pos hbm]
  cases r.kgEnabled with
  | false => simp
  | true =>
    cases r.graphStore with
    | none => simp
    | some graph => cases hc : graph.supportsCommunity <;> simp [hc]

/-- A successful route is among the recalled results. -/
theorem raw_of_route {db : Sqlite} {r : HybridRetriever} {query : String} {qvec : List ℚ}
    {filter : Option FilterExpr} {name : String} {hits : List ScoredChunk}
    (hr : (name, .ok hits) ∈ r.routes db query qvec filter) :
    (name, hits) ∈ (r.raw db query qvec filter).entries := by
  have hn : (((r.routes db query qvec filter).map fun route =>
      (route.1, route.2.toOption.getD [])).map Prod.fst).Nodup := by
    rw [List.map_map]
    exact r.routes_nodup db query qvec filter
  exact OrderedDict.mem_entries.mpr
    (OrderedDict.get?_update_of_mem .empty hn (List.mem_map_of_mem hr))

/-- A retriever that can only see one chunk, and sees it, returns exactly that chunk. -/
theorem retrieve_single {db : Sqlite} {r : HybridRetriever} {query : String} {qvec : List ℚ}
    {filter : Option FilterExpr} {chunk : Chunk} {name : String} {hits : List ScoredChunk}
    (hno : r.reranker = none) (hk : 1 ≤ r.cfg.rerankTopK)
    (hstore : ∀ c ∈ r.store.chunks, c = chunk)
    (hresolver : ∀ resolver, r.resolver = some resolver → resolver.store = r.store)
    (hr : (name, .ok hits) ∈ r.routes db query qvec filter) (hne : hits ≠ []) :
    ∃ h, r.retrieve db query qvec filter = .ok [h] ∧ h.chunk = chunk := by
  rw [retrieve, hno]
  refine fuseAndRerank_single hk (raw_of_route hr) hne ?_
  intro route hroute sc hsc
  obtain ⟨found, hfound, hin⟩ := mem_raw hroute hsc
  rcases mem_routes hfound hin with ⟨hstored, _⟩ | ⟨_, resolver, hres, hstored⟩
  · exact hstore _ hstored
  · exact hstore _ (hresolver resolver hres ▸ hstored)

end HybridRetriever

end Ragx
