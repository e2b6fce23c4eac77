import Ragx.App
import Ragx.ChunkPartition
import Ragx.IngestStores
import Ragx.KgIntegrity
import Ragx.VectorWrites

/-!
# From a graph hit back to the chunks

The graph build stores entities and the embedding stage stores chunks. The resolver goes from
the one to the other through metadata that no stage writes, and asks the store with a vector
of length 8. Which chunk an entity was extracted from is kept beside the stores here, so that
what the resolver is to return can be said.
-/
namespace Ragx

open NetworkXGraphStore

/-! ## What ingestion stores -/

/-- The stores of a knowledge base, and the pairs of a chunk and an entity extracted from it. -/
structure KnowledgeBase (G : Type) where
  vectors : SqliteVectorStore
  graph : NetworkXGraphStore G
  extracted : List (String × String) := []

/-- The stages of a document that write to its knowledge base. They may be called again, and
those of several documents come in any order. -/
inductive StageCall where
  | embedding (doc : IngestEnv) (freshIds : List String)
  | kgBuilding (doc : IngestEnv) (freshIds : List String) (draws : Draws)

namespace IngestEnv

variable (doc : IngestEnv)

/-- The chunk rows that the chunking stage leaves behind. -/
def chunkRows (freshIds : List String) : Except Exc (List Chunk) :=
  (doc.drafts (getAtoms (saveAtoms .empty doc.parse))).map fun drafts =>
    getChunksByDoc (saveChunks .empty (identified freshIds drafts))

theorem chunkRows_of_toOption {freshIds : List String} {rows : List Chunk}
    (h : (doc.chunkRows freshIds).toOption = some rows) : doc.chunkRows freshIds = .ok rows := by
  cases hrows : doc.chunkRows freshIds with
  | error e =>
    rw [hrows] at h
    cases h
  | ok rows' =>
    rw [hrows] at h
    cases h
    rfl

theorem metadata_of_mem_drafts {atoms : List Atom} {drafts : List Chunk}
    (h : doc.drafts atoms = .ok drafts) {chunk : Chunk} (hchunk : chunk ∈ drafts) :
    chunk.metadata = .empty := by
  obtain ⟨groups, _, hchunks⟩ := chunk_eq_ok_iff.mp h
  obtain ⟨group, _, hgroup⟩ := exists_of_mem_mapM hchunks hchunk
  unfold assembleChunk at hgroup
  dsimp only at hgroup
  split_ifs at hgroup
  cases hgroup
  rfl

theorem metadata_of_mem_saveChunks {chunks : List Chunk}
    (h : ∀ chunk ∈ chunks, chunk.metadata = .empty) {id : String} {row : Chunk}
    (hrow : (saveChunks .empty chunks).get? id = some row) : row.metadata = .empty := by
  induction chunks using List.reverseRecOn generalizing id row with
  | nil => cases hrow
  | append_singleton chunks chunk ih =>
    have hlast := h chunk (List.mem_append_right _ (List.mem_singleton.mpr rfl))
    rw [saveChunks, OrderedDict.accumulate_append] at hrow
    change (OrderedDict.insert (saveChunks .empty chunks) chunk.chunkId
      (saveChunk ((saveChunks .empty chunks).get? chunk.chunkId) chunk)).get? id = some row at hrow
    rw [OrderedDict.get?_insert] at hrow
    split_ifs at hrow
    · rw [← Option.some.inj hrow]
      cases (saveChunks .empty chunks).get? chunk.chunkId with
      | none => exact hlast
      | some old => exact hlast
    · exact ih (fun c hc => h c (List.mem_append_left _ hc)) hrow

/-- The chunker leaves the metadata of its chunks empty, and so do the chunk rows. -/
theorem metadata_of_mem_chunkRows {freshIds : List String} {rows : List Chunk}
    (h : doc.chunkRows freshIds = .ok rows) {chunk : Chunk} (hchunk : chunk ∈ rows) :
    chunk.metadata = .empty := by
  obtain ⟨drafts, hdrafts, rfl⟩ := map_eq_ok_iff.mp h
  obtain ⟨id, hid⟩ := mem_getChunksByDoc.mp hchunk
  refine metadata_of_mem_saveChunks (fun c hc => ?_) hid
  obtain ⟨⟨fresh, draft⟩, hzip, rfl⟩ := List.mem_map.mp hc
  have hdraft : draft ∈ drafts := (List.of_mem_zip hzip).2
  have hempty := doc.metadata_of_mem_drafts hdrafts hdraft
  exact hempty

end IngestEnv

namespace KgEnv

variable {G : Type} (kg : KgEnv)

/-- The chunks that a build plans entities for, with the ids under which these are upserted. -/
def extractions (draws : Draws) (chunks : List Chunk) (s : NetworkXGraphStore G) :
    List (String × String) :=
  (placed (((kg.plans s chunks).toOption.getD []).map ChunkPlan.items)).map fun x =>
    (x.1.chunk.chunkId, (kg.placedEntity draws x).entityId)

theorem chunk_of_mem_extractions {draws : Draws} {chunks : List Chunk}
    {s : NetworkXGraphStore G} {x : String × String} (h : x ∈ kg.extractions draws chunks s) :
    ∃ chunk ∈ chunks, chunk.chunkId = x.1 := by
  obtain ⟨⟨item, i, j⟩, hplaced, rfl⟩ := List.mem_map.mp h
  have hitem := mem_flatten_of_mem_placed hplaced
  cases hplans : kg.plans s chunks with
  | error e =>
    rw [hplans] at hitem
    exact absurd hitem List.not_mem_nil
  | ok plans =>
    rw [hplans] at hitem
    have hresolved : item ∈ kg.resolvedItems s chunks := kg.flatten_items_of_plans hplans ▸ hitem
    obtain ⟨chunk, hchunk, hin⟩ := List.mem_flatMap.mp hresolved
    cases hplan : kg.chunkPlan s chunk with
    | error e =>
      rw [hplan] at hin
      exact absurd hin List.not_mem_nil
    | ok plan =>
      rw [hplan] at hin
      obtain ⟨y, _, rfl⟩ := List.mem_map.mp hin
      exact ⟨chunk, hchunk, congrArg (·.chunkId) (kg.chunkPlan_spec hplan).1.symm⟩

end KgEnv

namespace KnowledgeBase

variable {G : Type} [MultiDiGraph G Entity Relation]

def fresh (kbId : String) (dimension : ℕ) : KnowledgeBase G where
  vectors := emptyStore kbId dimension
  graph := NetworkXGraphStore.fresh kbId

variable (kg : KgEnv)

/-- What a stage leaves in the stores, also when it raises. The graph is only built for chunks
that the embedding stage has stored. -/
def step (kb : KnowledgeBase G) : StageCall → Option (KnowledgeBase G)
  | .embedding doc freshIds =>
    (doc.chunkRows freshIds).toOption.map fun chunks =>
      { kb with vectors := (SqliteVectorStore.upsert (doc.embedded chunks) kb.vectors).1 }
  | .kgBuilding doc freshIds draws =>
    (doc.chunkRows freshIds).toOption.bind fun chunks =>
      if ∀ chunk ∈ chunks, chunk.chunkId ∈ kb.vectors.rows.map fun row => row.chunkId then
        some { kb with
          graph := (kg.buildForChunks draws chunks kb.graph).1
          extracted := kb.extracted ++ kg.extractions draws chunks kb.graph }
      else none

/-- What ingestion establishes: no row has metadata, and every entity of the graph was extracted
from a stored chunk. -/
structure Traced (kb : KnowledgeBase G) : Prop where
  metadata : ∀ row ∈ kb.vectors.rows, row.metadata = .empty
  sourced : ∀ e ∈ kb.graph.entities.values, ∃ row ∈ kb.vectors.rows,
    (row.chunkId, e.entityId) ∈ kb.extracted

theorem metadata_upsert {rows : List EmbeddedChunk} {store : SqliteVectorStore}
    (hrows : ∀ row ∈ rows, row.metadata = .empty)
    (hstore : ∀ row ∈ store.rows, row.metadata = .empty) :
    ∀ row ∈ (SqliteVectorStore.upsert rows store).1.rows, row.metadata = .empty := by
  refine Command.forEach_invariant
    (I := fun store : SqliteVectorStore => ∀ row ∈ store.rows, row.metadata = .empty)
    (fun row hrow store hstore => ?_) hstore
  unfold SqliteVectorStore.upsertOne
  split_ifs
  · intro x hx
    rcases mem_writeRow hx with rfl | hold | ⟨old, _, rfl⟩
    · exact hrows x hrow
    · exact hstore x hold
    · exact hrows row hrow
  · exact hstore
  · exact hstore

/-- An upsert takes no row away. -/
theorem mem_ids_upsert (rows : List EmbeddedChunk) {store : SqliteVectorStore} {id : String}
    (h : ∃ row ∈ store.rows, row.chunkId = id) :
    ∃ row ∈ (SqliteVectorStore.upsert rows store).1.rows, row.chunkId = id := by
  refine Command.forEach_invariant
    (I := fun store : SqliteVectorStore => ∃ row ∈ store.rows, row.chunkId = id)
    (fun row _ store hstore => ?_) h
  unfold SqliteVectorStore.upsertOne
  split_ifs
  · have hids := List.mem_map.mpr hstore
    refine List.mem_map.mp ?_
    show id ∈ (writeRow row store.rows).map fun r => r.chunkId
    rw [map_chunkId_writeRow]
    split_ifs
    · exact hids
    · exact List.mem_append_left _ hids
  · exact hstore
  · exact hstore

/-- What holds of the ids of all stored and upserted entities holds of those stored afterwards,
whether the upsert raises or not. -/
theorem entityId_upsertEntities {P : String → Prop} {s : NetworkXGraphStore G} {es : List Entity}
    (hes : ∀ e ∈ es, P e.entityId) (hs : ∀ e ∈ s.entities.values, P e.entityId) :
    ∀ e ∈ (upsertEntities es s).1.entities.values, P e.entityId := by
  refine Command.forEach_invariant
    (I := fun t : NetworkXGraphStore G => ∀ e ∈ t.entities.values, P e.entityId)
    (fun entity hentity t ht => ?_) hs
  by_cases hkb : t.Accepts entity.kbId
  · have hids := KeyedTable.map_values_merge (p := Entity.entityId) mergeEntity_keepsKey
      (fun _ => rfl) (fun _ _ => rfl) t.entities entity
    intro e he
    rw [entities_upsertEntity hkb] at he
    have hid := List.mem_map_of_mem (f := Entity.entityId) he
    rw [hids] at hid
    split_ifs at hid
    · obtain ⟨old, hold, hsame⟩ := List.mem_map.mp hid
      exact hsame ▸ ht old hold
    · rcases List.mem_append.mp hid with hold | hnew
      · obtain ⟨old, hold, hsame⟩ := List.mem_map.mp hold
        exact hsame ▸ ht old hold
      · exact List.mem_singleton.mp hnew ▸ hes entity hentity
  · have hraised : upsertEntity entity t = (t, some (t.otherKbError entity.kbId)) := if_neg hkb
    rw [hraised]
    exact ht

/-- The entities after a build were there before it, or were extracted by it. -/
theorem entityId_buildForChunks {P : String → Prop} {draws : Draws} {chunks : List Chunk}
    {s : NetworkXGraphStore G} (hs : ∀ e ∈ s.entities.values, P e.entityId)
    (hnew : ∀ x ∈ kg.extractions draws chunks s, P x.2) :
    ∀ e ∈ (kg.buildForChunks draws chunks s).1.entities.values, P e.entityId := by
  cases hplans : kg.plans s chunks with
  | error e =>
    have hsame : kg.buildForChunks draws chunks s = (s, some e) := by
      rw [KgEnv.buildForChunks, hplans]
    rw [hsame]
    exact hs
  | ok plans =>
    rw [kg.buildForChunks_of_plans hplans]
    have hentities : ∀ e ∈ (upsertEntities (kg.allEntities draws plans) s).1.entities.values,
        P e.entityId := by
      refine entityId_upsertEntities (fun e he => ?_) hs
      rw [KgEnv.allEntities_eq] at he
      obtain ⟨x, hx, rfl⟩ := List.mem_map.mp he
      refine hnew (x.1.chunk.chunkId, (kg.placedEntity draws x).entityId) ?_
      rw [KgEnv.extractions, hplans]
      exact List.mem_map_of_mem hx
    refine Command.andThen_invariant
      (I := fun t : NetworkXGraphStore G => ∀ e ∈ t.entities.values, P e.entityId)
      hentities fun _ => ?_
    rw [entities_upsertRelations]
    exact hentities

theorem traced_fresh (kbId : String) (dimension : ℕ) :
    (fresh kbId dimension : KnowledgeBase G).Traced where
  metadata := fun _ h => absurd h List.not_mem_nil
  sourced := fun _ h => absurd h List.not_mem_nil

/-- Each stage keeps the rows plain and the entities sourced. -/
theorem traced_step {kb kb' : KnowledgeBase G} {call : StageCall} (hkb : kb.Traced)
    (h : kb.step kg call = some kb') : kb'.Traced := by
  cases call with
  | embedding doc freshIds =>
    obtain ⟨chunks, hchunks, rfl⟩ := Option.map_eq_some_iff.mp h
    have hrows := doc.chunkRows_of_toOption hchunks
    refine ⟨metadata_upsert (fun row hrow => ?_) hkb.metadata, fun e he => ?_⟩
    · have hchunk := List.mem_map_of_mem (f := fun x : EmbeddedChunk => x.toChunk) hrow
      rw [map_toChunk_embedded] at hchunk
      exact doc.metadata_of_mem_chunkRows hrows hchunk
    · obtain ⟨row, hrow, hfrom⟩ := hkb.sourced e he
      obtain ⟨row', hrow', hid⟩ := mem_ids_upsert (doc.embedded chunks) ⟨row, hrow, rfl⟩
      exact ⟨row', hrow', hid ▸ hfrom⟩
  | kgBuilding doc freshIds draws =>
    obtain ⟨chunks, _, hbuilt⟩ := Option.bind_eq_some_iff.mp h
    split_ifs at hbuilt with hstored
    cases hbuilt
    refine ⟨hkb.metadata, ?_⟩
    refine entityId_buildForChunks kg (P := fun id => ∃ row ∈ kb.vectors.rows,
      (row.chunkId, id) ∈ kb.extracted ++ kg.extractions draws chunks kb.graph) ?_ ?_
    · intro e he
      obtain ⟨row, hrow, hfrom⟩ := hkb.sourced e he
      exact ⟨row, hrow, List.mem_append_left _ hfrom⟩
    · intro x hx
      obtain ⟨chunk, hchunk, hid⟩ := kg.chunk_of_mem_extractions hx
      obtain ⟨row, hrow, hrowid⟩ := List.mem_map.mp (hstored chunk hchunk)
      refine ⟨row, hrow, List.mem_append_right _ ?_⟩
      rw [hrowid, hid]
      exact hx

theorem traced_run {kbId : String} {dimension : ℕ} {calls : List StageCall}
    {kb : KnowledgeBase G} (h : run (step kg) (fresh kbId dimension) calls = some kb) :
    kb.Traced :=
  run_invariant (fun _ _ _ hkb hstep => traced_step kg hkb hstep) (traced_fresh kbId dimension) h

end KnowledgeBase

/-! ## What the resolver finds -/

/-- Chunks without metadata share no entity with anything. -/
theorem GraphChunkResolver.resolveEntities_of_plain {db : Sqlite} {resolver : GraphChunkResolver}
    (hplain : ∀ row ∈ resolver.store.rows, row.metadata = .empty) {entityIds : List String}
    {topK : ℤ} {hits : List ScoredChunk}
    (h : resolver.resolveEntities db entityIds topK = .ok hits) : hits = [] := by
  refine List.eq_nil_iff_forall_not_mem.mpr fun hit hmem => ?_
  unfold resolveEntities at h
  split_ifs at h
  · cases h
    exact List.not_mem_nil hmem
  · obtain ⟨found, hfound, hrest⟩ := bind_eq_ok_iff.mp h
    cases hrest
    have hsorted := (List.mem_insertionSort _).mp (mem_of_mem_sliceTo hmem)
    obtain ⟨f, hf, hover⟩ := List.mem_filterMap.mp hsorted
    obtain ⟨row, hrow, hchunk⟩ :=
      List.mem_map.mp (SqliteVectorStore.mem_searchDense hfound hf).1
    have hnone : entityIdsOf f.chunk = [] := by
      have hmeta : f.chunk.metadata = .empty := hchunk ▸ hplain row hrow
      rw [entityIdsOf, hmeta]
      rfl
    rw [overlapHit, hnone] at hover
    cases hover

namespace HybridRetriever

/-- The entities that the low-level route looks chunks up for. -/
def recalledIds (r : HybridRetriever) (qvec : List ℚ) : Except Exc (List String) :=
  match r.graphStore with
  | none => .ok []
  | some graph => do
    let entities ← graph.matchEntities qvec r.cfg.graphLowTopK
    if entities.isEmpty then return []
    let sub ← graph.neighbors (entities.map (·.entityId)) r.cfg.graphNeighborsHops
      r.cfg.graphNeighborsLimit
    return firstSeen ((entities ++ sub.entities).map (·.entityId))

theorem graphLow_eq_resolveEntities {db : Sqlite} {r : HybridRetriever} {qvec : List ℚ}
    {resolver : GraphChunkResolver} (hres : r.resolver = some resolver) :
    r.graphLow db qvec =
      (r.recalledIds qvec).bind fun ids => resolver.resolveEntities db ids r.cfg.denseTopK := by
  unfold graphLow recalledIds
  rw [hres]
  cases r.graphStore with
  | none => rfl
  | some graph =>
    dsimp only
    cases graph.matchEntities qvec r.cfg.graphLowTopK with
    | error e => rfl
    | ok entities =>
      cases entities with
      | nil => rfl
      | cons e es =>
        simp only [bind, Except.bind]
        cases graph.neighbors ((e :: es).map (·.entityId)) r.cfg.graphNeighborsHops
            r.cfg.graphNeighborsLimit with
        | error e => rfl
        | ok sub => rfl

end HybridRetriever

/-- The store as the retriever sees it. How its neighbours are found and which topics it has is
left open. -/
def NetworkXGraphStore.protocol {G : Type} (cosine : List ℚ → List ℚ → ℚ)
    (neighbors : List String → ℤ → ℤ → SubGraph) (topics : List ℚ → ℤ → List TopicSummary)
    (s : NetworkXGraphStore G) : GraphStore where
  supportsCommunity := true
  matchEntities qvec topK := .ok (s.matchEntities cosine qvec topK)
  neighbors ids hops limit := .ok (neighbors ids hops limit)
  topics qvec topK := .ok (topics qvec topK)

namespace KnowledgeBase

variable {G : Type}

/-- The retriever over a knowledge base; its resolver scans the same vector store. -/
def retriever (kb : KnowledgeBase G) (graph : GraphStore) (cfg : RetrievalConfig) :
    HybridRetriever where
  store := kb.vectors
  graphStore := some graph
  resolver := some ⟨kb.vectors⟩
  cfg := cfg
  kgEnabled := true

/-- For every recalled entity the low-level route returns the stored chunks that the entity was
extracted from, as far as the limit goes. -/
def RecallsSources (kb : KnowledgeBase G) (db : Sqlite) (graph : GraphStore)
    (cfg : RetrievalConfig) (qvec : List ℚ) : Prop :=
  let r := kb.retriever graph cfg
  ∀ ids, r.recalledIds qvec = .ok ids → ∀ entityId ∈ ids,
    ∃ hits, r.graphLow db qvec = .ok hits ∧
      ∀ row ∈ kb.vectors.rows, (row.chunkId, entityId) ∈ kb.extracted →
        (∃ h ∈ hits, h.chunk = row.toChunk) ∨ cfg.denseTopK ≤ hits.length

/-- Looking up at least one entity succeeds in stores of 8 dimensions only. -/
theorem dimension_of_resolveEntities {db : Sqlite} {store : SqliteVectorStore}
    {ids : List String} {topK : ℤ} {hits : List ScoredChunk} (hids : ids ≠ [])
    (h : (GraphChunkResolver.mk store).resolveEntities db ids topK = .ok hits) :
    store.dimension = 8 := by
  unfold GraphChunkResolver.resolveEntities at h
  rw [if_neg fun hempty => hids (List.isEmpty_iff.mp hempty)] at h
  obtain ⟨found, hfound, _⟩ := bind_eq_ok_iff.mp h
  rw [← SqliteVectorStore.length_of_searchDense hfound, List.length_replicate]

theorem exists_resolveEntities (db : Sqlite) {store : SqliteVectorStore} (h : store.dimension = 8)
    (ids : List String) (topK : ℤ) :
    ∃ hits, (GraphChunkResolver.mk store).resolveEntities db ids topK = .ok hits := by
  unfold GraphChunkResolver.resolveEntities
  split_ifs
  · exact ⟨_, rfl⟩
  · have hlength : ¬ (List.replicate 8 (0 : ℚ)).length ≠ store.dimension := by
      rw [List.length_replicate, h]
      exact not_not.mpr rfl
    refine ⟨_, bind_eq_ok_iff.mpr ⟨_, if_neg hlength, rfl⟩⟩

section Match

variable {kb : KnowledgeBase G} {cosine : List ℚ → List ℚ → ℚ} {cfg : RetrievalConfig}
  {qvec : List ℚ} (neighbors : List String → ℤ → ℤ → SubGraph)
  (topics : List ℚ → ℤ → List TopicSummary)

theorem recalledIds_of_match {e : Entity} {es : List Entity}
    (h : kb.graph.matchEntities cosine qvec cfg.graphLowTopK = e :: es) :
    ∃ ids, (kb.retriever (kb.graph.protocol cosine neighbors topics) cfg).recalledIds qvec =
      .ok ids ∧ e.entityId ∈ ids := by
  refine ⟨_, bind_eq_ok_iff.mpr ⟨e :: es, congrArg Except.ok h, rfl⟩, ?_⟩
  exact mem_firstSeen.mpr (List.mem_map_of_mem (List.mem_append_left _ List.mem_cons_self))

theorem recalledIds_of_no_match
    (h : kb.graph.matchEntities cosine qvec cfg.graphLowTopK = []) :
    (kb.retriever (kb.graph.protocol cosine neighbors topics) cfg).recalledIds qvec = .ok [] :=
  bind_eq_ok_iff.mpr ⟨[], congrArg Except.ok h, rfl⟩

end Match

variable [MultiDiGraph G Entity Relation]

omit [MultiDiGraph G Entity Relation] in
/-- The rows have no metadata, so nothing is returned for an entity that is recalled. -/
theorem limit_of_recallsSources (kg : KgEnv) {kb : KnowledgeBase G} (hkb : kb.Traced) {db : Sqlite}
    {neighbors : List String → ℤ → ℤ → SubGraph} {topics : List ℚ → ℤ → List TopicSummary}
    {cfg : RetrievalConfig} {qvec : List ℚ}
    (h : kb.RecallsSources db (kb.graph.protocol kg.cosine neighbors topics) cfg qvec) {e : Entity}
    {es : List Entity} (hmatch : kb.graph.matchEntities kg.cosine qvec cfg.graphLowTopK = e :: es) :
    kb.vectors.dimension = 8 ∧ cfg.denseTopK ≤ 0 := by
  obtain ⟨ids, hids, hmem⟩ := recalledIds_of_match neighbors topics hmatch
  obtain ⟨hits, hhits, hall⟩ := h ids hids e.entityId hmem
  rw [HybridRetriever.graphLow_eq_resolveEntities rfl, hids] at hhits
  have hdim := dimension_of_resolveEntities (List.ne_nil_of_mem hmem) hhits
  have hnil := GraphChunkResolver.resolveEntities_of_plain hkb.metadata hhits
  have hstored := mem_matchEntities (hmatch ▸ List.mem_cons_self)
  obtain ⟨row, hrow, hfrom⟩ := hkb.sourced e hstored
  rcases hall row hrow hfrom with ⟨hit, hhit, _⟩ | hlimit
  · rw [hnil] at hhit
    exact absurd hhit List.not_mem_nil
  · rw [hnil] at hlimit
    exact ⟨hdim, hlimit⟩

/-- Behind every ingestion, the sources of the recalled entities are returned exactly when the
query recalls none, or when nothing is asked for and the embeddings have 8 dimensions. -/
theorem recallsSources_iff (kg : KgEnv) {kbId : String} {dimension : ℕ} {calls : List StageCall}
    {kb : KnowledgeBase G} (hrun : run (step kg) (fresh kbId dimension) calls = some kb)
    (db : Sqlite) (neighbors : List String → ℤ → ℤ → SubGraph)
    (topics : List ℚ → ℤ → List TopicSummary) (cfg : RetrievalConfig) (qvec : List ℚ) :
    kb.RecallsSources db (kb.graph.protocol kg.cosine neighbors topics) cfg qvec ↔
      kb.graph.matchEntities kg.cosine qvec cfg.graphLowTopK = [] ∨
        (kb.vectors.dimension = 8 ∧ cfg.denseTopK ≤ 0) := by
  constructor
  · intro h
    cases hmatch : kb.graph.matchEntities kg.cosine qvec cfg.graphLowTopK with
    | nil => exact Or.inl rfl
    | cons e es => exact Or.inr (limit_of_recallsSources kg (traced_run kg hrun) h hmatch)
  · rintro (hnone | ⟨hdim, hlimit⟩)
    · intro ids hids entityId hmem
      rw [recalledIds_of_no_match neighbors topics hnone] at hids
      cases hids
      exact absurd hmem List.not_mem_nil
    · intro ids hids entityId _
      obtain ⟨hits, hhits⟩ := exists_resolveEntities db hdim ids cfg.denseTopK
      refine ⟨hits, ?_, fun _ _ _ => Or.inr (hlimit.trans (Int.natCast_nonneg _))⟩
      rw [HybridRetriever.graphLow_eq_resolveEntities rfl, hids]
      exact hhits

/-! ## One document about one person -/

/-- A document of one text atom; all embeddings have the given length. -/
def adaDocument (dimension : ℕ) : IngestEnv where
  taskId := "task_1"
  docId := "doc_1"
  kbId := "kb"
  vlmEnabled := false
  kgEnabled := true
  chunking := default
  chunker := roughChunker
  parse := [{ atomId := "doc_1#0000", docId := "doc_1", type := .text, text := some "ada" }]
  processed := fun _ => .ok []
  embed := fun texts => texts.map fun _ => List.replicate dimension 1
  embed_length := fun _ => List.length_map _

def adaKg (dimension : ℕ) : KgEnv :=
  { KgEnv.oneNameEnv with
    embed := fun texts => .ok (texts.map fun _ => List.replicate dimension 1) }

def adaCalls (dimension : ℕ) : List StageCall :=
  [.embedding (adaDocument dimension) ["chk_1"],
    .kgBuilding (adaDocument dimension) ["chk_1"] (KgEnv.unaryDraws 'a')]

/-- The knowledge base behind the ingestion of the document. -/
def adaKnowledgeBase (dimension : ℕ) : Option (KnowledgeBase (EdgeTable Entity Relation)) :=
  run (step (adaKg dimension)) (fresh "kb" dimension) (adaCalls dimension)

def adaGraph (kb : KnowledgeBase (EdgeTable Entity Relation)) : GraphStore :=
  kb.graph.protocol (fun _ _ => 1) (fun _ _ _ => {}) (fun _ _ => [])

/-- A query vector of another length recalls no entity. -/
theorem recallsSources_otherLength :
    ∃ kb ∈ adaKnowledgeBase 8, kb.RecallsSources plainSqlite (adaGraph kb) {} [1] := by
  have hnone : (adaKnowledgeBase 8).any
      (fun kb => (kb.graph.matchEntities (adaKg 8).cosine [1] 10).isEmpty) = true := by
    decide +kernel
  obtain ⟨kb, hkb, hempty⟩ := (Option.any_eq_true _ _).mp hnone
  exact ⟨kb, hkb, (recallsSources_iff (adaKg 8) hkb plainSqlite _ _ {} [1]).mpr
    (Or.inl (List.isEmpty_iff.mp hempty))⟩

theorem exists_not_recallsSources {dimension : ℕ}
    (h : (adaKnowledgeBase dimension).any (fun kb => !(kb.graph.matchEntities
      (adaKg dimension).cosine (List.replicate dimension 1) 10).isEmpty) = true) :
    ∃ kb ∈ adaKnowledgeBase dimension,
      ¬ kb.RecallsSources plainSqlite (adaGraph kb) {} (List.replicate dimension 1) := by
  obtain ⟨kb, hkb, hsome⟩ := (Option.any_eq_true _ _).mp h
  refine ⟨kb, hkb, fun hrecalls => ?_⟩
  cases hmatch : kb.graph.matchEntities (adaKg dimension).cosine
      (List.replicate dimension 1) 10 with
  | nil =>
    rw [hmatch] at hsome
    cases hsome
  | cons e es =>
    have hlimit := limit_of_recallsSources (adaKg dimension) (traced_run _ hkb) hrecalls hmatch
    exact absurd hlimit.2 (by decide)

/-- With 8 dimensions nothing is returned for the entity of the only chunk; with 2 the route
fails. -/
theorem not_recallsSources_oneChunk :
    (adaKnowledgeBase 8).map (fun kb => (kb.extracted, ((kb.retriever (adaGraph kb) {}).graphLow
      plainSqlite (List.replicate 8 1)).toOption.map List.length)) =
        some ([("chk_1", "aj")], some 0) ∧
    (adaKnowledgeBase 2).map (fun kb => (kb.extracted, ((kb.retriever (adaGraph kb) {}).graphLow
      plainSqlite (List.replicate 2 1)).toOption.map List.length)) =
        some ([("chk_1", "aj")], none) ∧
    (∃ kb ∈ adaKnowledgeBase 8,
      ¬ kb.RecallsSources plainSqlite (adaGraph kb) {} (List.replicate 8 1)) ∧
    ∃ kb ∈ adaKnowledgeBase 2,
      ¬ kb.RecallsSources plainSqlite (adaGraph kb) {} (List.replicate 2 1) :=
  ⟨by decide +kernel, by decide +kernel, exists_not_recallsSources (by decide +kernel),
    exists_not_recallsSources (by decide +kernel)⟩

end KnowledgeBase

end Ragx
