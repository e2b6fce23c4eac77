import Ragx.KgIdempotence
import Ragx.Reindex

/-!
# The graph behind an edit

A reindex takes the whole document off the graph and builds one chunk of it. So of what the
other chunks brought only that is left of the document which the edited chunk brings, too.
-/
namespace Ragx

namespace KgEnv

variable {G : Type} (env : KgEnv)

/-- The name under which an extracted entity is stored. -/
def storedName (item : ResolvedItem) : String :=
  match item.resolution with
  | .near best => best.nameNorm
  | _ => env.unicode.normalizeName item.ext.name

theorem nameNorm_placedEntity (draws : Draws) (x : ResolvedItem × ℕ × ℕ) :
    (env.placedEntity draws x).nameNorm = env.storedName x.1 := by
  obtain ⟨⟨chunk, ext, r⟩, numbers⟩ := x
  cases r with
  | exact existing => rfl
  | near best => rfl
  | new vector => rfl

/-- The names that the selected chunks of a build bring, whatever they are merged into. -/
def contributedNames (s : NetworkXGraphStore G) (chunks : List Chunk) (select : Chunk → Bool) :
    List String :=
  ((env.resolvedItems s chunks).filter fun item => select item.chunk).map env.storedName

/-- The keys of the relations that the selected chunks of a build bring. -/
def contributedKeys (draws : Draws) (s : NetworkXGraphStore G) (chunks : List Chunk)
    (select : Chunk → Bool) : List (String × String × String) :=
  match env.plans s chunks with
  | .error _ => []
  | .ok plans =>
    ((plans.zipIdx.filter fun item => select item.1.chunk).flatMap fun item =>
      relationsOf s (env.entitiesOf (draws.entity item.2) item.1) (draws.relation item.2)
        item.1).map Relation.key

theorem contributedNames_all {s : NetworkXGraphStore G} {chunks : List Chunk}
    {plans : List ChunkPlan} (h : env.plans s chunks = .ok plans) (draws : Draws) :
    env.contributedNames s chunks (fun _ => true) =
      (env.allEntities draws plans).map (·.nameNorm) := by
  rw [contributedNames, List.filter_true, allEntities_eq, List.map_map,
    ← env.flatten_items_of_plans h, ← map_fst_placed, List.map_map]
  exact List.map_congr_left fun x _ => (env.nameNorm_placedEntity draws x).symm

theorem contributedKeys_all {s : NetworkXGraphStore G} {chunks : List Chunk}
    {plans : List ChunkPlan} (h : env.plans s chunks = .ok plans) (draws : Draws) :
    env.contributedKeys draws s chunks (fun _ => true) =
      (env.allRelations s draws plans).map Relation.key := by
  rw [contributedKeys, h]
  dsimp only
  rw [List.filter_true]
  rfl

/-- Every chunk writes its document into what it brings. -/
theorem docId_mem_placedEntity (draws : Draws) (x : ResolvedItem × ℕ × ℕ) :
    x.1.chunk.docId ∈ (env.placedEntity draws x).sourceDocIds := by
  obtain ⟨⟨chunk, ext, r⟩, numbers⟩ := x
  cases r with
  | exact existing => exact mem_sortedUnion.mpr (Or.inr (List.mem_singleton.mpr rfl))
  | near best => exact mem_sortedUnion.mpr (Or.inr (List.mem_singleton.mpr rfl))
  | new vector => exact List.mem_singleton.mpr rfl

end KgEnv

namespace NetworkXGraphStore

variable {G : Type}

/-- The name has an entry that lists the document. -/
def ListsEntity (docId : String) (s : NetworkXGraphStore G) (name : String) : Prop :=
  ∃ e, s.entities.get? name = some e ∧ docId ∈ e.sourceDocIds

def ListsRelation (docId : String) (s : NetworkXGraphStore G) (key : String × String × String) :
    Prop :=
  ∃ r, s.relations.get? key = some r ∧ docId ∈ r.sourceDocIds

end NetworkXGraphStore

open NetworkXGraphStore

variable {G : Type} [MultiDiGraph G Entity Relation]

namespace KgEnv

variable (env : KgEnv) {draws : Draws} {s : NetworkXGraphStore G}

/-- Building a chunk of a document that nothing listed makes exactly what the chunk brings
list it. -/
theorem lists_buildForChunks_iff (chunk : Chunk) (hunlisted : s.Unlisted chunk.docId)
    (hok : (env.buildForChunks draws [chunk] s).2 = none) :
    (∀ name, ListsEntity chunk.docId (env.buildForChunks draws [chunk] s).1 name ↔
      name ∈ env.contributedNames s [chunk] fun _ => true) ∧
    ∀ key, ListsRelation chunk.docId (env.buildForChunks draws [chunk] s).1 key ↔
      key ∈ env.contributedKeys draws s [chunk] fun _ => true := by
  cases hplans : env.plans s [chunk] with
  | error e =>
    rw [buildForChunks, hplans] at hok
    cases hok
  | ok plans =>
    obtain ⟨hentities, hrelations⟩ := env.tables_buildForChunks hplans hok
    rw [env.contributedNames_all hplans draws, env.contributedKeys_all hplans draws]
    constructor
    · intro name
      rw [ListsEntity, hentities]
      constructor
      · rintro ⟨e, hget, hdoc⟩
        by_contra hname
        rw [KeyedTable.get?_foldl_merge_of_notMem mergeEntity_keepsKey _ hname] at hget
        exact hunlisted.1 e (KeyedTable.mem_values_of_get? hget) hdoc
      · intro hname
        obtain ⟨e, he, rfl⟩ := List.mem_map.mp hname
        obtain ⟨w, hget, hle⟩ := KeyedTable.exists_le_foldl_merge mergeEntity_keepsKey
          mergeEntity_joins s.entities he
        obtain ⟨item, hitem, i, j, rfl⟩ := env.exists_item_of_mem_allEntities hplans he
        obtain ⟨chunk', hchunk', plan, hplan, hmem⟩ := env.mem_resolvedItems.mp hitem
        have hdoc := env.docId_mem_placedEntity draws (item, i, j)
        have hchunk : item.chunk = chunk := by
          obtain ⟨x, _, rfl⟩ := List.mem_map.mp hmem
          rw [← List.mem_singleton.mp hchunk', ← (env.chunkPlan_spec hplan).1]
        rw [hchunk] at hdoc
        exact ⟨w, hget, (Entity.knows_le.mp hle).1 _ hdoc⟩
    · intro key
      rw [ListsRelation, hrelations]
      constructor
      · rintro ⟨r, hget, hdoc⟩
        by_contra hkey
        rw [KeyedTable.get?_foldl_merge_of_notMem mergeRelation_keepsKey _ hkey] at hget
        exact hunlisted.2 r (KeyedTable.mem_values_of_get? hget) hdoc
      · intro hkey
        obtain ⟨r, hr, rfl⟩ := List.mem_map.mp hkey
        obtain ⟨w, hget, hle⟩ := KeyedTable.exists_le_foldl_merge mergeRelation_keepsKey
          mergeRelation_joins s.relations hr
        obtain ⟨plan, i, hi, rel, hrel, _, _, _, _, _, hdocs⟩ := env.mem_allRelations hr
        obtain ⟨chunk', hchunk', hskip⟩ :=
          exists_of_mem_mapM hplans (List.fst_mem_of_mem_zipIdx hi)
        have hchunk : plan.chunk = chunk := by
          rw [← List.mem_singleton.mp hchunk']
          rcases env.planOrSkip_cases hskip with hplan | ⟨_, rfl⟩
          · exact (env.chunkPlan_spec hplan).1
          · rfl
        refine ⟨w, hget, (Relation.knows_le.mp hle).1 _ ?_⟩
        rw [hdocs, hchunk]
        exact List.mem_singleton.mpr rfl

end KgEnv

namespace ReindexCall

variable (env : ReindexEnv) (call : ReindexCall)

/-- A call that goes through has taken the document off the graph and built the rewritten
chunk. -/
theorem graph_incrementalReindex {s : ReindexStores G} {chunk : Chunk}
    (hget : s.chunks.get? call.chunkId = some chunk) (hrebuild : call.rebuildsGraph = true)
    (hok : (call.incrementalReindex env s).2 = none) :
    (env.kg.buildForChunks env.draws [call.rewrite env chunk]
        (s.graph.deleteByDoc chunk.docId)).2 = none ∧
      (call.incrementalReindex env s).1.graph =
        (env.kg.buildForChunks env.draws [call.rewrite env chunk]
          (s.graph.deleteByDoc chunk.docId)).1 := by
  have htouch : call.touchesGraph = true := by
    rw [rebuildsGraph, Bool.and_eq_true, Bool.and_eq_true] at hrebuild
    exact hrebuild.1.1
  unfold incrementalReindex at hok ⊢
  rw [hget] at hok ⊢
  dsimp only at hok ⊢
  by_cases hversion : chunk.version = call.versionExpected
  · rw [if_neg (not_not.mpr hversion)] at hok ⊢
    obtain ⟨hvector, hok⟩ := Command.andThen_raised_eq_none.mp hok
    obtain ⟨hgraph, hok⟩ := Command.andThen_raised_eq_none.mp hok
    obtain ⟨hsave, hok⟩ := Command.andThen_raised_eq_none.mp hok
    obtain ⟨hembed, hbuild⟩ := Command.andThen_raised_eq_none.mp hok
    rw [Command.andThen_of_none hvector, Command.andThen_of_none hgraph,
      Command.andThen_of_none hsave, Command.andThen_of_none hembed]
    have hvectorFault := (Command.withFault_raised_eq_none.mp hvector).1
    rw [deleteGraph, if_pos htouch] at hgraph
    have hgraphFault : call.graphDeleteFault env = none :=
      (if_pos htouch).trans (Command.withFault_raised_eq_none.mp hgraph).1
    have hsaveFault := (Command.withFault_raised_eq_none.mp hsave).1
    rw [rebuildGraph, if_pos hrebuild] at hbuild ⊢
    obtain ⟨hbuildFault, hbuilt⟩ := Command.withFault_raised_eq_none.mp hbuild
    rw [hbuildFault, Command.withFault_none]
    dsimp only at hbuilt ⊢
    have hreached : (embedAndUpsert env (call.rewrite env chunk) (saveUpdated env
        (call.rewrite env chunk) (call.deleteGraph env chunk
          (call.deleteVector env s).1).1).1).1.graph = s.graph.deleteByDoc chunk.docId := by
      rw [(embedAndUpsert_frame env _ _).2, call.deleteVector_of_none env hvectorFault,
        call.deleteGraph_of_none env hgraphFault, call.saveUpdated_of_none env hsaveFault]
      exact (call.frame_withoutDoc chunk (call.withoutVector s)).2.2 hrebuild
    rw [hreached] at hbuilt ⊢
    exact ⟨hbuilt, rfl⟩
  · rw [if_pos hversion] at hok
    cases hok

/-- What the given names and keys had of the document, they still have. -/
structure Kept (docId : String) (names : List String) (keys : List (String × String × String))
    (g g' : NetworkXGraphStore G) : Prop where
  entities : ∀ name ∈ names, ListsEntity docId g name → ListsEntity docId g' name
  relations : ∀ key ∈ keys, ListsRelation docId g key → ListsRelation docId g' key

/-- The condition: what the given names and keys have of the document, the rewritten chunk
brings again, once the document has been taken off the graph. -/
structure BroughtAgain (chunk : Chunk) (names : List String)
    (keys : List (String × String × String)) (g : NetworkXGraphStore G) : Prop where
  entities : ∀ name ∈ names, ListsEntity chunk.docId g name →
    name ∈ env.kg.contributedNames (g.deleteByDoc chunk.docId) [call.rewrite env chunk]
      fun _ => true
  relations : ∀ key ∈ keys, ListsRelation chunk.docId g key →
    key ∈ env.kg.contributedKeys env.draws (g.deleteByDoc chunk.docId) [call.rewrite env chunk]
      fun _ => true

/-- An edit keeps what the other chunks of a build had brought exactly under the condition. -/
theorem othersKept_iff (built : NetworkXGraphStore G) (draws : Draws) (chunks : List Chunk)
    (s : ReindexStores G) (chunk : Chunk) (hget : s.chunks.get? call.chunkId = some chunk)
    (hrebuild : call.rebuildsGraph = true) (hok : (call.incrementalReindex env s).2 = none) :
    let other (c : Chunk) : Bool := c.chunkId ≠ call.chunkId
    Kept chunk.docId (env.kg.contributedNames built chunks other)
        (env.kg.contributedKeys draws built chunks other) s.graph
        (call.incrementalReindex env s).1.graph ↔
      call.BroughtAgain env chunk (env.kg.contributedNames built chunks other)
        (env.kg.contributedKeys draws built chunks other) s.graph := by
  intro other
  obtain ⟨hbuilt, hgraph⟩ := call.graph_incrementalReindex env hget hrebuild hok
  have hlists := env.kg.lists_buildForChunks_iff (call.rewrite env chunk)
    (unlisted_deleteByDoc s.graph chunk.docId) hbuilt
  rw [hgraph]
  constructor
  · intro h
    exact ⟨fun name hname hlisted => (hlists.1 name).mp (h.entities name hname hlisted),
      fun key hkey hlisted => (hlists.2 key).mp (h.relations key hkey hlisted)⟩
  · intro h
    exact ⟨fun name hname hlisted => (hlists.1 name).mpr (h.entities name hname hlisted),
      fun key hkey hlisted => (hlists.2 key).mpr (h.relations key hkey hlisted)⟩

/-! ## Two chunks of one document -/

def faultless (kg : KgEnv) : ReindexEnv where
  kg := kg
  draws := KgEnv.unaryDraws 'b'
  countTokens := String.length
  faults _ := none

/-- Two chunks of one document and the graph built for them on an earlier store. -/
def twoChunkStores (kg : KgEnv) (built : PlainGraphStore) :
    ReindexStores (EdgeTable Entity Relation) :=
  { adaStores with
    chunks := adaStores.chunks.put (KgEnv.adaChunk "chk_2" "doc_1")
    graph := (kg.buildForChunks (KgEnv.unaryDraws 'a')
      [KgEnv.adaChunk "chk_1" "doc_1", KgEnv.adaChunk "chk_2" "doc_1"] built).1 }

def secondChunkEdit : ReindexCall where
  chunkId := "chk_2"
  newText := some "ada once more"
  versionExpected := 1
  kgEnabled := true
  hasGraphStore := true
  hasLlm := true
  hasKbCfg := true

/-- A store that knows the person from another document. -/
def earlierStore : PlainGraphStore :=
  (KgEnv.oneNameEnv.buildForChunks (KgEnv.unaryDraws 'c') [KgEnv.adaChunk "chk_0" "doc_0"]
    (fresh "kb")).1

/-- The edited chunk mentions the same person as the other one. -/
theorem othersKept_sharedName :
    let other (c : Chunk) : Bool := c.chunkId ≠ secondChunkEdit.chunkId
    let chunks := [KgEnv.adaChunk "chk_1" "doc_1", KgEnv.adaChunk "chk_2" "doc_1"]
    Kept "doc_1" (KgEnv.oneNameEnv.contributedNames earlierStore chunks other)
      (KgEnv.oneNameEnv.contributedKeys (KgEnv.unaryDraws 'a') earlierStore chunks other)
      (twoChunkStores KgEnv.oneNameEnv earlierStore).graph
      (secondChunkEdit.incrementalReindex (faultless KgEnv.oneNameEnv)
        (twoChunkStores KgEnv.oneNameEnv earlierStore)).1.graph := by
  refine (othersKept_iff (faultless KgEnv.oneNameEnv) secondChunkEdit earlierStore
    (KgEnv.unaryDraws 'a') _ (twoChunkStores KgEnv.oneNameEnv earlierStore)
    (KgEnv.adaChunk "chk_2" "doc_1") rfl rfl
    (Option.isNone_iff_eq_none.mp (by decide +kernel))).mpr ⟨fun name hname _ => ?_,
      fun key hkey _ => ?_⟩
  · have hnames : KgEnv.oneNameEnv.contributedNames earlierStore
        [KgEnv.adaChunk "chk_1" "doc_1", KgEnv.adaChunk "chk_2" "doc_1"]
        (fun c => c.chunkId ≠ secondChunkEdit.chunkId) = ["ada"] := by
      decide +kernel
    have hbrought : (faultless KgEnv.oneNameEnv).kg.contributedNames
        ((twoChunkStores KgEnv.oneNameEnv earlierStore).graph.deleteByDoc "doc_1")
        [secondChunkEdit.rewrite (faultless KgEnv.oneNameEnv) (KgEnv.adaChunk "chk_2" "doc_1")]
        (fun _ => true) = ["ada"] := by
      decide +kernel
    exact hbrought ▸ hnames ▸ hname
  · have hkeys : (faultless KgEnv.oneNameEnv).kg.contributedKeys (KgEnv.unaryDraws 'a') earlierStore
        [KgEnv.adaChunk "chk_1" "doc_1", KgEnv.adaChunk "chk_2" "doc_1"]
        (fun c => c.chunkId ≠ secondChunkEdit.chunkId) = [] := by
      decide +kernel
    rw [hkeys] at hkey
    exact absurd hkey List.not_mem_nil

/-- Each chunk mentions a person of its own. -/
def twoNamesEnv : KgEnv :=
  { KgEnv.oneNameEnv with
    extractAuto := fun chunk => .ok (some { entities :=
      [⟨if chunk.chunkId = "chk_1" then "ada" else "eve", "PERSON", "a person", 1⟩] }) }

/-- An edit of the second chunk takes the first one's person off the graph. -/
theorem not_othersKept_twoNames :
    let other (c : Chunk) : Bool := c.chunkId ≠ secondChunkEdit.chunkId
    let chunks := [KgEnv.adaChunk "chk_1" "doc_1", KgEnv.adaChunk "chk_2" "doc_1"]
    let s := twoChunkStores twoNamesEnv (fresh "kb")
    let result := secondChunkEdit.incrementalReindex (faultless twoNamesEnv) s
    result.2.isNone = true ∧
      s.graph.entities.keys = ["ada", "eve"] ∧ result.1.graph.entities.keys = ["eve"] ∧
      ¬ Kept "doc_1" (twoNamesEnv.contributedNames (fresh "kb" : PlainGraphStore) chunks other)
        (twoNamesEnv.contributedKeys (KgEnv.unaryDraws 'a') (fresh "kb" : PlainGraphStore) chunks
          other) s.graph result.1.graph := by
  refine ⟨by decide +kernel, by decide +kernel, by decide +kernel, fun h => ?_⟩
  have hnames : twoNamesEnv.contributedNames (fresh "kb" : PlainGraphStore)
      [KgEnv.adaChunk "chk_1" "doc_1", KgEnv.adaChunk "chk_2" "doc_1"]
      (fun c => c.chunkId ≠ secondChunkEdit.chunkId) = ["ada"] := by
    decide +kernel
  have hlisted : ((twoChunkStores twoNamesEnv (fresh "kb")).graph.entities.get? "ada").any
      (fun e => "doc_1" ∈ e.sourceDocIds) = true := by
    decide +kernel
  have hgone : ((secondChunkEdit.incrementalReindex (faultless twoNamesEnv)
      (twoChunkStores twoNamesEnv (fresh "kb"))).1.graph.entities.get? "ada").isSome = false := by
    decide +kernel
  cases he : (twoChunkStores twoNamesEnv (fresh "kb")).graph.entities.get? "ada" with
  | none =>
    rw [he] at hlisted
    cases hlisted
  | some e =>
    rw [he] at hlisted
    obtain ⟨e', he', _⟩ := h.entities "ada" (hnames ▸ List.mem_singleton.mpr rfl)
      ⟨e, he, of_decide_eq_true hlisted⟩
    rw [he'] at hgone
    cases hgone

end ReindexCall

end Ragx
