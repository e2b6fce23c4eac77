import Ragx.GraphAgreement
import Ragx.KgMerge
import Ragx.Positions

/-!
# The graph builder

`buildForChunks` decides for every chunk what its entities are merged into, all against the
store as it was before the call, and then writes one batch of entities and one batch of
relations. A chunk whose extraction or embedding raises is skipped. `deleteChunkFromGraph`
is the other entry point.
-/
namespace Ragx

/-- The results of `new_id`, by the position of the chunk and of the item in it. -/
structure Draws where
  entity : ℕ → ℕ → String
  relation : ℕ → ℕ → String

/-- What one chunk contributes: its extracted relations and its resolved entities. -/
structure ChunkPlan where
  chunk : Chunk
  relations : List ExtractedRelation
  resolved : List (ExtractedEntity × KgEnv.Resolution)

def ChunkPlan.skipped (chunk : Chunk) : ChunkPlan where
  chunk := chunk
  relations := []
  resolved := []

/-- One extracted entity of a chunk and what it is merged into. -/
structure ResolvedItem where
  chunk : Chunk
  ext : ExtractedEntity
  resolution : KgEnv.Resolution

def ChunkPlan.items (plan : ChunkPlan) : List ResolvedItem :=
  plan.resolved.map fun x => { chunk := plan.chunk, ext := x.1, resolution := x.2 }

namespace KgEnv

variable {G : Type} (env : KgEnv)

def resolveAll (s : NetworkXGraphStore G) (extracted : List ExtractedEntity) :
    Except Exc (List (ExtractedEntity × Resolution)) :=
  extracted.mapM fun ext => (env.resolve s ext).map fun r => (ext, r)

def chunkPlan (s : NetworkXGraphStore G) (chunk : Chunk) : Except Exc ChunkPlan := do
  match ← env.extractAuto chunk with
  | none => return .skipped chunk
  | some result =>
    let extracted := filterLowConfidence result
    let resolved ← env.resolveAll s extracted.entities
    return { chunk, relations := extracted.relations, resolved }

/-- A failing chunk is skipped, unless it failed with a graph build error. -/
def planOrSkip (s : NetworkXGraphStore G) (chunk : Chunk) : Except Exc ChunkPlan :=
  match env.chunkPlan s chunk with
  | .ok plan => .ok plan
  | .error e => if e.cls = .graphBuild then .error e else .ok (.skipped chunk)

def plans (s : NetworkXGraphStore G) (chunks : List Chunk) : Except Exc (List ChunkPlan) :=
  chunks.mapM (env.planOrSkip s)

/-- The entities of a chunk. -/
def entitiesOf (freshId : ℕ → String) (plan : ChunkPlan) : List Entity :=
  plan.resolved.zipIdx.map fun item =>
    env.mergedEntity plan.chunk.kbId plan.chunk.docId (freshId item.2) item.1.1 item.1.2

/-- The ids by name: those of the chunk's own entities, then those of the stored ones. -/
def nameToId (s : NetworkXGraphStore G) (entities : List Entity) (name : String) :
    Option String :=
  let own : OrderedDict String String := .ofList (entities.map fun e => (e.name, e.entityId))
  match own.get? name with
  | some id => some id
  | none => (s.entities.values.find? fun e => e.name == name).map (·.entityId)

/-- Extracted relations with the ids of their endpoints; one without them is dropped. -/
def relationsOf (s : NetworkXGraphStore G) (entities : List Entity) (freshId : ℕ → String)
    (plan : ChunkPlan) : List Relation :=
  plan.relations.zipIdx.filterMap fun item => do
    let headId ← nameToId s entities item.1.head
    let tailId ← nameToId s entities item.1.tail
    return {
      relationId := freshId item.2
      kbId := plan.chunk.kbId
      headId := headId
      tailId := tailId
      type := item.1.type
      description := item.1.description
      weight := item.1.weight
      sourceDocIds := [plan.chunk.docId] }

/-- All entities of a call. -/
def allEntities (draws : Draws) (plans : List ChunkPlan) : List Entity :=
  plans.zipIdx.flatMap fun item => env.entitiesOf (draws.entity item.2) item.1

def allRelations (s : NetworkXGraphStore G) (draws : Draws) (plans : List ChunkPlan) :
    List Relation :=
  plans.zipIdx.flatMap fun item =>
    relationsOf s (env.entitiesOf (draws.entity item.2) item.1) (draws.relation item.2) item.1

/-- Every extracted entity of the chunks that are not skipped. -/
def resolvedItems (s : NetworkXGraphStore G) (chunks : List Chunk) : List ResolvedItem :=
  chunks.flatMap fun chunk =>
    match env.chunkPlan s chunk with
    | .ok plan => plan.items
    | .error _ => []

def placedEntity (draws : Draws) (x : ResolvedItem × ℕ × ℕ) : Entity :=
  env.mergedEntity x.1.chunk.kbId x.1.chunk.docId (draws.entity x.2.1 x.2.2) x.1.ext
    x.1.resolution

/-! ## Plans -/

/-- What a plan takes over from the chunk, the extraction and the store. -/
theorem chunkPlan_spec {s : NetworkXGraphStore G} {chunk : Chunk} {plan : ChunkPlan}
    (h : env.chunkPlan s chunk = .ok plan) :
    plan.chunk = chunk ∧ (∀ x ∈ plan.resolved, env.Resolves s x.1 x.2) ∧
      ∀ rel ∈ plan.relations, (∃ x ∈ plan.resolved, x.1.name = rel.head) ∧
        ∃ x ∈ plan.resolved, x.1.name = rel.tail := by
  obtain ⟨extracted, _, hrest⟩ := bind_eq_ok_iff.mp h
  cases extracted with
  | none =>
    cases hrest
    exact ⟨rfl, fun _ hx => absurd hx List.not_mem_nil, fun _ hr => absurd hr List.not_mem_nil⟩
  | some result =>
    obtain ⟨resolved, hresolved, hplan⟩ := bind_eq_ok_iff.mp hrest
    cases hplan
    refine ⟨rfl, fun x hx => ?_, fun rel hrel => ?_⟩
    · obtain ⟨ext, _, hext⟩ := exists_of_mem_mapM hresolved hx
      obtain ⟨r, hr, rfl⟩ := map_eq_ok_iff.mp hext
      exact env.resolves_of_resolve hr
    · have hfind (name : String)
          (he : ∃ e ∈ (filterLowConfidence result).entities, e.name = name) :
          ∃ x ∈ resolved, x.1.name = name := by
        obtain ⟨e, he, rfl⟩ := he
        obtain ⟨x, hx, hext⟩ := exists_ok_of_mapM hresolved he
        obtain ⟨r, _, rfl⟩ := map_eq_ok_iff.mp hext
        exact ⟨_, hx, rfl⟩
      obtain ⟨hhead, htail⟩ := exists_entity_of_mem_valid hrel
      exact ⟨hfind _ hhead, hfind _ htail⟩

theorem planOrSkip_cases {s : NetworkXGraphStore G} {chunk : Chunk} {plan : ChunkPlan}
    (h : env.planOrSkip s chunk = .ok plan) :
    env.chunkPlan s chunk = .ok plan ∨
      (∃ e, env.chunkPlan s chunk = .error e) ∧ plan = .skipped chunk := by
  unfold planOrSkip at h
  cases hplan : env.chunkPlan s chunk with
  | ok plan' =>
    rw [hplan] at h
    cases h
    exact Or.inl rfl
  | error e =>
    rw [hplan] at h
    dsimp only at h
    split_ifs at h
    cases h
    exact Or.inr ⟨⟨e, rfl⟩, rfl⟩

theorem items_of_planOrSkip {s : NetworkXGraphStore G} {chunk : Chunk} {plan : ChunkPlan}
    (h : env.planOrSkip s chunk = .ok plan) :
    plan.items = match env.chunkPlan s chunk with
      | .ok plan => plan.items
      | .error _ => [] := by
  rcases env.planOrSkip_cases h with hplan | ⟨⟨e, he⟩, rfl⟩
  · rw [hplan]
  · rw [he]
    rfl

/-- The items of the planned chunks are those of the chunks that are not skipped. -/
theorem flatten_items_of_plans {s : NetworkXGraphStore G} {chunks : List Chunk}
    {plans : List ChunkPlan} (h : env.plans s chunks = .ok plans) :
    (plans.map ChunkPlan.items).flatten = env.resolvedItems s chunks := by
  have hall := mapM_eq_ok_iff.mp h
  clear h
  induction hall with
  | nil => rfl
  | cons hplan _ ih =>
    rw [List.map_cons, List.flatten_cons, ih, env.items_of_planOrSkip hplan]
    rfl

/-- Only a graph build error of a chunk stops the planning. -/
theorem exists_plans_iff {s : NetworkXGraphStore G} {chunks : List Chunk} :
    (∃ plans, env.plans s chunks = .ok plans) ↔
      ∀ chunk ∈ chunks, ∀ e, env.chunkPlan s chunk = .error e → e.cls ≠ .graphBuild := by
  constructor
  · rintro ⟨plans, h⟩ chunk hchunk e he hcls
    obtain ⟨plan, _, hplan⟩ := exists_ok_of_mapM h hchunk
    rw [planOrSkip, he] at hplan
    dsimp only at hplan
    rw [if_pos hcls] at hplan
    cases hplan
  · intro h
    refine exists_mapM_eq_ok fun chunk hchunk => ?_
    unfold planOrSkip
    cases hplan : env.chunkPlan s chunk with
    | ok plan => exact ⟨plan, rfl⟩
    | error e => exact ⟨.skipped chunk, if_neg (h chunk hchunk e hplan)⟩

theorem allEntities_eq (draws : Draws) (plans : List ChunkPlan) :
    env.allEntities draws plans =
      (placed (plans.map ChunkPlan.items)).map (env.placedEntity draws) := by
  rw [placed, List.zipIdx_map, List.flatMap_map, List.map_flatMap, allEntities]
  refine congrArg (fun f => List.flatMap f plans.zipIdx) (funext fun group => ?_)
  obtain ⟨plan, i⟩ := group
  show env.entitiesOf (draws.entity i) plan =
    (plan.items.zipIdx.map fun item => (item.1, i, item.2)).map (env.placedEntity draws)
  rw [entitiesOf, ChunkPlan.items, List.zipIdx_map, List.map_map, List.map_map]
  rfl

/-- Every entity of the batch comes from an item. -/
theorem exists_item_of_mem_allEntities {s : NetworkXGraphStore G} {draws : Draws}
    {chunks : List Chunk} {plans : List ChunkPlan} (h : env.plans s chunks = .ok plans)
    {e : Entity} (he : e ∈ env.allEntities draws plans) :
    ∃ item ∈ env.resolvedItems s chunks, ∃ i j, e = env.placedEntity draws (item, i, j) := by
  rw [allEntities_eq] at he
  obtain ⟨⟨item, i, j⟩, hx, rfl⟩ := List.mem_map.mp he
  exact ⟨item, env.flatten_items_of_plans h ▸ mem_flatten_of_mem_placed hx, i, j, rfl⟩

theorem resolves_of_mem_items {s : NetworkXGraphStore G} {chunks : List Chunk}
    {item : ResolvedItem} (h : item ∈ env.resolvedItems s chunks) :
    env.Resolves s item.ext item.resolution := by
  obtain ⟨chunk, _, hitem⟩ := List.mem_flatMap.mp h
  cases hplan : env.chunkPlan s chunk with
  | error e =>
    rw [hplan] at hitem
    cases hitem
  | ok plan =>
    rw [hplan] at hitem
    obtain ⟨x, hx, rfl⟩ := List.mem_map.mp hitem
    exact (env.chunkPlan_spec hplan).2.1 x hx

theorem id_of_nameToId {s : NetworkXGraphStore G} {entities : List Entity} {name id : String}
    (h : nameToId s entities name = some id) :
    (∃ e ∈ entities, e.entityId = id) ∨ s.IsEntityId id := by
  unfold nameToId at h
  dsimp only at h
  cases hown : (OrderedDict.ofList (entities.map fun e => (e.name, e.entityId))).get? name with
  | some id' =>
    rw [hown] at h
    cases h
    obtain ⟨e, he, heq⟩ :=
      List.mem_map.mp (OrderedDict.mem_entries_ofList (OrderedDict.mem_entries.mpr hown))
    exact Or.inl ⟨e, he, congrArg Prod.snd heq⟩
  | none =>
    rw [hown] at h
    obtain ⟨e, he, rfl⟩ := Option.map_eq_some_iff.mp h
    exact Or.inr ⟨e, List.mem_of_find?_eq_some he, rfl⟩

/-- What a relation of the batch is made of. -/
theorem mem_allRelations {s : NetworkXGraphStore G} {draws : Draws} {plans : List ChunkPlan}
    {r : Relation} (h : r ∈ env.allRelations s draws plans) :
    ∃ plan i, (plan, i) ∈ plans.zipIdx ∧ ∃ rel ∈ plan.relations,
      nameToId s (env.entitiesOf (draws.entity i) plan) rel.head = some r.headId ∧
      nameToId s (env.entitiesOf (draws.entity i) plan) rel.tail = some r.tailId ∧
      r.type = rel.type ∧ r.weight = rel.weight ∧ r.kbId = plan.chunk.kbId ∧
      r.sourceDocIds = [plan.chunk.docId] := by
  obtain ⟨⟨plan, i⟩, hplan, hr⟩ := List.mem_flatMap.mp h
  obtain ⟨⟨rel, j⟩, hrel, hmade⟩ := List.mem_filterMap.mp hr
  obtain ⟨headId, hhead, hmade⟩ := Option.bind_eq_some_iff.mp hmade
  obtain ⟨tailId, htail, hmade⟩ := Option.bind_eq_some_iff.mp hmade
  cases hmade
  exact ⟨plan, i, hplan, rel, List.fst_mem_of_mem_zipIdx hrel, hhead, htail, rfl, rfl, rfl, rfl⟩

variable [MultiDiGraph G Entity Relation]

open NetworkXGraphStore

def buildForChunks (draws : Draws) (chunks : List Chunk) : Command (NetworkXGraphStore G) Exc :=
  fun s =>
    match env.plans s chunks with
    | .error e => (s, some e)
    | .ok plans =>
      let entities := env.allEntities draws plans
      let relations := env.allRelations s draws plans
      (if entities.isEmpty then .skip else upsertEntities entities).andThen
        (if relations.isEmpty then .skip else upsertRelations relations) s

/-- The store has neither `delete_entity` nor `delete_relations_by_entity`, so that nothing
happens to the entities that only this document names. -/
def deleteChunkFromGraph (chunk : Chunk) : Command (NetworkXGraphStore G) Exc := fun s =>
  let listing := s.entities.values.filter fun e => chunk.docId ∈ e.sourceDocIds
  let updated := listing.filterMap fun e =>
    let remaining := e.sourceDocIds.filter (· ≠ chunk.docId)
    if remaining.isEmpty then none else some { e with sourceDocIds := remaining }
  (if updated.isEmpty then Command.skip else upsertEntities updated) s

/-! ## Writing a batch -/

theorem upsertEntities_nil_or (es : List Entity) :
    (if es.isEmpty then Command.skip else upsertEntities es :
      Command (NetworkXGraphStore G) Exc) = upsertEntities es := by
  cases es with
  | nil => rfl
  | cons e es => rfl

theorem upsertRelations_nil_or (rs : List Relation) :
    (if rs.isEmpty then Command.skip else upsertRelations rs :
      Command (NetworkXGraphStore G) Exc) = upsertRelations rs := by
  cases rs with
  | nil => rfl
  | cons r rs => rfl

/-- Planned chunks are written as two batches. -/
theorem buildForChunks_of_plans {draws : Draws} {chunks : List Chunk} {s : NetworkXGraphStore G}
    {plans : List ChunkPlan} (h : env.plans s chunks = .ok plans) :
    env.buildForChunks draws chunks s =
      (upsertEntities (env.allEntities draws plans)).andThen
        (upsertRelations (env.allRelations s draws plans)) s := by
  rw [buildForChunks, h]
  dsimp only
  rw [upsertEntities_nil_or, upsertRelations_nil_or]

theorem upsertRelations_raised_eq_none {s : NetworkXGraphStore G} {rs : List Relation} :
    (upsertRelations rs s).2 = none ↔ ∀ r ∈ rs, s.Accepts r.kbId := by
  induction rs using List.reverseRecOn with
  | nil => exact iff_of_true rfl fun _ hr => absurd hr List.not_mem_nil
  | append_singleton rs r ih =>
    rw [upsertRelations_concat_raised, ih, upsertRelation_raised_eq_none, Accepts,
      kbId_upsertRelations, List.forall_mem_append, List.forall_mem_singleton]
    rfl

/-! ## Deleting a chunk -/

/-- Merging never takes a document off an entity. -/
theorem listed_upsertEntities {s : NetworkXGraphStore G} {es : List Entity} {name docId : String}
    (h : ∃ e, s.entities.get? name = some e ∧ docId ∈ e.sourceDocIds) :
    ∃ e, (upsertEntities es s).1.entities.get? name = some e ∧ docId ∈ e.sourceDocIds := by
  unfold upsertEntities
  refine Command.forEach_invariant (I := fun t : NetworkXGraphStore G =>
    ∃ e, t.entities.get? name = some e ∧ docId ∈ e.sourceDocIds) (fun entity _ t ht => ?_) h
  obtain ⟨e, he, hdoc⟩ := ht
  by_cases hkb : t.Accepts entity.kbId
  · rw [entities_upsertEntity hkb, KeyedTable.get?_merge mergeEntity_keepsKey]
    by_cases hname : entity.nameNorm = name
    · rw [if_pos hname, he]
      exact ⟨_, rfl, mem_sortedUnion.mpr (Or.inl hdoc)⟩
    · rw [if_neg hname]
      exact ⟨e, he, hdoc⟩
  · have hraised : upsertEntity entity t = (t, some (t.otherKbError entity.kbId)) := if_neg hkb
    rw [hraised]
    exact ⟨e, he, hdoc⟩

/-- What the deletion of a chunk is to do: no entity lists the document any more, those that
listed only it are gone with the relations at them, and the others keep the other documents. -/
structure ChunkDeleted (docId : String) (s s' : NetworkXGraphStore G) : Prop where
  unlisted : ∀ e ∈ s'.entities.values, docId ∉ e.sourceDocIds
  orphan_gone : ∀ e ∈ s.entities.values, OnlyDoc docId e.sourceDocIds → ¬ s'.HasEntity e ∧
    ∀ r ∈ s'.relations.values, r.headId ≠ e.entityId ∧ r.tailId ≠ e.entityId
  shared_kept : ∀ e ∈ s.entities.values, docId ∈ e.sourceDocIds →
    ¬ OnlyDoc docId e.sourceDocIds → ∃ e' ∈ s'.entities.values, e'.nameNorm = e.nameNorm ∧
      e'.entityId = e.entityId ∧ ∀ d, d ∈ e'.sourceDocIds ↔ d ∈ e.sourceDocIds ∧ d ≠ docId

theorem chunkDeleted_iff (s : NetworkXGraphStore G) (chunk : Chunk) :
    ChunkDeleted chunk.docId s (deleteChunkFromGraph chunk s).1 ↔
      ∀ e ∈ s.entities.values, chunk.docId ∉ e.sourceDocIds := by
  constructor
  · intro h e he hlisted
    have hafter : ∃ e', (deleteChunkFromGraph chunk s).1.entities.get? e.nameNorm = some e' ∧
        chunk.docId ∈ e'.sourceDocIds := by
      rw [deleteChunkFromGraph, upsertEntities_nil_or]
      exact listed_upsertEntities ⟨e, KeyedTable.mem_values.mp he, hlisted⟩
    obtain ⟨e', hget, hdoc⟩ := hafter
    exact h.unlisted e' (KeyedTable.mem_values_of_get? hget) hdoc
  · intro hnone
    have hlisting : s.entities.values.filter (fun e => chunk.docId ∈ e.sourceDocIds) = [] :=
      List.filter_eq_nil_iff.mpr fun e he hmem => hnone e he (of_decide_eq_true hmem)
    have hsame : (deleteChunkFromGraph chunk s).1 = s := by
      rw [deleteChunkFromGraph, hlisting]
      rfl
    rw [hsame]
    exact {
      unlisted := hnone
      orphan_gone := fun e he honly => absurd honly.1 (hnone e he)
      shared_kept := fun e he hlisted _ => absurd hlisted (hnone e he) }

/-- A store with one entity of `doc_1` and another one of `doc_1` and `doc_2`. -/
def sharedStore : PlainGraphStore :=
  (upsertEntities
    [{ sampleEntity "ent_1" "doc_1" with nameNorm := "ada" },
      { sampleEntity "ent_2" "doc_1" with nameNorm := "eve" },
      { sampleEntity "ent_2" "doc_2" with nameNorm := "eve" }] (fresh "kb")).1

/-- Neither the orphaned nor the shared entity loses the document. -/
theorem not_chunkDeleted_sharedStore :
    let chunk : Chunk :=
      { chunkId := "chk_1", docId := "doc_1", kbId := "kb", atomIds := [], text := "",
        tokenCount := 0 }
    let result := deleteChunkFromGraph chunk sharedStore
    result.2.isNone = true ∧
      result.1.entities.values.map (·.sourceDocIds) = [["doc_1"], ["doc_1", "doc_2"]] ∧
      ¬ ChunkDeleted chunk.docId sharedStore result.1 := by
  refine ⟨by decide +kernel, by decide +kernel, fun h => ?_⟩
  have hnone := (chunkDeleted_iff sharedStore _).mp h
  have hlisted : sharedStore.entities.values.any (fun e => "doc_1" ∈ e.sourceDocIds) = true := by
    decide +kernel
  obtain ⟨e, he, hmem⟩ := List.any_eq_true.mp hlisted
  exact hnone e he (of_decide_eq_true hmem)

end KgEnv

end Ragx
