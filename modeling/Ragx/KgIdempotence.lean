import Mathlib.Algebra.Order.Field.Rat
import Mathlib.Data.Finset.Dedup
import Mathlib.Data.Finset.Lattice.Basic
import Mathlib.Order.Lattice.Nat
import Ragx.KgIntegrity

/-!
# Building a graph twice

Merging only adds to what an entry knows, so a build leaves the store as it is exactly when
every chunk is known to it. Chunks without a near neighbour are known after their first
build. A near neighbour is not looked for again once the name itself has been stored, and
then a second build decides otherwise than the first.
-/
namespace Ragx

/-! ## What entries know -/

def Entity.knows (e : Entity) : Finset String × ℚ × ℕ :=
  (e.sourceDocIds.toFinset, e.confidence, e.description.length)

def Relation.knows (r : Relation) : Finset String × ℚ := (r.sourceDocIds.toFinset, r.weight)

/-- The parts of an entity that a second build is to leave alone. -/
structure EntityView where
  entityId : String
  name : String
  description : String
  confidence : ℚ
  docs : Finset String

def Entity.view (e : Entity) : EntityView where
  entityId := e.entityId
  name := e.name
  description := e.description
  confidence := e.confidence
  docs := e.sourceDocIds.toFinset

def EntityView.knows (v : EntityView) : Finset String × ℚ × ℕ :=
  (v.docs, v.confidence, v.description.length)

theorem length_longerText (a b : String) : (longerText a b).length = a.length ⊔ b.length := by
  unfold longerText
  split_ifs with h
  · exact (max_eq_right h.le).symm
  · exact (max_eq_left (not_lt.mp h)).symm

theorem mergeEntity_joins : KeyedTable.JoinsAt Entity.knows mergeEntity where
  first := fun _ => rfl
  join := by
    intro old e
    rw [Entity.knows, Entity.knows, Entity.knows, Prod.mk_sup_mk, Prod.mk_sup_mk,
      ← toFinset_sortedUnion, ← length_longerText]
    rfl

theorem mergeRelation_joins : KeyedTable.JoinsAt Relation.knows mergeRelation where
  first := fun _ => rfl
  join := by
    intro old r
    exact Prod.ext (toFinset_sortedUnion _ _) rfl

theorem Entity.knows_le {e t : Entity} : e.knows ≤ t.knows ↔
    (∀ d ∈ e.sourceDocIds, d ∈ t.sourceDocIds) ∧ e.confidence ≤ t.confidence ∧
      e.description.length ≤ t.description.length := by
  rw [knows, knows, Prod.mk_le_mk, Prod.mk_le_mk]
  refine and_congr_left fun _ => ?_
  simp [Finset.subset_iff]

theorem Relation.knows_le {r t : Relation} : r.knows ≤ t.knows ↔
    (∀ d ∈ r.sourceDocIds, d ∈ t.sourceDocIds) ∧ r.weight ≤ t.weight := by
  rw [knows, knows, Prod.mk_le_mk]
  refine and_congr_left fun _ => ?_
  simp [Finset.subset_iff]

theorem view_mergeEntity {old e : Entity} (h : e.knows ≤ old.knows) :
    (mergeEntity (some old) e).view = old.view := by
  obtain ⟨hdocs, hconfidence, hlength⟩ := Entity.knows_le.mp h
  have hunion : (sortedUnion old.sourceDocIds e.sourceDocIds).toFinset =
      old.sourceDocIds.toFinset := by
    rw [toFinset_sortedUnion, sup_eq_left]
    intro d hd
    exact List.mem_toFinset.mpr (hdocs d (List.mem_toFinset.mp hd))
  simp only [Entity.view, mergeEntity, hunion, max_eq_left hconfidence, longerText,
    if_neg (not_lt.mpr hlength)]

namespace NetworkXGraphStore

variable {G : Type}

/-- The same entities by name and the same relations by endpoints and type, up to the order
of the document ids, the vectors and the descriptions of relations. -/
structure SameContents (s s' : NetworkXGraphStore G) : Prop where
  entities : ∀ name,
    (s'.entities.get? name).map Entity.view = (s.entities.get? name).map Entity.view
  relations : ∀ key,
    (s'.relations.get? key).map Relation.knows = (s.relations.get? key).map Relation.knows

end NetworkXGraphStore

open NetworkXGraphStore MultiDiGraph

variable {G : Type} [MultiDiGraph G Entity Relation]

namespace KgEnv

variable (env : KgEnv)

/-! ## Known chunks -/

/-- The item is merged into a stored entity that knows it already. -/
def ItemKnown (s : NetworkXGraphStore G) (item : ResolvedItem) : Prop :=
  s.Accepts item.chunk.kbId ∧ ∃ t, item.resolution.target = some t ∧ HasNode s.graph t.entityId ∧
    item.chunk.docId ∈ t.sourceDocIds ∧ item.ext.confidence ≤ t.confidence ∧
      (item.isNear = true ∨ item.ext.description.length ≤ t.description.length)

/-- A relation whose endpoints have ids is stored, with the document and the weight. No id is
drawn for the entities of a known chunk. -/
def RelationKnown (s : NetworkXGraphStore G) (plan : ChunkPlan) (rel : ExtractedRelation) :
    Prop :=
  ∀ headId tailId, nameToId s (env.entitiesOf (fun _ => "") plan) rel.head = some headId →
    nameToId s (env.entitiesOf (fun _ => "") plan) rel.tail = some tailId →
    ∃ r, s.relations.get? (headId, tailId, rel.type) = some r ∧
      plan.chunk.docId ∈ r.sourceDocIds ∧ rel.weight ≤ r.weight

/-- Nothing in the chunk is new to the store: each of its entities is merged into a stored
one that lists the document, with no lower confidence and, unless it is a near neighbour, no
shorter description, and its relations are stored. A chunk that fails must fail quietly. -/
structure ChunkKnown (s : NetworkXGraphStore G) (chunk : Chunk) : Prop where
  quiet : ∀ e, env.chunkPlan s chunk = .error e → e.cls ≠ .graphBuild
  items : ∀ plan, env.chunkPlan s chunk = .ok plan → ∀ item ∈ plan.items, ItemKnown s item
  relations : ∀ plan, env.chunkPlan s chunk = .ok plan → ∀ rel ∈ plan.relations,
    env.RelationKnown s plan rel

/-- The call returns and leaves the entities and the relations as they are. -/
structure BuildStable (draws : Draws) (chunks : List Chunk) (s : NetworkXGraphStore G) :
    Prop where
  succeeds : (env.buildForChunks draws chunks s).2 = none
  same : SameContents s (env.buildForChunks draws chunks s).1

omit [MultiDiGraph G Entity Relation] in
/-- What an entity must know for an item to be known to it. -/
theorem knows_placedEntity_le {item : ResolvedItem} {t : Entity}
    (ht : item.resolution.target = some t) (draws : Draws) (numbers : ℕ × ℕ) :
    (env.placedEntity draws (item, numbers)).knows ≤ t.knows ↔
      item.chunk.docId ∈ t.sourceDocIds ∧ item.ext.confidence ≤ t.confidence ∧
        (item.isNear = true ∨ item.ext.description.length ≤ t.description.length) := by
  obtain ⟨chunk, ext, r⟩ := item
  have hdocs : (∀ d ∈ sortedUnion t.sourceDocIds [chunk.docId], d ∈ t.sourceDocIds) ↔
      chunk.docId ∈ t.sourceDocIds := by
    constructor
    · exact fun h => h _ (mem_sortedUnion.mpr (Or.inr (List.mem_singleton.mpr rfl)))
    · intro hdoc d hd
      refine (mem_sortedUnion.mp hd).elim id fun hlast => ?_
      rw [List.mem_singleton.mp hlast]
      exact hdoc
  cases r with
  | exact existing =>
    cases ht
    rw [Entity.knows_le, placedEntity, mergedEntity]
    refine and_congr hdocs (and_congr ?_ ?_)
    · exact max_le_iff.trans (and_iff_right (le_refl _))
    · dsimp only [ResolvedItem.isNear]
      split_ifs with hlen
      · exact iff_of_true (le_refl _) (Or.inr hlen)
      · exact ⟨Or.inr, fun h => h.resolve_left (by simp)⟩
  | near best =>
    cases ht
    rw [Entity.knows_le, placedEntity, mergedEntity]
    refine and_congr hdocs (and_congr ?_ ?_)
    · exact max_le_iff.trans (and_iff_right (le_refl _))
    · exact iff_of_true (le_refl _) (Or.inl rfl)
  | new vector => cases ht

omit [MultiDiGraph G Entity Relation] in
/-- No id is drawn for a chunk whose entities are all merged. -/
theorem entitiesOf_congr {plan : ChunkPlan} (h : ∀ item ∈ plan.items, item.isNew = false)
    (freshId freshId' : ℕ → String) :
    env.entitiesOf freshId plan = env.entitiesOf freshId' plan := by
  refine List.map_congr_left fun x hx => ?_
  obtain ⟨⟨ext, r⟩, j⟩ := x
  have hmem : (ext, r) ∈ plan.resolved := List.fst_mem_of_mem_zipIdx hx
  have hold := h _ (List.mem_map_of_mem hmem)
  cases r with
  | exact existing => rfl
  | near best => rfl
  | new vector => cases hold

omit [MultiDiGraph G Entity Relation] in
/-- A relation of a chunk whose endpoints have ids is in the batch. -/
theorem exists_mem_allRelations {s : NetworkXGraphStore G} {draws : Draws}
    {plans : List ChunkPlan} {plan : ChunkPlan} {i : ℕ} (hplan : (plan, i) ∈ plans.zipIdx)
    {rel : ExtractedRelation} (hrel : rel ∈ plan.relations) {headId tailId : String}
    (hhead : nameToId s (env.entitiesOf (draws.entity i) plan) rel.head = some headId)
    (htail : nameToId s (env.entitiesOf (draws.entity i) plan) rel.tail = some tailId) :
    ∃ r ∈ env.allRelations s draws plans, r.key = (headId, tailId, rel.type) ∧
      r.weight = rel.weight ∧ r.sourceDocIds = [plan.chunk.docId] := by
  obtain ⟨j, hj⟩ := exists_mem_zipIdx_of_mem hrel
  refine ⟨{
    relationId := draws.relation i j
    kbId := plan.chunk.kbId
    headId := headId
    tailId := tailId
    type := rel.type
    description := rel.description
    weight := rel.weight
    sourceDocIds := [plan.chunk.docId] }, ?_, rfl, rfl, rfl⟩
  refine List.mem_flatMap.mpr ⟨(plan, i), hplan, List.mem_filterMap.mpr ⟨(rel, j), hj, ?_⟩⟩
  rw [hhead, htail]
  rfl

omit [MultiDiGraph G Entity Relation] in
/-- A planned chunk stands somewhere among the plans. -/
theorem exists_index_of_chunkPlan {s : NetworkXGraphStore G} {chunks : List Chunk}
    {plans : List ChunkPlan} (h : env.plans s chunks = .ok plans) {chunk : Chunk}
    (hchunk : chunk ∈ chunks) {plan : ChunkPlan} (hplan : env.chunkPlan s chunk = .ok plan) :
    ∃ i, (plan, i) ∈ plans.zipIdx := by
  obtain ⟨plan', hmem, hskip⟩ := exists_ok_of_mapM h hchunk
  rw [planOrSkip, hplan] at hskip
  cases hskip
  exact exists_mem_zipIdx_of_mem hmem

omit [MultiDiGraph G Entity Relation] in
theorem mem_resolvedItems {s : NetworkXGraphStore G} {chunks : List Chunk} {item : ResolvedItem} :
    item ∈ env.resolvedItems s chunks ↔
      ∃ chunk ∈ chunks, ∃ plan, env.chunkPlan s chunk = .ok plan ∧ item ∈ plan.items := by
  rw [resolvedItems, List.mem_flatMap]
  refine exists_congr fun chunk => and_congr_right fun _ => ?_
  cases env.chunkPlan s chunk with
  | ok plan => simp
  | error e => simp

section Plans

variable {env} {draws : Draws} {chunks : List Chunk} {s : NetworkXGraphStore G}
  {plans : List ChunkPlan}

omit [MultiDiGraph G Entity Relation] in
/-- The entities of a batch are known exactly when every item is merged into an entity that
knows it. -/
theorem entities_known_iff (h : env.plans s chunks = .ok plans) :
    (∀ e ∈ env.allEntities draws plans, ∃ old, s.entities.get? e.nameNorm = some old ∧
      e.knows ≤ old.knows) ↔
    ∀ item ∈ env.resolvedItems s chunks, ∃ t, item.resolution.target = some t ∧
      item.chunk.docId ∈ t.sourceDocIds ∧ item.ext.confidence ≤ t.confidence ∧
        (item.isNear = true ∨ item.ext.description.length ≤ t.description.length) := by
  constructor
  · intro hknown item hitem
    obtain ⟨numbers, he⟩ := env.exists_placed_of_item draws h hitem
    obtain ⟨old, hget, hle⟩ := hknown _ he
    have hkey := KeyedTable.isSome_get?.mp (Option.isSome_iff_exists.mpr ⟨old, hget⟩)
    have hnew := (env.mem_keys_placedEntity hitem numbers).mp hkey
    obtain ⟨t, ht⟩ := Option.isSome_iff_exists.mp (Option.isNone_eq_false_iff.mp hnew)
    obtain ⟨htget, hname, _⟩ := env.mergedEntity_of_target (env.resolves_of_mem_items hitem) ht
      item.chunk.kbId item.chunk.docId (draws.entity numbers.1 numbers.2)
    rw [placedEntity, hname, htget] at hget
    cases hget
    exact ⟨old, ht, (env.knows_placedEntity_le ht draws numbers).mp hle⟩
  · intro hitems e he
    obtain ⟨item, hitem, i, j, rfl⟩ := env.exists_item_of_mem_allEntities h he
    obtain ⟨t, ht, hknown⟩ := hitems item hitem
    obtain ⟨htget, hname, _⟩ := env.mergedEntity_of_target (env.resolves_of_mem_items hitem) ht
      item.chunk.kbId item.chunk.docId (draws.entity i j)
    refine ⟨t, ?_, (env.knows_placedEntity_le ht draws (i, j)).mpr hknown⟩
    rw [placedEntity, hname]
    exact htget

omit [MultiDiGraph G Entity Relation] in
/-- The relations of a batch without new entities are known exactly when those of every chunk
are. -/
theorem relations_known_iff (h : env.plans s chunks = .ok plans)
    (hold : ∀ item ∈ env.resolvedItems s chunks, item.isNew = false) :
    (∀ r ∈ env.allRelations s draws plans, ∃ old, s.relations.get? r.key = some old ∧
      r.knows ≤ old.knows) ↔
    ∀ chunk ∈ chunks, ∀ plan, env.chunkPlan s chunk = .ok plan → ∀ rel ∈ plan.relations,
      env.RelationKnown s plan rel := by
  have hids {chunk : Chunk} (hchunk : chunk ∈ chunks) {plan : ChunkPlan}
      (hplan : env.chunkPlan s chunk = .ok plan) (i : ℕ) :
      env.entitiesOf (draws.entity i) plan = env.entitiesOf (fun _ => "") plan :=
    env.entitiesOf_congr (fun item hitem =>
      hold item (env.mem_resolvedItems.mpr ⟨chunk, hchunk, plan, hplan, hitem⟩)) _ _
  constructor
  · intro hknown chunk hchunk plan hplan rel hrel headId tailId hhead htail
    obtain ⟨i, hi⟩ := env.exists_index_of_chunkPlan h hchunk hplan
    rw [← hids hchunk hplan i] at hhead htail
    obtain ⟨r, hr, hkey, hweight, hdocs⟩ := env.exists_mem_allRelations hi hrel hhead htail
    obtain ⟨old, hget, hle⟩ := hknown r hr
    rw [Relation.knows_le, hdocs, hweight, List.forall_mem_singleton] at hle
    exact ⟨old, hkey ▸ hget, hle⟩
  · intro hchunks r hr
    obtain ⟨plan, i, hi, rel, hrel, hhead, htail, htype, hweight, _, hdocs⟩ :=
      env.mem_allRelations hr
    obtain ⟨chunk, hchunk, hskip⟩ := exists_of_mem_mapM h (List.fst_mem_of_mem_zipIdx hi)
    rcases env.planOrSkip_cases hskip with hplan | ⟨_, rfl⟩
    · rw [hids hchunk hplan i] at hhead htail
      obtain ⟨old, hget, hknown⟩ := hchunks chunk hchunk plan hplan rel hrel _ _ hhead htail
      refine ⟨old, ?_, ?_⟩
      · rw [Relation.key, htype]
        exact hget
      · rw [Relation.knows_le, hdocs, hweight, List.forall_mem_singleton]
        exact hknown
    · exact absurd hrel List.not_mem_nil

end Plans

/-- A successful call has merged its batches into the two dictionaries. -/
theorem tables_buildForChunks {draws : Draws} {chunks : List Chunk} {s : NetworkXGraphStore G}
    {plans : List ChunkPlan} (h : env.plans s chunks = .ok plans)
    (hok : (env.buildForChunks draws chunks s).2 = none) :
    (env.buildForChunks draws chunks s).1.entities =
        (env.allEntities draws plans).foldl (KeyedTable.merge mergeEntity) s.entities ∧
      (env.buildForChunks draws chunks s).1.relations =
        (env.allRelations s draws plans).foldl (KeyedTable.merge mergeRelation) s.relations := by
  rw [env.buildForChunks_of_plans h] at hok ⊢
  obtain ⟨hentities, hrelations⟩ := Command.andThen_raised_eq_none.mp hok
  rw [Command.andThen_of_none hentities, entities_upsertRelations,
    entities_upsertEntities hentities, relations_upsertRelations hrelations,
    relations_upsertEntities]
  exact ⟨rfl, rfl⟩

/-- The contents stay the same exactly when both batches are known. -/
theorem sameContents_buildForChunks_iff {draws : Draws} {chunks : List Chunk}
    {s : NetworkXGraphStore G} {plans : List ChunkPlan} (h : env.plans s chunks = .ok plans)
    (hok : (env.buildForChunks draws chunks s).2 = none) :
    SameContents s (env.buildForChunks draws chunks s).1 ↔
      (∀ e ∈ env.allEntities draws plans, ∃ old, s.entities.get? e.nameNorm = some old ∧
        e.knows ≤ old.knows) ∧
      ∀ r ∈ env.allRelations s draws plans, ∃ old, s.relations.get? r.key = some old ∧
        r.knows ≤ old.knows := by
  obtain ⟨hentities, hrelations⟩ := env.tables_buildForChunks h hok
  have hleft := KeyedTable.view_foldl_merge_iff mergeEntity_keepsKey mergeEntity_joins
    Entity.view EntityView.knows (fun _ => rfl)
    (fun _ _ => view_mergeEntity) s.entities (env.allEntities draws plans)
  have hright := KeyedTable.view_foldl_merge_iff mergeRelation_keepsKey mergeRelation_joins
    Relation.knows id (fun _ => rfl)
    (fun old r hle => (mergeRelation_joins.join old r).trans (sup_eq_left.mpr hle)) s.relations
    (env.allRelations s draws plans)
  rw [← hleft, ← hright, ← hentities, ← hrelations]
  exact ⟨fun hsame => ⟨hsame.entities, hsame.relations⟩, fun hsame => ⟨hsame.1, hsame.2⟩⟩

/-- A build leaves the store as it is exactly when every chunk is known to it. -/
theorem buildStable_iff {draws : Draws} {chunks : List Chunk} {s : NetworkXGraphStore G}
    (hfresh : draws.Fresh s) :
    env.BuildStable draws chunks s ↔ ∀ chunk ∈ chunks, env.ChunkKnown s chunk := by
  constructor
  · intro hstable chunk hchunk
    have hsafe := (env.buildForChunks_raised_eq_none hfresh).mp hstable.succeeds
    obtain ⟨plans, hplans⟩ := env.exists_plans_iff.mpr hsafe.no_build_error
    obtain ⟨hes, hrs⟩ :=
      (env.sameContents_buildForChunks_iff hplans hstable.succeeds).mp hstable.same
    have hitems := (entities_known_iff hplans).mp hes
    have hold (item : ResolvedItem) (hitem : item ∈ env.resolvedItems s chunks) :
        item.isNew = false := by
      obtain ⟨t, ht, _⟩ := hitems item hitem
      rw [ResolvedItem.isNew, ht]
      rfl
    refine ⟨hsafe.no_build_error chunk hchunk, fun plan hplan item hitem => ?_,
      fun plan hplan => (relations_known_iff hplans hold).mp hrs chunk hchunk plan hplan⟩
    have hmem := env.mem_resolvedItems.mpr ⟨chunk, hchunk, plan, hplan, hitem⟩
    obtain ⟨t, ht, hknown⟩ := hitems item hmem
    exact ⟨hsafe.accepted item hmem, t, ht, hsafe.targets item hmem t ht, hknown⟩
  · intro hknown
    have hitems (item : ResolvedItem) (hitem : item ∈ env.resolvedItems s chunks) :
        ItemKnown s item := by
      obtain ⟨chunk, hchunk, plan, hplan, hmem⟩ := env.mem_resolvedItems.mp hitem
      exact (hknown chunk hchunk).items plan hplan item hmem
    have hold (item : ResolvedItem) (hitem : item ∈ env.resolvedItems s chunks) :
        item.isNew = false := by
      obtain ⟨_, t, ht, _⟩ := hitems item hitem
      rw [ResolvedItem.isNew, ht]
      rfl
    have hsafe : env.BuildSafe chunks s := by
      refine ⟨fun chunk hchunk => (hknown chunk hchunk).quiet,
        fun item hitem => (hitems item hitem).1, fun item hitem t ht => ?_, ?_⟩
      · obtain ⟨_, t', ht', hnode, _⟩ := hitems item hitem
        cases ht.symm.trans ht'
        exact hnode
      · have hnone : (env.resolvedItems s chunks).filter (·.isNew) = [] :=
          List.filter_eq_nil_iff.mpr fun item hitem => by simp [hold item hitem]
        rw [hnone]
        exact List.nodup_nil
    have hok := (env.buildForChunks_raised_eq_none hfresh).mpr hsafe
    obtain ⟨plans, hplans⟩ := env.exists_plans_iff.mpr hsafe.no_build_error
    refine ⟨hok, (env.sameContents_buildForChunks_iff hplans hok).mpr ⟨?_, ?_⟩⟩
    · refine (entities_known_iff hplans).mpr fun item hitem => ?_
      obtain ⟨_, t, ht, _, hrest⟩ := hitems item hitem
      exact ⟨t, ht, hrest⟩
    · exact (relations_known_iff hplans hold).mpr fun chunk hchunk =>
        (hknown chunk hchunk).relations

/-! ## After a first build -/

/-- The chunk is planned, and none of its entities is merged into a near neighbour. -/
def Settled (s : NetworkXGraphStore G) (chunk : Chunk) : Prop :=
  ∃ plan, env.chunkPlan s chunk = .ok plan ∧ ∀ item ∈ plan.items, item.isNear = false

section FirstBuild

variable {env} {draws : Draws} {chunks : List Chunk} {s : NetworkXGraphStore G}
  {plans : List ChunkPlan}

/-- An entry after the build has name and id of one before it, or of a newcomer. -/
theorem origin_of_mem_entities (h : env.plans s chunks = .ok plans)
    (hok : (env.buildForChunks draws chunks s).2 = none) {e : Entity}
    (he : e ∈ (env.buildForChunks draws chunks s).1.entities.values) :
    (∃ w ∈ s.entities.values,
      w.nameNorm = e.nameNorm ∧ w.name = e.name ∧ w.entityId = e.entityId) ∨
    ∃ w ∈ KeyedTable.newcomers Entity.nameNorm s.entities.keys (env.allEntities draws plans),
      w.nameNorm = e.nameNorm ∧ w.name = e.name ∧ w.entityId = e.entityId := by
  rw [(env.tables_buildForChunks h hok).1] at he
  have hlabel := (KeyedTable.exists_mem_values_foldl_merge mergeEntity_keepsKey (fun _ => rfl)
    (fun _ _ => rfl) (p := fun e : Entity => (e.nameNorm, e.name, e.entityId))).mp ⟨e, he, rfl⟩
  simpa only [Prod.mk.injEq] using hlabel

/-- Every id of a batch that went through is a node. -/
theorem hasNode_of_mem_allEntities (h : env.plans s chunks = .ok plans) (hfresh : draws.Fresh s)
    (hok : (env.buildForChunks draws chunks s).2 = none) {e : Entity}
    (he : e ∈ env.allEntities draws plans) :
    HasNode (env.buildForChunks draws chunks s).1.graph e.entityId := by
  have hsafe := (env.buildForChunks_raised_eq_none hfresh).mp hok
  rw [env.buildForChunks_of_plans h] at hok ⊢
  obtain ⟨hentities, hrelations⟩ := Command.andThen_raised_eq_none.mp hok
  rw [Command.andThen_of_none hentities, hasNode_upsertRelations hrelations,
    hasNode_upsertEntities hentities]
  refine Or.inl ?_
  by_cases hk : e.nameNorm ∈ s.entities.keys
  · obtain ⟨item, hitem, t, ht, hid, _⟩ := env.exists_target_of_known h he hk
    exact Or.inl (hid ▸ hsafe.targets item hitem t ht)
  · have hnames := hsafe.new_names
    rw [← env.map_nameNorm_unknown draws h] at hnames
    exact Or.inr (List.mem_map_of_mem (KeyedTable.mem_newcomers_of_nodup hnames he hk))

omit [MultiDiGraph G Entity Relation] in
/-- A newcomer of a batch is an entity that was not merged, under its own name. -/
theorem new_of_mem_newcomers (h : env.plans s chunks = .ok plans) {w : Entity}
    (hw : w ∈ KeyedTable.newcomers Entity.nameNorm s.entities.keys
      (env.allEntities draws plans)) :
    w ∈ env.allEntities draws plans ∧ w.nameNorm = env.unicode.normalizeName w.name ∧
      w.nameNorm ∉ s.entities.keys := by
  obtain ⟨hmem, hunknown⟩ := KeyedTable.of_mem_newcomers hw
  refine ⟨hmem, ?_, hunknown⟩
  obtain ⟨item, hitem, i, j, rfl⟩ := env.exists_item_of_mem_allEntities h hmem
  have hnew : item.isNew = true := by
    rw [← Bool.not_eq_false]
    exact fun hf => hunknown ((env.mem_keys_placedEntity hitem (i, j)).mpr hf)
  obtain ⟨_, hname, _, hown⟩ := env.mergedEntity_of_new (env.resolves_of_mem_items hitem)
    (Option.isNone_iff_eq_none.mp hnew) item.chunk.kbId item.chunk.docId (draws.entity i j)
  rw [placedEntity, hname, hown]

/-- The entry that an item which is not near leaves behind: it knows the item, its id is a
node, and merging the item into it once more gives the same name and id. -/
theorem exists_entry_of_item (h : env.plans s chunks = .ok plans) (hfresh : draws.Fresh s)
    (hok : (env.buildForChunks draws chunks s).2 = none) {item : ResolvedItem}
    (hitem : item ∈ env.resolvedItems s chunks) (hnear : item.isNear = false) {numbers : ℕ × ℕ}
    (hplaced : env.placedEntity draws (item, numbers) ∈ env.allEntities draws plans) :
    ∃ e, (env.buildForChunks draws chunks s).1.entities.get?
        (env.unicode.normalizeName item.ext.name) = some e ∧
      (env.placedEntity draws (item, numbers)).knows ≤ e.knows ∧
      e.entityId = (env.placedEntity draws (item, numbers)).entityId ∧
      (if item.ext.name.length ≤ e.name.length then e.name else item.ext.name) =
        (env.placedEntity draws (item, numbers)).name := by
  have hname := env.nameNorm_of_not_near draws hnear numbers
  obtain ⟨e, hget, hle⟩ :=
    KeyedTable.exists_le_foldl_merge mergeEntity_keepsKey mergeEntity_joins s.entities hplaced
  rw [← (env.tables_buildForChunks h hok).1, hname] at hget
  refine ⟨e, hget, hle, ?_⟩
  have hkey := KeyedTable.key_of_get? hget
  have horigin := origin_of_mem_entities h hok (KeyedTable.mem_values_of_get? hget)
  have hres := env.resolves_of_mem_items hitem
  obtain ⟨chunk, ext, r⟩ := item
  cases r with
  | exact existing =>
    rcases horigin with ⟨w, hw, hnorm, hwname, hwid⟩ | ⟨w, hw, hnorm, _⟩
    · have hsame : w = existing := by
        rw [KeyedTable.mem_values, hnorm, hkey] at hw
        exact Option.some.inj (hw.symm.trans hres)
      subst hsame
      rw [← hwid, ← hwname]
      exact ⟨rfl, rfl⟩
    · have hknown := KeyedTable.isSome_get?.mp (Option.isSome_iff_exists.mpr ⟨_, hres⟩)
      refine absurd ?_ (new_of_mem_newcomers h hw).2.2
      rw [hnorm, hkey]
      exact hknown
  | near best => cases hnear
  | new vector =>
    have hunknown := KeyedTable.get?_eq_none.mp hres
    rcases horigin with ⟨w, hw, hnorm, _⟩ | ⟨w, hw, hnorm, hwname, hwid⟩
    · rw [KeyedTable.mem_values, hnorm, hkey] at hw
      exact absurd (KeyedTable.isSome_get?.mp (Option.isSome_iff_exists.mpr ⟨_, hw⟩)) hunknown
    · obtain ⟨hmem, _, hnot⟩ := new_of_mem_newcomers h hw
      have hnames := ((env.buildForChunks_raised_eq_none hfresh).mp hok).new_names
      rw [← env.map_nameNorm_unknown draws h] at hnames
      have hsame : w = env.placedEntity draws (⟨chunk, ext, .new vector⟩, numbers) :=
        List.inj_on_of_nodup_map hnames
          (List.mem_filter.mpr ⟨hmem, isUnknown_eq_true.mpr hnot⟩)
          (List.mem_filter.mpr ⟨hplaced, isUnknown_eq_true.mpr (hname ▸ hunknown)⟩)
          (hnorm.trans (hkey.trans hname.symm))
      rw [← hwid, ← hwname, hsame]
      exact ⟨rfl, if_pos (le_refl _)⟩

/-- The names of stored entities, with their ids and in their order: after the build those
of the newcomers stand behind. -/
theorem names_buildForChunks (h : env.plans s chunks = .ok plans)
    (hok : (env.buildForChunks draws chunks s).2 = none) :
    (env.buildForChunks draws chunks s).1.entities.values.map (fun e => (e.name, e.entityId)) =
      s.entities.values.map (fun e => (e.name, e.entityId)) ++
        (KeyedTable.newcomers Entity.nameNorm s.entities.keys
          (env.allEntities draws plans)).map fun e => (e.name, e.entityId) := by
  rw [(env.tables_buildForChunks h hok).1]
  exact KeyedTable.map_values_foldl_merge mergeEntity_keepsKey (fun _ => rfl) (fun _ _ => rfl) _ _

omit [MultiDiGraph G Entity Relation] in
theorem find?_name (es : List Entity) (name : String) :
    (es.find? fun e => e.name == name).map (·.entityId) =
      ((es.map fun e => (e.name, e.entityId)).find? fun x => x.1 == name).map Prod.snd := by
  rw [List.find?_map, Option.map_map]
  rfl

/-- A name of a settled chunk stands for the id that it stood for in the first build. -/
theorem nameToId_of_nameToId_buildForChunks (h : env.plans s chunks = .ok plans)
    (hok : (env.buildForChunks draws chunks s).2 = none) {plan : ChunkPlan} {i : ℕ}
    (hres : ∀ x ∈ plan.resolved, env.Resolves s x.1 x.2)
    (hnear : ∀ item ∈ plan.items, item.isNear = false) {es : List Entity}
    (hes : es.map (fun e => (e.name, e.entityId)) =
      (env.entitiesOf (draws.entity i) plan).map fun e => (e.name, e.entityId))
    {name id : String} (hname : ∃ x ∈ plan.resolved, x.1.name = name)
    (hid : nameToId (env.buildForChunks draws chunks s).1 es name = some id) :
    nameToId s (env.entitiesOf (draws.entity i) plan) name = some id := by
  unfold nameToId at hid ⊢
  dsimp only at hid ⊢
  rw [hes] at hid
  cases hown : (OrderedDict.ofList ((env.entitiesOf (draws.entity i) plan).map
      fun e => (e.name, e.entityId))).get? name with
  | some id' =>
    rw [hown] at hid
    exact hid
  | none =>
    rw [hown] at hid
    dsimp only at hid ⊢
    rw [find?_name, names_buildForChunks h hok, List.find?_append] at hid
    rw [find?_name]
    cases hstored : (s.entities.values.map fun e => (e.name, e.entityId)).find?
        fun x => x.1 == name with
    | some x =>
      rw [hstored] at hid
      exact hid
    | none =>
      -- a newcomer of this name would be an entity of the chunk, with an id of its own there
      rw [hstored, Option.none_or] at hid
      obtain ⟨pair, hfind, rfl⟩ := Option.map_eq_some_iff.mp hid
      obtain ⟨w, hw, rfl⟩ := List.mem_map.mp (List.mem_of_find?_eq_some hfind)
      obtain ⟨_, hnorm, hunknown⟩ := new_of_mem_newcomers h hw
      have hwname : w.name = name := by simpa using List.find?_some hfind
      rw [hnorm, hwname] at hunknown
      obtain ⟨⟨ext, r⟩, hx, rfl⟩ := hname
      have hextres := hres _ hx
      obtain ⟨j, hj⟩ := exists_mem_zipIdx_of_mem hx
      have hitem := hnear _ (List.mem_map_of_mem hx)
      cases r with
      | exact existing =>
        exact absurd (KeyedTable.isSome_get?.mp (Option.isSome_iff_exists.mpr ⟨_, hextres⟩))
          hunknown
      | near best => cases hitem
      | new vector =>
        have hpair : ext.name ∈ ((env.entitiesOf (draws.entity i) plan).map
            fun e => (e.name, e.entityId)).map Prod.fst := by
          refine List.mem_map_of_mem (f := Prod.fst) (List.mem_map_of_mem
            (f := fun e : Entity => (e.name, e.entityId)) (List.mem_map_of_mem
            (f := fun item : (ExtractedEntity × Resolution) × ℕ => env.mergedEntity
              plan.chunk.kbId plan.chunk.docId (draws.entity i item.2) item.1.1 item.1.2) hj))
        obtain ⟨id', _, hid'⟩ := OrderedDict.exists_get?_update_of_mem .empty hpair
        cases hown.symm.trans hid'

omit [MultiDiGraph G Entity Relation] in
/-- The entity that is upserted for an item which is not near knows the item. -/
theorem item_le_placedEntity (env : KgEnv) (draws : Draws) {item : ResolvedItem}
    (hnear : item.isNear = false) (numbers : ℕ × ℕ) :
    item.chunk.docId ∈ (env.placedEntity draws (item, numbers)).sourceDocIds ∧
      item.ext.confidence ≤ (env.placedEntity draws (item, numbers)).confidence ∧
      item.ext.description.length ≤
        (env.placedEntity draws (item, numbers)).description.length := by
  obtain ⟨chunk, ext, r⟩ := item
  cases r with
  | exact existing =>
    refine ⟨mem_sortedUnion.mpr (Or.inr (List.mem_singleton.mpr rfl)), le_max_right _ _, ?_⟩
    dsimp only [placedEntity, mergedEntity]
    split_ifs with hlen
    · exact hlen
    · exact le_refl _
  | near best => cases hnear
  | new vector => exact ⟨List.mem_singleton.mpr rfl, le_refl _, le_refl _⟩

/-- What a name that is stored resolves to. -/
def storedResolution (env : KgEnv) (s : NetworkXGraphStore G) (ext : ExtractedEntity) :
    Resolution :=
  ((s.entities.get? (env.unicode.normalizeName ext.name)).map .exact).getD (.new [])

/-- The plan of a chunk whose names are all stored. -/
def planAgain (env : KgEnv) (s : NetworkXGraphStore G) (plan : ChunkPlan) : ChunkPlan :=
  { plan with resolved := plan.resolved.map fun x => (x.1, env.storedResolution s x.1) }

omit [MultiDiGraph G Entity Relation] in
theorem chunkPlan_of_stored {s' : NetworkXGraphStore G} {chunk : Chunk} {plan : ChunkPlan}
    (h : env.chunkPlan s chunk = .ok plan) (hstored : ∀ x ∈ plan.resolved, ∃ e,
      s'.entities.get? (env.unicode.normalizeName x.1.name) = some e) :
    env.chunkPlan s' chunk = .ok (env.planAgain s' plan) := by
  obtain ⟨extracted, hextracted, hrest⟩ := bind_eq_ok_iff.mp h
  refine bind_eq_ok_iff.mpr ⟨extracted, hextracted, ?_⟩
  cases extracted with
  | none =>
    cases hrest
    rfl
  | some result =>
    obtain ⟨resolved, hresolved, hplan⟩ := bind_eq_ok_iff.mp hrest
    cases hplan
    refine bind_eq_ok_iff.mpr ⟨_, ?_, rfl⟩
    have hall := (mapM_eq_ok_iff.mp hresolved).flip
    have hboth := ((List.forall₂_and_left _ _).mpr ⟨hstored, hall⟩).flip
    refine mapM_eq_ok_iff.mpr (List.forall₂_map_right_iff.mpr (hboth.imp fun ext x hx => ?_))
    obtain ⟨⟨e, he⟩, hext⟩ := hx
    obtain ⟨r, _, rfl⟩ := map_eq_ok_iff.mp hext
    refine map_eq_ok_iff.mpr ⟨.exact e, ?_, ?_⟩
    · rw [resolve, he]
    · rw [storedResolution, he]
      rfl

/-- The entry of a settled chunk's entity after the build: it knows the entity, and its name
and id are those that the entity had in the build. -/
theorem exists_entry_of_resolved (h : env.plans s chunks = .ok plans) (hfresh : draws.Fresh s)
    (hok : (env.buildForChunks draws chunks s).2 = none) {chunk : Chunk} (hchunk : chunk ∈ chunks)
    {plan : ChunkPlan} (hplan : env.chunkPlan s chunk = .ok plan)
    (hnear : ∀ item ∈ plan.items, item.isNear = false) {i j : ℕ} (hi : (plan, i) ∈ plans.zipIdx)
    {x : ExtractedEntity × Resolution} (hx : (x, j) ∈ plan.resolved.zipIdx) (freshId : String) :
    ∃ e, (env.buildForChunks draws chunks s).1.entities.get?
          (env.unicode.normalizeName x.1.name) = some e ∧
      HasNode (env.buildForChunks draws chunks s).1.graph e.entityId ∧
      (plan.chunk.docId ∈ e.sourceDocIds ∧ x.1.confidence ≤ e.confidence ∧
        x.1.description.length ≤ e.description.length) ∧
      (env.mergedEntity plan.chunk.kbId plan.chunk.docId freshId x.1 (.exact e)).name =
        (env.mergedEntity plan.chunk.kbId plan.chunk.docId (draws.entity i j) x.1 x.2).name ∧
      e.entityId =
        (env.mergedEntity plan.chunk.kbId plan.chunk.docId (draws.entity i j) x.1
          x.2).entityId := by
  have hmem : (⟨plan.chunk, x.1, x.2⟩ : ResolvedItem) ∈ plan.items :=
    List.mem_map_of_mem (List.fst_mem_of_mem_zipIdx hx)
  have hbatch : env.placedEntity draws (⟨plan.chunk, x.1, x.2⟩, i, j) ∈
      env.allEntities draws plans :=
    List.mem_flatMap.mpr ⟨(plan, i), hi, List.mem_map_of_mem
      (f := fun item : (ExtractedEntity × Resolution) × ℕ => env.mergedEntity
        plan.chunk.kbId plan.chunk.docId (draws.entity i item.2) item.1.1 item.1.2) hx⟩
  obtain ⟨e, hget, hle, hid, hname⟩ := exists_entry_of_item h hfresh hok
    (env.mem_resolvedItems.mpr ⟨chunk, hchunk, plan, hplan, hmem⟩) (hnear _ hmem) hbatch
  obtain ⟨hdoc, hconfidence, hlength⟩ :=
    item_le_placedEntity env draws (hnear _ hmem) (i, j)
  obtain ⟨hdocs, hconfidence', hlength'⟩ := Entity.knows_le.mp hle
  exact ⟨e, hget, hid ▸ hasNode_of_mem_allEntities h hfresh hok hbatch,
    ⟨hdocs _ hdoc, hconfidence.trans hconfidence', hlength.trans hlength'⟩, hname, hid⟩

theorem kbId_buildForChunks (h : env.plans s chunks = .ok plans)
    (hok : (env.buildForChunks draws chunks s).2 = none) :
    (env.buildForChunks draws chunks s).1.kbId = s.kbId := by
  rw [env.buildForChunks_of_plans h] at hok ⊢
  obtain ⟨hentities, _⟩ := Command.andThen_raised_eq_none.mp hok
  rw [Command.andThen_of_none hentities, kbId_upsertRelations, kbId_upsertEntities]

/-- A settled chunk is known once it has been built. -/
theorem chunkKnown_of_settled (hfresh : draws.Fresh s)
    (hok : (env.buildForChunks draws chunks s).2 = none) {chunk : Chunk}
    (hchunk : chunk ∈ chunks) (hsettled : env.Settled s chunk) :
    env.ChunkKnown (env.buildForChunks draws chunks s).1 chunk := by
  have hsafe := (env.buildForChunks_raised_eq_none hfresh).mp hok
  obtain ⟨plans, hplans⟩ := env.exists_plans_iff.mpr hsafe.no_build_error
  obtain ⟨plan, hplan, hnear⟩ := hsettled
  obtain ⟨i, hi⟩ := env.exists_index_of_chunkPlan hplans hchunk hplan
  obtain ⟨_, hres, hends⟩ := env.chunkPlan_spec hplan
  set after := (env.buildForChunks draws chunks s).1 with hafter
  have hentry {x : ExtractedEntity × Resolution} {j : ℕ} (hx : (x, j) ∈ plan.resolved.zipIdx) :=
    exists_entry_of_resolved hplans hfresh hok hchunk hplan hnear hi hx ""
  have hstored {x : ExtractedEntity × Resolution} {e : Entity}
      (he : after.entities.get? (env.unicode.normalizeName x.1.name) = some e) :
      env.storedResolution after x.1 = .exact e := by
    rw [storedResolution, he]
    rfl
  have hagain : env.chunkPlan after chunk = .ok (env.planAgain after plan) := by
    refine chunkPlan_of_stored hplan fun x hx => ?_
    obtain ⟨j, hj⟩ := exists_mem_zipIdx_of_mem hx
    obtain ⟨e, hget, _⟩ := hentry hj
    exact ⟨e, hget⟩
  refine ⟨fun e he => ?_, fun plan' hplan' item hmem => ?_, fun plan' hplan' rel hrel => ?_⟩
  · cases hagain.symm.trans he
  · cases hagain.symm.trans hplan'
    obtain ⟨y, hy, rfl⟩ := List.mem_map.mp hmem
    obtain ⟨x, hx, rfl⟩ := List.mem_map.mp hy
    obtain ⟨j, hj⟩ := exists_mem_zipIdx_of_mem hx
    obtain ⟨e, hget, hnode, ⟨hdoc, hconfidence, hlength⟩, _⟩ := hentry hj
    refine ⟨?_, e, ?_, hnode, hdoc, hconfidence, Or.inr hlength⟩
    · rw [Accepts, hafter, kbId_buildForChunks hplans hok]
      exact hsafe.accepted ⟨plan.chunk, x.1, x.2⟩ (env.mem_resolvedItems.mpr
        ⟨chunk, hchunk, plan, hplan, List.mem_map_of_mem hx⟩)
    · exact congrArg Resolution.target (hstored hget)
  · cases hagain.symm.trans hplan'
    intro headId tailId hhead htail
    have hes : (env.entitiesOf (fun _ => "") (env.planAgain after plan)).map
          (fun e => (e.name, e.entityId)) =
        (env.entitiesOf (draws.entity i) plan).map fun e => (e.name, e.entityId) := by
      rw [entitiesOf, entitiesOf, planAgain, List.zipIdx_map, List.map_map, List.map_map,
        List.map_map]
      refine List.map_congr_left fun x hx => ?_
      obtain ⟨e, hget, _, _, hname, hid⟩ := hentry hx
      let nameAndId (e : Entity) : String × String := (e.name, e.entityId)
      have hsame : nameAndId (env.mergedEntity plan.chunk.kbId plan.chunk.docId "" x.1.1
          (env.storedResolution after x.1.1)) = nameAndId (env.mergedEntity plan.chunk.kbId
          plan.chunk.docId (draws.entity i x.2) x.1.1 x.1.2) := by
        rw [hstored hget]
        exact Prod.ext hname hid
      exact hsame
    have hid {name id : String} (hname : ∃ x ∈ plan.resolved, x.1.name = name)
        (hafter : nameToId after (env.entitiesOf (fun _ => "") (env.planAgain after plan)) name =
          some id) : nameToId s (env.entitiesOf (draws.entity i) plan) name = some id :=
      nameToId_of_nameToId_buildForChunks hplans hok hres hnear hes hname hafter
    obtain ⟨r, hr, hkey, hweight, hdocs⟩ := env.exists_mem_allRelations hi hrel
      (hid (hends rel hrel).1 hhead) (hid (hends rel hrel).2 htail)
    obtain ⟨w, hget, hle⟩ := KeyedTable.exists_le_foldl_merge mergeRelation_keepsKey
      mergeRelation_joins s.relations hr
    rw [← (env.tables_buildForChunks hplans hok).2, hkey] at hget
    rw [Relation.knows_le, hdocs, hweight, List.forall_mem_singleton] at hle
    exact ⟨w, hget, hle⟩

end FirstBuild

omit [MultiDiGraph G Entity Relation] in
theorem settled_of_all {s : NetworkXGraphStore G} {chunk : Chunk}
    (h : (env.chunkPlan s chunk).toOption.any (·.items.all fun item => !item.isNear) = true) :
    env.Settled s chunk := by
  cases hplan : env.chunkPlan s chunk with
  | error e =>
    rw [hplan] at h
    cases h
  | ok plan =>
    rw [hplan] at h
    refine ⟨plan, hplan, fun item hitem => ?_⟩
    have hnot := List.all_eq_true.mp h item hitem
    rwa [Bool.not_eq_true'] at hnot

/-- Two chunks describe one person, the first one as a person that is stored. -/
def nearNameEnv : KgEnv where
  unicode := asciiTables
  extractAuto chunk := .ok (some { entities :=
    if chunk.chunkId = "chk_1" then [⟨"ada", "PERSON", "a pioneer", 1⟩]
    else [⟨"ada", "PERSON", "a poet", 3 / 5⟩] })
  embed texts := .ok (texts.map fun text => if text = "a poet" then [2] else [1])
  cosine u v := if u = v then 1 else 0

def pioneerStore : PlainGraphStore :=
  (upsertEntities [{ sampleEntity "ent_1" "doc_0" with
    nameNorm := "lovelace"
    vector := [1] }] (fresh "kb")).1

end KgEnv

end Ragx
