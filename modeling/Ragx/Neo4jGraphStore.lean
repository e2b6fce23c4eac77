import Ragx.GraphAgreement
import Ragx.PropertyGraph

/-!
# The graph store over a graph database

The knowledge bases share one database. An entity is a node that is merged by its name and
knowledge base, and a relation is a relationship that is merged by its id between two nodes.
Each statement commits by itself, so what was written stays when a later one raises.
-/
namespace Ragx

/-- No two nodes have one entity id, so a relationship is kept with the ids of its nodes. -/
abbrev EntityGraph := PropertyGraph Entity.entityId Relation.headId Relation.tailId

/-- `ON MATCH SET` of an entity. -/
def mergeNode (e entity : Entity) : Entity :=
  { e with
    sourceDocIds := firstSeen (e.sourceDocIds ++ entity.sourceDocIds)
    confidence := if e.confidence < entity.confidence then entity.confidence else e.confidence
    description := longerText e.description entity.description
    name := if e.name.length ≤ entity.name.length then entity.name else e.name
    vector := if e.vector.isEmpty && !entity.vector.isEmpty then entity.vector else e.vector }

/-- `ON MATCH SET` of a relation. -/
def mergeRelationship (r relation : Relation) : Relation :=
  { r with
    sourceDocIds := firstSeen (r.sourceDocIds ++ relation.sourceDocIds)
    weight := if r.weight < relation.weight then relation.weight else r.weight
    description := longerText r.description relation.description }

/-- `SET e.source_doc_ids = [x IN e.source_doc_ids WHERE x <> $doc_id]` where the document is
listed. -/
def Entity.unlist (docId : String) (e : Entity) : Entity :=
  if docId ∈ e.sourceDocIds then { e with sourceDocIds := e.sourceDocIds.filter (· ≠ docId) }
  else e

def Relation.unlist (docId : String) (r : Relation) : Relation :=
  if docId ∈ r.sourceDocIds then { r with sourceDocIds := r.sourceDocIds.filter (· ≠ docId) }
  else r

@[simp]
theorem Entity.entityId_unlist (docId : String) (e : Entity) :
    (e.unlist docId).entityId = e.entityId := by
  unfold Entity.unlist
  split_ifs <;> rfl

@[simp]
theorem Relation.ends_unlist (docId : String) (r : Relation) :
    (r.unlist docId).headId = r.headId ∧ (r.unlist docId).tailId = r.tailId := by
  unfold Relation.unlist
  split_ifs <;> exact ⟨rfl, rfl⟩

theorem Entity.sourceDocIds_unlist (docId : String) (e : Entity) :
    (e.unlist docId).sourceDocIds = e.sourceDocIds.filter (· ≠ docId) := by
  unfold Entity.unlist
  split_ifs with h
  · rfl
  · refine (List.filter_eq_self.mpr fun d hd => ?_).symm
    exact decide_eq_true fun he => h (he ▸ hd)

theorem Relation.sourceDocIds_unlist (docId : String) (r : Relation) :
    (r.unlist docId).sourceDocIds = r.sourceDocIds.filter (· ≠ docId) := by
  unfold Relation.unlist
  split_ifs with h
  · rfl
  · refine (List.filter_eq_self.mpr fun d hd => ?_).symm
    exact decide_eq_true fun he => h (he ▸ hd)

/-- A store for one knowledge base; `violation` is the text of the driver's error about a node
that would be the second with its entity id. -/
structure Neo4jGraphStore where
  kbId : String
  violation : Entity → String

namespace Neo4jGraphStore

/-- The words are looked for in the lower-case text of the error. -/
def mentions (error : String) (words : List String) : Bool :=
  words.any fun word => decide (word.toList <:+: error.toList.map Char.toLower)

def translate (error context : String) : Exc :=
  if mentions error ["timeout", "timed out"] then
    { cls := .pluginTimeout, code := 9005
      message := s!"Neo4j {context} timed out", details := [("error", .str error)] }
  else if mentions error ["connection", "unreachable", "refused"] then
    { cls := .graphStoreUnavailable, code := 5002
      message := s!"Neo4j {context}: store unreachable", details := [("error", .str error)] }
  else if mentions error ["constraint", "validation"] then
    { cls := .pluginContract, code := 9004
      message := s!"Neo4j {context}: contract violation", details := [("error", .str error)] }
  else
    { cls := .graphStoreUnavailable, code := 5002
      message := s!"Neo4j {context} failed", details := [("error", .str error)] }

variable (store : Neo4jGraphStore)

def Accepts (kbId : String) : Prop := kbId = "" ∨ kbId = store.kbId

instance (kbId : String) : Decidable (store.Accepts kbId) := inferInstanceAs (Decidable (_ ∨ _))

def otherKbError (kbId : String) : Exc where
  cls := .pluginContract
  code := 9004
  message := "entity/relation belongs to a different knowledge base"
  details := [("expected", .str store.kbId), ("got", .str kbId)]

/-- The whole batch is checked before its first item is written. -/
def checkKbs (kbIds : List String) : Option Exc :=
  (kbIds.find? fun kbId => ¬ store.Accepts kbId).map store.otherKbError

/-- The pattern that an entity is merged by. -/
def isNodeOf (entity e : Entity) : Bool := e.nameNorm = entity.nameNorm ∧ e.kbId = entity.kbId

def setNode (entity e : Entity) : Entity :=
  if isNodeOf entity e then mergeNode e entity else e

@[simp]
theorem entityId_setNode (entity e : Entity) : (setNode entity e).entityId = e.entityId := by
  unfold setNode
  split_ifs <;> rfl

def upsertEntity (entity : Entity) : Command EntityGraph Exc := fun g =>
  if g.nodes.values.any (isNodeOf entity) then
    (g.setNodes (setNode entity) (entityId_setNode entity), none)
  else
    match g.createNode entity with
    | some g' => (g', none)
    | none => (g, some (translate (store.violation entity) "upsert_entities"))

def upsertEntities (entities : List Entity) : Command EntityGraph Exc := fun g =>
  match store.checkKbs (entities.map (·.kbId)) with
  | some e => (g, some e)
  | none => Command.forEach store.upsertEntity entities g

/-- The pattern that a relation is merged by. -/
def isRelationshipOf (relation r : Relation) : Bool :=
  r.headId = relation.headId ∧ r.tailId = relation.tailId ∧ r.relationId = relation.relationId

def setRelationship (relation r : Relation) : Relation :=
  if isRelationshipOf relation r then mergeRelationship r relation else r

theorem ends_setRelationship (relation r : Relation) :
    (setRelationship relation r).headId = r.headId ∧
      (setRelationship relation r).tailId = r.tailId := by
  unfold setRelationship
  split_ifs <;> exact ⟨rfl, rfl⟩

/-- Nothing is written, and nothing raised, unless both nodes are there. -/
def upsertRelation (relation : Relation) (g : EntityGraph) : EntityGraph :=
  if g.relationships.any (isRelationshipOf relation) then
    g.setRelationships (setRelationship relation) (ends_setRelationship relation)
  else g.createRelationship relation

def upsertRelations (relations : List Relation) : Command EntityGraph Exc := fun g =>
  match store.checkKbs (relations.map (·.kbId)) with
  | some e => (g, some e)
  | none => (relations.foldl (fun g relation => upsertRelation relation g) g, none)

/-- The documents are taken from the lists of all knowledge bases, and what has an empty list
afterwards goes. -/
def deleteByDoc (docId : String) (g : EntityGraph) : EntityGraph :=
  (((g.setNodes (Entity.unlist docId) (Entity.entityId_unlist docId)).detachDelete
    fun e => e.sourceDocIds.isEmpty).setRelationships (Relation.unlist docId)
      (Relation.ends_unlist docId)).deleteRelationships fun r => r.sourceDocIds.isEmpty

/-- A call that completes without raising. -/
def step (g : EntityGraph) : GraphCall → Option EntityGraph
  | .upsertEntities entities => (store.upsertEntities entities).completed g
  | .upsertRelations relations => (store.upsertRelations relations).completed g
  | .deleteByDoc docId => some (deleteByDoc docId g)

/-! ## What a call that completes has done -/

variable {store}

theorem upsertEntities_of_completed {entities : List Entity} {g g' : EntityGraph}
    (h : (store.upsertEntities entities).completed g = some g') :
    (Command.forEach store.upsertEntity entities g).2 = none ∧
      g' = (Command.forEach store.upsertEntity entities g).1 := by
  obtain ⟨hok, rfl⟩ := Command.completed_eq_some.mp h
  cases hcheck : store.checkKbs (entities.map (·.kbId)) with
  | some e => simp [upsertEntities, hcheck] at hok
  | none =>
    simp only [upsertEntities, hcheck] at hok ⊢
    exact ⟨hok, trivial⟩

theorem upsertRelations_of_completed {relations : List Relation} {g g' : EntityGraph}
    (h : (store.upsertRelations relations).completed g = some g') :
    g' = relations.foldl (fun g relation => upsertRelation relation g) g := by
  obtain ⟨hok, rfl⟩ := Command.completed_eq_some.mp h
  cases hcheck : store.checkKbs (relations.map (·.kbId)) with
  | some e => simp [upsertRelations, hcheck] at hok
  | none => simp only [upsertRelations, hcheck]

/-- An entity that is written is set on the nodes with its name and knowledge base, or it is a new
node. -/
theorem upsertEntity_cases {entity : Entity} {g : EntityGraph}
    (hok : (store.upsertEntity entity g).2 = none) :
    (store.upsertEntity entity g).1.relationships = g.relationships ∧
    (((∃ n ∈ g.nodes.values, isNodeOf entity n = true) ∧
        (store.upsertEntity entity g).1.nodes.values.Perm
          (g.nodes.values.map (setNode entity))) ∨
      ((∀ n ∈ g.nodes.values, ¬ isNodeOf entity n = true) ∧ entity.entityId ∉ g.nodes.keys ∧
        (store.upsertEntity entity g).1.nodes.values = g.nodes.values ++ [entity])) := by
  by_cases hany : g.nodes.values.any (isNodeOf entity) = true
  · have hset : (store.upsertEntity entity g).1 =
        g.setNodes (setNode entity) (entityId_setNode entity) := by
      rw [upsertEntity, if_pos hany]
    rw [hset]
    refine ⟨rfl, Or.inl ⟨List.any_eq_true.mp hany, ?_⟩⟩
    exact PropertyGraph.values_setNodes _ _ g
  · have hnone : ∀ n ∈ g.nodes.values, ¬ isNodeOf entity n = true := by
      simpa using hany
    cases hcreate : g.createNode entity with
    | none =>
      rw [upsertEntity, if_neg hany, hcreate] at hok
      cases hok
    | some g' =>
      obtain ⟨hfresh, hnodes, hrelationships⟩ := PropertyGraph.createNode_eq_some hcreate
      have hwritten : (store.upsertEntity entity g).1 = g' := by
        rw [upsertEntity, if_neg hany, hcreate]
      rw [hwritten, hnodes]
      exact ⟨hrelationships, Or.inr ⟨hnone, hfresh, KeyedTable.values_put_of_notMem hfresh⟩⟩

theorem relationships_forEach {entities : List Entity} {g : EntityGraph}
    (hok : (Command.forEach store.upsertEntity entities g).2 = none) :
    (Command.forEach store.upsertEntity entities g).1.relationships = g.relationships := by
  refine (Command.forEach_view_of_none (fun g : EntityGraph => g.relationships)
    (f := fun relationships _ => relationships) (fun _ _ _ h => (upsertEntity_cases h).1)
    hok).trans ?_
  exact List.foldl_fixed entities

/-- Both endpoints are nodes. -/
def Joins (g : EntityGraph) (r : Relation) : Prop :=
  r.headId ∈ g.nodes.keys ∧ r.tailId ∈ g.nodes.keys

instance (g : EntityGraph) (r : Relation) : Decidable (Joins g r) :=
  inferInstanceAs (Decidable (_ ∧ _))

/-- Relations with fresh ids become relationships if their endpoints are there. -/
theorem foldl_upsertRelation {relations : List Relation} {g : EntityGraph}
    (hn : (relations.map (·.relationId)).Nodup)
    (hfresh : ∀ r ∈ relations, ∀ r' ∈ g.relationships, r'.relationId ≠ r.relationId) :
    (relations.foldl (fun g relation => upsertRelation relation g) g).nodes = g.nodes ∧
      (relations.foldl (fun g relation => upsertRelation relation g) g).relationships =
        g.relationships ++ relations.filter fun r => Joins g r := by
  induction relations using List.reverseRecOn with
  | nil => simp
  | append_singleton relations r ih =>
    rw [List.map_append, List.map_singleton, List.nodup_append] at hn
    obtain ⟨hnodes, hrelationships⟩ := ih hn.1 fun x hx => hfresh x (List.mem_append_left _ hx)
    rw [List.foldl_append, List.foldl_cons, List.foldl_nil, List.filter_append]
    generalize relations.foldl (fun g relation => upsertRelation relation g) g = g' at *
    have hnew : ¬ g'.relationships.any (isRelationshipOf r) = true := by
      intro hany
      obtain ⟨r', hr', hsame⟩ := List.any_eq_true.mp hany
      have hid : r'.relationId = r.relationId := (of_decide_eq_true hsame).2.2
      rw [hrelationships, List.mem_append] at hr'
      rcases hr' with hold | hbatch
      · exact hfresh r (by simp) r' hold hid
      · have hmem : r'.relationId ∈ relations.map (·.relationId) :=
          List.mem_map_of_mem (List.mem_of_mem_filter hbatch)
        exact hn.2.2 _ hmem _ (List.mem_singleton.mpr rfl) hid
    have hjoins : (r.headId ∈ g'.nodes.keys ∧ r.tailId ∈ g'.nodes.keys) ↔ Joins g r := by
      rw [hnodes]
      rfl
    rw [upsertRelation, if_neg hnew, PropertyGraph.relationships_createRelationship,
      if_congr hjoins rfl rfl, hrelationships]
    refine ⟨(PropertyGraph.nodes_createRelationship r g').trans hnodes, ?_⟩
    by_cases h : Joins g r
    · simp [h]
    · simp [h]

end Neo4jGraphStore

end Ragx
