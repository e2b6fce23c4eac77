import Mathlib.Data.Finset.Dedup
import Mathlib.Data.Finset.Lattice.Basic
import Mathlib.Data.List.Dedup
import Mathlib.Data.List.Sort
import Ragx.Commands
import Ragx.KeyedTable
import Ragx.Models
import Ragx.MultiDiGraph

/-!
# The graph store

Entities and relations stand in two dictionaries, and a multigraph repeats them as nodes
and edges. A batch is written one item at a time, and what was written stays when a later
item raises. Both dictionaries key a value by its own fields, which the tables carry.
-/
namespace Ragx

/-- `sorted(set(a) | set(b))`. -/
def sortedUnion (a b : List String) : List String := (a ++ b).dedup.insertionSort (· ≤ ·)

@[simp]
theorem mem_sortedUnion {a b : List String} {d : String} :
    d ∈ sortedUnion a b ↔ d ∈ a ∨ d ∈ b := by
  rw [sortedUnion, List.mem_insertionSort, List.mem_dedup, List.mem_append]

theorem toFinset_sortedUnion (a b : List String) :
    (sortedUnion a b).toFinset = a.toFinset ⊔ b.toFinset := by
  ext d
  simp

/-- `existing`, unless the other text is strictly longer. -/
def longerText (existing other : String) : String :=
  if existing.length < other.length then other else existing

theorem longerText_length (a b : String) :
    a.length ≤ (longerText a b).length ∧ b.length ≤ (longerText a b).length := by
  unfold longerText
  split_ifs with h
  · exact ⟨h.le, le_refl _⟩
  · exact ⟨le_refl _, not_lt.mp h⟩

theorem longerText_eq_or (a b : String) : longerText a b = a ∨ longerText a b = b := by
  unfold longerText
  split_ifs
  · exact Or.inr rfl
  · exact Or.inl rfl

def mergeEntity (stored : Option Entity) (entity : Entity) : Entity :=
  match stored with
  | none => entity
  | some existing =>
    { existing with
      sourceDocIds := sortedUnion existing.sourceDocIds entity.sourceDocIds
      confidence := max existing.confidence entity.confidence
      description := longerText existing.description entity.description
      vector :=
        if existing.vector.isEmpty && !entity.vector.isEmpty then entity.vector
        else existing.vector }

/-- The key of the relations dictionary. -/
def Relation.key (r : Relation) : String × String × String := (r.headId, r.tailId, r.type)

def mergeRelation (stored : Option Relation) (relation : Relation) : Relation :=
  match stored with
  | none => relation
  | some existing =>
    { existing with
      sourceDocIds := sortedUnion existing.sourceDocIds relation.sourceDocIds
      weight := max existing.weight relation.weight
      description := longerText existing.description relation.description }

theorem mergeEntity_keepsKey : KeyedTable.KeepsKey Entity.nameNorm mergeEntity := by
  intro stored entity h
  cases stored with
  | none => rfl
  | some existing => exact h existing rfl

theorem mergeRelation_keepsKey : KeyedTable.KeepsKey Relation.key mergeRelation := by
  intro stored relation h
  cases stored with
  | none => rfl
  | some existing => exact h existing rfl

/-! ## Reference counts -/

/-- The document list without the document; `none` when it named no other one. -/
def releaseDoc (docId : String) (docs : List String) : Option (List String) :=
  if docId ∈ docs then
    let rest := docs.filter (· ≠ docId)
    if rest.isEmpty then none else some rest
  else some docs

/-- The list names the document and no other one. -/
def OnlyDoc (docId : String) (docs : List String) : Prop := docId ∈ docs ∧ ∀ d ∈ docs, d = docId

instance (docId : String) (docs : List String) : Decidable (OnlyDoc docId docs) :=
  inferInstanceAs (Decidable (_ ∧ _))

theorem releaseDoc_of_mem {docId : String} {docs : List String} (h : docId ∈ docs) :
    releaseDoc docId docs =
      if (docs.filter (· ≠ docId)).isEmpty then none else some (docs.filter (· ≠ docId)) :=
  if_pos h

theorem releaseDoc_of_not_mem {docId : String} {docs : List String} (h : docId ∉ docs) :
    releaseDoc docId docs = some docs := if_neg h

theorem isEmpty_filter_ne {docId : String} {docs : List String} :
    (docs.filter (· ≠ docId)).isEmpty = true ↔ ∀ d ∈ docs, d = docId := by
  rw [List.isEmpty_iff, List.filter_eq_nil_iff]
  simp

theorem releaseDoc_eq_none {docId : String} {docs : List String} :
    releaseDoc docId docs = none ↔ OnlyDoc docId docs := by
  by_cases hmem : docId ∈ docs
  · rw [releaseDoc_of_mem hmem, OnlyDoc, ← isEmpty_filter_ne]
    simp [hmem]
  · rw [releaseDoc_of_not_mem hmem, OnlyDoc]
    simp [hmem]

/-- What is left of a document list is the list without the document. -/
theorem releaseDoc_eq_some {docId : String} {docs rest : List String}
    (h : releaseDoc docId docs = some rest) : rest = docs.filter (· ≠ docId) := by
  by_cases hmem : docId ∈ docs
  · rw [releaseDoc_of_mem hmem] at h
    split_ifs at h
    exact (Option.some.inj h).symm
  · rw [releaseDoc_of_not_mem hmem] at h
    refine (Option.some.inj h).symm.trans (List.filter_eq_self.mpr fun d hd => ?_).symm
    exact decide_eq_true fun he => hmem (he ▸ hd)

def Entity.release (docId : String) (e : Entity) : Option Entity :=
  (releaseDoc docId e.sourceDocIds).map fun docs => { e with sourceDocIds := docs }

/-- A relation also goes when one of its endpoints was removed. -/
def Relation.release (removedNodes : List String) (docId : String) (r : Relation) :
    Option Relation :=
  if r.headId ∈ removedNodes ∨ r.tailId ∈ removedNodes then none
  else (releaseDoc docId r.sourceDocIds).map fun docs => { r with sourceDocIds := docs }

theorem Entity.release_eq_some {docId : String} {e e' : Entity} :
    e.release docId = some e' ↔ ¬ OnlyDoc docId e.sourceDocIds ∧
      e' = { e with sourceDocIds := e.sourceDocIds.filter (· ≠ docId) } := by
  rw [Entity.release, Option.map_eq_some_iff, ← releaseDoc_eq_none]
  constructor
  · rintro ⟨docs, hdocs, rfl⟩
    exact ⟨by simp [hdocs], by rw [releaseDoc_eq_some hdocs]⟩
  · rintro ⟨hne, rfl⟩
    obtain ⟨docs, hdocs⟩ := Option.ne_none_iff_exists'.mp hne
    exact ⟨docs, hdocs, by rw [releaseDoc_eq_some hdocs]⟩

theorem Relation.release_eq_some {removed : List String} {docId : String} {r r' : Relation} :
    r.release removed docId = some r' ↔
      (r.headId ∉ removed ∧ r.tailId ∉ removed ∧ ¬ OnlyDoc docId r.sourceDocIds) ∧
        r' = { r with sourceDocIds := r.sourceDocIds.filter (· ≠ docId) } := by
  unfold Relation.release
  split_ifs with hends
  · refine iff_of_false nofun fun h => ?_
    exact hends.elim h.1.1 h.1.2.1
  · obtain ⟨hhead, htail⟩ := not_or.mp hends
    rw [Option.map_eq_some_iff, ← releaseDoc_eq_none]
    constructor
    · rintro ⟨docs, hdocs, rfl⟩
      exact ⟨⟨hhead, htail, by simp [hdocs]⟩, by rw [releaseDoc_eq_some hdocs]⟩
    · rintro ⟨⟨_, _, hne⟩, rfl⟩
      obtain ⟨docs, hdocs⟩ := Option.ne_none_iff_exists'.mp hne
      exact ⟨docs, hdocs, by rw [releaseDoc_eq_some hdocs]⟩

/-! ## The store -/

structure NetworkXGraphStore (G : Type) where
  kbId : String
  graph : G
  entities : KeyedTable Entity.nameNorm
  relations : KeyedTable Relation.key

/-- The store over the plain multigraph. -/
abbrev PlainGraphStore := NetworkXGraphStore (EdgeTable Entity Relation)

/-- Looking up a node that is not there. -/
def keyError (key : String) : Exc := .foreign s!"'{key}'"

namespace NetworkXGraphStore

variable {G : Type} [MultiDiGraph G Entity Relation]

open MultiDiGraph

/-- A store without persistence starts empty. -/
def fresh (kbId : String) : NetworkXGraphStore G where
  kbId := kbId
  graph := MultiDiGraph.empty
  entities := .empty
  relations := .empty

/-- An empty knowledge base id is accepted by every store. -/
def Accepts (s : NetworkXGraphStore G) (kbId : String) : Prop := kbId = "" ∨ kbId = s.kbId

instance (s : NetworkXGraphStore G) (kbId : String) : Decidable (s.Accepts kbId) :=
  inferInstanceAs (Decidable (_ ∨ _))

def otherKbError (s : NetworkXGraphStore G) (kbId : String) : Exc where
  cls := .pluginContract
  code := 9004
  message := "entity/relation belongs to a different knowledge base"
  details := [("expected", .str s.kbId), ("got", .str kbId)]

/-- The entry is written before the node is looked up under the new entity's id. -/
def upsertEntity (entity : Entity) : Command (NetworkXGraphStore G) Exc := fun s =>
  if s.Accepts entity.kbId then
    match s.entities.get? entity.nameNorm with
    | none =>
      ({ s with
          entities := s.entities.put entity
          graph := addNode s.graph entity.entityId entity }, none)
    | some existing =>
      let merged := mergeEntity (some existing) entity
      if HasNode s.graph entity.entityId then
        ({ s with
            entities := s.entities.put merged
            graph := addNode s.graph entity.entityId merged }, none)
      else ({ s with entities := s.entities.put merged }, some (keyError entity.entityId))
  else (s, some (s.otherKbError entity.kbId))

def upsertEntities (entities : List Entity) : Command (NetworkXGraphStore G) Exc :=
  .forEach upsertEntity entities

/-- A relation that is merged leaves the graph as it is. -/
def upsertRelation (relation : Relation) : Command (NetworkXGraphStore G) Exc := fun s =>
  if s.Accepts relation.kbId then
    match s.relations.get? relation.key with
    | none =>
      ({ s with
          relations := s.relations.put relation
          graph := addEdge s.graph relation.headId relation.tailId relation.relationId relation },
        none)
    | some existing =>
      ({ s with relations := s.relations.put (mergeRelation (some existing) relation) }, none)
  else (s, some (s.otherKbError relation.kbId))

def upsertRelations (relations : List Relation) : Command (NetworkXGraphStore G) Exc :=
  .forEach upsertRelation relations

/-- The entity ids whose reference count reaches zero. -/
def removedNodes (s : NetworkXGraphStore G) (docId : String) : List String :=
  ((s.entities.values.filter fun e => decide (OnlyDoc docId e.sourceDocIds)).map
    (·.entityId)).dedup

def deleteByDoc (docId : String) (s : NetworkXGraphStore G) : NetworkXGraphStore G where
  kbId := s.kbId
  graph := (s.removedNodes docId).foldl discardNode s.graph
  entities := s.entities.sweep (Entity.release docId)
  relations := s.relations.sweep (Relation.release (s.removedNodes docId) docId)

/-- Entities with a vector of the query's length, most similar first. -/
def matchEntities (cosine : List ℚ → List ℚ → ℚ) (s : NetworkXGraphStore G)
    (queryVector : List ℚ) (topK : ℤ) : List Entity :=
  let comparable := s.entities.values.filter fun e =>
    !e.vector.isEmpty && e.vector.length == queryVector.length
  let scored := comparable.map fun e => (cosine queryVector e.vector, e)
  ((scored.insertionSort fun a b => b.1 ≤ a.1).map Prod.snd).take (max topK 0).toNat

omit [MultiDiGraph G Entity Relation] in
theorem mem_matchEntities {cosine : List ℚ → List ℚ → ℚ} {s : NetworkXGraphStore G}
    {queryVector : List ℚ} {topK : ℤ} {e : Entity}
    (h : e ∈ s.matchEntities cosine queryVector topK) : e ∈ s.entities.values := by
  obtain ⟨scored, hsorted, rfl⟩ := List.mem_map.mp (List.mem_of_mem_take h)
  obtain ⟨e, he, rfl⟩ := List.mem_map.mp ((List.mem_insertionSort _).mp hsorted)
  exact List.mem_of_mem_filter he

omit [MultiDiGraph G Entity Relation] in
theorem mem_removedNodes {s : NetworkXGraphStore G} {docId n : String} :
    n ∈ s.removedNodes docId ↔
      ∃ e ∈ s.entities.values, OnlyDoc docId e.sourceDocIds ∧ e.entityId = n := by
  rw [removedNodes, List.mem_dedup, List.mem_map]
  constructor
  · rintro ⟨e, he, rfl⟩
    obtain ⟨hmem, honly⟩ := List.mem_filter.mp he
    exact ⟨e, hmem, of_decide_eq_true honly, rfl⟩
  · rintro ⟨e, hmem, honly, rfl⟩
    exact ⟨e, List.mem_filter.mpr ⟨hmem, decide_eq_true honly⟩, rfl⟩

/-! ## What one item does -/

/-- The four ways through the body of the loop: refused, new, merged, and merged without
a node to update. -/
theorem upsertEntity_cases (s : NetworkXGraphStore G) (entity : Entity) :
    (¬ s.Accepts entity.kbId ∧ upsertEntity entity s = (s, some (s.otherKbError entity.kbId))) ∨
    (s.Accepts entity.kbId ∧ s.entities.get? entity.nameNorm = none ∧
      upsertEntity entity s = ({ s with
        entities := s.entities.merge mergeEntity entity
        graph := addNode s.graph entity.entityId entity }, none)) ∨
    (s.Accepts entity.kbId ∧ (s.entities.get? entity.nameNorm).isSome = true ∧
      HasNode s.graph entity.entityId ∧ ∃ merged,
        upsertEntity entity s = ({ s with
          entities := s.entities.merge mergeEntity entity
          graph := addNode s.graph entity.entityId merged }, none)) ∨
    (s.Accepts entity.kbId ∧ (s.entities.get? entity.nameNorm).isSome = true ∧
      ¬ HasNode s.graph entity.entityId ∧
        upsertEntity entity s = ({ s with entities := s.entities.merge mergeEntity entity },
          some (keyError entity.entityId))) := by
  by_cases hkb : s.Accepts entity.kbId
  · refine Or.inr ?_
    cases hget : s.entities.get? entity.nameNorm with
    | none =>
      refine Or.inl ⟨hkb, rfl, ?_⟩
      simp only [upsertEntity, if_pos hkb, KeyedTable.merge, hget]
      rfl
    | some existing =>
      refine Or.inr ?_
      by_cases hnode : HasNode s.graph entity.entityId
      · refine Or.inl ⟨hkb, rfl, hnode, mergeEntity (some existing) entity, ?_⟩
        simp only [upsertEntity, if_pos hkb, KeyedTable.merge, hget, if_pos hnode]
      · refine Or.inr ⟨hkb, rfl, hnode, ?_⟩
        simp only [upsertEntity, if_pos hkb, KeyedTable.merge, hget, if_neg hnode]
  · exact Or.inl ⟨hkb, if_neg hkb⟩

theorem upsertEntity_raised_eq_none {s : NetworkXGraphStore G} {entity : Entity} :
    (upsertEntity entity s).2 = none ↔ s.Accepts entity.kbId ∧
      ((s.entities.get? entity.nameNorm).isSome = true → HasNode s.graph entity.entityId) := by
  rcases upsertEntity_cases s entity with ⟨hkb, h⟩ | ⟨hkb, hget, h⟩ | ⟨hkb, hget, hnode, _, h⟩ |
    ⟨hkb, hget, hnode, h⟩
  · simp [h, hkb]
  · simp [h, hkb, hget]
  · simp [h, hkb, hnode]
  · simp [h, hget, hnode]

/-- The entry is merged whether or not the call goes on to raise. -/
theorem entities_upsertEntity {s : NetworkXGraphStore G} {entity : Entity}
    (hkb : s.Accepts entity.kbId) :
    (upsertEntity entity s).1.entities = s.entities.merge mergeEntity entity := by
  rcases upsertEntity_cases s entity with ⟨hno, _⟩ | ⟨_, _, h⟩ | ⟨_, _, _, _, h⟩ | ⟨_, _, _, h⟩
  · exact absurd hkb hno
  · rw [h]
  · rw [h]
  · rw [h]

@[simp]
theorem kbId_upsertEntity (s : NetworkXGraphStore G) (entity : Entity) :
    (upsertEntity entity s).1.kbId = s.kbId := by
  rcases upsertEntity_cases s entity with ⟨_, h⟩ | ⟨_, _, h⟩ | ⟨_, _, _, _, h⟩ | ⟨_, _, _, h⟩ <;>
    rw [h]

@[simp]
theorem relations_upsertEntity (s : NetworkXGraphStore G) (entity : Entity) :
    (upsertEntity entity s).1.relations = s.relations := by
  rcases upsertEntity_cases s entity with ⟨_, h⟩ | ⟨_, _, h⟩ | ⟨_, _, _, _, h⟩ | ⟨_, _, _, h⟩ <;>
    rw [h]

/-- Only the first entity with its name brings a node. -/
theorem hasNode_upsertEntity {s : NetworkXGraphStore G} {entity : Entity} {n : String}
    (hok : (upsertEntity entity s).2 = none) :
    HasNode (upsertEntity entity s).1.graph n ↔
      HasNode s.graph n ∨ s.entities.get? entity.nameNorm = none ∧ n = entity.entityId := by
  rcases upsertEntity_cases s entity with ⟨_, h⟩ | ⟨_, hget, h⟩ | ⟨_, hget, hnode, _, h⟩ |
    ⟨_, _, _, h⟩
  · rw [h] at hok
    cases hok
  · rw [h, hasNode_addNode, hget]
    simp [or_comm]
  · rw [h, hasNode_addNode]
    constructor
    · rintro (rfl | hn)
      · exact Or.inl hnode
      · exact Or.inl hn
    · rintro (hn | ⟨hnone, _⟩)
      · exact Or.inr hn
      · rw [hnone] at hget
        cases hget
  · rw [h] at hok
    cases hok

@[simp]
theorem edge?_upsertEntity (s : NetworkXGraphStore G) (entity : Entity) (u v k : String) :
    edge? (upsertEntity entity s).1.graph u v k = edge? s.graph u v k := by
  rcases upsertEntity_cases s entity with ⟨_, h⟩ | ⟨_, _, h⟩ | ⟨_, _, _, _, h⟩ | ⟨_, _, _, h⟩
  · rw [h]
  · rw [h, edge?_addNode]
  · rw [h, edge?_addNode]
  · rw [h]

/-- A relation is refused, new or merged. -/
theorem upsertRelation_cases (s : NetworkXGraphStore G) (relation : Relation) :
    (¬ s.Accepts relation.kbId ∧
      upsertRelation relation s = (s, some (s.otherKbError relation.kbId))) ∨
    (s.Accepts relation.kbId ∧ s.relations.get? relation.key = none ∧
      upsertRelation relation s = ({ s with
        relations := s.relations.merge mergeRelation relation
        graph := addEdge s.graph relation.headId relation.tailId relation.relationId relation },
          none)) ∨
    (s.Accepts relation.kbId ∧ (s.relations.get? relation.key).isSome = true ∧
      upsertRelation relation s =
        ({ s with relations := s.relations.merge mergeRelation relation }, none)) := by
  by_cases hkb : s.Accepts relation.kbId
  · refine Or.inr ?_
    cases hget : s.relations.get? relation.key with
    | none =>
      refine Or.inl ⟨hkb, rfl, ?_⟩
      simp only [upsertRelation, if_pos hkb, KeyedTable.merge, hget]
      rfl
    | some existing =>
      refine Or.inr ⟨hkb, rfl, ?_⟩
      simp only [upsertRelation, if_pos hkb, KeyedTable.merge, hget]
  · exact Or.inl ⟨hkb, if_neg hkb⟩

theorem upsertRelation_raised_eq_none {s : NetworkXGraphStore G} {relation : Relation} :
    (upsertRelation relation s).2 = none ↔ s.Accepts relation.kbId := by
  rcases upsertRelation_cases s relation with ⟨hkb, h⟩ | ⟨hkb, _, h⟩ | ⟨hkb, _, h⟩
  · simp [h, hkb]
  · simp [h, hkb]
  · simp [h, hkb]

theorem relations_upsertRelation {s : NetworkXGraphStore G} {relation : Relation}
    (hkb : s.Accepts relation.kbId) :
    (upsertRelation relation s).1.relations = s.relations.merge mergeRelation relation := by
  rcases upsertRelation_cases s relation with ⟨hno, _⟩ | ⟨_, _, h⟩ | ⟨_, _, h⟩
  · exact absurd hkb hno
  · rw [h]
  · rw [h]

@[simp]
theorem kbId_upsertRelation (s : NetworkXGraphStore G) (relation : Relation) :
    (upsertRelation relation s).1.kbId = s.kbId := by
  rcases upsertRelation_cases s relation with ⟨_, h⟩ | ⟨_, _, h⟩ | ⟨_, _, h⟩ <;> rw [h]

@[simp]
theorem entities_upsertRelation (s : NetworkXGraphStore G) (relation : Relation) :
    (upsertRelation relation s).1.entities = s.entities := by
  rcases upsertRelation_cases s relation with ⟨_, h⟩ | ⟨_, _, h⟩ | ⟨_, _, h⟩ <;> rw [h]

end NetworkXGraphStore

end Ragx
