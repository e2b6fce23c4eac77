import Mathlib.Data.Finset.Basic
import Ragx.GraphDeletion
import Ragx.Neo4jGraphStore

/-!
# What a graph holds

The contents of a graph leave out how a store keeps them: the order of entities and relations,
the order of their source documents, names and vectors, and the ids of relations. Each
operation of either store is an operation on contents.
-/
namespace Ragx

structure EntityContent where
  nameNorm : String
  type : String
  description : String
  confidence : ℚ
  sourceDocs : Finset String
deriving DecidableEq

structure RelationContent where
  headId : String
  tailId : String
  type : String
  weight : ℚ
  description : String
  sourceDocs : Finset String
deriving DecidableEq

def Entity.content (e : Entity) : EntityContent where
  nameNorm := e.nameNorm
  type := e.type
  description := e.description
  confidence := e.confidence
  sourceDocs := e.sourceDocIds.toFinset

def Relation.content (r : Relation) : RelationContent where
  headId := r.headId
  tailId := r.tailId
  type := r.type
  weight := r.weight
  description := r.description
  sourceDocs := r.sourceDocIds.toFinset

/-- An entity with the ids that it is found by. -/
structure EntityRecord where
  entityId : String
  kbId : String
  content : EntityContent

def Entity.record (e : Entity) : EntityRecord where
  entityId := e.entityId
  kbId := e.kbId
  content := e.content

/-! ## Merging -/

theorem toFinset_firstSeen_append (a b : List String) :
    (firstSeen (a ++ b)).toFinset = a.toFinset ∪ b.toFinset := by
  ext d
  simp [mem_firstSeen]

def EntityContent.merge (entity : Entity) (c : EntityContent) : EntityContent :=
  { c with
    description := longerText c.description entity.description
    confidence := max c.confidence entity.confidence
    sourceDocs := c.sourceDocs ∪ entity.sourceDocIds.toFinset }

/-- What a merge by name does to a stored entity. -/
def EntityRecord.mergeByName (entity : Entity) (x : EntityRecord) : EntityRecord :=
  if x.content.nameNorm = entity.nameNorm then { x with content := x.content.merge entity } else x

theorem record_mergeEntity (e entity : Entity) :
    (if e.nameNorm = entity.nameNorm then mergeEntity (some e) entity else e).record =
      e.record.mergeByName entity := by
  unfold EntityRecord.mergeByName
  by_cases h : e.nameNorm = entity.nameNorm
  · have h' : e.record.content.nameNorm = entity.nameNorm := h
    have hdocs : (sortedUnion e.sourceDocIds entity.sourceDocIds).toFinset =
        e.sourceDocIds.toFinset ∪ entity.sourceDocIds.toFinset := toFinset_sortedUnion _ _
    rw [if_pos h, if_pos h']
    simp only [mergeEntity, Entity.record, Entity.content, EntityContent.merge, hdocs]
  · have h' : ¬ e.record.content.nameNorm = entity.nameNorm := h
    rw [if_neg h, if_neg h']

theorem record_mergeNode (e entity : Entity) :
    (mergeNode e entity).record = { e.record with content := e.content.merge entity } := by
  simp only [mergeNode, Entity.record, Entity.content, EntityContent.merge,
    toFinset_firstSeen_append, max_def_lt]

/-! ## Releasing -/

theorem toFinset_filter_ne (docId : String) (docs : List String) :
    (docs.filter (· ≠ docId)).toFinset = docs.toFinset.erase docId := by
  ext d
  simp [and_comm]

theorem filter_ne_eq_nil_iff {docId : String} {docs : List String} :
    docs.filter (· ≠ docId) = [] ↔ docs.toFinset.erase docId = ∅ := by
  rw [← toFinset_filter_ne, List.toFinset_eq_empty_iff]

/-- A list that names something names nothing else exactly when the rest of it is empty. -/
theorem onlyDoc_iff_erase {docId : String} {docs : List String} (h : docs ≠ []) :
    OnlyDoc docId docs ↔ docs.toFinset.erase docId = ∅ := by
  rw [← filter_ne_eq_nil_iff, ← List.isEmpty_iff, isEmpty_filter_ne, OnlyDoc]
  refine and_iff_right_of_imp fun hall => ?_
  obtain ⟨d, hd⟩ := List.exists_mem_of_ne_nil docs h
  exact hall d hd ▸ hd

def EntityRecord.release (docId : String) (x : EntityRecord) : Option EntityRecord :=
  if x.content.sourceDocs.erase docId = ∅ then none
  else some { x with
    content := { x.content with sourceDocs := x.content.sourceDocs.erase docId } }

/-- The ids of the entities that a release drops. -/
def goneIds (docId : String) (xs : List EntityRecord) : Finset String :=
  ((xs.filter fun x => x.content.sourceDocs.erase docId = ∅).map (·.entityId)).toFinset

theorem mem_goneIds {docId : String} {xs : List EntityRecord} {k : String} :
    k ∈ goneIds docId xs ↔
      ∃ x ∈ xs, x.content.sourceDocs.erase docId = ∅ ∧ x.entityId = k := by
  simp [goneIds, and_assoc]

theorem goneIds_congr {docId : String} {xs ys : List EntityRecord} (h : xs.Perm ys) :
    goneIds docId xs = goneIds docId ys := by
  ext k
  simp only [mem_goneIds, h.mem_iff]

/-- A relation also goes with an endpoint. -/
def RelationContent.release (gone : Finset String) (docId : String) (c : RelationContent) :
    Option RelationContent :=
  if c.headId ∈ gone ∨ c.tailId ∈ gone ∨ c.sourceDocs.erase docId = ∅ then none
  else some { c with sourceDocs := c.sourceDocs.erase docId }

/-- What stays has a source document. -/
theorem EntityRecord.sourceDocs_of_release {docId : String} {x y : EntityRecord}
    (h : x.release docId = some y) : y.content.sourceDocs ≠ ∅ := by
  unfold EntityRecord.release at h
  split_ifs at h with herase
  cases h
  exact herase

theorem RelationContent.sourceDocs_of_release {gone : Finset String} {docId : String}
    {c c' : RelationContent} (h : c.release gone docId = some c') : c'.sourceDocs ≠ ∅ := by
  unfold RelationContent.release at h
  split_ifs at h with hgone
  cases h
  exact fun herase => hgone (Or.inr (Or.inr herase))

theorem record_release {docId : String} {e : Entity} (h : e.sourceDocIds ≠ []) :
    (e.release docId).map Entity.record = e.record.release docId := by
  by_cases honly : OnlyDoc docId e.sourceDocIds
  · have hnone : e.release docId = none := by
      rw [Entity.release, releaseDoc_eq_none.mpr honly]
      rfl
    have herase : e.record.content.sourceDocs.erase docId = ∅ := (onlyDoc_iff_erase h).mp honly
    rw [hnone, EntityRecord.release, if_pos herase]
    rfl
  · have herase : ¬ e.record.content.sourceDocs.erase docId = ∅ := fun he =>
      honly ((onlyDoc_iff_erase h).mpr he)
    rw [Entity.release_eq_some.mpr ⟨honly, rfl⟩, EntityRecord.release, if_neg herase]
    simp only [Option.map_some, Entity.record, Entity.content, toFinset_filter_ne]

theorem record_unlist (docId : String) (e : Entity) :
    (if (e.unlist docId).sourceDocIds.isEmpty then none else some (e.unlist docId).record) =
      e.record.release docId := by
  have hdocs := Entity.sourceDocIds_unlist docId e
  have hrecord : (e.unlist docId).record = { e.record with
      content := { e.content with sourceDocs := e.content.sourceDocs.erase docId } } := by
    have hrest : (e.unlist docId).sourceDocIds.toFinset = e.sourceDocIds.toFinset.erase docId := by
      rw [hdocs, toFinset_filter_ne]
    simp only [Entity.record, Entity.content, hrest]
    unfold Entity.unlist
    split_ifs <;> rfl
  have hempty : (e.unlist docId).sourceDocIds.isEmpty = true ↔
      e.record.content.sourceDocs.erase docId = ∅ := by
    rw [hdocs, List.isEmpty_iff]
    exact filter_ne_eq_nil_iff
  rw [hrecord, EntityRecord.release]
  exact if_congr hempty rfl rfl

theorem content_release {removed : List String} {docId : String} {r : Relation}
    (h : r.sourceDocIds = [] → r.headId ∈ removed ∨ r.tailId ∈ removed) :
    (r.release removed docId).map Relation.content =
      r.content.release removed.toFinset docId := by
  by_cases hends : r.headId ∈ removed ∨ r.tailId ∈ removed
  · have hgone : r.content.headId ∈ removed.toFinset ∨ r.content.tailId ∈ removed.toFinset ∨
        r.content.sourceDocs.erase docId = ∅ := by
      rw [List.mem_toFinset, List.mem_toFinset]
      exact hends.imp_right Or.inl
    rw [Relation.release, if_pos hends, RelationContent.release, if_pos hgone]
    rfl
  · have hne : r.sourceDocIds ≠ [] := fun hnil => hends (h hnil)
    obtain ⟨hhead, htail⟩ := not_or.mp hends
    by_cases honly : OnlyDoc docId r.sourceDocIds
    · have hgone : r.content.headId ∈ removed.toFinset ∨ r.content.tailId ∈ removed.toFinset ∨
          r.content.sourceDocs.erase docId = ∅ :=
        Or.inr (Or.inr ((onlyDoc_iff_erase hne).mp honly))
      rw [Relation.release, if_neg hends, releaseDoc_eq_none.mpr honly,
        RelationContent.release, if_pos hgone]
      rfl
    · have hstays : ¬ (r.content.headId ∈ removed.toFinset ∨
          r.content.tailId ∈ removed.toFinset ∨ r.content.sourceDocs.erase docId = ∅) := by
        rw [List.mem_toFinset, List.mem_toFinset]
        rintro (hin | hin | herase)
        · exact hhead hin
        · exact htail hin
        · exact honly ((onlyDoc_iff_erase hne).mpr herase)
      rw [Relation.release_eq_some.mpr ⟨⟨hhead, htail, honly⟩, rfl⟩, RelationContent.release,
        if_neg hstays]
      simp only [Option.map_some, Relation.content, toFinset_filter_ne]

theorem content_unlist (docId : String) (r : Relation) :
    (r.unlist docId).content =
      { r.content with sourceDocs := r.content.sourceDocs.erase docId } := by
  have hrest : (r.unlist docId).sourceDocIds.toFinset = r.sourceDocIds.toFinset.erase docId := by
    rw [Relation.sourceDocIds_unlist, toFinset_filter_ne]
  simp only [Relation.content, hrest]
  unfold Relation.unlist
  split_ifs <;> rfl

/-! ## Deleting a document -/

namespace NetworkXGraphStore

variable {G : Type} [MultiDiGraph G Entity Relation] {s : NetworkXGraphStore G} {docId : String}

omit [MultiDiGraph G Entity Relation] in
theorem removedNodes_eq_goneIds (h : ∀ e ∈ s.entities.values, e.sourceDocIds ≠ []) :
    (s.removedNodes docId).toFinset = goneIds docId (s.entities.values.map Entity.record) := by
  ext k
  rw [List.mem_toFinset, mem_removedNodes, mem_goneIds]
  constructor
  · rintro ⟨e, he, honly, rfl⟩
    exact ⟨e.record, List.mem_map_of_mem he, (onlyDoc_iff_erase (h e he)).mp honly, rfl⟩
  · rintro ⟨x, hx, herase, rfl⟩
    obtain ⟨e, he, rfl⟩ := List.mem_map.mp hx
    exact ⟨e, he, (onlyDoc_iff_erase (h e he)).mpr herase, rfl⟩

theorem records_deleteByDoc (h : ∀ e ∈ s.entities.values, e.sourceDocIds ≠ []) :
    ((s.deleteByDoc docId).entities.values.map Entity.record).Perm
      ((s.entities.values.map Entity.record).filterMap (EntityRecord.release docId)) := by
  have hswept := KeyedTable.values_sweep_perm (release_keepsKey docId) s.entities
  refine (hswept.map Entity.record).trans (List.Perm.of_eq ?_)
  rw [List.map_filterMap, List.filterMap_map]
  exact List.filterMap_congr fun e he => record_release (h e he)

theorem contents_deleteByDoc
    (h : ∀ r ∈ s.relations.values, r.sourceDocIds = [] →
      r.headId ∈ s.removedNodes docId ∨ r.tailId ∈ s.removedNodes docId) :
    ((s.deleteByDoc docId).relations.values.map Relation.content).Perm
      ((s.relations.values.map Relation.content).filterMap
        (RelationContent.release (s.removedNodes docId).toFinset docId)) := by
  have hswept := KeyedTable.values_sweep_perm
    (relation_release_keepsKey (s.removedNodes docId) docId) s.relations
  refine (hswept.map Relation.content).trans (List.Perm.of_eq ?_)
  rw [List.map_filterMap, List.filterMap_map]
  exact List.filterMap_congr fun r hr => content_release (h r hr)

end NetworkXGraphStore

namespace Neo4jGraphStore

theorem records_deleteByDoc (docId : String) (g : EntityGraph) :
    ((deleteByDoc docId g).nodes.values.map Entity.record).Perm
      ((g.nodes.values.map Entity.record).filterMap (EntityRecord.release docId)) := by
  have hkept := (PropertyGraph.values_detachDelete
    (fun e : Entity => e.sourceDocIds.isEmpty) _).trans
    ((PropertyGraph.values_setNodes (Entity.unlist docId) (Entity.entityId_unlist docId) g).filter
      fun e => !e.sourceDocIds.isEmpty)
  refine (hkept.map Entity.record).trans (List.Perm.of_eq ?_)
  generalize g.nodes.values = nodes
  induction nodes with
  | nil => rfl
  | cons e nodes ih =>
    have hone := record_unlist docId e
    rw [List.map_cons, List.map_cons, List.filterMap_cons, ← hone, ← ih, List.filter_cons]
    by_cases hempty : (e.unlist docId).sourceDocIds.isEmpty = true
    · simp [hempty]
    · simp [hempty]

theorem matches_unlist_iff {docId : String} {g : EntityGraph} {k : String} :
    (g.setNodes (Entity.unlist docId) (Entity.entityId_unlist docId)).Matches
        (fun e => e.sourceDocIds.isEmpty) k ↔
      k ∈ goneIds docId (g.nodes.values.map Entity.record) := by
  have hempty (e : Entity) : (e.unlist docId).sourceDocIds.isEmpty = true ↔
      e.record.content.sourceDocs.erase docId = ∅ := by
    rw [Entity.sourceDocIds_unlist, List.isEmpty_iff]
    exact filter_ne_eq_nil_iff
  rw [PropertyGraph.matches_setNodes, PropertyGraph.matches_iff, mem_goneIds]
  constructor
  · rintro ⟨e, he, rfl, hnone⟩
    exact ⟨e.record, List.mem_map_of_mem he, (hempty e).mp hnone, rfl⟩
  · rintro ⟨x, hx, herase, rfl⟩
    obtain ⟨e, he, rfl⟩ := List.mem_map.mp hx
    exact ⟨e, he, rfl, (hempty e).mpr herase⟩

theorem contents_deleteByDoc (docId : String) (g : EntityGraph) :
    (deleteByDoc docId g).relationships.map Relation.content =
      (g.relationships.map Relation.content).filterMap
        (RelationContent.release (goneIds docId (g.nodes.values.map Entity.record)) docId) := by
  show (((g.relationships.filter fun r =>
      ¬ (g.setNodes _ _).Matches (fun e => e.sourceDocIds.isEmpty) r.headId ∧
        ¬ (g.setNodes _ _).Matches (fun e => e.sourceDocIds.isEmpty) r.tailId).map
      (Relation.unlist docId)).filter fun r => !r.sourceDocIds.isEmpty).map Relation.content = _
  simp only [matches_unlist_iff]
  generalize goneIds docId (g.nodes.values.map Entity.record) = gone
  induction g.relationships with
  | nil => rfl
  | cons r relationships ih =>
    have hempty : (r.unlist docId).sourceDocIds.isEmpty = true ↔
        r.content.sourceDocs.erase docId = ∅ := by
      rw [Relation.sourceDocIds_unlist, List.isEmpty_iff]
      exact filter_ne_eq_nil_iff
    rw [List.map_cons, List.filterMap_cons, ← ih, List.filter_cons, RelationContent.release]
    by_cases hends : r.headId ∉ gone ∧ r.tailId ∉ gone
    · obtain ⟨hhead, htail⟩ := hends
      have hhead' : r.content.headId ∉ gone := hhead
      have htail' : r.content.tailId ∉ gone := htail
      by_cases herase : r.content.sourceDocs.erase docId = ∅
      · simp [hhead, htail, herase, hempty.mpr herase]
      · have hkept : (r.unlist docId).sourceDocIds.isEmpty = false := by
          simpa using fun he => herase (hempty.mp (List.isEmpty_iff.mpr he))
        simp [hhead, htail, hhead', htail', herase, hkept, content_unlist]
    · have hgone : r.content.headId ∈ gone ∨ r.content.tailId ∈ gone ∨
          r.content.sourceDocs.erase docId = ∅ := by
        by_contra hnot
        rw [not_or, not_or] at hnot
        exact hends ⟨hnot.1, hnot.2.1⟩
      rw [if_pos hgone]
      simp [hends]

end Neo4jGraphStore

end Ragx
