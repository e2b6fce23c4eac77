import Ragx.NetworkXGraphStore

/-!
# Deleting a document from the graph

Every entity and every relation counts the documents that name it. Deleting a document takes
it off all these lists; what no document names any more goes, and a removed entity takes the
relations at its node with it, whatever documents name them.
-/
namespace Ragx

namespace NetworkXGraphStore

/-- Another document holds on to it, or the document never did. -/
def HeldWithout (docId : String) (docs : List String) : Prop :=
  docId ∉ docs ∨ ∃ d ∈ docs, d ≠ docId

theorem not_onlyDoc_iff {docId : String} {docs : List String} :
    ¬ OnlyDoc docId docs ↔ HeldWithout docId docs := by
  unfold OnlyDoc HeldWithout
  push Not
  rw [imp_iff_not_or]

variable {G : Type} [MultiDiGraph G Entity Relation]

/-- The entity is still stored, under its name and with its id. -/
def HasEntity (s : NetworkXGraphStore G) (e : Entity) : Prop :=
  ∃ e' ∈ s.entities.values, e'.nameNorm = e.nameNorm ∧ e'.entityId = e.entityId

/-- A relation with the same endpoints and the same type is stored. -/
def HasRelation (s : NetworkXGraphStore G) (r : Relation) : Prop :=
  ∃ r' ∈ s.relations.values, r'.key = r.key

/-- What the deletion of a document promises of the store before and after it. -/
structure DocDeleted (docId : String) (s s' : NetworkXGraphStore G) : Prop where
  entity_unlisted : ∀ e ∈ s'.entities.values, docId ∉ e.sourceDocIds
  relation_unlisted : ∀ r ∈ s'.relations.values, docId ∉ r.sourceDocIds
  entity_survives : ∀ e ∈ s.entities.values,
    s'.HasEntity e ↔ HeldWithout docId e.sourceDocIds
  relation_survives : ∀ r ∈ s.relations.values,
    s'.HasRelation r ↔
      (∀ e ∈ s.entities.values, e.entityId = r.headId ∨ e.entityId = r.tailId → s'.HasEntity e) ∧
        HeldWithout docId r.sourceDocIds
  entity_unchanged : ∀ e' ∈ s'.entities.values, ∃ e ∈ s.entities.values,
    e' = { e with sourceDocIds := e.sourceDocIds.filter (· ≠ docId) }
  relation_unchanged : ∀ r' ∈ s'.relations.values, ∃ r ∈ s.relations.values,
    r' = { r with sourceDocIds := r.sourceDocIds.filter (· ≠ docId) }

theorem release_keepsKey (docId : String) (e : Entity) :
    ∀ e' ∈ e.release docId, e'.nameNorm = e.nameNorm := by
  intro e' he'
  rw [(Entity.release_eq_some.mp he').2]

theorem relation_release_keepsKey (removed : List String) (docId : String) (r : Relation) :
    ∀ r' ∈ r.release removed docId, r'.key = r.key := by
  intro r' hr'
  rw [(Relation.release_eq_some.mp hr').2]
  rfl

theorem not_mem_filter_ne (docId : String) (docs : List String) :
    docId ∉ docs.filter (· ≠ docId) := by
  rw [List.mem_filter]
  exact fun h => of_decide_eq_true h.2 rfl

/-- The entities afterwards are the released ones of those held by another document. -/
theorem mem_entities_deleteByDoc {s : NetworkXGraphStore G} {docId : String} {e' : Entity} :
    e' ∈ (s.deleteByDoc docId).entities.values ↔
      ∃ e ∈ s.entities.values, HeldWithout docId e.sourceDocIds ∧
        e' = { e with sourceDocIds := e.sourceDocIds.filter (· ≠ docId) } := by
  refine (KeyedTable.mem_values_sweep (release_keepsKey docId)).trans ?_
  simp only [Entity.release_eq_some, not_onlyDoc_iff]

theorem mem_relations_deleteByDoc {s : NetworkXGraphStore G} {docId : String} {r' : Relation} :
    r' ∈ (s.deleteByDoc docId).relations.values ↔
      ∃ r ∈ s.relations.values, (r.headId ∉ s.removedNodes docId ∧
        r.tailId ∉ s.removedNodes docId ∧ HeldWithout docId r.sourceDocIds) ∧
        r' = { r with sourceDocIds := r.sourceDocIds.filter (· ≠ docId) } := by
  refine (KeyedTable.mem_values_sweep
    (relation_release_keepsKey (s.removedNodes docId) docId)).trans ?_
  simp only [Relation.release_eq_some, not_onlyDoc_iff]

theorem hasEntity_deleteByDoc {s : NetworkXGraphStore G} {docId : String} {e : Entity}
    (he : e ∈ s.entities.values) :
    (s.deleteByDoc docId).HasEntity e ↔ HeldWithout docId e.sourceDocIds := by
  constructor
  · rintro ⟨e', he', hname, _⟩
    obtain ⟨e₀, he₀, hheld, rfl⟩ := mem_entities_deleteByDoc.mp he'
    have hsame : e₀ = e := KeyedTable.eq_of_mem_values he₀ he hname
    exact hsame ▸ hheld
  · intro hheld
    exact ⟨_, mem_entities_deleteByDoc.mpr ⟨e, he, hheld, rfl⟩, rfl, rfl⟩

theorem hasRelation_deleteByDoc {s : NetworkXGraphStore G} {docId : String} {r : Relation}
    (hr : r ∈ s.relations.values) :
    (s.deleteByDoc docId).HasRelation r ↔
      r.headId ∉ s.removedNodes docId ∧ r.tailId ∉ s.removedNodes docId ∧
        HeldWithout docId r.sourceDocIds := by
  constructor
  · rintro ⟨r', hr', hkey⟩
    obtain ⟨r₀, hr₀, hheld, rfl⟩ := mem_relations_deleteByDoc.mp hr'
    have hsame : r₀ = r := KeyedTable.eq_of_mem_values hr₀ hr hkey
    exact hsame ▸ hheld
  · intro hheld
    exact ⟨_, mem_relations_deleteByDoc.mpr ⟨r, hr, hheld, rfl⟩, rfl⟩

/-- A node is removed exactly when some entity with this id does not survive. -/
theorem not_mem_removedNodes_iff {s : NetworkXGraphStore G} {docId n : String} :
    n ∉ s.removedNodes docId ↔
      ∀ e ∈ s.entities.values, e.entityId = n → (s.deleteByDoc docId).HasEntity e := by
  rw [mem_removedNodes]
  constructor
  · intro h e he hid
    refine (hasEntity_deleteByDoc he).mpr (not_onlyDoc_iff.mp fun honly => h ?_)
    exact ⟨e, he, honly, hid⟩
  · rintro h ⟨e, he, honly, hid⟩
    exact not_onlyDoc_iff.mpr ((hasEntity_deleteByDoc he).mp (h e he hid)) honly

theorem deleteByDoc_spec (s : NetworkXGraphStore G) (docId : String) :
    DocDeleted docId s (s.deleteByDoc docId) where
  entity_unlisted := by
    intro e' he'
    obtain ⟨e, _, _, rfl⟩ := mem_entities_deleteByDoc.mp he'
    exact not_mem_filter_ne docId e.sourceDocIds
  relation_unlisted := by
    intro r' hr'
    obtain ⟨r, _, _, rfl⟩ := mem_relations_deleteByDoc.mp hr'
    exact not_mem_filter_ne docId r.sourceDocIds
  entity_survives := fun _ he => hasEntity_deleteByDoc he
  relation_survives := by
    intro r hr
    rw [hasRelation_deleteByDoc hr, not_mem_removedNodes_iff, not_mem_removedNodes_iff, ← and_assoc]
    refine and_congr_left fun _ => ?_
    constructor
    · rintro ⟨hhead, htail⟩ e he (hid | hid)
      · exact hhead e he hid
      · exact htail e he hid
    · exact fun h => ⟨fun e he hid => h e he (Or.inl hid), fun e he hid => h e he (Or.inr hid)⟩
  entity_unchanged := by
    intro e' he'
    obtain ⟨e, he, _, h⟩ := mem_entities_deleteByDoc.mp he'
    exact ⟨e, he, h⟩
  relation_unchanged := by
    intro r' hr'
    obtain ⟨r, hr, _, h⟩ := mem_relations_deleteByDoc.mp hr'
    exact ⟨r, hr, h⟩

/-- A document that nothing lists is deleted without any effect, on the graph either. -/
theorem deleteByDoc_of_unlisted {s : NetworkXGraphStore G} {docId : String}
    (hentities : ∀ e ∈ s.entities.values, docId ∉ e.sourceDocIds)
    (hrelations : ∀ r ∈ s.relations.values, docId ∉ r.sourceDocIds) :
    s.deleteByDoc docId = s := by
  have hremoved : s.removedNodes docId = [] := by
    refine List.eq_nil_iff_forall_not_mem.mpr fun n hn => ?_
    obtain ⟨e, he, honly, _⟩ := mem_removedNodes.mp hn
    exact hentities e he honly.1
  have hE : s.entities.sweep (Entity.release docId) = s.entities := by
    refine KeyedTable.sweep_eq_self fun e he => ?_
    rw [Entity.release, releaseDoc_of_not_mem (hentities e he)]
    rfl
  have hR : s.relations.sweep (Relation.release [] docId) = s.relations := by
    refine KeyedTable.sweep_eq_self fun r hr => ?_
    rw [Relation.release, releaseDoc_of_not_mem (hrelations r hr)]
    simp
  rw [deleteByDoc, hremoved, hE, hR]
  rfl

/-- Nothing in the store lists the document. -/
def Unlisted (docId : String) (s : NetworkXGraphStore G) : Prop :=
  (∀ e ∈ s.entities.values, docId ∉ e.sourceDocIds) ∧
    ∀ r ∈ s.relations.values, docId ∉ r.sourceDocIds

theorem unlisted_deleteByDoc (s : NetworkXGraphStore G) (docId : String) :
    (s.deleteByDoc docId).Unlisted docId :=
  ⟨(deleteByDoc_spec s docId).entity_unlisted, (deleteByDoc_spec s docId).relation_unlisted⟩

theorem deleteByDoc_eq_self_iff {s : NetworkXGraphStore G} {docId : String} :
    s.deleteByDoc docId = s ↔ s.Unlisted docId := by
  constructor
  · intro h
    rw [← h]
    exact unlisted_deleteByDoc s docId
  · exact fun h => deleteByDoc_of_unlisted h.1 h.2

/-- Reference-counted deletion is exact, and deleting again changes nothing. -/
theorem deleteByDoc_exact (s : NetworkXGraphStore G) (docId : String) :
    DocDeleted docId s (s.deleteByDoc docId) ∧
      (s.deleteByDoc docId).deleteByDoc docId = s.deleteByDoc docId := by
  have hspec := deleteByDoc_spec s docId
  exact ⟨hspec, deleteByDoc_of_unlisted hspec.entity_unlisted hspec.relation_unlisted⟩

end NetworkXGraphStore

end Ragx
