import Ragx.EventRuns
import Ragx.GraphDeletion
import Ragx.GraphUpserts

/-!
# Agreement of the graph with the dictionaries

The multigraph repeats the two dictionaries: nodes for the entity ids, edges for the
relations. Nothing keeps them together but the three mutators. The main result says for
which calls they still agree after every one of a run.
-/
namespace Ragx

/-- Where the graph keeps the edge of a relation: its key there is the relation's id. -/
def Relation.edgeKey (r : Relation) : String × String × String :=
  (r.headId, r.tailId, r.relationId)

inductive GraphCall where
  | upsertEntities (entities : List Entity)
  | upsertRelations (relations : List Relation)
  | deleteByDoc (docId : String)

namespace NetworkXGraphStore

variable {G : Type} [MultiDiGraph G Entity Relation]

open MultiDiGraph

/-- A call that completes without raising. -/
def step (s : NetworkXGraphStore G) : GraphCall → Option (NetworkXGraphStore G)
  | .upsertEntities entities => (NetworkXGraphStore.upsertEntities entities).completed s
  | .upsertRelations relations => (NetworkXGraphStore.upsertRelations relations).completed s
  | .deleteByDoc docId => some (s.deleteByDoc docId)

def IsEntityId (s : NetworkXGraphStore G) (n : String) : Prop :=
  ∃ e ∈ s.entities.values, e.entityId = n

/-- The nodes are the entity ids, and two nodes have an edge of a type exactly when the
dictionary has a relation of this type between them. -/
structure Agrees (s : NetworkXGraphStore G) : Prop where
  nodes : ∀ n, HasNode s.graph n ↔ s.IsEntityId n
  edges : ∀ u v type, (∃ k b, edge? s.graph u v k = some b ∧ b.type = type) ↔
    ∃ r, s.relations.get? (u, v, type) = some r

/-- Agreement edge by edge: the edge of a relation stands under the relation's id. -/
structure Linked (s : NetworkXGraphStore G) : Prop where
  nodes : ∀ n, HasNode s.graph n ↔ s.IsEntityId n
  edge_stored : ∀ u v k b, edge? s.graph u v k = some b →
    ∃ r ∈ s.relations.values, r.key = (u, v, b.type) ∧ r.relationId = k
  stored_edge : ∀ r ∈ s.relations.values,
    ∃ b, edge? s.graph r.headId r.tailId r.relationId = some b ∧ b.type = r.type

theorem Linked.agrees {s : NetworkXGraphStore G} (h : s.Linked) : s.Agrees where
  nodes := h.nodes
  edges := by
    intro u v type
    constructor
    · rintro ⟨k, b, hedge, rfl⟩
      obtain ⟨r, hr, hkey, _⟩ := h.edge_stored u v k b hedge
      exact ⟨r, hkey ▸ KeyedTable.mem_values.mp hr⟩
    · rintro ⟨r, hr⟩
      obtain ⟨b, hedge, htype⟩ := h.stored_edge r (KeyedTable.mem_values_of_get? hr)
      have hkey := KeyedTable.key_of_get? hr
      cases hkey
      exact ⟨r.relationId, b, hedge, htype⟩

theorem linked_fresh (kbId : String) : (fresh kbId : NetworkXGraphStore G).Linked where
  nodes := by
    intro n
    exact iff_of_false (not_hasNode_empty n) fun ⟨_, he, _⟩ => absurd he List.not_mem_nil
  edge_stored := by
    intro u v k b h
    rw [fresh, edge?_empty] at h
    cases h
  stored_edge := fun _ hr => absurd hr List.not_mem_nil

/-! ## Upserting entities -/

theorem isEntityId_upsertEntities {s : NetworkXGraphStore G} {es : List Entity} {n : String}
    (hok : (upsertEntities es s).2 = none) :
    (upsertEntities es s).1.IsEntityId n ↔ s.IsEntityId n ∨
      n ∈ (KeyedTable.newcomers Entity.nameNorm s.entities.keys es).map (·.entityId) := by
  rw [IsEntityId, entities_upsertEntities hok, List.mem_map]
  exact KeyedTable.exists_mem_values_foldl_merge mergeEntity_keepsKey (fun _ => rfl)
    (fun _ _ => rfl)

theorem edge?_upsertEntities (s : NetworkXGraphStore G) (es : List Entity) (u v k : String) :
    edge? (upsertEntities es s).1.graph u v k = edge? s.graph u v k := by
  unfold upsertEntities
  exact Command.forEach_invariant
    (I := fun t : NetworkXGraphStore G => edge? t.graph u v k = edge? s.graph u v k)
    (fun e _ t ht => (edge?_upsertEntity t e u v k).trans ht) rfl

/-- Entities can be upserted in any batch that goes through. -/
theorem Linked.upsertEntities {s : NetworkXGraphStore G} {es : List Entity} (h : s.Linked)
    (hok : (upsertEntities es s).2 = none) : (upsertEntities es s).1.Linked where
  nodes := by
    intro n
    rw [hasNode_upsertEntities hok, isEntityId_upsertEntities hok, h.nodes]
  edge_stored := by
    intro u v k b hedge
    rw [edge?_upsertEntities] at hedge
    rw [relations_upsertEntities]
    exact h.edge_stored u v k b hedge
  stored_edge := by
    intro r hr
    rw [relations_upsertEntities] at hr
    rw [edge?_upsertEntities]
    exact h.stored_edge r hr

/-! ## Upserting relations -/

/-- The relations of the batch that are the first with their key. -/
def newRelations (s : NetworkXGraphStore G) (rs : List Relation) : List Relation :=
  KeyedTable.newcomers Relation.key s.relations.keys rs

/-- Everything that has an edge of its own: the stored relations and the new ones. -/
def edgeOwners (s : NetworkXGraphStore G) (rs : List Relation) : List Relation :=
  s.relations.values ++ s.newRelations rs

omit [MultiDiGraph G Entity Relation] in
theorem edgeOwners_nodup (s : NetworkXGraphStore G) (rs : List Relation) :
    ((s.edgeOwners rs).map Relation.key).Nodup := by
  rw [edgeOwners, List.map_append, KeyedTable.map_key_values]
  refine List.nodup_append.mpr ⟨s.relations.dict.nodup, KeyedTable.newcomers_nodup _ _, ?_⟩
  intro k hk k' hk' he
  exact (KeyedTable.mem_map_newcomers.mp hk').1 (he ▸ hk)

omit [MultiDiGraph G Entity Relation] in
theorem eq_of_mem_edgeOwners {s : NetworkXGraphStore G} {rs : List Relation} {r r' : Relation}
    (hr : r ∈ s.edgeOwners rs) (hr' : r' ∈ s.edgeOwners rs) (h : r.key = r'.key) : r = r' :=
  List.inj_on_of_nodup_map (s.edgeOwners_nodup rs) hr hr' h

theorem upsertRelations_concat_raised {s : NetworkXGraphStore G} {rs : List Relation}
    {r : Relation} :
    (upsertRelations (rs ++ [r]) s).2 = none ↔
      (upsertRelations rs s).2 = none ∧ (upsertRelation r (upsertRelations rs s).1).2 = none :=
  Command.forEach_concat_raised_eq_none

theorem entities_upsertRelations (s : NetworkXGraphStore G) (rs : List Relation) :
    (upsertRelations rs s).1.entities = s.entities := by
  unfold upsertRelations
  exact Command.forEach_invariant (I := fun t : NetworkXGraphStore G => t.entities = s.entities)
    (fun r _ t ht => (entities_upsertRelation t r).trans ht) rfl

theorem kbId_upsertRelations (s : NetworkXGraphStore G) (rs : List Relation) :
    (upsertRelations rs s).1.kbId = s.kbId := by
  unfold upsertRelations
  exact Command.forEach_invariant (I := fun t : NetworkXGraphStore G => t.kbId = s.kbId)
    (fun r _ t ht => (kbId_upsertRelation t r).trans ht) rfl

theorem relations_upsertRelations {s : NetworkXGraphStore G} {rs : List Relation}
    (hok : (upsertRelations rs s).2 = none) :
    (upsertRelations rs s).1.relations =
      rs.foldl (KeyedTable.merge mergeRelation) s.relations :=
  Command.forEach_view_of_none (fun t : NetworkXGraphStore G => t.relations)
    (fun _ _ _ h => relations_upsertRelation (upsertRelation_raised_eq_none.mp h)) hok

/-- The graph gets one edge for each new relation. -/
theorem graph_upsertRelations {s : NetworkXGraphStore G} {rs : List Relation}
    (hok : (upsertRelations rs s).2 = none) :
    (upsertRelations rs s).1.graph =
      addEdges Relation.edgeKey id s.graph (s.newRelations rs) := by
  induction rs using List.reverseRecOn with
  | nil => rfl
  | append_singleton rs r ih =>
    obtain ⟨hrs, hr⟩ := upsertRelations_concat_raised.mp hok
    have hlast : (upsertRelations (rs ++ [r]) s).1 =
        (upsertRelation r (upsertRelations rs s).1).1 := Command.forEach_concat_of_none hrs
    have hknown : r.key ∈ (upsertRelations rs s).1.relations.keys ↔
        r.key ∈ s.relations.keys ∨ r.key ∈ rs.map Relation.key := by
      rw [relations_upsertRelations hrs]
      exact KeyedTable.mem_keys_foldl_merge mergeRelation_keepsKey
    rw [hlast, newRelations, KeyedTable.newcomers_concat]
    rcases upsertRelation_cases (upsertRelations rs s).1 r with ⟨_, h⟩ | ⟨_, hget, h⟩ |
      ⟨_, hget, h⟩
    · rw [h] at hr
      cases hr
    · rw [if_neg fun hk => KeyedTable.get?_eq_none.mp hget (hknown.mpr hk), h, ih hrs]
      exact (addEdges_concat Relation.edgeKey id s.graph (s.newRelations rs) r).symm
    · rw [if_pos (hknown.mp (KeyedTable.isSome_get?.mp hget)), h, ih hrs]
      rfl

/-- Key and id of a stored relation are those of the relation that brought its edge. -/
theorem mem_relations_upsertRelations {s : NetworkXGraphStore G} {rs : List Relation}
    (hok : (upsertRelations rs s).2 = none) {key : String × String × String} {id : String} :
    (∃ r ∈ (upsertRelations rs s).1.relations.values, r.key = key ∧ r.relationId = id) ↔
      ∃ r ∈ s.edgeOwners rs, r.key = key ∧ r.relationId = id := by
  have h : (∃ r ∈ (rs.foldl (KeyedTable.merge mergeRelation) s.relations).values,
      (r.key, r.relationId) = (key, id)) ↔
      (∃ r ∈ s.relations.values, (r.key, r.relationId) = (key, id)) ∨
        ∃ r ∈ s.newRelations rs, (r.key, r.relationId) = (key, id) :=
    KeyedTable.exists_mem_values_foldl_merge (p := fun r : Relation => (r.key, r.relationId))
      mergeRelation_keepsKey (fun _ => rfl) (fun _ _ => rfl)
  simp only [Prod.mk.injEq] at h
  rw [relations_upsertRelations hok, h]
  simp only [edgeOwners, List.mem_append, or_and_right, exists_or]

/-- The new relations join stored entities, and no two owners share an edge. -/
def SafeRelations (s : NetworkXGraphStore G) (rs : List Relation) : Prop :=
  (∀ r ∈ s.newRelations rs, s.IsEntityId r.headId ∧ s.IsEntityId r.tailId) ∧
    ((s.edgeOwners rs).map Relation.edgeKey).Nodup

/-- An edge after the call belongs to one of the owners, under its id. -/
theorem owner_of_edge {s : NetworkXGraphStore G} {rs : List Relation} (h : s.Linked)
    (hok : (upsertRelations rs s).2 = none) {u v k : String} {b : Relation}
    (hedge : edge? (upsertRelations rs s).1.graph u v k = some b) :
    ∃ r ∈ s.edgeOwners rs, r.key = (u, v, b.type) ∧ r.relationId = k := by
  rw [graph_upsertRelations hok] at hedge
  rcases edge?_addEdges_cases Relation.edgeKey id hedge with ⟨hold, _⟩ | ⟨r, hr, hends, rfl⟩
  · obtain ⟨r, hr, hkey⟩ := h.edge_stored u v k b hold
    exact ⟨r, List.mem_append_left _ hr, hkey⟩
  · cases hends
    exact ⟨r, List.mem_append_right _ hr, rfl, rfl⟩

theorem isSome_edge_of_owner {s : NetworkXGraphStore G} {rs : List Relation} (h : s.Linked)
    (hok : (upsertRelations rs s).2 = none) {r : Relation} (hr : r ∈ s.edgeOwners rs) :
    ∃ b, edge? (upsertRelations rs s).1.graph r.headId r.tailId r.relationId = some b := by
  rw [graph_upsertRelations hok, ← Option.isSome_iff_exists]
  refine isSome_edge?_addEdges Relation.edgeKey id ?_
  rcases List.mem_append.mp hr with hr | hr
  · obtain ⟨b, hedge, _⟩ := h.stored_edge r hr
    exact Or.inl (by rw [hedge]; rfl)
  · exact Or.inr ⟨r, hr, rfl⟩

theorem hasNode_upsertRelations {s : NetworkXGraphStore G} {rs : List Relation} {n : String}
    (hok : (upsertRelations rs s).2 = none) :
    HasNode (upsertRelations rs s).1.graph n ↔
      HasNode s.graph n ∨ ∃ r ∈ s.newRelations rs, n = r.headId ∨ n = r.tailId := by
  rw [graph_upsertRelations hok]
  exact hasNode_addEdges Relation.edgeKey id

theorem isEntityId_upsertRelations (s : NetworkXGraphStore G) (rs : List Relation) (n : String) :
    (upsertRelations rs s).1.IsEntityId n ↔ s.IsEntityId n := by
  rw [IsEntityId, entities_upsertRelations, IsEntityId]

/-- Two owners of one edge would need it to have both their types. -/
theorem safe_of_agrees {s : NetworkXGraphStore G} {rs : List Relation} (h : s.Linked)
    (hok : (upsertRelations rs s).2 = none) (hagree : (upsertRelations rs s).1.Agrees) :
    s.SafeRelations rs := by
  constructor
  · intro r hr
    have hnode (n : String) (hn : n = r.headId ∨ n = r.tailId) : s.IsEntityId n := by
      rw [← isEntityId_upsertRelations s rs, ← hagree.nodes, hasNode_upsertRelations hok]
      exact Or.inr ⟨r, hr, hn⟩
    exact ⟨hnode _ (Or.inl rfl), hnode _ (Or.inr rfl)⟩
  · -- the edge that an owner's type asks for is the one under the owner's own id
    have htype (r : Relation) (hr : r ∈ s.edgeOwners rs) : ∃ b,
        edge? (upsertRelations rs s).1.graph r.headId r.tailId r.relationId = some b ∧
          b.type = r.type := by
      obtain ⟨r', hr', hkey, _⟩ := (mem_relations_upsertRelations hok).mpr ⟨r, hr, rfl, rfl⟩
      have hget := KeyedTable.mem_values.mp hr'
      rw [hkey] at hget
      obtain ⟨k, b, hedge, hb⟩ := (hagree.edges r.headId r.tailId r.type).mpr ⟨r', hget⟩
      obtain ⟨owner, howner, hownerKey, rfl⟩ := owner_of_edge h hok hedge
      rw [hb] at hownerKey
      have hsame : owner = r := eq_of_mem_edgeOwners howner hr hownerKey
      subst hsame
      exact ⟨b, hedge, hb⟩
    refine List.Nodup.map_on (fun r hr r' hr' he => ?_)
      (List.Nodup.of_map _ (s.edgeOwners_nodup rs))
    obtain ⟨b, hedge, hb⟩ := htype r hr
    obtain ⟨b', hedge', hb'⟩ := htype r' hr'
    rw [Relation.edgeKey, Relation.edgeKey, Prod.mk.injEq, Prod.mk.injEq] at he
    obtain ⟨hhead, htail, hid⟩ := he
    rw [hhead, htail, hid, hedge'] at hedge
    have hbb : b' = b := Option.some.inj hedge
    refine eq_of_mem_edgeOwners hr hr' ?_
    rw [Relation.key, Relation.key, hhead, htail, ← hb, ← hb', hbb]

theorem Linked.upsertRelations {s : NetworkXGraphStore G} {rs : List Relation} (h : s.Linked)
    (hok : (upsertRelations rs s).2 = none) (hsafe : s.SafeRelations rs) :
    (upsertRelations rs s).1.Linked where
  nodes := by
    intro n
    rw [hasNode_upsertRelations hok, isEntityId_upsertRelations, h.nodes]
    refine or_iff_left_of_imp ?_
    rintro ⟨r, hr, rfl | rfl⟩
    · exact (hsafe.1 r hr).1
    · exact (hsafe.1 r hr).2
  edge_stored := fun u v k b hedge =>
    (mem_relations_upsertRelations hok).mpr (owner_of_edge h hok hedge)
  stored_edge := by
    intro r' hr'
    obtain ⟨r, hr, hkey, hid⟩ := (mem_relations_upsertRelations hok).mp ⟨r', hr', rfl, rfl⟩
    obtain ⟨b, hedge⟩ := isSome_edge_of_owner h hok hr
    obtain ⟨owner, howner, hownerKey, hownerId⟩ := owner_of_edge h hok hedge
    rw [Relation.key, Prod.mk.injEq, Prod.mk.injEq] at hownerKey
    obtain ⟨hhead, htail, htype⟩ := hownerKey
    have hsame : owner = r := by
      refine List.inj_on_of_nodup_map hsafe.2 howner hr ?_
      rw [Relation.edgeKey, Relation.edgeKey, hhead, htail, hownerId]
    rw [Relation.key, Relation.key, Prod.mk.injEq, Prod.mk.injEq] at hkey
    obtain ⟨hheads, htails, htypes⟩ := hkey
    refine ⟨b, ?_, ?_⟩
    · rw [← hheads, ← htails, ← hid]
      exact hedge
    · rw [← htypes, ← htype, hsame]

/-! ## Deleting a document -/

/-- No entity that goes shares its id with one that stays, and every relation that goes
touches an entity that goes. -/
def SafeDeletion (s : NetworkXGraphStore G) (docId : String) : Prop :=
  (∀ e ∈ s.entities.values, ∀ e' ∈ s.entities.values, e.entityId = e'.entityId →
    OnlyDoc docId e.sourceDocIds → OnlyDoc docId e'.sourceDocIds) ∧
  ∀ r ∈ s.relations.values, OnlyDoc docId r.sourceDocIds →
    ∃ e ∈ s.entities.values, OnlyDoc docId e.sourceDocIds ∧
      (e.entityId = r.headId ∨ e.entityId = r.tailId)

theorem hasNode_deleteByDoc {s : NetworkXGraphStore G} {docId n : String} :
    HasNode (s.deleteByDoc docId).graph n ↔ n ∉ s.removedNodes docId ∧ HasNode s.graph n :=
  hasNode_foldl_discardNode

theorem edge?_deleteByDoc {s : NetworkXGraphStore G} (h : s.Linked) (docId u v k : String) :
    edge? (s.deleteByDoc docId).graph u v k =
      if u ∈ s.removedNodes docId ∨ v ∈ s.removedNodes docId then none
      else edge? s.graph u v k := by
  refine edge?_foldl_discardNode (List.nodup_dedup _) (fun n hn => ?_) u v k
  obtain ⟨e, he, _, hid⟩ := mem_removedNodes.mp hn
  exact (h.nodes n).mpr ⟨e, he, hid⟩

theorem isEntityId_deleteByDoc {s : NetworkXGraphStore G} {docId n : String} :
    (s.deleteByDoc docId).IsEntityId n ↔
      ∃ e ∈ s.entities.values, ¬ OnlyDoc docId e.sourceDocIds ∧ e.entityId = n := by
  constructor
  · rintro ⟨e', he', rfl⟩
    obtain ⟨e, he, hheld, rfl⟩ := mem_entities_deleteByDoc.mp he'
    exact ⟨e, he, not_onlyDoc_iff.mpr hheld, rfl⟩
  · rintro ⟨e, he, hheld, rfl⟩
    exact ⟨_, mem_entities_deleteByDoc.mpr ⟨e, he, not_onlyDoc_iff.mp hheld, rfl⟩, rfl⟩

theorem safeDeletion_of_agrees {s : NetworkXGraphStore G} {docId : String} (h : s.Linked)
    (hagree : (s.deleteByDoc docId).Agrees) : s.SafeDeletion docId := by
  constructor
  · intro e he e' he' hid honly
    by_contra hheld
    have hnode := (hagree.nodes e'.entityId).mpr (isEntityId_deleteByDoc.mpr ⟨e', he', hheld, rfl⟩)
    exact (hasNode_deleteByDoc.mp hnode).1 (mem_removedNodes.mpr ⟨e, he, honly, hid⟩)
  · intro r hr honly
    by_contra hno
    have hends (n : String) (hn : n = r.headId ∨ n = r.tailId) : n ∉ s.removedNodes docId := by
      intro hmem
      obtain ⟨e, he, hgone, rfl⟩ := mem_removedNodes.mp hmem
      exact hno ⟨e, he, hgone, hn⟩
    obtain ⟨b, hedge, htype⟩ := h.stored_edge r hr
    have hstays : edge? (s.deleteByDoc docId).graph r.headId r.tailId r.relationId = some b := by
      rw [edge?_deleteByDoc h, if_neg fun hmem =>
        hmem.elim (hends _ (Or.inl rfl)) (hends _ (Or.inr rfl))]
      exact hedge
    obtain ⟨r', hget⟩ := (hagree.edges r.headId r.tailId r.type).mp ⟨_, b, hstays, htype⟩
    obtain ⟨r₀, hr₀, hheld, rfl⟩ :=
      mem_relations_deleteByDoc.mp (KeyedTable.mem_values_of_get? hget)
    have hkey := KeyedTable.key_of_get? hget
    have hsame : r₀ = r := KeyedTable.eq_of_mem_values hr₀ hr hkey
    subst hsame
    exact not_onlyDoc_iff.mpr hheld.2.2 honly

theorem Linked.deleteByDoc {s : NetworkXGraphStore G} {docId : String} (h : s.Linked)
    (hsafe : s.SafeDeletion docId) : (s.deleteByDoc docId).Linked where
  nodes := by
    intro n
    rw [hasNode_deleteByDoc, isEntityId_deleteByDoc, h.nodes, mem_removedNodes]
    constructor
    · rintro ⟨hstays, e, he, rfl⟩
      exact ⟨e, he, fun honly => hstays ⟨e, he, honly, rfl⟩, rfl⟩
    · rintro ⟨e, he, hheld, rfl⟩
      refine ⟨?_, e, he, rfl⟩
      rintro ⟨e', he', honly, hid⟩
      exact hheld (hsafe.1 e' he' e he hid honly)
  edge_stored := by
    intro u v k b hedge
    rw [edge?_deleteByDoc h] at hedge
    split_ifs at hedge with hgone
    obtain ⟨hu, hv⟩ := not_or.mp hgone
    obtain ⟨r, hr, hkey, rfl⟩ := h.edge_stored u v k b hedge
    rw [Relation.key, Prod.mk.injEq, Prod.mk.injEq] at hkey
    obtain ⟨rfl, rfl, htype⟩ := hkey
    have hheld : ¬ OnlyDoc docId r.sourceDocIds := by
      intro honly
      obtain ⟨e, he, hgone, hid⟩ := hsafe.2 r hr honly
      exact hid.elim (fun hid => hu (mem_removedNodes.mpr ⟨e, he, hgone, hid⟩))
        fun hid => hv (mem_removedNodes.mpr ⟨e, he, hgone, hid⟩)
    refine ⟨_, mem_relations_deleteByDoc.mpr ⟨r, hr, ⟨hu, hv, not_onlyDoc_iff.mp hheld⟩, rfl⟩, ?_,
      rfl⟩
    rw [Relation.key, htype]
  stored_edge := by
    intro r' hr'
    obtain ⟨r, hr, ⟨hhead, htail, _⟩, rfl⟩ := mem_relations_deleteByDoc.mp hr'
    obtain ⟨b, hedge, htype⟩ := h.stored_edge r hr
    refine ⟨b, ?_, htype⟩
    rw [edge?_deleteByDoc h, if_neg fun hmem => hmem.elim hhead htail]
    exact hedge

/-! ## Runs -/

/-- The calls after which graph and dictionaries still agree. -/
def Safe (s : NetworkXGraphStore G) : GraphCall → Prop
  | .upsertEntities _ => True
  | .upsertRelations rs => s.SafeRelations rs
  | .deleteByDoc docId => s.SafeDeletion docId

theorem agrees_step_iff {s s' : NetworkXGraphStore G} {call : GraphCall} (h : s.Linked)
    (hstep : s.step call = some s') : (s'.Agrees ↔ s.Safe call) ∧ (s.Safe call → s'.Linked) := by
  cases call with
  | upsertEntities entities =>
    obtain ⟨hok, rfl⟩ := Command.completed_eq_some.mp hstep
    have hlinked := h.upsertEntities hok
    exact ⟨iff_of_true hlinked.agrees trivial, fun _ => hlinked⟩
  | upsertRelations relations =>
    obtain ⟨hok, rfl⟩ := Command.completed_eq_some.mp hstep
    have hlinked (hsafe : s.SafeRelations relations) := h.upsertRelations hok hsafe
    exact ⟨⟨safe_of_agrees h hok, fun hsafe => (hlinked hsafe).agrees⟩, hlinked⟩
  | deleteByDoc docId =>
    cases hstep
    have hlinked (hsafe : s.SafeDeletion docId) := h.deleteByDoc hsafe
    exact ⟨⟨safeDeletion_of_agrees h, fun hsafe => (hlinked hsafe).agrees⟩, hlinked⟩

/-- From an empty store, graph and dictionaries agree after every call of a run exactly when
every call of the run is safe where it happens. -/
theorem agrees_run_iff (kbId : String) (calls : List GraphCall) :
    EveryStep step (fun _ _ s' => s'.Agrees) (fresh kbId : NetworkXGraphStore G) calls ↔
      EveryStep step (fun s call _ => s.Safe call) (fresh kbId : NetworkXGraphStore G) calls := by
  refine everyStep_congr (I := Linked) (fun s call s' h hstep => ?_) (linked_fresh kbId)
  exact agrees_step_iff h hstep

/-- Two entities of one document and a relation of another one, which is then deleted. -/
def strayEdgeCalls : List GraphCall :=
  [.upsertEntities [
      { entityId := "ent_a", kbId := "kb", name := "A", nameNorm := "a", type := "ORG"
        description := "", sourceDocIds := ["doc_1"], confidence := 1 },
      { entityId := "ent_b", kbId := "kb", name := "B", nameNorm := "b", type := "ORG"
        description := "", sourceDocIds := ["doc_1"], confidence := 1 }],
    .upsertRelations [
      { relationId := "rel_ab", kbId := "kb", headId := "ent_a", tailId := "ent_b"
        type := "uses", description := "", sourceDocIds := ["doc_2"] }],
    .deleteByDoc "doc_2"]

/-- The relation goes and its edge stays. -/
theorem not_agrees_strayEdgeCalls :
    (∃ s, run step (fresh "kb" : PlainGraphStore) strayEdgeCalls = some s ∧
      s.relations.values = [] ∧ (edge? s.graph "ent_a" "ent_b" "rel_ab").isSome = true) ∧
    ¬ EveryStep step (fun _ _ s' => s'.Agrees) (fresh "kb" : PlainGraphStore) strayEdgeCalls := by
  refine ⟨⟨_, rfl, rfl, rfl⟩, fun h => ?_⟩
  obtain ⟨_, _, hlast, _⟩ := h
  obtain ⟨r, hr⟩ := (hlast.edges "ent_a" "ent_b" "uses").mp ⟨"rel_ab", _, rfl, rfl⟩
  have hnone : (none : Option Relation) = some r := hr
  cases hnone

end NetworkXGraphStore

end Ragx
