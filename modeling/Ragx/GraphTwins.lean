import Ragx.EventRuns
import Ragx.GraphContents

/-!
# The two graph stores side by side

Both stores of one knowledge base take the same calls. They keep the same entities, but they
tell relations apart differently, and they treat relations without endpoints and items without
source documents differently.
-/
namespace Ragx

structure GraphTwins (G : Type) where
  nx : NetworkXGraphStore G
  neo4j : EntityGraph

namespace GraphTwins

variable {G : Type} [MultiDiGraph G Entity Relation]

def fresh (kbId : String) : GraphTwins G where
  nx := .fresh kbId
  neo4j := .empty

/-- A call that completes on both stores. -/
def step (store : Neo4jGraphStore) (t : GraphTwins G) (call : GraphCall) :
    Option (GraphTwins G) :=
  match t.nx.step call, store.step t.neo4j call with
  | some nx, some neo4j => some ⟨nx, neo4j⟩
  | _, _ => none

/-- The stores hold the same entities and the same relations. -/
structure Same (t : GraphTwins G) : Prop where
  entities : (t.neo4j.nodes.values.map Entity.content).Perm
    (t.nx.entities.values.map Entity.content)
  relations : (t.neo4j.relationships.map Relation.content).Perm
    (t.nx.relations.values.map Relation.content)

/-- The stores hold the same, under the same ids. -/
structure Matched (t : GraphTwins G) : Prop where
  entities : (t.neo4j.nodes.values.map Entity.record).Perm (t.nx.entities.values.map Entity.record)
  relations : (t.neo4j.relationships.map Relation.content).Perm
    (t.nx.relations.values.map Relation.content)

omit [MultiDiGraph G Entity Relation] in
theorem Matched.same {t : GraphTwins G} (h : t.Matched) : t.Same where
  entities := by
    have hcontents := h.entities.map EntityRecord.content
    rwa [List.map_map, List.map_map] at hcontents
  relations := h.relations

/-- What callers promise: an entity carries the id that is stored for its name, and the id of a
relation is a fresh one. -/
def Promised (t : GraphTwins G) : GraphCall → Prop
  | .upsertEntities entities =>
    ∀ e ∈ entities, ∀ e' ∈ t.nx.entities.values ++ entities,
      e'.nameNorm = e.nameNorm → e'.entityId = e.entityId
  | .upsertRelations relations =>
    (relations.map (·.relationId)).Nodup ∧
      ∀ r ∈ relations, ∀ r' ∈ t.neo4j.relationships, r'.relationId ≠ r.relationId
  | .deleteByDoc _ => True

/-- The calls that both stores treat alike: a relation joins stored entities and is the first of
its type between them, and what has no source document goes with an endpoint. -/
def Alike (t : GraphTwins G) : GraphCall → Prop
  | .upsertEntities _ => True
  | .upsertRelations relations =>
    (relations.map Relation.key).Nodup ∧
      ∀ r ∈ relations, t.nx.relations.get? r.key = none ∧
        t.nx.IsEntityId r.headId ∧ t.nx.IsEntityId r.tailId
  | .deleteByDoc docId =>
    (∀ e ∈ t.nx.entities.values, e.sourceDocIds ≠ []) ∧
      ∀ r ∈ t.nx.relations.values, r.sourceDocIds = [] →
        r.headId ∈ t.nx.removedNodes docId ∨ r.tailId ∈ t.nx.removedNodes docId

instance (t : GraphTwins G) : ∀ call, Decidable (t.Promised call)
  | .upsertEntities entities => inferInstanceAs (Decidable
      (∀ e ∈ entities, ∀ e' ∈ t.nx.entities.values ++ entities,
        e'.nameNorm = e.nameNorm → e'.entityId = e.entityId))
  | .upsertRelations _ => inferInstanceAs (Decidable (_ ∧ ∀ r ∈ _, ∀ r' ∈ _, _))
  | .deleteByDoc _ => inferInstanceAs (Decidable True)

instance (t : GraphTwins G) : ∀ call, Decidable (t.Alike call)
  | .upsertEntities _ => inferInstanceAs (Decidable True)
  | .upsertRelations relations => inferInstanceAs (Decidable
      ((relations.map Relation.key).Nodup ∧ ∀ r ∈ relations, t.nx.relations.get? r.key = none ∧
        (∃ e ∈ t.nx.entities.values, e.entityId = r.headId) ∧
          ∃ e ∈ t.nx.entities.values, e.entityId = r.tailId))
  | .deleteByDoc docId => inferInstanceAs (Decidable
      ((∀ e ∈ t.nx.entities.values, e.sourceDocIds ≠ []) ∧
        ∀ r ∈ t.nx.relations.values, r.sourceDocIds = [] →
          r.headId ∈ t.nx.removedNodes docId ∨ r.tailId ∈ t.nx.removedNodes docId))

variable {store : Neo4jGraphStore}

theorem step_eq_some {t t' : GraphTwins G} {call : GraphCall} (h : step store t call = some t') :
    t.nx.step call = some t'.nx ∧ store.step t.neo4j call = some t'.neo4j := by
  unfold step at h
  cases hnx : t.nx.step call with
  | none => simp [hnx] at h
  | some nx =>
    cases hneo : store.step t.neo4j call with
    | none => simp [hnx, hneo] at h
    | some neo4j =>
      rw [hnx, hneo] at h
      cases h
      exact ⟨rfl, rfl⟩

/-! ## Matched records -/

section Records

variable {s : NetworkXGraphStore G} {g : EntityGraph}

omit [MultiDiGraph G Entity Relation] in
theorem exists_entity (h : (g.nodes.values.map Entity.record).Perm
    (s.entities.values.map Entity.record)) {n : Entity} (hn : n ∈ g.nodes.values) :
    ∃ e ∈ s.entities.values, e.record = n.record :=
  List.mem_map.mp (h.mem_iff.mp (List.mem_map_of_mem hn))

omit [MultiDiGraph G Entity Relation] in
theorem exists_node (h : (g.nodes.values.map Entity.record).Perm
    (s.entities.values.map Entity.record)) {e : Entity} (he : e ∈ s.entities.values) :
    ∃ n ∈ g.nodes.values, n.record = e.record :=
  List.mem_map.mp (h.mem_iff.mpr (List.mem_map_of_mem he))

omit [MultiDiGraph G Entity Relation] in
theorem mem_keys_iff (h : (g.nodes.values.map Entity.record).Perm
    (s.entities.values.map Entity.record)) (k : String) :
    k ∈ g.nodes.keys ↔ s.IsEntityId k := by
  rw [← KeyedTable.map_key_values, List.mem_map, NetworkXGraphStore.IsEntityId]
  constructor
  · rintro ⟨n, hn, rfl⟩
    obtain ⟨e, he, hrecord⟩ := exists_entity h hn
    exact ⟨e, he, congrArg EntityRecord.entityId hrecord⟩
  · rintro ⟨e, he, rfl⟩
    obtain ⟨n, hn, hrecord⟩ := exists_node h he
    exact ⟨n, hn, congrArg EntityRecord.entityId hrecord⟩

omit [MultiDiGraph G Entity Relation] in
/-- Names are unique among the nodes because they are unique in the dictionary. -/
theorem record_eq_of_name (h : (g.nodes.values.map Entity.record).Perm
    (s.entities.values.map Entity.record)) {n n' : Entity} (hn : n ∈ g.nodes.values)
    (hn' : n' ∈ g.nodes.values) (hname : n.nameNorm = n'.nameNorm) : n.record = n'.record := by
  obtain ⟨e, he, hrecord⟩ := exists_entity h hn
  obtain ⟨e', he', hrecord'⟩ := exists_entity h hn'
  have hsame : e.nameNorm = e'.nameNorm := by
    calc e.nameNorm = n.nameNorm := congrArg (·.content.nameNorm) hrecord
      _ = n'.nameNorm := hname
      _ = e'.nameNorm := (congrArg (·.content.nameNorm) hrecord').symm
  rw [← hrecord, ← hrecord', KeyedTable.eq_of_mem_values he he' hsame]

/-! ## Entities -/

omit [MultiDiGraph G Entity Relation] in
/-- A write reaches the nodes of the entity's name, which are all of its knowledge base. -/
theorem record_setNode (h : (g.nodes.values.map Entity.record).Perm
    (s.entities.values.map Entity.record)) {entity n m : Entity} (hn : n ∈ g.nodes.values)
    (hpattern : Neo4jGraphStore.isNodeOf entity n = true) (hm : m ∈ g.nodes.values) :
    (Neo4jGraphStore.setNode entity m).record = m.record.mergeByName entity := by
  obtain ⟨hname, hkb⟩ := of_decide_eq_true hpattern
  by_cases hm' : m.nameNorm = entity.nameNorm
  · have hkbm : m.kbId = entity.kbId := by
      have hsame := record_eq_of_name h hm hn (hm'.trans hname.symm)
      exact (congrArg EntityRecord.kbId hsame).trans hkb
    have hmatch : Neo4jGraphStore.isNodeOf entity m = true := decide_eq_true ⟨hm', hkbm⟩
    have hmerge : m.record.content.nameNorm = entity.nameNorm := hm'
    rw [Neo4jGraphStore.setNode, if_pos hmatch, record_mergeNode, EntityRecord.mergeByName,
      if_pos hmerge]
    rfl
  · have hmatch : ¬ Neo4jGraphStore.isNodeOf entity m = true := fun hmatch =>
      hm' (of_decide_eq_true hmatch).1
    have hkeep : ¬ m.record.content.nameNorm = entity.nameNorm := hm'
    rw [Neo4jGraphStore.setNode, if_neg hmatch, EntityRecord.mergeByName, if_neg hkeep]

theorem records_upsertEntity (h : (g.nodes.values.map Entity.record).Perm
    (s.entities.values.map Entity.record)) {entity : Entity}
    (hnx : (NetworkXGraphStore.upsertEntity entity s).2 = none)
    (hneo : (store.upsertEntity entity g).2 = none)
    (hid : ∀ e ∈ s.entities.values, e.nameNorm = entity.nameNorm → e.entityId = entity.entityId) :
    ((store.upsertEntity entity g).1.nodes.values.map Entity.record).Perm
      ((NetworkXGraphStore.upsertEntity entity s).1.entities.values.map Entity.record) := by
  have hkb := (NetworkXGraphStore.upsertEntity_raised_eq_none.mp hnx).1
  obtain ⟨_, hcases⟩ := Neo4jGraphStore.upsertEntity_cases hneo
  rw [NetworkXGraphStore.entities_upsertEntity hkb]
  by_cases hknown : entity.nameNorm ∈ s.entities.keys
  · obtain ⟨old, hold⟩ := Option.isSome_iff_exists.mp (KeyedTable.isSome_get?.mpr hknown)
    obtain ⟨n, hn, hrecord⟩ := exists_node h (KeyedTable.mem_values_of_get? hold)
    have hname : old.nameNorm = entity.nameNorm := KeyedTable.key_of_get? hold
    have hmerged : (s.entities.merge mergeEntity entity).values.map Entity.record =
        (s.entities.values.map Entity.record).map (EntityRecord.mergeByName entity) := by
      rw [KeyedTable.values_merge_of_mem mergeEntity_keepsKey hknown, List.map_map, List.map_map]
      exact List.map_congr_left fun e _ => record_mergeEntity e entity
    rcases hcases with ⟨⟨n', hn', hpattern⟩, hset⟩ | ⟨_, hfresh, _⟩
    · have hone : ∀ m ∈ g.nodes.values, (Neo4jGraphStore.setNode entity m).record =
          m.record.mergeByName entity := fun m hm => record_setNode h hn' hpattern hm
      have hwritten : (g.nodes.values.map (Neo4jGraphStore.setNode entity)).map Entity.record =
          (g.nodes.values.map Entity.record).map (EntityRecord.mergeByName entity) := by
        rw [List.map_map, List.map_map]
        exact List.map_congr_left hone
      have hrecords := hset.map Entity.record
      rw [hwritten] at hrecords
      rw [hmerged]
      exact hrecords.trans (h.map _)
    · -- the node with the name has the id, so the constraint refuses another one
      have hidn : n.entityId = entity.entityId :=
        (congrArg EntityRecord.entityId hrecord).trans
          (hid old (KeyedTable.mem_values_of_get? hold) hname)
      refine absurd ?_ hfresh
      rw [← KeyedTable.map_key_values, ← hidn]
      exact List.mem_map_of_mem hn
  · rcases hcases with ⟨⟨n', hn', hpattern⟩, _⟩ | ⟨_, _, hvalues⟩
    · obtain ⟨e, he, hrecord⟩ := exists_entity h hn'
      have hname : e.nameNorm = entity.nameNorm :=
        (congrArg (·.content.nameNorm) hrecord).trans (of_decide_eq_true hpattern).1
      refine absurd ?_ hknown
      rw [← KeyedTable.map_key_values, ← hname]
      exact List.mem_map_of_mem he
    · rw [hvalues, KeyedTable.values_merge_of_notMem rfl hknown, List.map_append, List.map_append]
      exact h.append_right _

theorem records_upsertEntities (h : (g.nodes.values.map Entity.record).Perm
    (s.entities.values.map Entity.record)) {entities : List Entity}
    (hnx : (NetworkXGraphStore.upsertEntities entities s).2 = none)
    (hneo : (Command.forEach store.upsertEntity entities g).2 = none)
    (hids : ∀ e ∈ entities, ∀ e' ∈ s.entities.values ++ entities,
      e'.nameNorm = e.nameNorm → e'.entityId = e.entityId) :
    ((Command.forEach store.upsertEntity entities g).1.nodes.values.map Entity.record).Perm
      ((NetworkXGraphStore.upsertEntities entities s).1.entities.values.map Entity.record) := by
  induction entities using List.reverseRecOn with
  | nil => exact h
  | append_singleton entities entity ih =>
    obtain ⟨hnxs, hnx⟩ := NetworkXGraphStore.upsertEntities_concat_raised.mp hnx
    obtain ⟨hneos, hneo⟩ := Command.forEach_concat_raised_eq_none.mp hneo
    have hbefore := ih hnxs hneos fun e he e' he' => hids e (List.mem_append_left _ he) e' (by
      rw [← List.append_assoc]
      exact List.mem_append_left _ he')
    have hlast : (NetworkXGraphStore.upsertEntities (entities ++ [entity]) s).1 =
        (NetworkXGraphStore.upsertEntity entity
          (NetworkXGraphStore.upsertEntities entities s).1).1 := Command.forEach_concat_of_none hnxs
    rw [hlast, Command.forEach_concat_of_none hneos]
    refine records_upsertEntity hbefore hnx hneo fun e he hname => ?_
    -- names and ids are those of stored entities and of the batch
    rw [NetworkXGraphStore.entities_upsertEntities hnxs] at he
    have hsource := (KeyedTable.exists_mem_values_foldl_merge mergeEntity_keepsKey (fun _ => rfl)
      (p := fun e : Entity => (e.nameNorm, e.entityId)) fun _ _ => rfl).mp ⟨e, he, rfl⟩
    have hfrom : ∃ w ∈ s.entities.values ++ (entities ++ [entity]),
        (w.nameNorm, w.entityId) = (e.nameNorm, e.entityId) := by
      rcases hsource with ⟨w, hw, hpair⟩ | ⟨w, hw, hpair⟩
      · exact ⟨w, List.mem_append_left _ hw, hpair⟩
      · have hbatch := (KeyedTable.of_mem_newcomers hw).1
        exact ⟨w, List.mem_append_right _ (List.mem_append_left _ hbatch), hpair⟩
    obtain ⟨w, hw, hpair⟩ := hfrom
    rw [Prod.mk.injEq] at hpair
    exact hpair.2 ▸ hids entity (by simp) w hw (hpair.1.trans hname)

/-! ## Relations -/

omit [MultiDiGraph G Entity Relation] in
theorem joins_iff (h : (g.nodes.values.map Entity.record).Perm
    (s.entities.values.map Entity.record)) (r : Relation) :
    Neo4jGraphStore.Joins g r ↔ s.IsEntityId r.headId ∧ s.IsEntityId r.tailId :=
  and_congr (mem_keys_iff h r.headId) (mem_keys_iff h r.tailId)

omit [MultiDiGraph G Entity Relation] in
/-- If the stores agree on the relations of a batch, no relation of it was merged and none was
left out. -/
theorem alike_of_contents (h : (g.nodes.values.map Entity.record).Perm
    (s.entities.values.map Entity.record))
    (hcontents : (g.relationships.map Relation.content).Perm
      (s.relations.values.map Relation.content)) {relations : List Relation}
    (hafter : ((g.relationships ++ relations.filter fun r =>
        Neo4jGraphStore.Joins g r).map Relation.content).Perm
      ((relations.foldl (KeyedTable.merge mergeRelation) s.relations).values.map
        Relation.content)) :
    (relations.map Relation.key).Nodup ∧
      ∀ r ∈ relations, s.relations.get? r.key = none ∧
        s.IsEntityId r.headId ∧ s.IsEntityId r.tailId := by
  have hattached : ∀ r ∈ relations, Neo4jGraphStore.Joins g r := by
    intro r hr
    have hkey : r.key ∈ (relations.foldl (KeyedTable.merge mergeRelation) s.relations).keys :=
      (KeyedTable.mem_keys_foldl_merge mergeRelation_keepsKey).mpr
        (Or.inr (List.mem_map_of_mem hr))
    rw [← KeyedTable.map_key_values, List.mem_map] at hkey
    obtain ⟨w, hw, hwr⟩ := hkey
    obtain ⟨x, hx, hxw⟩ := List.mem_map.mp (hafter.mem_iff.mpr (List.mem_map_of_mem hw))
    have hends : x.headId = r.headId ∧ x.tailId = r.tailId := by
      have hhead : x.headId = w.headId := congrArg RelationContent.headId hxw
      have htail : x.tailId = w.tailId := congrArg RelationContent.tailId hxw
      have hwhead : w.headId = r.headId := congrArg Prod.fst hwr
      have hwtail : w.tailId = r.tailId := congrArg (·.2.1) hwr
      exact ⟨hhead.trans hwhead, htail.trans hwtail⟩
    have hjoins : Neo4jGraphStore.Joins g x := by
      rcases List.mem_append.mp hx with hold | hnew
      · exact g.attached x hold
      · exact of_decide_eq_true (List.mem_filter.mp hnew).2
    rwa [Neo4jGraphStore.Joins, hends.1, hends.2] at hjoins
  have hall : (relations.filter fun r => Neo4jGraphStore.Joins g r) = relations :=
    List.filter_eq_self.mpr fun r hr => decide_eq_true (hattached r hr)
  have hlength : (KeyedTable.newcomers Relation.key s.relations.keys relations).length =
      relations.length := by
    have hunits := congrArg List.length (KeyedTable.map_values_foldl_merge
      (p := fun _ => ()) mergeRelation_keepsKey (fun _ => rfl) (fun _ _ => rfl) s.relations
      relations)
    have hbefore := hcontents.length_eq
    have hlater := hafter.length_eq
    rw [hall] at hlater
    simp only [List.length_map, List.length_append] at hunits hbefore hlater
    omega
  have hnew : KeyedTable.newcomers Relation.key s.relations.keys relations = relations :=
    (KeyedTable.newcomers_sublist s.relations.keys relations).eq_of_length hlength
  refine ⟨hnew ▸ KeyedTable.newcomers_nodup s.relations.keys relations, fun r hr => ?_⟩
  have hunknown : r.key ∉ s.relations.keys := by
    rw [← hnew] at hr
    exact (KeyedTable.of_mem_newcomers hr).2
  exact ⟨KeyedTable.get?_eq_none.mpr hunknown, (joins_iff h r).mp (hattached r hr)⟩

omit [MultiDiGraph G Entity Relation] in
theorem contents_of_alike (h : (g.nodes.values.map Entity.record).Perm
    (s.entities.values.map Entity.record))
    (hcontents : (g.relationships.map Relation.content).Perm
      (s.relations.values.map Relation.content)) {relations : List Relation}
    (hn : (relations.map Relation.key).Nodup)
    (hnew : ∀ r ∈ relations, s.relations.get? r.key = none ∧
      s.IsEntityId r.headId ∧ s.IsEntityId r.tailId) :
    ((g.relationships ++ relations.filter fun r =>
        Neo4jGraphStore.Joins g r).map Relation.content).Perm
      ((relations.foldl (KeyedTable.merge mergeRelation) s.relations).values.map
        Relation.content) := by
  have hall : (relations.filter fun r => Neo4jGraphStore.Joins g r) = relations :=
    List.filter_eq_self.mpr fun r hr => decide_eq_true ((joins_iff h r).mpr (hnew r hr).2)
  have hvalues := KeyedTable.values_foldl_merge_of_new (f := mergeRelation) (fun _ => rfl) hn
    fun r hr => KeyedTable.get?_eq_none.mp (hnew r hr).1
  rw [hall, hvalues, List.map_append, List.map_append]
  exact hcontents.append_right _

end Records

/-! ## Deleting a document -/

theorem matched_deleteByDoc {t : GraphTwins G} (h : t.Matched) {docId : String}
    (halike : t.Alike (.deleteByDoc docId)) :
    Matched ⟨t.nx.deleteByDoc docId, Neo4jGraphStore.deleteByDoc docId t.neo4j⟩ where
  entities := by
    have hneo := Neo4jGraphStore.records_deleteByDoc docId t.neo4j
    refine hneo.trans ((h.entities.filterMap _).trans ?_)
    exact (t.nx.records_deleteByDoc halike.1).symm
  relations := by
    have hnx := t.nx.contents_deleteByDoc halike.2
    rw [NetworkXGraphStore.removedNodes_eq_goneIds halike.1, ← goneIds_congr h.entities] at hnx
    rw [Neo4jGraphStore.contents_deleteByDoc]
    exact (h.relations.filterMap _).trans hnx.symm

/-- An item without source documents stays in the dictionaries and goes from the database. -/
theorem alike_of_same_deleteByDoc {t : GraphTwins G} {docId : String}
    (hsame : Same ⟨t.nx.deleteByDoc docId, Neo4jGraphStore.deleteByDoc docId t.neo4j⟩) :
    t.Alike (.deleteByDoc docId) := by
  have hnot : ¬ OnlyDoc docId [] := fun honly => absurd honly.1 List.not_mem_nil
  constructor
  · intro e he hnil
    have hkept : e.release docId =
        some { e with sourceDocIds := e.sourceDocIds.filter (· ≠ docId) } :=
      Entity.release_eq_some.mpr ⟨hnil ▸ hnot, rfl⟩
    have hmem := (KeyedTable.mem_values_sweep
      (NetworkXGraphStore.release_keepsKey docId)).mpr ⟨e, he, hkept⟩
    obtain ⟨n, hn, hcontent⟩ :=
      List.mem_map.mp (hsame.entities.mem_iff.mpr (List.mem_map_of_mem hmem))
    have hrecord := (Neo4jGraphStore.records_deleteByDoc docId t.neo4j).mem_iff.mp
      (List.mem_map_of_mem hn)
    obtain ⟨x, _, hx⟩ := List.mem_filterMap.mp hrecord
    refine EntityRecord.sourceDocs_of_release hx ?_
    have hdocs : n.content.sourceDocs = (e.sourceDocIds.filter (· ≠ docId)).toFinset :=
      congrArg EntityContent.sourceDocs hcontent
    rw [hnil] at hdocs
    exact hdocs
  · intro r hr hnil
    by_contra hends
    rw [not_or] at hends
    have hkept : r.release (t.nx.removedNodes docId) docId =
        some { r with sourceDocIds := r.sourceDocIds.filter (· ≠ docId) } :=
      Relation.release_eq_some.mpr ⟨⟨hends.1, hends.2, hnil ▸ hnot⟩, rfl⟩
    have hmem := (KeyedTable.mem_values_sweep
      (NetworkXGraphStore.relation_release_keepsKey (t.nx.removedNodes docId) docId)).mpr
        ⟨r, hr, hkept⟩
    have hcontent := hsame.relations.mem_iff.mpr (List.mem_map_of_mem hmem)
    rw [Neo4jGraphStore.contents_deleteByDoc] at hcontent
    obtain ⟨c, _, hc⟩ := List.mem_filterMap.mp hcontent
    refine RelationContent.sourceDocs_of_release hc ?_
    show (r.sourceDocIds.filter (· ≠ docId)).toFinset = ∅
    rw [hnil]
    rfl

/-! ## Calls -/

/-- After a call, the stores hold the same exactly when it is one that they treat alike. -/
theorem same_step_iff {t t' : GraphTwins G} {call : GraphCall} (h : t.Matched)
    (hstep : step store t call = some t') (hpromised : t.Promised call) :
    (t'.Same ↔ t.Alike call) ∧ (t.Alike call → t'.Matched) := by
  obtain ⟨hnx, hneo⟩ := step_eq_some hstep
  cases call with
  | upsertEntities entities =>
    obtain ⟨hok, hs⟩ := Command.completed_eq_some.mp hnx
    obtain ⟨hok', hg⟩ := Neo4jGraphStore.upsertEntities_of_completed hneo
    have hmatched : t'.Matched := by
      refine ⟨?_, ?_⟩
      · rw [hg, ← hs]
        exact records_upsertEntities h.entities hok hok' hpromised
      · rw [hg, ← hs, Neo4jGraphStore.relationships_forEach hok',
          NetworkXGraphStore.relations_upsertEntities]
        exact h.relations
    exact ⟨iff_of_true hmatched.same trivial, fun _ => hmatched⟩
  | upsertRelations relations =>
    obtain ⟨hok, hs⟩ := Command.completed_eq_some.mp hnx
    have hg := Neo4jGraphStore.upsertRelations_of_completed hneo
    obtain ⟨hnodes, hrelationships⟩ :=
      Neo4jGraphStore.foldl_upsertRelation hpromised.1 hpromised.2
    have hentities : t'.nx.entities = t.nx.entities := by
      rw [← hs, NetworkXGraphStore.entities_upsertRelations]
    have hrelations : t'.nx.relations =
        relations.foldl (KeyedTable.merge mergeRelation) t.nx.relations := by
      rw [← hs, NetworkXGraphStore.relations_upsertRelations hok]
    rw [← hg] at hnodes hrelationships
    have hmatched (halike : t.Alike (.upsertRelations relations)) : t'.Matched := by
      refine ⟨?_, ?_⟩
      · rw [hnodes, hentities]
        exact h.entities
      · rw [hrelationships, hrelations]
        exact contents_of_alike h.entities h.relations halike.1 halike.2
    refine ⟨⟨fun hsame => ?_, fun halike => (hmatched halike).same⟩, hmatched⟩
    have hafter := hsame.relations
    rw [hrelationships, hrelations] at hafter
    exact alike_of_contents h.entities h.relations hafter
  | deleteByDoc docId =>
    have hs : t'.nx = t.nx.deleteByDoc docId := (Option.some.inj hnx).symm
    have hg : t'.neo4j = Neo4jGraphStore.deleteByDoc docId t.neo4j := (Option.some.inj hneo).symm
    have ht : t' = ⟨t.nx.deleteByDoc docId, Neo4jGraphStore.deleteByDoc docId t.neo4j⟩ := by
      rw [← hs, ← hg]
    rw [ht]
    exact ⟨⟨alike_of_same_deleteByDoc, fun halike => (matched_deleteByDoc h halike).same⟩,
      matched_deleteByDoc h⟩

theorem matched_fresh (kbId : String) : (fresh kbId : GraphTwins G).Matched :=
  ⟨List.Perm.nil, List.Perm.nil⟩

/-- From empty stores, with calls that keep the promise, the stores hold the same after every call
exactly when every call is one that they treat alike. -/
theorem same_run_iff (store : Neo4jGraphStore) (calls : List GraphCall)
    (hpromised : EveryStep (step store) (fun t call _ => t.Promised call)
      (fresh store.kbId : GraphTwins G) calls) :
    EveryStep (step store) (fun _ _ t' => t'.Same) (fresh store.kbId : GraphTwins G) calls ↔
      EveryStep (step store) (fun t call _ => t.Alike call) (fresh store.kbId : GraphTwins G)
        calls := by
  constructor
  · intro hsame
    refine EveryStep.of_invariant (I := Matched) (fun t call t' h hstep hboth => ?_)
      (matched_fresh store.kbId) (hpromised.and hsame)
    obtain ⟨hiff, hnext⟩ := same_step_iff h hstep hboth.1
    exact ⟨hiff.mp hboth.2, hnext (hiff.mp hboth.2)⟩
  · intro halike
    refine EveryStep.of_invariant (I := Matched) (fun t call t' h hstep hboth => ?_)
      (matched_fresh store.kbId) (hpromised.and halike)
    obtain ⟨hiff, hnext⟩ := same_step_iff h hstep hboth.1
    exact ⟨hiff.mpr hboth.2, hnext hboth.2⟩

def sampleStore : Neo4jGraphStore where
  kbId := "kb"
  violation := fun _ => "Neo.ClientError.Schema.ConstraintValidationFailed"

/-- What building the graph of one document calls. -/
def buildCalls (relationId : String) : List GraphCall :=
  [.upsertEntities [
      { entityId := "ent_a", kbId := "kb", name := "A", nameNorm := "a", type := "ORG"
        description := "", sourceDocIds := ["doc_1"], confidence := 1 },
      { entityId := "ent_b", kbId := "kb", name := "B", nameNorm := "b", type := "ORG"
        description := "", sourceDocIds := ["doc_1"], confidence := 1 }],
    .upsertRelations [
      { relationId := relationId, kbId := "kb", headId := "ent_a", tailId := "ent_b"
        type := "uses", description := "", sourceDocIds := ["doc_1"] }]]

/-- A document is built, deleted and built again. -/
def rebuildCalls : List GraphCall :=
  buildCalls "rel_1" ++ .deleteByDoc "doc_1" :: buildCalls "rel_2"

theorem same_run_rebuildCalls :
    EveryStep (step sampleStore) (fun _ _ t' => t'.Same)
      (fresh "kb" : GraphTwins (EdgeTable Entity Relation)) rebuildCalls :=
  (same_run_iff sampleStore rebuildCalls (by decide)).mpr (by decide)

/-- Built again without being deleted, the document has its relation once in the dictionaries and
twice in the database. -/
theorem not_same_builtTwice :
    EveryStep (step sampleStore) (fun t call _ => t.Promised call)
        (fresh "kb" : GraphTwins (EdgeTable Entity Relation))
        (buildCalls "rel_1" ++ buildCalls "rel_2") ∧
      ∃ t, run (step sampleStore) (fresh "kb" : GraphTwins (EdgeTable Entity Relation))
          (buildCalls "rel_1" ++ buildCalls "rel_2") = some t ∧
        t.nx.relations.values.length = 1 ∧ t.neo4j.relationships.length = 2 ∧ ¬ t.Same := by
  refine ⟨by decide, _, rfl, rfl, rfl, fun h => ?_⟩
  have hlength := h.relations.length_eq
  rw [List.length_map, List.length_map] at hlength
  cases hlength

end GraphTwins

end Ragx
