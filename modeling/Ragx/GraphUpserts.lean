import Ragx.NetworkXGraphStore

/-!
# Upserting a batch of entities

An upsert looks an entity up by its normalized name and updates the node with its id. The
call raises at the first entity whose name is known and whose id is no node. The main
result says for which batches it goes through, and that it then merges by name.
-/
namespace Ragx

/-- What merging entities by name makes of the parts of one entry. -/
structure MergedFrom (parts : List Entity) (e : Entity) : Prop where
  docs : ∀ d, d ∈ e.sourceDocIds ↔ ∃ p ∈ parts, d ∈ p.sourceDocIds
  confidence_le : ∀ p ∈ parts, p.confidence ≤ e.confidence
  confidence_mem : ∃ p ∈ parts, p.confidence = e.confidence
  description_le : ∀ p ∈ parts, p.description.length ≤ e.description.length
  description_mem : ∃ p ∈ parts, p.description = e.description

theorem mergedFrom_singleton (e : Entity) : MergedFrom [e] e where
  docs := by simp
  confidence_le := by simp
  confidence_mem := by simp
  description_le := by simp
  description_mem := by simp

theorem MergedFrom.concat {parts : List Entity} {e : Entity} (h : MergedFrom parts e)
    (entity : Entity) : MergedFrom (parts ++ [entity]) (mergeEntity (some e) entity) where
  docs := by
    intro d
    rw [mergeEntity, mem_sortedUnion, h.docs]
    simp [or_and_right, exists_or]
  confidence_le := by
    intro p hp
    rcases List.mem_append.mp hp with hp | hp
    · exact (h.confidence_le p hp).trans (le_max_left _ _)
    · rw [List.mem_singleton.mp hp]
      exact le_max_right _ _
  confidence_mem := by
    obtain ⟨p, hp, heq⟩ := h.confidence_mem
    rcases max_choice e.confidence entity.confidence with hmax | hmax
    · exact ⟨p, List.mem_append_left _ hp, heq.trans hmax.symm⟩
    · exact ⟨entity, List.mem_append_right _ (List.mem_singleton.mpr rfl), hmax.symm⟩
  description_le := by
    intro p hp
    have hlong := longerText_length e.description entity.description
    rcases List.mem_append.mp hp with hp | hp
    · exact (h.description_le p hp).trans hlong.1
    · rw [List.mem_singleton.mp hp]
      exact hlong.2
  description_mem := by
    obtain ⟨p, hp, heq⟩ := h.description_mem
    rcases longerText_eq_or e.description entity.description with hd | hd
    · exact ⟨p, List.mem_append_left _ hp, heq.trans hd.symm⟩
    · exact ⟨entity, List.mem_append_right _ (List.mem_singleton.mpr rfl), hd.symm⟩

/-- Folding the merge over the parts of an entry. -/
theorem mergedFrom_foldl (stored : Option Entity) (es : List Entity) :
    (es.foldl (fun old e => some (mergeEntity old e)) stored = none ∧ stored.toList ++ es = []) ∨
      ∃ e, es.foldl (fun old e => some (mergeEntity old e)) stored = some e ∧
        MergedFrom (stored.toList ++ es) e := by
  induction es using List.reverseRecOn with
  | nil =>
    cases stored with
    | none => exact Or.inl ⟨rfl, rfl⟩
    | some e => exact Or.inr ⟨e, rfl, mergedFrom_singleton e⟩
  | append_singleton es entity ih =>
    rw [List.foldl_append, ← List.append_assoc]
    rcases ih with ⟨hnone, hnil⟩ | ⟨e, he, hmerged⟩
    · rw [hnone, hnil]
      exact Or.inr ⟨entity, rfl, mergedFrom_singleton entity⟩
    · rw [he]
      exact Or.inr ⟨_, rfl, hmerged.concat entity⟩

namespace NetworkXGraphStore

variable {G : Type} [MultiDiGraph G Entity Relation]

open MultiDiGraph

/-- Every entity whose name is stored, or carried by an earlier entity of the batch, when
its turn comes has the id of a node: one of the graph, or one that the batch brought. -/
def Addressable (s : NetworkXGraphStore G) (es : List Entity) : Prop :=
  ∀ before e after, es = before ++ e :: after →
    e.nameNorm ∈ s.entities.keys ∨ e.nameNorm ∈ before.map (·.nameNorm) →
      HasNode s.graph e.entityId ∨
        e.entityId ∈
          (KeyedTable.newcomers Entity.nameNorm s.entities.keys before).map (·.entityId)

theorem addressable_concat {s : NetworkXGraphStore G} {es : List Entity} {e : Entity} :
    s.Addressable (es ++ [e]) ↔ s.Addressable es ∧
      (e.nameNorm ∈ s.entities.keys ∨ e.nameNorm ∈ es.map (·.nameNorm) →
        HasNode s.graph e.entityId ∨ e.entityId ∈
          (KeyedTable.newcomers Entity.nameNorm s.entities.keys es).map (·.entityId)) := by
  constructor
  · intro h
    refine ⟨fun before e' after hes => ?_, h es e [] rfl⟩
    exact h before e' (after ++ [e]) (by rw [hes, List.append_assoc, List.cons_append])
  · rintro ⟨hes, hlast⟩ before e' after heq
    rcases List.eq_nil_or_concat' after with rfl | ⟨after', e'', rfl⟩
    · obtain ⟨rfl, he⟩ := List.append_inj' heq rfl
      cases he
      exact hlast
    · rw [← List.cons_append, ← List.append_assoc] at heq
      exact hes before e' after' (List.append_inj' heq rfl).1

theorem upsertEntities_concat_raised {s : NetworkXGraphStore G} {es : List Entity} {e : Entity} :
    (upsertEntities (es ++ [e]) s).2 = none ↔
      (upsertEntities es s).2 = none ∧ (upsertEntity e (upsertEntities es s).1).2 = none :=
  Command.forEach_concat_raised_eq_none

theorem kbId_upsertEntities (s : NetworkXGraphStore G) (es : List Entity) :
    (upsertEntities es s).1.kbId = s.kbId := by
  unfold upsertEntities
  exact Command.forEach_invariant (I := fun t : NetworkXGraphStore G => t.kbId = s.kbId)
    (fun e _ t ht => (kbId_upsertEntity t e).trans ht) rfl

theorem relations_upsertEntities (s : NetworkXGraphStore G) (es : List Entity) :
    (upsertEntities es s).1.relations = s.relations := by
  unfold upsertEntities
  exact Command.forEach_invariant (I := fun t : NetworkXGraphStore G => t.relations = s.relations)
    (fun e _ t ht => (relations_upsertEntity t e).trans ht) rfl

/-- A successful call has merged every entity into the dictionary. -/
theorem entities_upsertEntities {s : NetworkXGraphStore G} {es : List Entity}
    (hok : (upsertEntities es s).2 = none) :
    (upsertEntities es s).1.entities = es.foldl (KeyedTable.merge mergeEntity) s.entities :=
  Command.forEach_view_of_none (fun t : NetworkXGraphStore G => t.entities)
    (fun _ _ _ h => entities_upsertEntity (upsertEntity_raised_eq_none.mp h).1) hok

theorem mem_keys_upsertEntities {s : NetworkXGraphStore G} {es : List Entity} {name : String}
    (hok : (upsertEntities es s).2 = none) :
    name ∈ (upsertEntities es s).1.entities.keys ↔
      name ∈ s.entities.keys ∨ name ∈ es.map (·.nameNorm) := by
  rw [entities_upsertEntities hok]
  exact KeyedTable.mem_keys_foldl_merge mergeEntity_keepsKey

/-- A successful call adds the nodes of the entities that are the first with their name. -/
theorem hasNode_upsertEntities {s : NetworkXGraphStore G} {es : List Entity} {n : String}
    (hok : (upsertEntities es s).2 = none) :
    HasNode (upsertEntities es s).1.graph n ↔ HasNode s.graph n ∨
      n ∈ (KeyedTable.newcomers Entity.nameNorm s.entities.keys es).map (·.entityId) := by
  induction es using List.reverseRecOn with
  | nil => exact ⟨Or.inl, fun h => h.resolve_right List.not_mem_nil⟩
  | append_singleton es e ih =>
    obtain ⟨hes, he⟩ := upsertEntities_concat_raised.mp hok
    have hlast : (upsertEntities (es ++ [e]) s).1 = (upsertEntity e (upsertEntities es s).1).1 :=
      Command.forEach_concat_of_none hes
    rw [hlast, hasNode_upsertEntity he, ih hes, KeyedTable.get?_eq_none,
      mem_keys_upsertEntities hes, KeyedTable.newcomers_concat]
    split_ifs with hknown
    · exact ⟨fun h => h.resolve_right fun hnew => hnew.1 hknown, Or.inl⟩
    · rw [List.map_append, List.mem_append, List.map_singleton, List.mem_singleton, or_assoc]
      exact or_congr_right (or_congr_right (and_iff_right hknown))

/-- When a batch is written to its end. -/
theorem upsertEntities_raised_eq_none {s : NetworkXGraphStore G} {es : List Entity} :
    (upsertEntities es s).2 = none ↔ (∀ e ∈ es, s.Accepts e.kbId) ∧ s.Addressable es := by
  induction es using List.reverseRecOn with
  | nil =>
    refine iff_of_true rfl ⟨fun e he => absurd he List.not_mem_nil, fun before e after h => ?_⟩
    exact absurd h.symm (by simp)
  | append_singleton es e ih =>
    rw [upsertEntities_concat_raised, addressable_concat, List.forall_mem_append,
      List.forall_mem_singleton]
    constructor
    · rintro ⟨hes, he⟩
      obtain ⟨hkbs, hids⟩ := ih.mp hes
      obtain ⟨hkb, hid⟩ := upsertEntity_raised_eq_none.mp he
      rw [Accepts, kbId_upsertEntities] at hkb
      refine ⟨⟨hkbs, hkb⟩, hids, fun hknown => (hasNode_upsertEntities hes).mp (hid ?_)⟩
      exact KeyedTable.isSome_get?.mpr ((mem_keys_upsertEntities hes).mpr hknown)
    · rintro ⟨⟨hkbs, hkb⟩, hids, hid⟩
      have hes := ih.mpr ⟨hkbs, hids⟩
      refine ⟨hes, upsertEntity_raised_eq_none.mpr ⟨?_, fun hknown => ?_⟩⟩
      · rw [Accepts, kbId_upsertEntities]
        exact hkb
      · refine (hasNode_upsertEntities hes).mpr (hid ?_)
        exact (mem_keys_upsertEntities hes).mp (KeyedTable.isSome_get?.mp hknown)

/-! ## All or nothing -/

/-- The stored entity with the name, followed by those of the batch. -/
def contributions (s : NetworkXGraphStore G) (es : List Entity) (name : String) : List Entity :=
  (s.entities.get? name).toList ++ es.filter fun e => decide (e.nameNorm = name)

/-- A name has an entry exactly when something contributes to it, and then one entry, with
everything that contributes. -/
def MergedByName (s : NetworkXGraphStore G) (es : List Entity) (s' : NetworkXGraphStore G) :
    Prop :=
  (s'.entities.values.map (·.nameNorm)).Nodup ∧ ∀ name,
    (s'.entities.get? name = none ∧ s.contributions es name = []) ∨
      ∃ e, s'.entities.get? name = some e ∧ MergedFrom (s.contributions es name) e

theorem mergedByName_upsertEntities {s : NetworkXGraphStore G} {es : List Entity}
    (hok : (upsertEntities es s).2 = none) : s.MergedByName es (upsertEntities es s).1 := by
  refine ⟨KeyedTable.values_nodup _, fun name => ?_⟩
  rw [entities_upsertEntities hok, KeyedTable.get?_foldl_merge mergeEntity_keepsKey]
  exact mergedFrom_foldl (s.entities.get? name) _

/-- The call succeeds and merges, and if it raised it would leave everything as it was. -/
structure UpsertTotal (s : NetworkXGraphStore G) (es : List Entity) : Prop where
  succeeds : (upsertEntities es s).2 = none
  merges : s.MergedByName es (upsertEntities es s).1
  atomic : (upsertEntities es s).2 ≠ none → (upsertEntities es s).1 = s

theorem upsertTotal_iff (s : NetworkXGraphStore G) (es : List Entity)
    (hkb : ∀ e ∈ es, e.kbId = s.kbId) : s.UpsertTotal es ↔ s.Addressable es := by
  have hok : (upsertEntities es s).2 = none ↔ s.Addressable es :=
    upsertEntities_raised_eq_none.trans (and_iff_right fun e he => Or.inr (hkb e he))
  constructor
  · exact fun h => hok.mp h.succeeds
  · intro h
    have hnone := hok.mpr h
    exact ⟨hnone, mergedByName_upsertEntities hnone, fun hne => absurd hnone hne⟩

/-- One name from one document, under an id of the caller's choice. -/
def sampleEntity (entityId docId : String) : Entity where
  entityId := entityId
  kbId := "kb"
  name := "Ada"
  nameNorm := "ada"
  type := "PERSON"
  description := ""
  sourceDocIds := [docId]
  confidence := 1

/-- A name may come twice under one id. -/
theorem upsertTotal_sample : UpsertTotal (fresh "kb" : PlainGraphStore)
    [sampleEntity "ent_1" "doc_1", sampleEntity "ent_1" "doc_2"] := by
  refine (upsertTotal_iff _ _ fun e he => ?_).mpr ?_
  · rcases List.mem_cons.mp he with rfl | he
    · rfl
    · rw [List.mem_singleton.mp he]
      rfl
  · have hfirst : Addressable (fresh "kb" : PlainGraphStore)
        ([] ++ [sampleEntity "ent_1" "doc_1"]) := by
      refine addressable_concat.mpr ⟨fun before e after h => ?_, fun h => ?_⟩
      · exact absurd h.symm (by simp)
      · exact absurd h (by decide)
    show Addressable _ (([] ++ [sampleEntity "ent_1" "doc_1"]) ++ [sampleEntity "ent_1" "doc_2"])
    exact addressable_concat.mpr ⟨hfirst, fun _ => Or.inr (List.mem_singleton.mpr rfl)⟩

/-- The second entity has no node, and the first one stays. -/
theorem not_upsertTotal_sample :
    let batch := [sampleEntity "ent_1" "doc_1", sampleEntity "ent_2" "doc_2"]
    let result := upsertEntities batch (fresh "kb" : PlainGraphStore)
    (∀ e ∈ batch, e.kbId = (fresh "kb" : PlainGraphStore).kbId) ∧
      ¬ UpsertTotal (fresh "kb" : PlainGraphStore) batch ∧
      result.2 = some (keyError "ent_2") ∧
      result.1.entities.values.map (·.sourceDocIds) = [["doc_1", "doc_2"]] := by
  have hraised : (upsertEntities [sampleEntity "ent_1" "doc_1", sampleEntity "ent_2" "doc_2"]
      (fresh "kb" : PlainGraphStore)).2 = some (keyError "ent_2") := rfl
  refine ⟨by simp [sampleEntity, fresh], fun h => ?_, hraised, by decide +kernel⟩
  exact Option.some_ne_none _ (hraised.symm.trans h.succeeds)

end NetworkXGraphStore

end Ragx
