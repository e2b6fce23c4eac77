import Ragx.GraphDeletion

/-!
# Graphs in files

A store with a path writes all it holds to the file after every operation that returns, and
reads it when it is opened. A file that is not there, or that cannot be read, leaves the new
store empty. The payload says which knowledge base wrote it, and nobody looks.
-/
namespace Ragx

/-- The dictionary that is pickled. -/
structure GraphPayload where
  graph : EdgeTable Entity Relation
  entities : KeyedTable Entity.nameNorm
  relations : KeyedTable Relation.key
  kbId : String

/-- `pickle`, on files of any units: it reads what it wrote, and raises on less. -/
structure Pickle (B : Type) where
  dumps : GraphPayload → List B
  loads : List B → Option GraphPayload
  loads_dumps : ∀ p, loads (dumps p) = some p
  loads_cut : ∀ p cut, cut <+: dumps p → cut ≠ dumps p → loads cut = none

/-- A file of two parts, of which the second is the dictionary. -/
def samplePickle : Pickle (Option GraphPayload) where
  dumps p := [none, some p]
  loads
    | [none, some p] => some p
    | _ => none
  loads_dumps _ := rfl
  loads_cut p cut hcut hne := by
    have hlength : cut.length < 2 :=
      lt_of_le_of_ne hcut.length_le fun h => hne (hcut.eq_of_length h)
    match cut, hlength with
    | [], _ => rfl
    | [none], _ => rfl
    | [some _], _ => rfl

namespace NetworkXGraphStore

def payload (s : PlainGraphStore) : GraphPayload where
  graph := s.graph
  entities := s.entities
  relations := s.relations
  kbId := s.kbId

/-- A graph without nodes counts as none. -/
def ofPayload (kbId : String) (p : GraphPayload) : PlainGraphStore where
  kbId := kbId
  graph := if p.graph.nodes.entries = [] then MultiDiGraph.empty else p.graph
  entities := p.entities
  relations := p.relations

variable {B : Type} (pickle : Pickle B)

/-- The constructor, for the file at its path. -/
def load (kbId : String) (file : Option (List B)) : PlainGraphStore :=
  match file.bind pickle.loads with
  | none => fresh kbId
  | some p => ofPayload kbId p

def dump (s : PlainGraphStore) : List B := pickle.dumps s.payload

end NetworkXGraphStore

/-- An operation that changes the store. -/
inductive GraphWrite where
  | upsertEntities (entities : List Entity)
  | upsertRelations (relations : List Relation)
  | deleteByDoc (docId : String)

namespace GraphWrite

open NetworkXGraphStore

def run : GraphWrite → Command PlainGraphStore Exc
  | .upsertEntities entities => NetworkXGraphStore.upsertEntities entities
  | .upsertRelations relations => NetworkXGraphStore.upsertRelations relations
  | .deleteByDoc docId => fun s => (s.deleteByDoc docId, none)

/-- Every item names a knowledge base. -/
def Labelled : GraphWrite → Prop
  | .upsertEntities entities => ∀ e ∈ entities, e.kbId ≠ ""
  | .upsertRelations relations => ∀ r ∈ relations, r.kbId ≠ ""
  | .deleteByDoc _ => True

instance : DecidablePred Labelled
  | .upsertEntities entities => inferInstanceAs (Decidable (∀ e ∈ entities, e.kbId ≠ ""))
  | .upsertRelations relations => inferInstanceAs (Decidable (∀ r ∈ relations, r.kbId ≠ ""))
  | .deleteByDoc _ => inferInstanceAs (Decidable True)

end GraphWrite

/-! ## What operations keep -/

namespace NetworkXGraphStore

/-- The edges of the graph are between nodes. -/
def Closed (s : PlainGraphStore) : Prop := MultiDiGraph.Closed s.graph

/-- Where `unnamed`, an item that names no knowledge base is of the one it is given to. -/
def OfKb (unnamed : Prop) (kb kbId : String) : Prop := kbId = kb ∨ unnamed ∧ kbId = ""

/-- What the store holds is of its own knowledge base. -/
structure Owned (unnamed : Prop) (kb : String) (s : PlainGraphStore) : Prop where
  kbId : s.kbId = kb
  entities : ∀ e ∈ s.entities.values, OfKb unnamed kb e.kbId
  relations : ∀ r ∈ s.relations.values, OfKb unnamed kb r.kbId

variable {B : Type} {pickle : Pickle B} {s : PlainGraphStore} {unnamed : Prop}
  {kbId : String}

theorem closed_fresh (kbId : String) : Closed (fresh kbId) := MultiDiGraph.closed_empty

theorem owned_fresh (unnamed : Prop) (kbId : String) : Owned unnamed kbId (fresh kbId) := by
  refine ⟨rfl, ?_, ?_⟩
  · intro e he
    cases he
  · intro r hr
    cases hr

/-- A store is read back from its file as it was. -/
theorem load_dump (hs : Closed s) (hkb : s.kbId = kbId) :
    load pickle kbId (some (s.dump pickle)) = s := by
  have hgraph : (if s.graph.nodes.entries = [] then MultiDiGraph.empty else s.graph) = s.graph := by
    split_ifs with hnodes
    · exact (EdgeTable.eq_empty_of_closed hs hnodes).symm
    · rfl
  simp only [load, dump, Option.bind_some, pickle.loads_dumps]
  obtain ⟨kbId', graph, entities, relations⟩ := s
  cases hkb
  simp only [ofPayload, payload]
  congr 1

/-- Nothing is read from a file that was cut short. -/
theorem load_cut {cut : List B} (hcut : cut <+: s.dump pickle) (hne : cut ≠ s.dump pickle) :
    load pickle kbId (some cut) = fresh kbId := by
  simp only [load, Option.bind_some, pickle.loads_cut _ _ hcut hne]

theorem closed_run (hs : Closed s) (w : GraphWrite) : Closed (w.run s).1 := by
  cases w with
  | upsertEntities entities =>
    refine Command.forEach_invariant (I := Closed) (fun e _ s hs => ?_) hs
    rcases upsertEntity_cases s e with ⟨_, h⟩ | ⟨_, _, h⟩ | ⟨_, _, _, _, h⟩ | ⟨_, _, _, h⟩
    · rw [h]
      exact hs
    · rw [h]
      exact hs.addNode e.entityId e
    · rw [h]
      exact hs.addNode e.entityId _
    · rw [h]
      exact hs
  | upsertRelations relations =>
    refine Command.forEach_invariant (I := Closed) (fun r _ s hs => ?_) hs
    rcases upsertRelation_cases s r with ⟨_, h⟩ | ⟨_, _, h⟩ | ⟨_, _, h⟩
    · rw [h]
      exact hs
    · rw [h]
      exact hs.addEdge r.headId r.tailId r.relationId r
    · rw [h]
      exact hs
  | deleteByDoc docId => exact hs.foldl_discardNode (s.removedNodes docId)

theorem ofKb_of_accepts {id : String} (hs : s.kbId = kbId) (hid : s.Accepts id)
    (hunnamed : id = "" → unnamed) : OfKb unnamed kbId id := by
  rcases hid with hempty | hsame
  · exact Or.inr ⟨hunnamed hempty, hempty⟩
  · exact Or.inl (hsame.trans hs)

theorem owned_upsertEntity {e : Entity} (hs : Owned unnamed kbId s) (he : e.kbId = "" → unnamed) :
    Owned unnamed kbId (upsertEntity e s).1 := by
  by_cases hkb : s.Accepts e.kbId
  · refine ⟨(kbId_upsertEntity s e).trans hs.kbId, ?_, ?_⟩
    · rw [entities_upsertEntity hkb]
      refine KeyedTable.forall_values_merge mergeEntity_keepsKey hs.entities ?_
      cases hget : s.entities.get? e.nameNorm with
      | none => exact ofKb_of_accepts hs.kbId hkb he
      | some existing => exact hs.entities existing (KeyedTable.mem_values_of_get? hget)
    · rw [relations_upsertEntity]
      exact hs.relations
  · rw [upsertEntity, if_neg hkb]
    exact hs

theorem owned_upsertRelation {r : Relation} (hs : Owned unnamed kbId s)
    (hr : r.kbId = "" → unnamed) :
    Owned unnamed kbId (upsertRelation r s).1 := by
  by_cases hkb : s.Accepts r.kbId
  · refine ⟨(kbId_upsertRelation s r).trans hs.kbId, ?_, ?_⟩
    · rw [entities_upsertRelation]
      exact hs.entities
    · rw [relations_upsertRelation hkb]
      refine KeyedTable.forall_values_merge mergeRelation_keepsKey hs.relations ?_
      cases hget : s.relations.get? r.key with
      | none => exact ofKb_of_accepts hs.kbId hkb hr
      | some existing => exact hs.relations existing (KeyedTable.mem_values_of_get? hget)
  · rw [upsertRelation, if_neg hkb]
    exact hs

theorem owned_run (hs : Owned unnamed kbId s) {w : GraphWrite} (hw : ¬ w.Labelled → unnamed) :
    Owned unnamed kbId (w.run s).1 := by
  cases w with
  | upsertEntities entities =>
    exact Command.forEach_invariant (I := Owned unnamed kbId)
      (fun e he _ hs => owned_upsertEntity hs fun h => hw fun hall => hall e he h) hs
  | upsertRelations relations =>
    exact Command.forEach_invariant (I := Owned unnamed kbId)
      (fun r hr _ hs => owned_upsertRelation hs fun h => hw fun hall => hall r hr h) hs
  | deleteByDoc docId =>
    refine ⟨hs.kbId, fun e he => ?_, fun r hr => ?_⟩
    · obtain ⟨e₀, he₀, _, rfl⟩ := mem_entities_deleteByDoc.mp he
      exact hs.entities e₀ he₀
    · obtain ⟨r₀, hr₀, _, rfl⟩ := mem_relations_deleteByDoc.mp hr
      exact hs.relations r₀ hr₀

theorem kbId_run (s : PlainGraphStore) (w : GraphWrite) : (w.run s).1.kbId = s.kbId := by
  cases w with
  | upsertEntities entities =>
    exact Command.forEach_invariant (I := fun t : PlainGraphStore => t.kbId = s.kbId)
      (fun e _ t ht => (kbId_upsertEntity t e).trans ht) rfl
  | upsertRelations relations =>
    exact Command.forEach_invariant (I := fun t : PlainGraphStore => t.kbId = s.kbId)
      (fun r _ t ht => (kbId_upsertRelation t r).trans ht) rfl
  | deleteByDoc docId => rfl

end NetworkXGraphStore

end Ragx
