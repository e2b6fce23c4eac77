import Ragx.Neo4jGraphStore
import Ragx.TopRanked

/-!
# Recall from a shared graph database

A store of a graph database first asks the vector index, which knows the entities of all knowledge
bases, and keeps what it answers. Without an answer it compares the entities of its own knowledge
base one by one.
-/
namespace Ragx

/-- The nodes that can be compared with the query: those with a vector of its length. -/
def EntityGraph.comparable (queryVector : List ℚ) (g : EntityGraph) : List Entity :=
  g.nodes.values.filter fun e => !e.vector.isEmpty && e.vector.length == queryVector.length

/-- The vector index of the database. An answer holds the nearest nodes, whatever knowledge base
they belong to; the call may raise, as when no index has the name. -/
structure EntityIndex where
  cosine : List ℚ → List ℚ → ℚ
  queryNodes : EntityGraph → String → ℕ → List ℚ → Except Exc (List Entity)
  nearest : ∀ g name k queryVector nodes, queryNodes g name k queryVector = .ok nodes →
    TopRanked (fun e : Entity => cosine queryVector e.vector) k (g.comparable queryVector) nodes

namespace Neo4jGraphStore

variable (store : Neo4jGraphStore)

def vectorIndex : String := s!"ragx_entity_vec_{store.kbId}"

def bruteMatch (cosine : List ℚ → List ℚ → ℚ) (g : EntityGraph) (queryVector : List ℚ)
    (topK : ℤ) : List Entity :=
  let records := g.nodes.values.filter fun e =>
    e.kbId = store.kbId ∧ e.vector.length = queryVector.length
  let scored := (records.filter fun e =>
    !e.vector.isEmpty && e.vector.length == queryVector.length).map fun e =>
      (cosine queryVector e.vector, e)
  ((scored.insertionSort fun a b => b.1 ≤ a.1).take (max topK 0).toNat).map Prod.snd

def matchEntities (index : EntityIndex) (hasVectorIndex : Bool) (g : EntityGraph)
    (queryVector : List ℚ) (topK : ℤ) : List Entity :=
  if hasVectorIndex then
    match index.queryNodes g store.vectorIndex (max topK 1).toNat queryVector with
    | .ok (node :: nodes) => node :: nodes
    | .ok [] | .error _ => store.bruteMatch index.cosine g queryVector topK
  else store.bruteMatch index.cosine g queryVector topK

/-- The entities of the knowledge base that can be compared with the query. -/
def ownComparable (g : EntityGraph) (queryVector : List ℚ) : List Entity :=
  (g.comparable queryVector).filter fun e => e.kbId = store.kbId

/-- The store finds the most similar entities of its own knowledge base. -/
def RecallsOwn (index : EntityIndex) (hasVectorIndex : Bool) (g : EntityGraph)
    (queryVector : List ℚ) (topK : ℤ) : Prop :=
  TopRanked (fun e : Entity => index.cosine queryVector e.vector) (max topK 0).toNat
    (store.ownComparable g queryVector)
    (store.matchEntities index hasVectorIndex g queryVector topK)

theorem bruteMatch_topRanked (cosine : List ℚ → List ℚ → ℚ) (g : EntityGraph)
    (queryVector : List ℚ) (topK : ℤ) :
    TopRanked (fun e : Entity => cosine queryVector e.vector) (max topK 0).toNat
      (store.ownComparable g queryVector) (store.bruteMatch cosine g queryVector topK) := by
  have hrecords : (g.nodes.values.filter fun e =>
        e.kbId = store.kbId ∧ e.vector.length = queryVector.length).filter
          (fun e => !e.vector.isEmpty && e.vector.length == queryVector.length) =
      store.ownComparable g queryVector := by
    rw [ownComparable, EntityGraph.comparable, List.filter_filter, List.filter_filter]
    refine List.filter_congr fun e _ => ?_
    by_cases hlength : e.vector.length = queryVector.length
    · simp [hlength, Bool.and_comm]
    · simp [hlength]
  have hsorted := TopRanked.sort_take (fun e : Entity => cosine queryVector e.vector)
    (max topK 0).toNat (store.ownComparable g queryVector)
  rw [← hrecords] at hsorted ⊢
  exact hsorted

variable {store}

theorem mem_ownComparable {g : EntityGraph} {queryVector : List ℚ} {e : Entity}
    (h : e ∈ store.ownComparable g queryVector) : e.kbId = store.kbId :=
  of_decide_eq_true (List.mem_filter.mp h).2

/-- A store finds the most similar entities of its own knowledge base exactly when it has no
index, the index raises or finds nothing, or entities are asked for and the nearest ones of the
whole database all belong to the knowledge base. -/
theorem recallsOwn_iff (store : Neo4jGraphStore) (index : EntityIndex) (hasVectorIndex : Bool)
    (g : EntityGraph) (queryVector : List ℚ) (topK : ℤ) :
    store.RecallsOwn index hasVectorIndex g queryVector topK ↔
      (hasVectorIndex = true → ∀ nodes,
        index.queryNodes g store.vectorIndex (max topK 1).toNat queryVector = .ok nodes →
          nodes = [] ∨ 1 ≤ topK ∧ ∀ e ∈ nodes, e.kbId = store.kbId) := by
  have hbrute := store.bruteMatch_topRanked index.cosine g queryVector topK
  unfold RecallsOwn matchEntities
  cases hasVectorIndex with
  | false => exact iff_of_true hbrute (by simp)
  | true =>
    cases hquery : index.queryNodes g store.vectorIndex (max topK 1).toNat queryVector with
    | error e => exact iff_of_true hbrute (by simp)
    | ok nodes =>
      cases nodes with
      | nil => exact iff_of_true hbrute (by simp)
      | cons node nodes =>
        have hnearest := index.nearest _ _ _ _ _ hquery
        constructor
        · intro h _ answer hanswer
          cases hanswer
          refine Or.inr ⟨?_, fun e he => mem_ownComparable (h.mem he)⟩
          by_contra htop
          have hzero : (max topK 0).toNat = 0 := by omega
          rw [hzero] at h
          exact List.cons_ne_nil node nodes h.eq_nil_of_zero
        · intro h
          rcases h rfl _ rfl with hnil | ⟨htop, hown⟩
          · cases hnil
          · have hk : (max topK 1).toNat = (max topK 0).toNat := by omega
            rw [hk] at hnearest
            exact hnearest.filter fun e he => decide_eq_true (hown e he)

/-- An index that sorts the whole database. -/
def fullScan (cosine : List ℚ → List ℚ → ℚ) : EntityIndex where
  cosine := cosine
  queryNodes g _ k queryVector := .ok
    (((((g.comparable queryVector).map fun e => (cosine queryVector e.vector, e)).insertionSort
      fun a b => b.1 ≤ a.1).take k).map Prod.snd)
  nearest := by
    intro g _ k queryVector nodes h
    cases h
    exact TopRanked.sort_take _ k _

def storeOf (kbId : String) : Neo4jGraphStore where
  kbId := kbId
  violation := fun _ => "Neo.ClientError.Schema.ConstraintValidationFailed"

def entityOf (kbId entityId : String) (vector : List ℚ) : Entity where
  entityId := entityId
  kbId := kbId
  name := "A"
  nameNorm := "a"
  type := "ORG"
  description := ""
  sourceDocIds := ["doc_1"]
  confidence := 1
  vector := vector

/-- The similarity of vectors of length one. -/
def dot (a b : List ℚ) : ℚ := (List.zipWith (· * ·) a b).sum

/-- One entity of each of two knowledge bases. -/
def sharedGraph : EntityGraph :=
  ((storeOf "kb_b").upsertEntity (entityOf "kb_b" "ent_b" [1, 0])
    ((storeOf "kb_a").upsertEntity (entityOf "kb_a" "ent_a" [0, 1]) .empty).1).1

/-- The nearest entity belongs to the other knowledge base, and the index finds it. -/
theorem not_recallsOwn_foreign :
    ((storeOf "kb_a").matchEntities (fullScan dot) true sharedGraph [1, 0] 1).map (·.kbId) =
        ["kb_b"] ∧
      ((storeOf "kb_a").matchEntities (fullScan dot) false sharedGraph [1, 0] 1).map (·.kbId) =
        ["kb_a"] ∧
      ¬ (storeOf "kb_a").RecallsOwn (fullScan dot) true sharedGraph [1, 0] 1 := by
  have hforeign : ((storeOf "kb_a").matchEntities (fullScan dot) true sharedGraph [1, 0] 1).map
      (·.kbId) = ["kb_b"] := by decide +kernel
  refine ⟨hforeign, by decide +kernel, fun h => ?_⟩
  obtain ⟨e, he, hkb⟩ := List.mem_map.mp (hforeign ▸ List.mem_singleton.mpr rfl)
  have hown : e.kbId = "kb_a" := mem_ownComparable (h.mem he)
  exact absurd (hkb.symm.trans hown) (by decide)

end Neo4jGraphStore

end Ragx
