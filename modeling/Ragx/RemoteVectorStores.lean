import Ragx.ChunkTable
import Ragx.FilterQueries
import Ragx.FullTextSync

/-!
# The Elasticsearch and Qdrant stores

An index or a collection holds the chunks of the stores that use its name, each under an id made
from the chunk's. It is created by the first upsert, which checks all its chunks before it writes
any. The engines choose the candidates of a search, and the stores score them again.
-/
namespace Ragx

/-- What all vector stores check before they write a chunk. -/
def chunkRefusal (kbId : String) (dimension : ℕ) (chunk : EmbeddedChunk) : Option Exc :=
  OpenVectorStore.refusal ⟨kbId, dimension, "", .empty⟩ chunk

theorem kbId_of_chunkRefusal {kbId : String} {dimension : ℕ} {chunk : EmbeddedChunk}
    (h : chunkRefusal kbId dimension chunk = none) : chunk.kbId = kbId := by
  by_contra hne
  simp [chunkRefusal, OpenVectorStore.refusal, hne] at h

/-- A search: by vector or by text. -/
inductive StoreQuery where
  | dense (vector : List ℚ) (topK : ℤ) (filter : Option FilterExpr)
  | keyword (query : String) (topK : ℤ) (filter : Option FilterExpr)

/-- The documents of an index or a collection that exists. -/
abbrev Documents := Option (OrderedDict String EmbeddedChunk)

def Documents.chunks (docs : Documents) : List EmbeddedChunk :=
  docs.elim [] OrderedDict.values

/-- The chunks are written under their ids, in place of what is there. -/
def Documents.index (key : EmbeddedChunk → String) (chunks : List EmbeddedChunk)
    (docs : OrderedDict String EmbeddedChunk) : OrderedDict String EmbeddedChunk :=
  docs.accumulate key (fun _ chunk => chunk) chunks

/-- A score between zero and one. -/
def clampScore (score : ℚ) : ℚ := max 0 (min 1 score)

def wrongLength (expected : ℕ) (vector : List ℚ) : Exc where
  cls := .pluginContract
  code := 9004
  message := "query vector dimension mismatch"
  details := [("expected", .num expected), ("got", .num vector.length)]

/-- The upsert of both stores: nothing for no chunks, and else the container exists even if a
chunk is refused. -/
def upsertDocuments (key : EmbeddedChunk → String) (kbId : String) (dimension : ℕ)
    (chunks : List EmbeddedChunk) : Command Documents Exc := fun docs =>
  if chunks.isEmpty then (docs, none)
  else
    let existing := docs.getD .empty
    match chunks.findSome? (chunkRefusal kbId dimension) with
    | some e => (some existing, some e)
    | none => (some (Documents.index key chunks existing), none)

/-! ## Elasticsearch -/

/-- What the store takes from Elasticsearch and from floating point: the hits of a query are
documents of the index, with scores. -/
structure EsEngine where
  knn : List EmbeddedChunk → List ℚ → ℤ → ℤ → List EsQuery → ℕ → List (EmbeddedChunk × ℚ)
  matchText : List EmbeddedChunk → String → List EsQuery → ℕ → List (EmbeddedChunk × ℚ)
  cosine : List ℚ → List ℚ → ℚ
  str : FilterSql.PyStr
  mem_of_knn : ∀ docs vector k candidates filter size, ∀ hit ∈ knn docs vector k candidates filter
    size, hit.1 ∈ docs
  mem_of_matchText : ∀ docs query filter size, ∀ hit ∈ matchText docs query filter size,
    hit.1 ∈ docs

namespace EsVectorStore

/-- `{index_prefix}_{kb_id}`. -/
def indexName (indexPrefix kbId : String) : List Char :=
  indexPrefix.toList ++ '_' :: sanitize kbId

variable (engine : EsEngine) (kbId : String) (dimension : ℕ)

def upsert (chunks : List EmbeddedChunk) : Command Documents Exc :=
  upsertDocuments (·.chunkId) kbId dimension chunks

/-- `delete_by_query` on the field `chunk_id`. -/
def delete (chunkIds : List String) (docs : Documents) : Documents :=
  docs.map fun d => d.filterKeys fun id => id ∉ chunkIds

def searchDense (docs : Documents) (vector : List ℚ) (topK : ℤ) (filter : Option FilterExpr) :
    Except Exc (List ScoredChunk) :=
  if vector.length ≠ dimension then .error (wrongLength dimension vector)
  else
    let hits := engine.knn docs.chunks vector (max topK 1) (max (topK * 10) 100)
      (buildFilter engine.str filter) (max topK 0).toNat
    let out := hits.map fun hit =>
      let score :=
        if hit.1.vector ≠ [] ∧ hit.1.vector.length = vector.length then
          engine.cosine vector hit.1.vector
        else max 0 (2 * hit.2 - 1)
      ({ chunk := hit.1.toChunk, score := clampScore score, source := .dense } : ScoredChunk)
    .ok ((out.insertionSort fun a b => b.score ≤ a.score).take (max topK 0).toNat)

def searchKeyword (docs : Documents) (query : String) (topK : ℤ) (filter : Option FilterExpr) :
    Except Exc (List ScoredChunk) :=
  let hits := engine.matchText docs.chunks query (buildFilter engine.str filter) (max topK 0).toNat
  .ok (hits.map fun hit =>
    { chunk := hit.1.toChunk, score := if (0 : ℚ) < hit.2 then hit.2 / (1 + hit.2) else 0,
      source := .bm25 })

def search (docs : Documents) : StoreQuery → Except Exc (List ScoredChunk)
  | .dense vector topK filter => searchDense engine dimension docs vector topK filter
  | .keyword query topK filter => searchKeyword engine docs query topK filter

end EsVectorStore

/-! ## Qdrant -/

/-- What the store takes from Qdrant, from `uuid5` and from floating point. -/
structure QdrantEngine where
  search : List EmbeddedChunk → List ℚ → ℤ → Option QdrantFilter → List (EmbeddedChunk × ℚ)
  uuid5 : String → String
  cosine : List ℚ → List ℚ → ℚ
  str : FilterSql.PyStr
  mem_of_search : ∀ points vector limit filter, ∀ hit ∈ search points vector limit filter,
    hit.1 ∈ points

namespace QdrantVectorStore

def collectionName (collection kbId : String) : List Char :=
  sanitize collection ++ '_' :: sanitize kbId

variable (engine : QdrantEngine) (kbId : String) (dimension : ℕ)

/-- `_point_id`. -/
def pointId (chunkId : String) : String := engine.uuid5 (kbId ++ "/" ++ chunkId)

def upsert (chunks : List EmbeddedChunk) : Command Documents Exc :=
  upsertDocuments (fun chunk => pointId engine kbId chunk.chunkId) kbId dimension chunks

def delete (chunkIds : List String) (docs : Documents) : Documents :=
  let ids := chunkIds.map (pointId engine kbId)
  docs.map fun d => d.filterKeys fun id => id ∉ ids

def searchDense (docs : Documents) (vector : List ℚ) (topK : ℤ) (filter : Option FilterExpr) :
    Except Exc (List ScoredChunk) :=
  if vector.length ≠ dimension then .error (wrongLength dimension vector)
  else
    let hits := engine.search docs.chunks vector (max topK 1) (buildFilter engine.str filter)
    let out := hits.map fun hit =>
      let score :=
        if hit.1.vector ≠ [] ∧ hit.1.vector.length = vector.length then
          engine.cosine vector hit.1.vector
        else hit.2
      ({ chunk := hit.1.toChunk, score := clampScore score, source := .dense } : ScoredChunk)
    .ok ((out.insertionSort fun a b => b.score ≤ a.score).take (max topK 0).toNat)

/-- There is no keyword search. -/
def search (docs : Documents) : StoreQuery → Except Exc (List ScoredChunk)
  | .dense vector topK filter => searchDense engine dimension docs vector topK filter
  | .keyword _ _ _ => .ok []

end QdrantVectorStore

end Ragx
