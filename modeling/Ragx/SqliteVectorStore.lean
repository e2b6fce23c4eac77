import Mathlib.Algebra.Order.Field.Rat
import Mathlib.Data.List.Sort
import Ragx.Models

/-!
# The SQLite vector store

One table per knowledge base. A store value carries the facts that `upsert`
enforces: every row belongs to the store's knowledge base and has a vector of
the store's dimension, and chunk ids are unique. Filters are translated to SQL
tests on columns or on the metadata document; what SQLite makes of one test,
the full-text rank and the floating-point cosine come from outside.
-/
namespace Ragx

/-- Synthetic document id of the semantic cache's vector entries. -/
def cacheDocId : String := "__semantic_cache__"

inductive SqlColumn where
  | column (name : String)
  | jsonExtract (path : String)
deriving DecidableEq, Repr

def realColumns : List String :=
  ["page", "doc_id", "kb_id", "token_count", "version", "edited", "chunk_id"]

def fieldSql (field : String) : SqlColumn :=
  if field ∈ realColumns then .column field else .jsonExtract ("$." ++ field)

/-- One SQL test of a column against bound parameters. -/
structure SqlTest where
  column : SqlColumn
  op : FilterOp
  params : List Json

/-- `float(value)` for numbers (booleans are numbers), any other value unchanged. -/
def asFloat : Json → Json
  | .bool b => .num (if b then 1 else 0)
  | v => v

def clauseSql (clause : FilterClause) : SqlTest where
  column := fieldSql clause.field
  op := clause.op
  params :=
    match clause.op, clause.value with
    | .isIn, .arr values => values
    | .gt, v | .ge, v | .lt, v | .le, v => [asFloat v]
    | _, v => [v]

/-- What the store takes from SQLite and from floating point: whether a row
passes a test (NULL does not), its full-text rank if it matches the query quoted
as a phrase, and the cosine of two vectors. On the text column `doc_id` the `ne` test is string
inequality. -/
structure Sqlite where
  holds : SqlTest → Chunk → Bool
  bm25 : List Chunk → String → Chunk → Option ℚ
  cosine : List ℚ → List ℚ → ℚ
  docId_ne : ∀ value chunk,
    holds ⟨.column "doc_id", .ne, [.str value]⟩ chunk = (chunk.docId != value)

namespace FilterExpr

/-- The WHERE predicate: the `and` group and the `or` group, joined by AND; an
absent or empty group adds nothing. -/
def satisfied (db : Sqlite) (f : FilterExpr) (chunk : Chunk) : Bool :=
  ((f.and_.getD []).all fun clause => db.holds (clauseSql clause) chunk) &&
    ((f.or_.getD []).isEmpty || (f.or_.getD []).any fun clause => db.holds (clauseSql clause) chunk)

end FilterExpr

def satisfiedBy (db : Sqlite) (filter : Option FilterExpr) (chunk : Chunk) : Bool :=
  match filter with
  | none => true
  | some f => f.satisfied db chunk

/-- A table with the invariants its writer enforces. -/
structure SqliteVectorStore where
  kbId : String
  dimension : ℕ
  rows : List EmbeddedChunk
  kb_scoped : ∀ row ∈ rows, row.kbId = kbId
  dimension_eq : ∀ row ∈ rows, row.vector.length = dimension
  ids_nodup : (rows.map fun row => row.chunkId).Nodup

namespace SqliteVectorStore

def chunks (store : SqliteVectorStore) : List Chunk := store.rows.map (·.toChunk)

def supportsBm25 (_ : SqliteVectorStore) : Bool := true

def searchDense (db : Sqlite) (store : SqliteVectorStore) (vector : List ℚ) (topK : ℤ)
    (filter : Option FilterExpr) : Except Exc (List ScoredChunk) :=
  if vector.length ≠ store.dimension then
    .error {
      cls := .pluginContract, code := 9004, message := "query vector dimension mismatch"
      details := [("expected", .num store.dimension), ("got", .num vector.length)] }
  else
    let found := store.rows.filter fun row => satisfiedBy db filter row.toChunk
    let scored := found.map fun row : EmbeddedChunk =>
      ({ chunk := row.toChunk, score := db.cosine vector row.vector, source := .dense } :
        ScoredChunk)
    .ok ((scored.insertionSort fun a b => b.score ≤ a.score).take (max topK 0).toNat)

def searchKeyword (db : Sqlite) (store : SqliteVectorStore) (query : String) (topK : ℤ)
    (filter : Option FilterExpr) : Except Exc (List ScoredChunk) :=
  let matched := store.chunks.filterMap fun chunk =>
    (db.bm25 store.chunks query chunk).map fun rank => (chunk, rank)
  let found := matched.filter fun m => satisfiedBy db filter m.1
  let ranked := (found.insertionSort fun a b => a.2 ≤ b.2).take (max topK 0).toNat
  .ok (ranked.map fun m =>
    { chunk := m.1, score := 1 / (1 + max 0 (-m.2)), source := .bm25 })

/-- A dense search only succeeds with a vector of the store's dimension. -/
theorem length_of_searchDense {db : Sqlite} {store : SqliteVectorStore} {vector : List ℚ}
    {topK : ℤ} {filter : Option FilterExpr} {hits : List ScoredChunk}
    (hs : store.searchDense db vector topK filter = .ok hits) :
    vector.length = store.dimension := by
  unfold searchDense at hs
  split_ifs at hs with hne
  exact not_not.mp hne

/-- Every dense hit is a stored chunk that passes the filter. -/
theorem mem_searchDense {db : Sqlite} {store : SqliteVectorStore} {vector : List ℚ} {topK : ℤ}
    {filter : Option FilterExpr} {hits : List ScoredChunk} {h : ScoredChunk}
    (hs : store.searchDense db vector topK filter = .ok hits) (hm : h ∈ hits) :
    h.chunk ∈ store.chunks ∧ satisfiedBy db filter h.chunk = true := by
  unfold searchDense at hs
  split_ifs at hs
  cases hs
  have hsorted := (List.mem_insertionSort _).mp (List.mem_of_mem_take hm)
  obtain ⟨row, hrow, rfl⟩ := List.mem_map.mp hsorted
  obtain ⟨hstored, hpass⟩ := List.mem_filter.mp hrow
  exact ⟨List.mem_map_of_mem hstored, hpass⟩

/-- Every keyword hit is a stored chunk that passes the filter. -/
theorem mem_searchKeyword {db : Sqlite} {store : SqliteVectorStore} {query : String} {topK : ℤ}
    {filter : Option FilterExpr} {hits : List ScoredChunk} {h : ScoredChunk}
    (hs : store.searchKeyword db query topK filter = .ok hits) (hm : h ∈ hits) :
    h.chunk ∈ store.chunks ∧ satisfiedBy db filter h.chunk = true := by
  cases hs
  obtain ⟨m, hranked, rfl⟩ := List.mem_map.mp hm
  have hfound := (List.mem_insertionSort _).mp (List.mem_of_mem_take hranked)
  obtain ⟨hmatched, hpass⟩ := List.mem_filter.mp hfound
  obtain ⟨chunk, hstored, hrank⟩ := List.mem_filterMap.mp hmatched
  obtain ⟨rank, _, rfl⟩ := Option.map_eq_some_iff.mp hrank
  exact ⟨hstored, hpass⟩

end SqliteVectorStore

end Ragx
