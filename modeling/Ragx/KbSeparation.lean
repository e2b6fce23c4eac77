import Ragx.App
import Ragx.ChunkContents
import Ragx.RemoteVectorStores
import Ragx.SharedContainers

/-!
# Knowledge bases in one database

Stores of one backend with the same settings share a database, and only the name that a store
makes of its knowledge base keeps them apart. Names that differ keep the stores separate in every
run. The names are made by replacing characters, so different knowledge bases can have the same
one.
-/
namespace Ragx

/-- The settings of the stores, and what they take from outside. -/
structure SharedSettings where
  dimension : ℕ
  path : String
  indexPrefix : String
  collection : String
  codecs : ColumnCodecs
  sqlite : Sqlite
  fullText : FullTextEngine
  es : EsEngine
  qdrant : QdrantEngine

inductive VectorBackend where
  | sqlite | es | qdrant
deriving DecidableEq, Repr

namespace VectorBackend

/-- A table with its index, or the documents. -/
@[reducible] def Container : VectorBackend → Type
  | .sqlite => ChunkTable
  | .es => Documents
  | .qdrant => Documents

def fresh : (b : VectorBackend) → b.Container
  | .sqlite => .empty
  | .es => none
  | .qdrant => none

/-- The tables of a SQLite store: its chunks, their full-text index, and what the index keeps its
data in. SQLite does not tell cases apart in names. -/
def sqliteNames (kbId : String) : List (List Char) :=
  ["", "_fts", "_fts_data", "_fts_idx", "_fts_docsize", "_fts_config"].map fun suffix =>
    (FilterSql.tableName kbId ++ suffix.toList).map Char.toLower

/-- The stores of two knowledge bases have no name in common. -/
def Apart : VectorBackend → String → String → Prop
  | .sqlite, a, b => ∀ name ∈ sqliteNames a, name ∉ sqliteNames b
  | .es, a, b => sanitize a ≠ sanitize b
  | .qdrant, a, b => sanitize a ≠ sanitize b

instance (b : VectorBackend) (x y : String) : Decidable (b.Apart x y) :=
  match b with
  | .sqlite => inferInstanceAs (Decidable (∀ name ∈ sqliteNames x, name ∉ sqliteNames y))
  | .es => inferInstanceAs (Decidable (sanitize x ≠ sanitize y))
  | .qdrant => inferInstanceAs (Decidable (sanitize x ≠ sanitize y))

/-- Everything in the container belongs to the knowledge base. -/
def Owned (kbId : String) : (b : VectorBackend) → b.Container → Prop
  | .sqlite, t => ∀ row ∈ t.rows.values, row.kbId = kbId
  | .es, docs => ∀ chunk ∈ Documents.chunks docs, chunk.kbId = kbId
  | .qdrant, docs => ∀ chunk ∈ Documents.chunks docs, chunk.kbId = kbId

end VectorBackend

namespace SharedSettings

variable (env : SharedSettings)

def name : VectorBackend → String → List Char
  | .sqlite, kbId => FilterSql.tableName kbId
  | .es, kbId => EsVectorStore.indexName env.indexPrefix kbId
  | .qdrant, kbId => QdrantVectorStore.collectionName env.collection kbId

/-- The container after a call, whether or not it raises. -/
def write (kbId : String) (w : StoreWrite) : (b : VectorBackend) → b.Container → b.Container
  | .sqlite, t => (OpenVectorStore.apply env.codecs ⟨kbId, env.dimension, env.path, t⟩ w).table
  | .es, docs =>
    match w with
    | .upsert chunks => (EsVectorStore.upsert kbId env.dimension chunks docs).1
    | .delete chunkIds => EsVectorStore.delete chunkIds docs
  | .qdrant, docs =>
    match w with
    | .upsert chunks => (QdrantVectorStore.upsert env.qdrant kbId env.dimension chunks docs).1
    | .delete chunkIds => QdrantVectorStore.delete env.qdrant kbId chunkIds docs

def searchSqlite (s : OpenVectorStore) : StoreQuery → Except Exc (List ScoredChunk)
  | .dense vector topK filter => s.searchDense env.codecs env.sqlite vector topK filter
  | .keyword query topK filter =>
    s.searchKeyword env.codecs env.sqlite env.fullText query topK filter

def search (kbId : String) (query : StoreQuery) :
    (b : VectorBackend) → b.Container → Except Exc (List ScoredChunk)
  | .sqlite, t => env.searchSqlite ⟨kbId, env.dimension, env.path, t⟩ query
  | .es, docs => EsVectorStore.search env.es env.dimension docs query
  | .qdrant, docs => QdrantVectorStore.search env.qdrant env.dimension docs query

def stores (b : VectorBackend) : ContainerStore String (List Char) StoreWrite b.Container where
  name := env.name b
  write kbId w := env.write kbId w b

/-- What a store's search returns in a database. -/
def searchIn (b : VectorBackend) (db : List Char → b.Container) (kbId : String)
    (query : StoreQuery) : Except Exc (List ScoredChunk) :=
  env.search kbId query b (db (env.name b kbId))

/-- The database after calls to stores of one backend, from an empty one. -/
def runCalls (b : VectorBackend) (calls : List (String × StoreWrite)) : List Char → b.Container :=
  (env.stores b).run (fun _ => b.fresh) calls

variable {env}

theorem name_ne {b : VectorBackend} {x y : String} (h : b.Apart x y) :
    env.name b y ≠ env.name b x := by
  intro hname
  cases b with
  | sqlite =>
    have hsame : FilterSql.tableName y = FilterSql.tableName x := hname
    have hmem : (FilterSql.tableName x).map Char.toLower ∈ VectorBackend.sqliteNames x := by
      simp [VectorBackend.sqliteNames]
    have hmem' : (FilterSql.tableName x).map Char.toLower ∈ VectorBackend.sqliteNames y := by
      simp [VectorBackend.sqliteNames, hsame]
    exact h _ hmem hmem'
  | es =>
    have hsame : env.indexPrefix.toList ++ '_' :: sanitize y =
        env.indexPrefix.toList ++ '_' :: sanitize x := hname
    exact h (List.cons.inj (List.append_cancel_left hsame)).2.symm
  | qdrant =>
    have hsame : sanitize env.collection ++ '_' :: sanitize y =
        sanitize env.collection ++ '_' :: sanitize x := hname
    exact h (List.cons.inj (List.append_cancel_left hsame)).2.symm

/-! ## What a container holds -/

theorem mem_values_insert {α : Type*} {d : OrderedDict String α} {k : String} {v x : α}
    (h : x ∈ (d.insert k v).values) : x = v ∨ x ∈ d.values := by
  rcases d.values_insert_cases k v with ⟨_, hvalues⟩ | ⟨front, old, back, _, hold, hvalues⟩
  · rw [hvalues, List.mem_append, List.mem_singleton] at h
    exact h.symm
  · rw [hvalues, List.mem_append, List.mem_cons] at h
    rw [hold, List.mem_append, List.mem_cons]
    rcases h with hfront | rfl | hback
    · exact Or.inr (Or.inl hfront)
    · exact Or.inl rfl
    · exact Or.inr (Or.inr (Or.inr hback))

theorem mem_values_filterKeys {α : Type*} {d : OrderedDict String α} {p : String → Bool} {x : α}
    (h : x ∈ (d.filterKeys p).values) : x ∈ d.values := by
  obtain ⟨e, he, rfl⟩ := List.mem_map.mp h
  exact List.mem_map_of_mem (List.mem_filter.mp he).1

theorem owned_tableWrite {kbId : String} {t : ChunkTable}
    (h : ∀ row ∈ t.rows.values, row.kbId = kbId) {chunk : EmbeddedChunk}
    (hchunk : chunk.kbId = kbId) :
    ∀ row ∈ (t.write env.codecs chunk).rows.values, row.kbId = kbId := by
  intro row hrow
  rcases ChunkTable.write_cases env.codecs chunk t with ⟨_, hwrite⟩ | ⟨old, hget, hwrite⟩
  · rw [hwrite] at hrow
    rcases mem_values_insert hrow with rfl | hmem
    · exact hchunk
    · exact h row hmem
  · rw [hwrite] at hrow
    rcases mem_values_insert hrow with rfl | hmem
    · -- the row keeps the knowledge base that it has
      exact h old (List.mem_map_of_mem (OrderedDict.mem_entries.mpr hget))
    · exact h row hmem

theorem owned_sqliteApply {s : OpenVectorStore} (h : ∀ row ∈ s.table.rows.values, row.kbId = s.kbId)
    (w : StoreWrite) :
    ∀ row ∈ (s.apply env.codecs w).table.rows.values, row.kbId = s.kbId := by
  cases w with
  | upsert chunks =>
    have hone : ∀ chunk ∈ chunks, ∀ t : OpenVectorStore,
        (t.kbId = s.kbId ∧ ∀ row ∈ t.table.rows.values, row.kbId = s.kbId) →
          (t.upsertOne env.codecs chunk).1.kbId = s.kbId ∧
            ∀ row ∈ (t.upsertOne env.codecs chunk).1.table.rows.values, row.kbId = s.kbId := by
      rintro chunk _ t ⟨hkb, ht⟩
      unfold OpenVectorStore.upsertOne
      cases hrefusal : t.refusal chunk with
      | some e => exact ⟨hkb, ht⟩
      | none =>
        have hchunk := (kbId_of_chunkRefusal hrefusal).trans hkb
        exact ⟨hkb, owned_tableWrite ht hchunk⟩
    exact (Command.forEach_invariant hone ⟨rfl, h⟩).2
  | delete chunkIds =>
    show ∀ row ∈ (chunkIds.foldl (fun t id => t.deleteRow id) s.table).rows.values,
      row.kbId = s.kbId
    generalize s.table = t at h
    induction chunkIds generalizing t with
    | nil => exact h
    | cons id ids ih => exact ih (t.deleteRow id) fun row hrow => h row (mem_values_filterKeys hrow)

theorem owned_upsertDocuments {key : EmbeddedChunk → String} {kbId : String} {dimension : ℕ}
    {docs : Documents} (h : ∀ chunk ∈ docs.chunks, chunk.kbId = kbId)
    (chunks : List EmbeddedChunk) :
    ∀ chunk ∈ Documents.chunks (upsertDocuments key kbId dimension chunks docs).1,
      chunk.kbId = kbId := by
  have hexisting : ∀ chunk ∈ (docs.getD .empty).values, chunk.kbId = kbId := by
    cases docs with
    | none => simp [OrderedDict.values, OrderedDict.empty]
    | some d => exact h
  unfold upsertDocuments
  split_ifs with hempty
  · exact h
  · cases hfirst : chunks.findSome? (chunkRefusal kbId dimension) with
    | some e => exact hexisting
    | none =>
      have hall := List.findSome?_eq_none_iff.mp hfirst
      show ∀ chunk ∈ ((docs.getD .empty).accumulate key (fun _ chunk => chunk) chunks).values,
        chunk.kbId = kbId
      clear hempty hfirst
      induction chunks using List.reverseRecOn with
      | nil => exact hexisting
      | append_singleton chunks chunk ih =>
        intro x hx
        rw [OrderedDict.accumulate_append] at hx
        rcases mem_values_insert hx with rfl | hmem
        · exact kbId_of_chunkRefusal (hall x (by simp))
        · exact ih (fun y hy => hall y (List.mem_append_left _ hy)) x hmem

theorem owned_filterDocuments {kbId : String} {docs : Documents} {p : String → Bool}
    (h : ∀ chunk ∈ docs.chunks, chunk.kbId = kbId) :
    ∀ chunk ∈ Documents.chunks (docs.map fun d => d.filterKeys p), chunk.kbId = kbId := by
  cases docs with
  | none => exact h
  | some d => exact fun chunk hchunk => h chunk (mem_values_filterKeys hchunk)

/-- A write keeps foreign chunks out. -/
theorem owned_write {b : VectorBackend} {kbId : String} {c : b.Container} (h : b.Owned kbId c)
    (w : StoreWrite) : b.Owned kbId (env.write kbId w b c) := by
  cases b with
  | sqlite => exact owned_sqliteApply (s := ⟨kbId, env.dimension, env.path, c⟩) h w
  | es =>
    cases w with
    | upsert chunks => exact owned_upsertDocuments h chunks
    | delete chunkIds => exact owned_filterDocuments h
  | qdrant =>
    cases w with
    | upsert chunks => exact owned_upsertDocuments h chunks
    | delete chunkIds => exact owned_filterDocuments h

/-! ## What a search returns -/

theorem owned_searchSqlite {s : OpenVectorStore}
    (h : ∀ row ∈ s.table.rows.values, row.kbId = s.kbId) {query : StoreQuery}
    {hits : List ScoredChunk} (hs : env.searchSqlite s query = .ok hits) :
    ∀ hit ∈ hits, hit.chunk.kbId = s.kbId := by
  intro hit hmem
  cases query with
  | dense vector topK filter =>
    have hdense : s.searchDense env.codecs env.sqlite vector topK filter = .ok hits := hs
    unfold OpenVectorStore.searchDense at hdense
    split_ifs at hdense
    cases hdense
    have hsorted := (List.mem_insertionSort _).mp (List.mem_of_mem_take hmem)
    obtain ⟨row, hrow, rfl⟩ := List.mem_map.mp hsorted
    exact h row (List.mem_filter.mp hrow).1
  | keyword query topK filter =>
    have hkeyword :
        s.searchKeyword env.codecs env.sqlite env.fullText query topK filter = .ok hits := hs
    unfold OpenVectorStore.searchKeyword at hkeyword
    cases hindex : s.table.index with
    | none => simp [hindex] at hkeyword
    | some es =>
      simp only [hindex] at hkeyword
      cases hphrase : env.fullText.phrase (OpenVectorStore.queryPhrase query) with
      | error e => simp [hphrase, Except.map] at hkeyword
      | ok isMatch =>
        rw [hphrase] at hkeyword
        cases hkeyword
        obtain ⟨row, hrow, rfl⟩ := List.mem_map.mp hmem
        have hfound := (List.mem_insertionSort _).mp (List.mem_of_mem_take hrow)
        obtain ⟨row', hrow', hjoin⟩ := List.mem_flatMap.mp (List.mem_filter.mp hfound).1
        obtain ⟨_, _, rfl⟩ := List.mem_map.mp hjoin
        exact h row' hrow'

theorem owned_esSearch {kbId : String} {docs : Documents}
    (h : ∀ chunk ∈ docs.chunks, chunk.kbId = kbId) {query : StoreQuery} {hits : List ScoredChunk}
    (hs : EsVectorStore.search env.es env.dimension docs query = .ok hits) :
    ∀ hit ∈ hits, hit.chunk.kbId = kbId := by
  intro hit hmem
  cases query with
  | dense vector topK filter =>
    have hdense : EsVectorStore.searchDense env.es env.dimension docs vector topK filter =
      .ok hits := hs
    unfold EsVectorStore.searchDense at hdense
    split_ifs at hdense
    cases hdense
    have hsorted := (List.mem_insertionSort _).mp (List.mem_of_mem_take hmem)
    obtain ⟨found, hfound, rfl⟩ := List.mem_map.mp hsorted
    exact h found.1 (env.es.mem_of_knn _ _ _ _ _ _ found hfound)
  | keyword query topK filter =>
    cases hs
    obtain ⟨found, hfound, rfl⟩ := List.mem_map.mp hmem
    exact h found.1 (env.es.mem_of_matchText _ _ _ _ found hfound)

theorem owned_qdrantSearch {kbId : String} {docs : Documents}
    (h : ∀ chunk ∈ docs.chunks, chunk.kbId = kbId) {query : StoreQuery} {hits : List ScoredChunk}
    (hs : QdrantVectorStore.search env.qdrant env.dimension docs query = .ok hits) :
    ∀ hit ∈ hits, hit.chunk.kbId = kbId := by
  intro hit hmem
  cases query with
  | dense vector topK filter =>
    have hdense : QdrantVectorStore.searchDense env.qdrant env.dimension docs vector topK filter =
      .ok hits := hs
    unfold QdrantVectorStore.searchDense at hdense
    split_ifs at hdense
    cases hdense
    have hsorted := (List.mem_insertionSort _).mp (List.mem_of_mem_take hmem)
    obtain ⟨found, hfound, rfl⟩ := List.mem_map.mp hsorted
    exact h found.1 (env.qdrant.mem_of_search _ _ _ _ found hfound)
  | keyword query topK filter =>
    cases hs
    cases hmem

/-- A search returns chunks of the knowledge base alone if the container holds no others. -/
theorem owned_search {b : VectorBackend} {kbId : String} {c : b.Container} (h : b.Owned kbId c)
    {query : StoreQuery} {hits : List ScoredChunk} (hs : env.search kbId query b c = .ok hits) :
    ∀ hit ∈ hits, hit.chunk.kbId = kbId := by
  cases b with
  | sqlite => exact owned_searchSqlite (s := ⟨kbId, env.dimension, env.path, c⟩) h hs
  | es => exact owned_esSearch h hs
  | qdrant => exact owned_qdrantSearch h hs

/-! ## Runs -/

theorem owned_fresh (b : VectorBackend) (kbId : String) : b.Owned kbId b.fresh := by
  cases b with
  | sqlite => intro row hrow; cases hrow
  | es => intro chunk hchunk; cases hchunk
  | qdrant => intro chunk hchunk; cases hchunk

section Sample

open HeldChunks

/-- Engines that return all they have. -/
def sampleSettings : SharedSettings where
  dimension := 1
  path := "ragx.db"
  indexPrefix := "ragx"
  collection := "ragx"
  codecs := sampleCodecs
  sqlite := plainSqlite
  fullText := { phrase := fun _ => .ok fun _ => false, bm25 := fun _ _ _ => 0 }
  es := {
    knn := fun docs _ _ _ _ size => (docs.take size).map fun doc => (doc, 1)
    matchText := fun docs _ _ size => (docs.take size).map fun doc => (doc, 1)
    cosine := fun _ _ => 1
    str := fun _ => ""
    mem_of_knn := by
      intro docs vector k candidates filter size hit hmem
      obtain ⟨doc, hdoc, rfl⟩ := List.mem_map.mp hmem
      exact List.mem_of_mem_take hdoc
    mem_of_matchText := by
      intro docs query filter size hit hmem
      obtain ⟨doc, hdoc, rfl⟩ := List.mem_map.mp hmem
      exact List.mem_of_mem_take hdoc }
  qdrant := {
    search := fun points _ limit _ => (points.take limit.toNat).map fun point => (point, 1)
    uuid5 := id
    cosine := fun _ _ => 1
    str := fun _ => ""
    mem_of_search := by
      intro points vector limit filter hit hmem
      obtain ⟨point, hpoint, rfl⟩ := List.mem_map.mp hmem
      exact List.mem_of_mem_take hpoint }

def chunkOf (kbId : String) : EmbeddedChunk := { sampleChunk "doc_1" "a" with kbId := kbId }

def twoStores : List (String × StoreWrite) :=
  [("kb_a", .upsert [chunkOf "kb_a"]), ("kb_b", .upsert [chunkOf "kb_b"]),
    ("kb_b", .delete ["chk_1"])]

/-- The knowledge bases that the chunks of a search belong to. -/
def kbIds : Except Exc (List ScoredChunk) → List String
  | .ok hits => hits.map (·.chunk.kbId)
  | .error _ => []

end Sample

end SharedSettings

end Ragx
