import Ragx.Chunker
import Ragx.Commands
import Ragx.ContentIndex
import Ragx.SqliteVectorStore

/-!
# The chunk table

The columns of one knowledge base's table and the full-text index that its triggers keep. A
chunk id is unique. A conflicting insert updates the columns that the statement lists, on the
row it finds, and a new row takes the number after the largest one in use. Documents and
vectors stand in the columns as texts and blobs.
-/
namespace Ragx

/-- `json.dumps`, `json.loads` and the two directions of `array`. -/
structure ColumnCodecs where
  dumps : Json → String
  loads : String → Json
  tobytes : List ℚ → List UInt8
  frombytes : List UInt8 → List ℚ

structure ChunkRow where
  rowid : ℕ
  chunkId : String
  docId : String
  kbId : String
  atomIds : String
  text : String
  tokenCount : ℕ
  page : Option ℤ
  bbox : Option String
  metadata : String
  edited : ℤ
  version : ℤ
  vector : List UInt8

/-- The JSON of a list of texts, of a box and of a dictionary. -/
def textsJson (texts : List String) : Json := .arr (texts.map .str)

def bboxJson (b : ℚ × ℚ × ℚ × ℚ) : Json := .arr [.num b.1, .num b.2.1, .num b.2.2.1, .num b.2.2.2]

def metadataJson (m : Metadata) : Json := .obj m.entries

def bboxOf : Json → Option (ℚ × ℚ × ℚ × ℚ)
  | .arr [.num x0, .num y0, .num x1, .num y1] => some (x0, y0, x1, y1)
  | _ => none

def metadataOf : Json → Metadata
  | .obj members => .ofList members
  | _ => .empty

/-- `text or default`. -/
def orDefault (text default : String) : String := if text = "" then default else text

namespace ChunkRow

variable (c : ColumnCodecs)

/-- The parameters of the insert. -/
def ofChunk (rowid : ℕ) (chunk : EmbeddedChunk) : ChunkRow where
  rowid := rowid
  chunkId := chunk.chunkId
  docId := chunk.docId
  kbId := chunk.kbId
  atomIds := c.dumps (textsJson chunk.atomIds)
  text := chunk.text
  tokenCount := chunk.tokenCount
  page := chunk.page
  bbox := chunk.bbox.map fun b => c.dumps (bboxJson b)
  metadata := c.dumps (metadataJson chunk.metadata)
  edited := if chunk.edited then 1 else 0
  version := chunk.version
  vector := c.tobytes chunk.vector

/-- `ON CONFLICT(chunk_id) DO UPDATE SET`: the document, the knowledge base and the atoms are
not in the list. -/
def onConflict (old excluded : ChunkRow) : ChunkRow :=
  { old with
    text := excluded.text
    tokenCount := excluded.tokenCount
    page := excluded.page
    bbox := excluded.bbox
    metadata := excluded.metadata
    edited := excluded.edited
    version := excluded.version
    vector := excluded.vector }

def toChunk (row : ChunkRow) : Chunk where
  chunkId := row.chunkId
  docId := row.docId
  kbId := row.kbId
  atomIds := (c.loads (orDefault row.atomIds "[]")).strings
  text := row.text
  tokenCount := row.tokenCount
  page := row.page
  bbox := (row.bbox.filter (· ≠ "")).bind fun b => bboxOf (c.loads b)
  metadata := metadataOf (c.loads (orDefault row.metadata "{}"))
  edited := row.edited != 0
  version := row.version

def toEmbedded (row : ChunkRow) : EmbeddedChunk where
  toChunk := row.toChunk c
  vector := c.frombytes row.vector

end ChunkRow

/-- Rows by their chunk ids, in the order of their row numbers, and the index of their texts. -/
structure ChunkTable where
  rows : OrderedDict String ChunkRow
  index : ContentIndex ℕ String
  rowids_nodup : (rows.values.map (·.rowid)).Nodup

namespace ChunkTable

variable (c : ColumnCodecs)

def empty : ChunkTable where
  rows := .empty
  index := some []
  rowids_nodup := List.nodup_nil

def rowids (t : ChunkTable) : List ℕ := t.rows.values.map (·.rowid)

def newRowid (t : ChunkTable) : ℕ := t.rowids.foldr max 0 + 1

theorem newRowid_notMem (t : ChunkTable) : t.newRowid ∉ t.rowids := by
  have hle (xs : List ℕ) : ∀ x ∈ xs, x ≤ xs.foldr max 0 := by
    induction xs with
    | nil => simp
    | cons y ys ih =>
      intro x hx
      rcases List.mem_cons.mp hx with rfl | hx
      · exact le_max_left _ _
      · exact (ih x hx).trans (le_max_right _ _)
  intro hmem
  have := hle t.rowids t.newRowid hmem
  simp only [newRowid] at this
  omega

theorem rowids_nodup_insert (t : ChunkTable) {id : String} {row : ChunkRow}
    (h : row.rowid ∉ t.rowids ∨ ∃ old, t.rows.get? id = some old ∧ old.rowid = row.rowid) :
    ((t.rows.insert id row).values.map (·.rowid)).Nodup := by
  have hn := t.rowids_nodup
  rcases t.rows.values_insert_cases id row with
    ⟨hnone, hvalues⟩ | ⟨front, old, back, hget, hold, hvalues⟩
  · have hfresh : row.rowid ∉ t.rowids := by
      refine h.resolve_right ?_
      rintro ⟨old, hold, _⟩
      simp [hnone] at hold
    rw [hvalues, List.map_append, List.nodup_append]
    refine ⟨hn, by simp, ?_⟩
    intro a ha b hb hab
    have hrow : a = row.rowid := hab.trans (List.mem_singleton.mp hb)
    exact hfresh (hrow ▸ ha)
  · rw [hvalues, List.map_append, List.map_cons, List.nodup_middle, List.nodup_cons]
    rw [hold, List.map_append, List.map_cons, List.nodup_middle, List.nodup_cons] at hn
    refine ⟨?_, hn.2⟩
    rcases h with hfresh | ⟨old', hget', hsame⟩
    · intro hmem
      apply hfresh
      rw [rowids, hold, List.map_append, List.map_cons, List.mem_append, List.mem_cons]
      rcases List.mem_append.mp hmem with hfront | hback
      · exact Or.inl hfront
      · exact Or.inr (Or.inr hback)
    · have heq : old = old' := by simpa [hget] using hget'
      rw [← hsame, ← heq]
      exact hn.1

/-- The insert branch, and the trigger after it. -/
def insertRow (chunk : EmbeddedChunk) (t : ChunkTable) : ChunkTable where
  rows := t.rows.insert chunk.chunkId (.ofChunk c t.newRowid chunk)
  index := t.index.add (t.newRowid, chunk.text)
  rowids_nodup := t.rowids_nodup_insert (Or.inl t.newRowid_notMem)

/-- The update branch, and the trigger after an update of the text: the old entry is taken out
and the new one put in. -/
def updateRow (chunk : EmbeddedChunk) (old : ChunkRow) (t : ChunkTable)
    (h : t.rows.get? chunk.chunkId = some old) : ChunkTable where
  rows := t.rows.insert chunk.chunkId (old.onConflict (.ofChunk c t.newRowid chunk))
  index := (t.index.remove (old.rowid, old.text)).add (old.rowid, chunk.text)
  rowids_nodup := t.rowids_nodup_insert (Or.inr ⟨old, h, rfl⟩)

def write (chunk : EmbeddedChunk) (t : ChunkTable) : ChunkTable :=
  match h : t.rows.get? chunk.chunkId with
  | none => insertRow c chunk t
  | some old => updateRow c chunk old t h

/-- `DELETE FROM ... WHERE chunk_id=?`, and the trigger after it. -/
def deleteRow (chunkId : String) (t : ChunkTable) : ChunkTable where
  rows := t.rows.erase chunkId
  index :=
    match t.rows.get? chunkId with
    | none => t.index
    | some old => t.index.remove (old.rowid, old.text)
  rowids_nodup := t.rowids_nodup.sublist ((List.filter_sublist.map Prod.snd).map _)

/-- The two ways through the statement. -/
theorem write_cases (chunk : EmbeddedChunk) (t : ChunkTable) :
    (t.rows.get? chunk.chunkId = none ∧ write c chunk t = insertRow c chunk t) ∨
      ∃ old, ∃ h : t.rows.get? chunk.chunkId = some old,
        write c chunk t = updateRow c chunk old t h := by
  unfold write
  split
  · exact Or.inl ⟨‹_›, rfl⟩
  · exact Or.inr ⟨_, ‹_›, rfl⟩

/-- What a statement does to a view of the rows, when the view of the written row depends on the
view of the stored one. -/
theorem mapValues_write {α : Type*} {t : ChunkTable} {chunk : EmbeddedChunk}
    (view : ChunkRow → α) (merge : Option α → EmbeddedChunk → α)
    (hnew : ∀ rowid, view (.ofChunk c rowid chunk) = merge none chunk)
    (hold : ∀ old rowid,
      view (old.onConflict (.ofChunk c rowid chunk)) = merge (some (view old)) chunk) :
    (write c chunk t).rows.mapValues view =
      (t.rows.mapValues view).accumulate (·.chunkId) merge [chunk] := by
  have hrow : ∃ row, (write c chunk t).rows = t.rows.insert chunk.chunkId row ∧
      view row = merge ((t.rows.get? chunk.chunkId).map view) chunk := by
    rcases write_cases c chunk t with ⟨hnone, hwrite⟩ | ⟨old, hget, hwrite⟩
    · refine ⟨.ofChunk c t.newRowid chunk, by rw [hwrite]; rfl, ?_⟩
      rw [hnone, hnew]
      rfl
    · refine ⟨old.onConflict (.ofChunk c t.newRowid chunk), by rw [hwrite]; rfl, ?_⟩
      rw [hget, hold]
      rfl
  obtain ⟨row, hrows, hvalue⟩ := hrow
  show _ = (t.rows.mapValues view).insert chunk.chunkId
    (merge ((t.rows.mapValues view).get? chunk.chunkId) chunk)
  have hkeys (d : OrderedDict String ChunkRow) : (d.mapValues view).keys = d.keys := by
    simp [OrderedDict.keys, OrderedDict.mapValues, Function.comp_def]
  refine OrderedDict.eq_of_keys_of_get? ?_ fun id => ?_
  · rw [hkeys, hrows, OrderedDict.keys_insert, OrderedDict.keys_insert, hkeys]
  · rw [OrderedDict.get?_mapValues, hrows, OrderedDict.get?_insert, OrderedDict.get?_insert,
      OrderedDict.get?_mapValues, ← hvalue, OrderedDict.get?_mapValues]
    split_ifs
    · rfl
    · rfl

theorem mapValues_deleteRow {α : Type*} {t : ChunkTable} (view : ChunkRow → α) (id : String) :
    (t.deleteRow id).rows.mapValues view = (t.rows.mapValues view).erase id := by
  simp [deleteRow, OrderedDict.mapValues, OrderedDict.erase, OrderedDict.filterKeys,
    List.filter_map, Function.comp_def]

end ChunkTable

/-! ## The open store -/

/-- The configuration, and the table that the connection sees. -/
structure OpenVectorStore where
  kbId : String
  dimension : ℕ
  path : String
  table : ChunkTable

/-- What `MATCH` and `bm25` make of an index: which texts a quoted phrase matches, unless the
phrase is no query, and how an entry ranks. -/
structure FullTextEngine where
  phrase : String → Except Exc (String → Bool)
  bm25 : List (ℕ × String) → String → ℕ → ℚ

namespace OpenVectorStore

variable (c : ColumnCodecs)

/-- Why a chunk is not written. -/
def refusal (s : OpenVectorStore) (chunk : EmbeddedChunk) : Option Exc :=
  if chunk.kbId ≠ s.kbId then
    some {
      cls := .pluginContract, code := 9004
      message := "chunk belongs to a different knowledge base"
      details := [("expected", .str s.kbId), ("got", .str chunk.kbId),
        ("chunk_id", .str chunk.chunkId)] }
  else if chunk.vector.length ≠ s.dimension then
    some {
      cls := .pluginContract, code := 9004, message := "vector dimension mismatch"
      details := [("expected", .num s.dimension), ("got", .num chunk.vector.length),
        ("chunk_id", .str chunk.chunkId)] }
  else none

def upsertOne (chunk : EmbeddedChunk) : Command OpenVectorStore Exc := fun s =>
  match s.refusal chunk with
  | some e => (s, some e)
  | none => ({ s with table := s.table.write c chunk }, none)

/-- Each chunk is checked just before its statement, and each statement commits by itself. -/
def upsert (chunks : List EmbeddedChunk) : Command OpenVectorStore Exc :=
  .forEach (upsertOne c) chunks

def delete (chunkIds : List String) (s : OpenVectorStore) : OpenVectorStore :=
  { s with table := chunkIds.foldl (fun t id => t.deleteRow id) s.table }

/-- A database that exists only for the connection that opened it. -/
def Private (path : String) : Prop := path = ":memory:" ∨ path = ""

instance (path : String) : Decidable (Private path) := inferInstanceAs (Decidable (_ ∨ _))

/-- Another connection takes the place of the first one. -/
def startup (s : OpenVectorStore) : OpenVectorStore :=
  { s with table := if Private s.path then .empty else s.table }

/-- The rows that pass the filter. -/
def selected (db : Sqlite) (filter : Option FilterExpr) (s : OpenVectorStore) : List ChunkRow :=
  s.table.rows.values.filter fun row => satisfiedBy db filter (row.toChunk c)

def searchDense (db : Sqlite) (s : OpenVectorStore) (vector : List ℚ) (topK : ℤ)
    (filter : Option FilterExpr) : Except Exc (List ScoredChunk) :=
  if vector.length ≠ s.dimension then
    .error {
      cls := .pluginContract, code := 9004, message := "query vector dimension mismatch"
      details := [("expected", .num s.dimension), ("got", .num vector.length)] }
  else
    let scored := (s.selected c db filter).map fun row =>
      ({ chunk := row.toChunk c, score := db.cosine vector (c.frombytes row.vector),
         source := .dense } : ScoredChunk)
    .ok ((scored.insertionSort fun a b => b.score ≤ a.score).take (max topK 0).toNat)

/-- A user query as one quoted phrase. -/
def quote (text : List Char) : String :=
  "\"" ++ String.ofList (text.flatMap fun ch => if ch = '"' then ['"', '"'] else [ch]) ++ "\""

def queryPhrase (query : String) : String := quote (strip query.toList)

/-- The rows of the join: a row and an index entry under its number whose text matches. -/
def joined (isMatch : String → Bool) (rows : List ChunkRow) (es : List (ℕ × String)) :
    List ChunkRow :=
  rows.flatMap fun row =>
    (es.filter fun e => decide (e.1 = row.rowid) && isMatch e.2).map fun _ => row

/-- The rows that pass the filter, best rank first. -/
def keywordHits (db : Sqlite) (filter : Option FilterExpr) (rank : ChunkRow → ℚ) (topK : ℤ)
    (rows : List ChunkRow) : List ScoredChunk :=
  let found := rows.filter fun row => satisfiedBy db filter (row.toChunk c)
  ((found.insertionSort fun a b => rank a ≤ rank b).take (max topK 0).toNat).map fun row =>
    { chunk := row.toChunk c, score := 1 / (1 + max 0 (-rank row)), source := .bm25 }

def searchKeyword (db : Sqlite) (engine : FullTextEngine) (s : OpenVectorStore) (query : String)
    (topK : ℤ) (filter : Option FilterExpr) : Except Exc (List ScoredChunk) :=
  match s.table.index with
  | none => .error (.foreign "database disk image is malformed")
  | some es =>
    (engine.phrase (queryPhrase query)).map fun isMatch =>
      keywordHits c db filter (fun row => engine.bm25 es (queryPhrase query) row.rowid) topK
        (joined isMatch s.table.rows.values es)

/-- Without a filter, a keyword search that asks for enough returns what was found. -/
theorem chunks_keywordHits (db : Sqlite) (rank : ChunkRow → ℚ) {topK : ℤ} {rows : List ChunkRow}
    (htop : (rows.length : ℤ) ≤ topK) :
    ((keywordHits c db none rank topK rows).map (·.chunk)).Perm
      (rows.map (ChunkRow.toChunk c)) := by
  have hall : (rows.filter fun row => satisfiedBy db none (row.toChunk c)) = rows :=
    List.filter_eq_self.mpr fun _ _ => rfl
  have hperm := List.perm_insertionSort (fun a b => rank a ≤ rank b) rows
  have htake : rows.length ≤ (max topK 0).toNat := by omega
  have hlength := hperm.length_eq
  rw [keywordHits, hall, List.take_of_length_le (by omega), List.map_map]
  exact hperm.map (ChunkRow.toChunk c)

/-- So does a dense search with a vector of the right length. -/
theorem chunks_searchDense (db : Sqlite) {s : OpenVectorStore} {vector : List ℚ} {topK : ℤ}
    (hlength : vector.length = s.dimension) (htop : (s.table.rows.values.length : ℤ) ≤ topK) :
    ∃ hits, searchDense c db s vector topK none = .ok hits ∧
      (hits.map (·.chunk)).Perm (s.table.rows.values.map (ChunkRow.toChunk c)) := by
  have hall : selected c db none s = s.table.rows.values :=
    List.filter_eq_self.mpr fun _ _ => rfl
  have htake : s.table.rows.values.length ≤ (max topK 0).toNat := by omega
  refine ⟨_, if_neg (not_not.mpr hlength), ?_⟩
  rw [hall, List.take_of_length_le (by rw [List.length_insertionSort, List.length_map]; omega)]
  refine ((List.perm_insertionSort _ _).map _).trans ?_
  rw [List.map_map]
  exact List.Perm.refl _

end OpenVectorStore

end Ragx
