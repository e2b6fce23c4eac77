import Ragx.Commands
import Ragx.IngestPipeline
import Ragx.SqliteVectorStore

/-!
# Writing to the vector store

Rows are deleted by id and upserted one at a time, each by a statement that commits by
itself. What was upserted before a chunk is refused stays.
-/
namespace Ragx

/-- One upsert: a row with the chunk's id is updated in place, or a new one is appended. -/
def writeRow (row : EmbeddedChunk) : List EmbeddedChunk → List EmbeddedChunk
  | [] => [row]
  | old :: rows =>
    if old.chunkId = row.chunkId then upsertRow (some old) row :: rows
    else old :: writeRow row rows

theorem mem_writeRow {row x : EmbeddedChunk} {rows : List EmbeddedChunk}
    (h : x ∈ writeRow row rows) :
    x = row ∨ x ∈ rows ∨ ∃ old ∈ rows, x = upsertRow (some old) row := by
  induction rows with
  | nil => exact Or.inl (List.mem_singleton.mp h)
  | cons old rows ih =>
    rw [writeRow] at h
    split_ifs at h with hid
    · rcases List.mem_cons.mp h with rfl | hmem
      · exact Or.inr (Or.inr ⟨old, List.mem_cons_self, rfl⟩)
      · exact Or.inr (Or.inl (List.mem_cons_of_mem old hmem))
    · rcases List.mem_cons.mp h with rfl | hmem
      · exact Or.inr (Or.inl List.mem_cons_self)
      · rcases ih hmem with rfl | hold | ⟨old', hold', rfl⟩
        · exact Or.inl rfl
        · exact Or.inr (Or.inl (List.mem_cons_of_mem old hold))
        · exact Or.inr (Or.inr ⟨old', List.mem_cons_of_mem old hold', rfl⟩)

theorem map_chunkId_writeRow (row : EmbeddedChunk) (rows : List EmbeddedChunk) :
    (writeRow row rows).map (fun r => r.chunkId) =
      if row.chunkId ∈ rows.map (fun r => r.chunkId) then rows.map fun r => r.chunkId
      else (rows.map fun r => r.chunkId) ++ [row.chunkId] := by
  induction rows with
  | nil => rfl
  | cons old rows ih =>
    rw [writeRow, List.map_cons]
    by_cases hid : old.chunkId = row.chunkId
    · rw [if_pos hid, if_pos (List.mem_cons.mpr (Or.inl hid.symm))]
      rfl
    · rw [if_neg hid, List.map_cons, ih]
      by_cases hmem : row.chunkId ∈ rows.map fun r => r.chunkId
      · rw [if_pos hmem, if_pos (List.mem_cons_of_mem _ hmem)]
      · rw [if_neg hmem, if_neg fun h => (List.mem_cons.mp h).elim (Ne.symm hid) hmem]
        rfl

namespace SqliteVectorStore

/-- The row of a chunk. -/
def row? (store : SqliteVectorStore) (chunkId : String) : Option EmbeddedChunk :=
  store.rows.find? fun row => row.chunkId == chunkId

def delete (chunkIds : List String) (store : SqliteVectorStore) : SqliteVectorStore where
  kbId := store.kbId
  dimension := store.dimension
  rows := store.rows.filter fun row => row.chunkId ∉ chunkIds
  kb_scoped := fun row hrow => store.kb_scoped row (List.mem_of_mem_filter hrow)
  dimension_eq := fun row hrow => store.dimension_eq row (List.mem_of_mem_filter hrow)
  ids_nodup := store.ids_nodup.sublist (List.filter_sublist.map _)

theorem row?_delete_of_mem {store : SqliteVectorStore} {chunkIds : List String}
    {chunkId : String} (h : chunkId ∈ chunkIds) : (store.delete chunkIds).row? chunkId = none := by
  refine List.find?_eq_none.mpr fun row hrow hid => ?_
  have hkept := of_decide_eq_true (List.mem_filter.mp hrow).2
  rw [beq_iff_eq] at hid
  exact hkept (hid ▸ h)

/-- Writing a row of the store's knowledge base and dimension. -/
def put (store : SqliteVectorStore) (row : EmbeddedChunk) (hkb : row.kbId = store.kbId)
    (hdim : row.vector.length = store.dimension) : SqliteVectorStore where
  kbId := store.kbId
  dimension := store.dimension
  rows := writeRow row store.rows
  kb_scoped := by
    intro x hx
    rcases mem_writeRow hx with rfl | hmem | ⟨old, hold, rfl⟩
    · exact hkb
    · exact store.kb_scoped x hmem
    · exact store.kb_scoped old hold
  dimension_eq := by
    intro x hx
    rcases mem_writeRow hx with rfl | hmem | ⟨old, hold, rfl⟩
    · exact hdim
    · exact store.dimension_eq x hmem
    · exact hdim
  ids_nodup := by
    rw [map_chunkId_writeRow]
    split_ifs with hid
    · exact store.ids_nodup
    · exact List.nodup_append.mpr ⟨store.ids_nodup, List.nodup_singleton _,
        fun id hmem id' hid' he => hid (List.mem_singleton.mp hid' ▸ he ▸ hmem)⟩

def upsertOne (row : EmbeddedChunk) : Command SqliteVectorStore Exc := fun store =>
  if hkb : row.kbId = store.kbId then
    if hdim : row.vector.length = store.dimension then (store.put row hkb hdim, none)
    else (store, some {
      cls := .pluginContract, code := 9004, message := "vector dimension mismatch"
      details := [("expected", .num store.dimension), ("got", .num row.vector.length),
        ("chunk_id", .str row.chunkId)] })
  else (store, some {
    cls := .pluginContract, code := 9004, message := "chunk belongs to a different knowledge base"
    details := [("expected", .str store.kbId), ("got", .str row.kbId),
      ("chunk_id", .str row.chunkId)] })

def upsert (rows : List EmbeddedChunk) : Command SqliteVectorStore Exc := .forEach upsertOne rows

theorem upsertOne_raised_eq_none {store : SqliteVectorStore} {row : EmbeddedChunk} :
    (upsertOne row store).2 = none ↔
      row.kbId = store.kbId ∧ row.vector.length = store.dimension := by
  unfold upsertOne
  split_ifs with hkb hdim
  · exact iff_of_true rfl ⟨hkb, hdim⟩
  · exact iff_of_false (by simp) fun h => hdim h.2
  · exact iff_of_false (by simp) fun h => hkb h.1

end SqliteVectorStore

end Ragx
