import Ragx.ChunkTable

/-!
# The full-text index and the table

Whatever is written, refused or deleted, the index has one entry for each stored chunk, under
its row number and with its current text. So joining the table with what the index finds is
filtering the table by its texts.
-/
namespace Ragx

/-- A call that changes the store. -/
inductive StoreWrite where
  | upsert (chunks : List EmbeddedChunk)
  | delete (chunkIds : List String)

def ChunkRow.entry (row : ChunkRow) : ℕ × String := (row.rowid, row.text)

namespace ChunkTable

variable (c : ColumnCodecs)

def Synced (t : ChunkTable) : Prop := t.index.Follows (t.rows.values.map ChunkRow.entry)

variable {c} {t : ChunkTable}

theorem synced_empty : Synced empty := ⟨[], rfl, List.Perm.refl _⟩

theorem Synced.write (ht : t.Synced) (chunk : EmbeddedChunk) : (write c chunk t).Synced := by
  rcases write_cases c chunk t with ⟨hnone, hwrite⟩ | ⟨old, hget, hwrite⟩
  · rcases t.rows.values_insert_cases chunk.chunkId (.ofChunk c t.newRowid chunk) with
      ⟨_, hvalues⟩ | ⟨_, _, _, hsome, _, _⟩
    · have hentries : (insertRow c chunk t).rows.values.map ChunkRow.entry =
          t.rows.values.map ChunkRow.entry ++ [(t.newRowid, chunk.text)] := by
        rw [insertRow, hvalues, List.map_append]
        rfl
      rw [hwrite, Synced, hentries]
      exact ContentIndex.Follows.add ht (t.newRowid, chunk.text)
    · simp [hnone] at hsome
  · rcases t.rows.values_insert_cases chunk.chunkId
      (old.onConflict (.ofChunk c t.newRowid chunk)) with
      ⟨hnone, _⟩ | ⟨front, old', back, hsome, hold, hvalues⟩
    · simp [hnone] at hget
    · obtain rfl : old' = old := by simpa [hget] using hsome.symm
      have hbefore : t.index.Follows
          (front.map ChunkRow.entry ++ (old'.rowid, old'.text) :: back.map ChunkRow.entry) := by
        simpa [Synced, hold, ChunkRow.entry] using ht
      have hentries : (updateRow c chunk old' t hget).rows.values.map ChunkRow.entry =
          front.map ChunkRow.entry ++ (old'.rowid, chunk.text) :: back.map ChunkRow.entry := by
        rw [updateRow, hvalues, List.map_append]
        rfl
      rw [hwrite, Synced, hentries]
      exact hbefore.replace (old'.rowid, chunk.text)

theorem Synced.deleteRow (ht : t.Synced) (chunkId : String) : (t.deleteRow chunkId).Synced := by
  cases hget : t.rows.get? chunkId with
  | none =>
    have hkeep := OrderedDict.erase_of_get?_eq_none hget
    simpa [Synced, ChunkTable.deleteRow, hget, hkeep] using ht
  | some old =>
    obtain ⟨front, back, hold, hvalues⟩ := OrderedDict.values_erase_of_get? hget
    have hbefore : t.index.Follows
        (front.map ChunkRow.entry ++ (old.rowid, old.text) :: back.map ChunkRow.entry) := by
      simpa [Synced, hold, ChunkRow.entry] using ht
    simpa [Synced, ChunkTable.deleteRow, hget, hvalues] using hbefore.remove

/-- Among the indexed entries, those under a row's number are the row's own. -/
theorem filter_entries {rows : List ChunkRow} (hn : (rows.map (·.rowid)).Nodup) {row : ChunkRow}
    (hrow : row ∈ rows) (isMatch : String → Bool) :
    (rows.map ChunkRow.entry).filter (fun e => decide (e.1 = row.rowid) && isMatch e.2) =
      if isMatch row.text then [row.entry] else [] := by
  obtain ⟨front, back, rfl⟩ := List.append_of_mem hrow
  rw [List.map_append, List.map_cons, List.nodup_middle, List.nodup_cons, List.mem_append,
    not_or] at hn
  have hother (rows : List ChunkRow) (hnot : row.rowid ∉ rows.map (·.rowid)) :
      (rows.map ChunkRow.entry).filter
        (fun e => decide (e.1 = row.rowid) && isMatch e.2) = [] := by
    refine List.filter_eq_nil_iff.mpr fun e he => ?_
    obtain ⟨r, hr, rfl⟩ := List.mem_map.mp he
    have hne : r.rowid ≠ row.rowid := fun h => hnot (h ▸ List.mem_map_of_mem hr)
    simp [ChunkRow.entry, hne]
  rw [List.map_append, List.map_cons, List.filter_append, List.filter_cons, hother front hn.1.1,
    hother back hn.1.2]
  simp [ChunkRow.entry]

/-- Joining with a synced index is filtering by the texts. -/
theorem joined_eq_filter {es : List (ℕ × String)} (hes : es.Perm (t.rows.values.map ChunkRow.entry))
    (isMatch : String → Bool) :
    OpenVectorStore.joined isMatch t.rows.values es =
      t.rows.values.filter fun row => isMatch row.text := by
  have hsome : ∀ row ∈ t.rows.values,
      ((es.filter fun e => decide (e.1 = row.rowid) && isMatch e.2).map fun _ => row) =
        if isMatch row.text then [row] else [] := by
    intro row hrow
    have hperm := hes.filter fun e => decide (e.1 = row.rowid) && isMatch e.2
    rw [filter_entries t.rowids_nodup hrow isMatch] at hperm
    split_ifs at hperm ⊢ with hmatch
    · rw [List.perm_singleton.mp hperm]
      rfl
    · rw [List.perm_nil.mp hperm]
      rfl
  have hjoin (rows : List ChunkRow) (h : ∀ row ∈ rows,
      ((es.filter fun e => decide (e.1 = row.rowid) && isMatch e.2).map fun _ => row) =
        if isMatch row.text then [row] else []) :
      OpenVectorStore.joined isMatch rows es = rows.filter fun row => isMatch row.text := by
    induction rows with
    | nil => rfl
    | cons row rows ih =>
      have hrest := ih fun r hr => h r (List.mem_cons_of_mem row hr)
      rw [OpenVectorStore.joined, List.flatMap_cons, h row List.mem_cons_self, List.filter_cons]
      rw [OpenVectorStore.joined] at hrest
      rw [hrest]
      split_ifs
      · rfl
      · rfl
  exact hjoin t.rows.values hsome

end ChunkTable

namespace OpenVectorStore

variable (c : ColumnCodecs)

/-- A store whose table was just created. -/
def opened (kbId : String) (dimension : ℕ) (path : String) : OpenVectorStore where
  kbId := kbId
  dimension := dimension
  path := path
  table := .empty

def apply (s : OpenVectorStore) : StoreWrite → OpenVectorStore
  | .upsert chunks => (upsert c chunks s).1
  | .delete chunkIds => s.delete chunkIds

/-- The store after the calls, whether or not they raised. -/
def runWrites (s : OpenVectorStore) (writes : List StoreWrite) : OpenVectorStore :=
  writes.foldl (apply c) s

/-- A keyword search that asks for enough finds exactly the chunks whose texts match. -/
def KeywordExact (db : Sqlite) (engine : FullTextEngine) (s : OpenVectorStore) (query : String)
    (extra : ℕ) : Prop :=
  let result := searchKeyword c db engine s query (s.table.rows.values.length + extra) none
  match engine.phrase (queryPhrase query) with
  | .error e => result = .error e
  | .ok isMatch => ∃ hits, result = .ok hits ∧ (hits.map (·.chunk)).Perm
      ((s.table.rows.values.filter fun row => isMatch row.text).map (ChunkRow.toChunk c))

variable {c} {s : OpenVectorStore}

theorem synced_upsertOne (hs : s.table.Synced) (chunk : EmbeddedChunk) :
    (upsertOne c chunk s).1.table.Synced := by
  unfold upsertOne
  cases s.refusal chunk with
  | some e => exact hs
  | none => exact hs.write chunk

theorem synced_apply (hs : s.table.Synced) (w : StoreWrite) : (apply c s w).table.Synced := by
  cases w with
  | upsert chunks =>
    show (Command.forEach (upsertOne c) chunks s).1.table.Synced
    exact Command.forEach_invariant (I := fun s : OpenVectorStore => s.table.Synced)
      (fun chunk _ s hs => synced_upsertOne hs chunk) hs
  | delete chunkIds =>
    show (chunkIds.foldl (fun t id => t.deleteRow id) s.table).Synced
    generalize s.table = t at hs
    induction chunkIds generalizing t with
    | nil => exact hs
    | cons id ids ih => exact ih (t.deleteRow id) (hs.deleteRow id)

theorem synced_runWrites (hs : s.table.Synced) (writes : List StoreWrite) :
    (runWrites c s writes).table.Synced := by
  induction writes generalizing s with
  | nil => exact hs
  | cons w writes ih => exact ih (synced_apply hs w)

theorem keywordExact_of_synced (hs : s.table.Synced) (db : Sqlite) (engine : FullTextEngine)
    (query : String) (extra : ℕ) : s.KeywordExact c db engine query extra := by
  obtain ⟨es, hindex, hperm⟩ := hs
  unfold KeywordExact searchKeyword
  rw [hindex]
  cases engine.phrase (queryPhrase query) with
  | error e => rfl
  | ok isMatch =>
    refine ⟨_, rfl, ?_⟩
    simp only [ChunkTable.joined_eq_filter hperm]
    have hle := List.length_filter_le (fun row : ChunkRow => isMatch row.text) s.table.rows.values
    exact chunks_keywordHits c db _ (by omega)

/-- After any calls the index has the row number and the text of every stored chunk, once, and a
keyword search finds a chunk exactly if its text matches. -/
theorem index_follows_table (c : ColumnCodecs) (kbId : String) (dimension : ℕ) (path : String)
    (writes : List StoreWrite) (db : Sqlite) (engine : FullTextEngine) (query : String)
    (extra : ℕ) :
    let s := runWrites c (opened kbId dimension path) writes
    s.table.rowids.Nodup ∧ s.table.Synced ∧ s.KeywordExact c db engine query extra := by
  intro s
  have hs : s.table.Synced := synced_runWrites ChunkTable.synced_empty writes
  exact ⟨s.table.rowids_nodup, hs, keywordExact_of_synced hs db engine query extra⟩

end OpenVectorStore

end Ragx
