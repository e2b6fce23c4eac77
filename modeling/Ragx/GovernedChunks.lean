import Ragx.Reindex

/-!
# Edited chunks in the vector stores

An edited chunk has a row in the metadata store and an entry in the vector store of its
knowledge base. `PUT` reindexes into the one store that the application holds, `PATCH` writes
the row only. So only a sequence without a `PATCH` keeps the entries up to date.
-/
namespace Ragx

/-- The knowledge base whose vector store the application holds. -/
def appKbId : String := "default"

/-- The stores of all knowledge bases. -/
structure ChunkStores (G : Type) where
  chunks : KeyedTable Chunk.chunkId
  vectors : String → SqliteVectorStore
  graph : NetworkXGraphStore G
  own_kb : ∀ kbId, (vectors kbId).kbId = kbId

/-- A request, with what the steps behind it are given from outside. -/
structure ChunkRequest where
  chunkId : String
  edit : EditRequest
  env : ReindexEnv

def EditRequest.isPut (req : EditRequest) : Bool :=
  match req.body with
  | .put .. => true
  | .patch _ => false

/-- The row of a chunk. -/
theorem row?_writeRow (row : EmbeddedChunk) (rows : List EmbeddedChunk) (chunkId : String) :
    (writeRow row rows).find? (fun r => r.chunkId == chunkId) =
      if row.chunkId = chunkId then
        some (upsertRow (rows.find? fun r => r.chunkId == chunkId) row)
      else rows.find? fun r => r.chunkId == chunkId := by
  induction rows with
  | nil =>
    by_cases h : row.chunkId = chunkId
    · simp [writeRow, h, upsertRow, saveChunk]
    · simp [writeRow, h]
  | cons old rows ih =>
    rw [writeRow]
    by_cases hold : old.chunkId = row.chunkId
    · have hid : (upsertRow (some old) row).chunkId = row.chunkId := hold
      rw [if_pos hold]
      rw [List.find?_cons, List.find?_cons, hid, hold]
      by_cases h : row.chunkId = chunkId
      · simp [h]
      · rw [beq_false_of_ne h, if_neg h]
    · rw [if_neg hold]
      by_cases h : old.chunkId = chunkId
      · have hne : row.chunkId ≠ chunkId := fun he => hold (h.trans he.symm)
        simp [h, hne]
      · simp [h, ih]

namespace SqliteVectorStore

theorem row?_put {store : SqliteVectorStore} {row : EmbeddedChunk} (hkb : row.kbId = store.kbId)
    (hdim : row.vector.length = store.dimension) (chunkId : String) :
    (store.put row hkb hdim).row? chunkId =
      if row.chunkId = chunkId then some (upsertRow (store.row? chunkId) row)
      else store.row? chunkId :=
  row?_writeRow row store.rows chunkId

theorem row?_delete_of_notMem {store : SqliteVectorStore} {chunkIds : List String}
    {chunkId : String} (h : chunkId ∉ chunkIds) :
    (store.delete chunkIds).row? chunkId = store.row? chunkId := by
  unfold row? delete
  rw [List.find?_filter]
  congr 1
  funext row
  by_cases hid : row.chunkId = chunkId
  · simp [hid, h]
  · simp [hid]

end SqliteVectorStore

/-! ## A reindex that goes through -/

namespace ReindexCall

variable {G : Type} [MultiDiGraph G Entity Relation] (env : ReindexEnv) (call : ReindexCall)

theorem rebuildGraph_vectors (updated : Chunk) (s : ReindexStores G) :
    (call.rebuildGraph env updated s).1.vectors = s.vectors := by
  unfold rebuildGraph
  split_ifs
  · exact Command.withFault_invariant (I := fun t : ReindexStores G => t.vectors = s.vectors)
      rfl rfl
  · rfl

omit [MultiDiGraph G Entity Relation] in
theorem embedAndUpsert_vectors {updated : Chunk} {s : ReindexStores G}
    (hok : (embedAndUpsert env updated s).2 = none) :
    ∃ (row : EmbeddedChunk) (hkb : row.kbId = s.vectors.kbId)
      (hdim : row.vector.length = s.vectors.dimension), row.toChunk = updated ∧
        (embedAndUpsert env updated s).1.vectors = s.vectors.put row hkb hdim := by
  obtain ⟨hembed, hupsert, ⟨vector, hvector, hdim⟩, hkb⟩ :=
    (embedAndUpsert_raised_eq_none env).mp hok
  refine ⟨{ toChunk := updated, vector }, hkb, hdim, rfl, ?_⟩
  unfold embedAndUpsert
  rw [hembed, hvector, hupsert]
  show (SqliteVectorStore.upsert [{ toChunk := updated, vector }] s.vectors).1 = _
  rw [SqliteVectorStore.upsert, Command.forEach_singleton, SqliteVectorStore.upsertOne,
    dif_pos hkb, dif_pos hdim]

/-- The row is the rewritten chunk, and the vector store has it with its new vector. -/
theorem stores_incrementalReindex {s : ReindexStores G} {chunk : Chunk}
    (hget : s.chunks.get? call.chunkId = some chunk)
    (hok : (call.incrementalReindex env s).2 = none) :
    (call.incrementalReindex env s).1.chunks =
        s.chunks.merge saveChunk (call.rewrite env chunk) ∧
      ∃ (row : EmbeddedChunk) (hkb : row.kbId = (s.vectors.delete [call.chunkId]).kbId)
        (hdim : row.vector.length = (s.vectors.delete [call.chunkId]).dimension),
        row.toChunk = call.rewrite env chunk ∧ (call.incrementalReindex env s).1.vectors =
          (s.vectors.delete [call.chunkId]).put row hkb hdim := by
  unfold incrementalReindex at hok ⊢
  rw [hget] at hok ⊢
  dsimp only at hok ⊢
  by_cases hversion : chunk.version = call.versionExpected
  · rw [if_neg (not_not.mpr hversion)] at hok ⊢
    obtain ⟨hvector, hok⟩ := Command.andThen_raised_eq_none.mp hok
    obtain ⟨hgraph, hok⟩ := Command.andThen_raised_eq_none.mp hok
    obtain ⟨hsave, hok⟩ := Command.andThen_raised_eq_none.mp hok
    obtain ⟨hembed, _⟩ := Command.andThen_raised_eq_none.mp hok
    rw [Command.andThen_of_none hvector, Command.andThen_of_none hgraph,
      Command.andThen_of_none hsave, Command.andThen_of_none hembed]
    have hvectorFault := (Command.withFault_raised_eq_none.mp hvector).1
    have hsaveFault := (Command.withFault_raised_eq_none.mp hsave).1
    rw [call.deleteVector_of_none env hvectorFault] at hgraph hembed ⊢
    have hgraphFault : call.graphDeleteFault env = none := by
      unfold graphDeleteFault
      split_ifs with htouch
      · rw [deleteGraph, if_pos htouch] at hgraph
        exact (Command.withFault_raised_eq_none.mp hgraph).1
      · rfl
    rw [call.deleteGraph_of_none env hgraphFault,
      call.saveUpdated_of_none env hsaveFault] at hembed ⊢
    obtain ⟨hchunks, hvectors, _⟩ := call.frame_withoutDoc chunk (call.withoutVector s)
    have hreached : (call.withRewritten env chunk (call.withoutDoc chunk
        (call.withoutVector s))).vectors = s.vectors.delete [call.chunkId] := hvectors
    obtain ⟨row, hkb, hdim, hrow, hput⟩ := embedAndUpsert_vectors env hembed
    rw [rebuildGraph_chunks, rebuildGraph_vectors, (embedAndUpsert_frame env _ _).1]
    refine ⟨?_, row, hreached ▸ hkb, hreached ▸ hdim, hrow, ?_⟩
    · rw [withRewritten, hchunks]
      rfl
    · rw [hput]
      congr 1
  · rw [if_pos hversion] at hok
    cases hok

/-- Whatever happens, the vector store stays that of its knowledge base. -/
theorem kbId_incrementalReindex (s : ReindexStores G) :
    (call.incrementalReindex env s).1.vectors.kbId = s.vectors.kbId := by
  have hfault (fault : Option Fault) (c : Command (ReindexStores G) Exc)
      (hc : ∀ t, (c t).1.vectors.kbId = t.vectors.kbId) (t : ReindexStores G) :
      (Command.withFault fault c t).1.vectors.kbId = t.vectors.kbId :=
    Command.withFault_invariant (I := fun u : ReindexStores G => u.vectors.kbId = t.vectors.kbId)
      (hc t) rfl
  have hupsert (row : EmbeddedChunk) (store : SqliteVectorStore) :
      (SqliteVectorStore.upsert [row] store).1.kbId = store.kbId := by
    rw [SqliteVectorStore.upsert, Command.forEach_singleton, SqliteVectorStore.upsertOne]
    split_ifs <;> rfl
  have hembed (updated : Chunk) (t : ReindexStores G) :
      (embedAndUpsert env updated t).1.vectors.kbId = t.vectors.kbId := by
    unfold embedAndUpsert
    split
    · rfl
    · split
      · rfl
      · exact hfault _ _ (fun u => hupsert _ u.vectors) t
  have hgraph (chunk : Chunk) (t : ReindexStores G) :
      (call.deleteGraph env chunk t).1.vectors.kbId = t.vectors.kbId := by
    unfold deleteGraph
    split_ifs
    · exact hfault _ _ (fun _ => rfl) t
    · rfl
  unfold incrementalReindex
  split
  · rfl
  · split_ifs
    · rfl
    · have hbuild (updated : Chunk) (t : ReindexStores G) :
          (call.rebuildGraph env updated t).1.vectors.kbId = t.vectors.kbId := by
        rw [rebuildGraph_vectors]
      let view : ReindexStores G → String := fun t => t.vectors.kbId
      exact Command.andThen_keeps view (hfault _ _ fun _ => rfl)
        (Command.andThen_keeps view (hgraph _) (Command.andThen_keeps view (hfault _ _ fun _ => rfl)
          (Command.andThen_keeps view (hembed _) (hbuild _)))) s

end ReindexCall

/-! ## Requests -/

namespace ChunkStores

variable {G : Type} [MultiDiGraph G Entity Relation]

def putCall (r : ChunkRequest) (text : String) (metadata : Option Metadata) : ReindexCall where
  chunkId := r.chunkId
  newText := some text
  newMeta := metadata
  versionExpected := r.edit.version

/-- The stores that a reindex of the application is given. -/
def forReindex (s : ChunkStores G) : ReindexStores G where
  chunks := s.chunks
  vectors := s.vectors appKbId
  graph := s.graph

/-- The stores after a reindex of the application. -/
def withReindexed (s : ChunkStores G) (env : ReindexEnv) (call : ReindexCall) : ChunkStores G where
  chunks := (call.incrementalReindex env s.forReindex).1.chunks
  vectors kbId := if kbId = appKbId then (call.incrementalReindex env s.forReindex).1.vectors
    else s.vectors kbId
  graph := (call.incrementalReindex env s.forReindex).1.graph
  own_kb kbId := by
    split_ifs with hkb
    · rw [ReindexCall.kbId_incrementalReindex, hkb]
      exact s.own_kb appKbId
    · exact s.own_kb kbId

/-- The stores after a successful request. -/
def step (s : ChunkStores G) (r : ChunkRequest) : Option (ChunkStores G) :=
  match ChunkEdit.firstCheck r.chunkId r.edit (s.chunks.get? r.chunkId), r.edit.body with
  | .admitted, .put text metadata =>
    match ((putCall r text metadata).incrementalReindex r.env s.forReindex).2 with
    | some _ => none
    | none => some (s.withReindexed r.env (putCall r text metadata))
  | .checked chunk, .patch _ =>
    some { s with chunks := s.chunks.merge saveChunk (r.edit.rewrite r.env.countTokens chunk) }
  | _, _ => none

/-- The entry in the vector store of the chunk's own knowledge base. -/
def entry? (s : ChunkStores G) (chunk : Chunk) : Option EmbeddedChunk :=
  (s.vectors chunk.kbId).row? chunk.chunkId

/-- The entry says the same as the row. -/
def Governed (s : ChunkStores G) (chunk : Chunk) : Prop :=
  ∃ entry ∈ s.entry? chunk, entry.text = chunk.text ∧ entry.tokenCount = chunk.tokenCount ∧
    entry.metadata = chunk.metadata ∧ entry.version = chunk.version

/-- Behind a request its chunk is governed. -/
def GovernedAfter (_ : ChunkStores G) (r : ChunkRequest) (s' : ChunkStores G) : Prop :=
  ∃ chunk ∈ s'.chunks.get? r.chunkId, s'.Governed chunk

/-- No entry is ahead of its row. -/
def Behind (s : ChunkStores G) : Prop :=
  ∀ id, ∀ chunk ∈ s.chunks.get? id, ∀ entry ∈ s.entry? chunk, entry.version ≤ chunk.version

variable {s s' : ChunkStores G} {r : ChunkRequest}

omit [MultiDiGraph G Entity Relation] in
theorem base_of_firstCheck {chunkId : String} {req : EditRequest} {chunk base : Chunk}
    (h : ChunkEdit.firstCheck chunkId req (some chunk) = .checked base) : base = chunk := by
  unfold ChunkEdit.firstCheck at h
  dsimp only at h
  split at h
  · cases h
  · split_ifs at h
    split at h
    · cases h
    · cases h
      rfl

/-- A `PUT` that goes through is about a chunk of the application's knowledge base, and leaves
the row and its entry with the same chunk. A `PATCH` leaves the entries alone. -/
theorem step_cases (h : s.step r = some s') :
    ∃ chunk ∈ s.chunks.get? r.chunkId, ∃ updated : Chunk,
      updated.version = chunk.version + 1 ∧ updated.chunkId = chunk.chunkId ∧
      updated.kbId = chunk.kbId ∧ s'.chunks = s.chunks.merge saveChunk updated ∧
      (r.edit.isPut = true ∧ (∃ row : EmbeddedChunk, row.toChunk = updated ∧
          ∀ kbId id, (s'.vectors kbId).row? id =
            if kbId = chunk.kbId ∧ id = r.chunkId then some row else (s.vectors kbId).row? id) ∨
        r.edit.isPut = false ∧ s'.vectors = s.vectors) := by
  unfold step at h
  cases hget : s.chunks.get? r.chunkId with
  | none =>
    rw [hget] at h
    cases h
  | some chunk =>
    have hid : chunk.chunkId = r.chunkId := KeyedTable.key_of_get? hget
    refine ⟨chunk, rfl, ?_⟩
    split at h
    · rename_i text metadata hcheck hbody
      split at h
      · cases h
      · rename_i hok
        cases h
        obtain ⟨hchunks, row, hkb, hdim, hrow, hvectors⟩ :=
          ReindexCall.stores_incrementalReindex r.env (putCall r text metadata) hget hok
        have hrowId : row.chunkId = r.chunkId := (congrArg Chunk.chunkId hrow).trans hid
        have hkbId : chunk.kbId = appKbId :=
          ((congrArg Chunk.kbId hrow).symm.trans hkb).trans (s.own_kb appKbId)
        refine ⟨(putCall r text metadata).rewrite r.env chunk, rfl, rfl, rfl, hchunks, Or.inl
          ⟨by rw [EditRequest.isPut, hbody], row, hrow, fun kbId id => ?_⟩⟩
        show (if kbId = appKbId then _ else _ : SqliteVectorStore).row? id = _
        rw [hkbId, hvectors]
        by_cases hkb' : kbId = appKbId
        · rw [if_pos hkb', SqliteVectorStore.row?_put, hrowId]
          by_cases hid' : r.chunkId = id
          · have hgone : (s.forReindex.vectors.delete [r.chunkId]).row? id = none :=
              SqliteVectorStore.row?_delete_of_mem (List.mem_singleton.mpr hid'.symm)
            rw [if_pos hid', if_pos ⟨hkb', hid'.symm⟩, show (putCall r text metadata).chunkId =
              r.chunkId from rfl, hgone]
            rfl
          · rw [if_neg hid', if_neg fun h => hid' h.2.symm, hkb']
            exact SqliteVectorStore.row?_delete_of_notMem fun hmem =>
              hid' (List.mem_singleton.mp hmem).symm
        · rw [if_neg hkb', if_neg fun h => hkb' h.1]
    · rename_i base metadata hcheck hbody
      cases h
      obtain rfl : base = chunk := by
        rw [hget] at hcheck
        exact base_of_firstCheck hcheck
      refine ⟨r.edit.rewrite r.env.countTokens base, EditRequest.version_rewrite _ _ _, ?_, ?_, rfl,
        Or.inr ⟨by rw [EditRequest.isPut, hbody], rfl⟩⟩
      · unfold EditRequest.rewrite
        rw [hbody]
      · unfold EditRequest.rewrite
        rw [hbody]
    · cases h

omit [MultiDiGraph G Entity Relation] in
/-- The row behind a request. -/
theorem get?_merge_updated {chunk updated : Chunk} (hget : s.chunks.get? r.chunkId = some chunk)
    (hid : updated.chunkId = chunk.chunkId) (id : String) :
    (s.chunks.merge saveChunk updated).get? id =
      if r.chunkId = id then some (saveChunk (some chunk) updated) else s.chunks.get? id := by
  rw [KeyedTable.get?_merge saveChunk_keepsKey, hid, KeyedTable.key_of_get? hget]
  split_ifs with h
  · rw [← h, hget]
  · rfl

omit [MultiDiGraph G Entity Relation] in
theorem behind_of_governed (hs : ∀ id, ∀ chunk ∈ s.chunks.get? id, s.Governed chunk) :
    s.Behind := by
  intro id chunk hchunk entry hentry
  obtain ⟨entry', hentry', _, _, _, hversion⟩ := hs id chunk hchunk
  obtain rfl : entry = entry' := Option.mem_unique hentry hentry'
  exact hversion.le

theorem behind_step (hs : s.Behind) (h : s.step r = some s') : s'.Behind := by
  obtain ⟨chunk, hget, updated, hversion, hid, hkb, hchunks, hcases⟩ := step_cases h
  have hkey : chunk.chunkId = r.chunkId := KeyedTable.key_of_get? hget
  intro id found hfound entry hentry
  rw [hchunks, get?_merge_updated hget hid] at hfound
  unfold entry? at hentry
  split_ifs at hfound with hsame
  · obtain rfl := Option.some.inj hfound
    rcases hcases with ⟨_, row, hrow, hrows⟩ | ⟨_, hvectors⟩
    · have hread : (s'.vectors chunk.kbId).row? chunk.chunkId = some entry := hentry
      rw [hrows, if_pos ⟨rfl, hkey⟩] at hread
      obtain rfl := Option.some.inj hread
      exact (congrArg Chunk.version hrow).le
    · rw [hvectors] at hentry
      have hle : entry.version ≤ chunk.version := hs r.chunkId chunk hget entry hentry
      have hnext : (saveChunk (some chunk) updated).version = chunk.version + 1 := hversion
      omega
  · rcases hcases with ⟨_, row, _, hrows⟩ | ⟨_, hvectors⟩
    · have hfoundId : found.chunkId = id := KeyedTable.key_of_get? hfound
      rw [hrows, if_neg fun hboth => hsame (hboth.2.symm.trans hfoundId)] at hentry
      exact hs id found hfound entry hentry
    · rw [hvectors] at hentry
      exact hs id found hfound entry hentry

/-- Exactly a `PUT` leaves its chunk governed. -/
theorem governedAfter_iff (hs : s.Behind) (h : s.step r = some s') :
    GovernedAfter s r s' ↔ r.edit.isPut = true := by
  obtain ⟨chunk, hget, updated, hversion, hid, hkb, hchunks, hcases⟩ := step_cases h
  have hkey : chunk.chunkId = r.chunkId := KeyedTable.key_of_get? hget
  have hrow' : s'.chunks.get? r.chunkId = some (saveChunk (some chunk) updated) := by
    rw [hchunks, get?_merge_updated hget hid, if_pos rfl]
  rcases hcases with ⟨hput, row, hrow, hrows⟩ | ⟨hpatch, hvectors⟩
  · refine iff_of_true ⟨_, hrow', row, ?_, ?_⟩ hput
    · show (s'.vectors chunk.kbId).row? chunk.chunkId = some row
      rw [hrows, if_pos ⟨rfl, hkey⟩]
    · rw [hrow]
      exact ⟨rfl, rfl, rfl, rfl⟩
  · refine iff_of_false ?_ (by rw [hpatch]; exact Bool.false_ne_true)
    rintro ⟨found, hfound, entry, hentry, _, _, _, hsame⟩
    obtain rfl := Option.some.inj (hrow'.symm.trans hfound)
    unfold entry? at hentry
    rw [hvectors] at hentry
    have hle : entry.version ≤ chunk.version := hs r.chunkId chunk hget entry hentry
    have hnext : (saveChunk (some chunk) updated).version = chunk.version + 1 := hversion
    omega

theorem governed_run (hs : s.Behind) {requests : List ChunkRequest}
    (hrun : run step s requests = some s') :
    EveryStep step GovernedAfter s requests ↔ ∀ r ∈ requests, r.edit.isPut = true := by
  induction requests generalizing s with
  | nil => exact iff_of_true trivial fun r hr => absurd hr List.not_mem_nil
  | cons r requests ih =>
    obtain ⟨t, hstep, hrest⟩ := run_cons_eq_some hrun
    rw [everyStep_cons hstep, governedAfter_iff hs hstep, ih (behind_step hs hstep) hrest,
      List.forall_mem_cons]

/-- From stores in which every chunk is governed, a sequence of successful requests leaves the
chunk of each of them governed exactly if none of them is a `PATCH`. -/
theorem governed_iff (s s' : ChunkStores G) (requests : List ChunkRequest)
    (hs : ∀ id, ∀ chunk ∈ s.chunks.get? id, s.Governed chunk)
    (hrun : run step s requests = some s') :
    EveryStep step GovernedAfter s requests ↔ ∀ r ∈ requests, r.edit.isPut = true :=
  governed_run (behind_of_governed hs) hrun

/-- A chunk of the application's knowledge base with its vector. -/
def governedStores : ChunkStores (EdgeTable Entity Relation) where
  chunks := KeyedTable.empty.put { KgEnv.adaChunk "chk_1" "doc_1" with kbId := appKbId }
  vectors kbId :=
    { kbId
      dimension := 1
      rows := if kbId = appKbId then
          [{ toChunk := { KgEnv.adaChunk "chk_1" "doc_1" with kbId }, vector := [1] }]
        else []
      kb_scoped := by split_ifs <;> simp
      dimension_eq := by split_ifs <;> simp
      ids_nodup := by split_ifs <;> simp }
  graph := .fresh "default"
  own_kb _ := rfl

theorem governed_governedStores :
    ∀ id, ∀ chunk ∈ governedStores.chunks.get? id, governedStores.Governed chunk := by
  intro id chunk hchunk
  have hentry : governedStores.chunks.values =
    [{ KgEnv.adaChunk "chk_1" "doc_1" with kbId := appKbId }] := rfl
  have hmem := KeyedTable.mem_values_of_get? hchunk
  rw [hentry, List.mem_singleton] at hmem
  subst hmem
  exact ⟨_, rfl, rfl, rfl, rfl, rfl⟩

def renamed (body : EditBody) : ChunkRequest where
  chunkId := "chk_1"
  edit := { body, version := 1 }
  env :=
    { kg := KgEnv.oneNameEnv
      draws := KgEnv.unaryDraws 'a'
      countTokens := String.length
      faults := fun _ => none }

theorem governed_iff_put :
    ∃ s', run step governedStores [renamed (.put "eve" none)] = some s' ∧
      (EveryStep step GovernedAfter governedStores [renamed (.put "eve" none)] ↔
        ∀ r ∈ [renamed (.put "eve" none)], r.edit.isPut = true) := by
  obtain ⟨s', hrun⟩ := Option.isSome_iff_exists.mp
    (by decide +kernel : (run step governedStores [renamed (.put "eve" none)]).isSome = true)
  exact ⟨s', hrun, governed_iff governedStores s' _ governed_governedStores hrun⟩

/-- A `PATCH` raises the version of the row, and the entry keeps the old one and its metadata. -/
theorem not_governed_patch :
    (run step governedStores [renamed (.patch (.ofList [("reviewed", .bool true)]))]).isSome =
        true ∧
      ¬ EveryStep step GovernedAfter governedStores
        [renamed (.patch (.ofList [("reviewed", .bool true)]))] := by
  have hsome : (run step governedStores
      [renamed (.patch (.ofList [("reviewed", .bool true)]))]).isSome = true := by decide +kernel
  obtain ⟨s', hrun⟩ := Option.isSome_iff_exists.mp hsome
  refine ⟨hsome, fun h => ?_⟩
  have hput := (governed_run (behind_of_governed governed_governedStores) hrun).mp h _
    List.mem_cons_self
  cases hput

end ChunkStores

end Ragx
