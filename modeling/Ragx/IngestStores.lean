import Ragx.IngestPipeline

/-!
# What the ingest stages establish

Predicates on the two stores and what each committed write does to them. Nothing
that a stage has established is lost by a later write, so the stages can be
replayed in any state that is sound.
-/
namespace Ragx

/-- Everything about a chunk but its random id. -/
def Chunk.withoutId (chunk : Chunk) : Chunk := { chunk with chunkId := "" }

theorem map_chunkId_identified {ids : List String} {drafts : List Chunk}
    (h : ids.length = drafts.length) :
    (IngestEnv.identified ids drafts).map (·.chunkId) = ids := by
  rw [IngestEnv.identified, List.map_map]
  exact List.map_fst_zip h.le

theorem map_withoutId_identified {ids : List String} {drafts : List Chunk}
    (h : ids.length = drafts.length) :
    (IngestEnv.identified ids drafts).map Chunk.withoutId = drafts.map Chunk.withoutId := by
  have hsnd : (ids.zip drafts).map Prod.snd = drafts := List.map_snd_zip h.ge
  rw [IngestEnv.identified, List.map_map]
  conv_rhs => rw [← hsnd, List.map_map]
  rfl

theorem map_toChunk_embedded (env : IngestEnv) (chunks : List Chunk) :
    (env.embedded chunks).map (·.toChunk) = chunks := by
  rw [IngestEnv.embedded, List.map_map]
  exact List.map_fst_zip (by rw [env.embed_length, List.length_map])

theorem upsert_concat (rows : OrderedDict String EmbeddedChunk) (xs : List EmbeddedChunk)
    (x : EmbeddedChunk) :
    upsert rows (xs ++ [x]) =
      (upsert rows xs).insert x.chunkId (upsertRow ((upsert rows xs).get? x.chunkId) x) :=
  OrderedDict.accumulate_append _ _ _ _ _

/-- An upsert of stored chunks keeps the vector rows in agreement with the chunk rows. -/
theorem agree_upsert {chunks : OrderedDict String Chunk} {rows : OrderedDict String EmbeddedChunk}
    {xs : List EmbeddedChunk}
    (hrows : ∀ id row, rows.get? id = some row → chunks.get? id = some row.toChunk)
    (hxs : ∀ x ∈ xs, chunks.get? x.chunkId = some x.toChunk) (id : String) (row : EmbeddedChunk)
    (h : (upsert rows xs).get? id = some row) : chunks.get? id = some row.toChunk := by
  induction xs using List.reverseRecOn generalizing id row with
  | nil => exact hrows id row h
  | append_singleton xs x ih =>
    have hx := hxs x (List.mem_append_right _ (List.mem_singleton.mpr rfl))
    have ih := ih fun y hy => hxs y (List.mem_append_left _ hy)
    rw [upsert_concat, OrderedDict.get?_insert] at h
    split_ifs at h with hid
    · subst hid
      have hrow : row.toChunk = x.toChunk := by
        rw [← Option.some.inj h]
        cases hold : (upsert rows xs).get? x.chunkId with
        | none => rfl
        | some old =>
          have hsame : old.toChunk = x.toChunk := Option.some.inj ((ih _ _ hold).symm.trans hx)
          simp [upsertRow, hsame]
      rw [hx, hrow]
    · exact ih id row h

theorem isSome_upsert {rows : OrderedDict String EmbeddedChunk} {xs : List EmbeddedChunk}
    {id : String} (h : (rows.get? id).isSome = true ∨ id ∈ xs.map (·.chunkId)) :
    ((upsert rows xs).get? id).isSome = true := by
  induction xs using List.reverseRecOn with
  | nil => exact h.resolve_right List.not_mem_nil
  | append_singleton xs x ih =>
    rw [upsert_concat, OrderedDict.get?_insert]
    split_ifs with hid
    · rfl
    · rw [List.map_append, List.mem_append, ← or_assoc] at h
      exact ih (h.resolve_right fun hx => hid (List.mem_singleton.mp hx).symm)

theorem same_of_isSome {chunks : OrderedDict String Chunk}
    {rows : OrderedDict String EmbeddedChunk}
    (hagree : ∀ id row, rows.get? id = some row → chunks.get? id = some row.toChunk)
    (hsome : ∀ id, (chunks.get? id).isSome = true → (rows.get? id).isSome = true) (id : String) :
    (rows.get? id).map (·.toChunk) = chunks.get? id := by
  cases hrow : rows.get? id with
  | some row => exact (hagree id row hrow).symm
  | none =>
    cases hchunk : chunks.get? id with
    | none => rfl
    | some chunk =>
      have := hsome id (by rw [hchunk]; rfl)
      rw [hrow] at this
      cases this

namespace IngestStores

variable (env : IngestEnv)

/-- The atom rows of a parsed document. -/
def Parsed (s : IngestStores) : Prop := s.atoms = saveAtoms .empty env.parse

/-- The chunk rows are one set of drafts of the parsed atoms, under new ids. -/
structure Chunked (s : IngestStores) : Prop where
  keyed : ∀ id chunk, s.chunks.get? id = some chunk → chunk.chunkId = id
  drafted : ∃ drafts, env.drafts (getAtoms (saveAtoms .empty env.parse)) = .ok drafts ∧
    s.chunks.values.map Chunk.withoutId = drafts.map Chunk.withoutId

/-- Every chunk row, and no other, has its row in the vector store. -/
structure Settled (s : IngestStores) : Prop extends Chunked env s where
  same : ∀ id, (s.vectors.get? id).map (·.toChunk) = s.chunks.get? id

/-- What holds of the stores at every moment of an untorn run. -/
structure Sound (s : IngestStores) : Prop where
  atoms : s.atoms = .empty ∨ Parsed env s
  agree : ∀ id row, s.vectors.get? id = some row → s.chunks.get? id = some row.toChunk
  parsed : s.checkpoint .parsing ≠ [] → Parsed env s
  chunked : s.checkpoint .chunking ≠ [] → Chunked env s
  embedded : s.checkpoint .embedding ≠ [] → Settled env s

/-- What the stages have established stays so. -/
structure Keeps (s s' : IngestStores) : Prop where
  parsed : Parsed env s → Parsed env s'
  chunked : Chunked env s → Chunked env s'
  settled : Settled env s → Settled env s'

variable {env} {s : IngestStores}

theorem Keeps.of_tables {s' : IngestStores} (hatoms : s'.atoms = s.atoms)
    (hchunks : s'.chunks = s.chunks) (hvectors : s'.vectors = s.vectors) : Keeps env s s' := by
  refine ⟨fun h => hatoms.trans h, fun h => ⟨?_, ?_⟩, fun h => ⟨⟨?_, ?_⟩, ?_⟩⟩
  · rw [hchunks]
    exact h.keyed
  · rw [hchunks]
    exact h.drafted
  · rw [hchunks]
    exact h.keyed
  · rw [hchunks]
    exact h.drafted
  · rw [hchunks, hvectors]
    exact h.same

/-- New tables that keep what was established need only agree with each other. -/
theorem Sound.of_keeps {s' : IngestStores} (hs : Sound env s) (hkeeps : Keeps env s s')
    (hcheckpoints : s'.checkpoints = s.checkpoints) (hatoms : s'.atoms = .empty ∨ Parsed env s')
    (hagree : ∀ id row, s'.vectors.get? id = some row → s'.chunks.get? id = some row.toChunk) :
    Sound env s' := by
  have hckpt (stage : IngestStage) : s'.checkpoint stage = s.checkpoint stage := by
    rw [checkpoint, hcheckpoints]
    rfl
  refine ⟨hatoms, hagree, fun h => hkeeps.parsed (hs.parsed ?_),
    fun h => hkeeps.chunked (hs.chunked ?_), fun h => hkeeps.settled (hs.embedded ?_)⟩
  · rwa [hckpt] at h
  · rwa [hckpt] at h
  · rwa [hckpt] at h

theorem parse_spec (hs : Sound env s) :
    let s' := { s with atoms := saveAtoms s.atoms env.parse }
    Sound env s' ∧ Keeps env s s' ∧ Parsed env s' := by
  have hparsed : saveAtoms s.atoms env.parse = saveAtoms .empty env.parse := by
    rcases hs.atoms with h | h
    · rw [h]
    · rw [h, saveAtoms_saveAtoms]
  have hkeeps : Keeps env s { s with atoms := saveAtoms s.atoms env.parse } :=
    ⟨fun _ => hparsed, fun h => ⟨h.keyed, h.drafted⟩, fun h => ⟨⟨h.keyed, h.drafted⟩, h.same⟩⟩
  exact ⟨hs.of_keeps hkeeps rfl (Or.inr hparsed) hs.agree, hkeeps, hparsed⟩

theorem entries_saveChunks_empty {chunks : List Chunk} (hn : (chunks.map (·.chunkId)).Nodup) :
    (saveChunks .empty chunks).entries = chunks.map fun chunk => (chunk.chunkId, chunk) :=
  OrderedDict.entries_accumulate_of_nodup Chunk.chunkId saveChunk hn

/-- Into an empty table the chunking stage writes its drafts, under the ids it drew. -/
theorem chunk_spec {ids : List String} {drafts : List Chunk} (hs : Sound env s)
    (hempty : s.chunks = .empty) (hn : ids.Nodup) (hlength : ids.length = drafts.length)
    (hdrafts : env.drafts (getAtoms (saveAtoms .empty env.parse)) = .ok drafts) :
    let s' := { s with chunks := saveChunks s.chunks (IngestEnv.identified ids drafts) }
    Sound env s' ∧ Keeps env s s' ∧ Chunked env s' ∧ (ids = [] → s'.chunks = .empty) := by
  have hids := map_chunkId_identified hlength
  have hentries := entries_saveChunks_empty (hids ▸ hn)
  rw [← hempty] at hentries
  have hchunked : Chunked env
      { s with chunks := saveChunks s.chunks (IngestEnv.identified ids drafts) } := by
    refine ⟨fun id chunk h => ?_, drafts, hdrafts, ?_⟩
    · have hmem := OrderedDict.mem_entries.mpr h
      rw [hentries, List.mem_map] at hmem
      obtain ⟨c, _, hc⟩ := hmem
      cases hc
      rfl
    · rw [OrderedDict.values, hentries, List.map_map, List.map_map]
      exact map_withoutId_identified hlength
  have hnone (h : ids = []) : saveChunks s.chunks (IngestEnv.identified ids drafts) = .empty := by
    rw [hempty, h]
    rfl
  have hvectors (id : String) : s.vectors.get? id = none := by
    cases h : s.vectors.get? id with
    | none => rfl
    | some row =>
      have := hs.agree id row h
      rw [hempty] at this
      cases this
  -- an empty table that counts as chunked belongs to a document without chunks
  have hsame (h : Chunked env s) :
      saveChunks s.chunks (IngestEnv.identified ids drafts) = s.chunks := by
    obtain ⟨drafts', hdrafts', hvalues⟩ := h.drafted
    rw [hdrafts, Except.ok.injEq] at hdrafts'
    rw [← hdrafts', hempty] at hvalues
    have hdnil : drafts = [] := List.map_eq_nil_iff.mp hvalues.symm
    rw [hnone (List.length_eq_zero_iff.mp (by rw [hlength, hdnil]; rfl)), hempty]
  have hkeeps : Keeps env s
      { s with chunks := saveChunks s.chunks (IngestEnv.identified ids drafts) } := by
    refine ⟨fun h => h, fun _ => hchunked, fun h => ⟨hchunked, fun id => ?_⟩⟩
    rw [hsame h.toChunked]
    exact h.same id
  refine ⟨hs.of_keeps hkeeps rfl hs.atoms fun id row h => ?_, hkeeps, hchunked, hnone⟩
  rw [hvectors id] at h
  cases h

theorem get?_of_mem_embedded (hc : Chunked env s) {x : EmbeddedChunk}
    (hx : x ∈ env.embedded (getChunksByDoc s.chunks)) :
    s.chunks.get? x.chunkId = some x.toChunk := by
  have hmem := List.mem_map_of_mem (f := fun y : EmbeddedChunk => y.toChunk) hx
  rw [map_toChunk_embedded] at hmem
  obtain ⟨id, hid⟩ := mem_getChunksByDoc.mp hmem
  rw [hc.keyed id _ hid]
  exact hid

/-- An upsert of some of the stored chunks keeps what was established; an upsert of all of
them settles the vector store. -/
theorem upsert_spec (hs : Sound env s) (hc : Chunked env s) (xs : List EmbeddedChunk)
    (hxs : ∀ x ∈ xs, x ∈ env.embedded (getChunksByDoc s.chunks)) :
    let s' := { s with vectors := upsert s.vectors xs }
    Sound env s' ∧ Keeps env s s' ∧
      (xs = env.embedded (getChunksByDoc s.chunks) → Settled env s') := by
  have hagree := agree_upsert hs.agree fun x hx => get?_of_mem_embedded hc (hxs x hx)
  have hkeeps : Keeps env s { s with vectors := upsert s.vectors xs } := by
    refine ⟨fun h => h, fun h => ⟨h.keyed, h.drafted⟩, fun h => ⟨⟨h.keyed, h.drafted⟩, ?_⟩⟩
    refine same_of_isSome hagree fun id hid => isSome_upsert (Or.inl ?_)
    rw [← h.same id, Option.isSome_map] at hid
    exact hid
  refine ⟨hs.of_keeps hkeeps rfl hs.atoms hagree, hkeeps, fun hall => ⟨⟨hc.keyed, hc.drafted⟩, ?_⟩⟩
  refine same_of_isSome hagree fun id hid => isSome_upsert (Or.inr ?_)
  obtain ⟨chunk, hchunk⟩ := Option.isSome_iff_exists.mp hid
  have hids : xs.map (·.chunkId) = (getChunksByDoc s.chunks).map (·.chunkId) := by
    rw [hall, ← map_toChunk_embedded env (getChunksByDoc s.chunks), List.map_map,
      map_toChunk_embedded]
    rfl
  rw [hids, ← hc.keyed id chunk hchunk]
  exact List.mem_map_of_mem (mem_getChunksByDoc.mpr ⟨id, hchunk⟩)

/-- A checkpoint may be written when its stage is established. -/
theorem record_spec {stage : IngestStage} {ids : List String} (hs : Sound env s)
    (hparsed : stage = .parsing → Parsed env s)
    (hchunked : stage = .chunking → Chunked env s)
    (hsettled : stage = .embedding → Settled env s) :
    Sound env { s with checkpoints := s.checkpoints.insert stage ids } := by
  have hkeeps : Keeps env s { s with checkpoints := s.checkpoints.insert stage ids } :=
    Keeps.of_tables rfl rfl rfl
  have hckpt (other : IngestStage) (h : stage ≠ other) :
      checkpoint { s with checkpoints := s.checkpoints.insert stage ids } other =
        s.checkpoint other := by
    rw [checkpoint, OrderedDict.get?_insert, if_neg h]
    rfl
  refine ⟨hs.atoms, hs.agree, fun h => ?_, fun h => hkeeps.chunked ?_, fun h => hkeeps.settled ?_⟩
  · by_cases hstage : stage = .parsing
    · exact hparsed hstage
    · exact hs.parsed (hckpt _ hstage ▸ h)
  · by_cases hstage : stage = .chunking
    · exact hchunked hstage
    · exact hs.chunked (hckpt _ hstage ▸ h)
  · by_cases hstage : stage = .embedding
    · exact hsettled hstage
    · exact hs.embedded (hckpt _ hstage ▸ h)

end IngestStores

end Ragx
