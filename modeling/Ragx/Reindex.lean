import Ragx.ChunkEdits
import Ragx.GraphDeletion
import Ragx.KgBuilder
import Ragx.KgIntegrity
import Ragx.VectorWrites

/-!
# Reindexing an edited chunk

An edit goes through three stores: the chunk's vector is deleted, and its document is taken
off the graph; the row is rewritten with the next version; the new text is embedded and
upserted, and the graph is built for this chunk. The calls follow one another without a
transaction around them. A failing cache is ignored, and the cache is left out.
-/
namespace Ragx

/-- An exception of a step, and whether the step had taken effect by then. -/
structure Fault where
  exc : Exc
  done : Bool

/-- The external steps of a reindex. -/
inductive ReindexStep where
  | vectorDelete
  | graphDelete
  | saveChunks
  | embed
  | vectorUpsert
  | graphBuild

/-- The command, unless it has a fault. -/
def Command.withFault {σ : Type} (fault : Option Fault) (c : Command σ Exc) : Command σ Exc :=
  match fault with
  | none => c
  | some f => fun s => (if f.done then (c s).1 else s, some f.exc)

structure ReindexStores (G : Type) where
  chunks : KeyedTable Chunk.chunkId
  vectors : SqliteVectorStore
  graph : NetworkXGraphStore G

/-- What a reindex is given from outside. -/
structure ReindexEnv where
  kg : KgEnv
  draws : Draws
  countTokens : String → ℕ
  faults : ReindexStep → Option Fault

/-- The arguments of a reindex. -/
structure ReindexCall where
  chunkId : String
  newText : Option String := none
  newMeta : Option Metadata := none
  versionExpected : ℤ
  kgEnabled : Bool := false
  hasGraphStore : Bool := false
  hasLlm : Bool := false
  hasKbCfg : Bool := false

namespace ReindexCall

variable {G : Type} [MultiDiGraph G Entity Relation] (env : ReindexEnv) (call : ReindexCall)

def touchesGraph : Bool := call.kgEnabled && call.hasGraphStore

def rebuildsGraph : Bool := call.touchesGraph && call.hasLlm && call.hasKbCfg

/-- The chunk that is written back. -/
def rewrite (chunk : Chunk) : Chunk :=
  { chunk with
    text := call.newText.getD chunk.text
    tokenCount := (call.newText.map env.countTokens).getD chunk.tokenCount
    metadata := (call.newMeta.map fun new => chunk.metadata.update new.entries).getD chunk.metadata
    version := chunk.version + 1
    edited := true }

def deleteVector : Command (ReindexStores G) Exc :=
  .withFault (env.faults .vectorDelete) fun s =>
    ({ s with vectors := s.vectors.delete [call.chunkId] }, none)

def deleteGraph (chunk : Chunk) : Command (ReindexStores G) Exc :=
  if call.touchesGraph then
    .withFault (env.faults .graphDelete) fun s =>
      ({ s with graph := s.graph.deleteByDoc chunk.docId }, none)
  else .skip

def saveUpdated (updated : Chunk) : Command (ReindexStores G) Exc :=
  .withFault (env.faults .saveChunks) fun s =>
    ({ s with chunks := s.chunks.merge saveChunk updated }, none)

def embedAndUpsert (updated : Chunk) : Command (ReindexStores G) Exc := fun s =>
  match env.faults .embed with
  | some f => (s, some f.exc)
  | none =>
    match env.kg.embedOne updated.text with
    | .error e => (s, some e)
    | .ok vector =>
      Command.withFault (env.faults .vectorUpsert) (fun s =>
        let result := SqliteVectorStore.upsert [{ toChunk := updated, vector }] s.vectors
        ({ s with vectors := result.1 }, result.2)) s

def rebuildGraph (updated : Chunk) : Command (ReindexStores G) Exc :=
  if call.rebuildsGraph then
    .withFault (env.faults .graphBuild) fun s =>
      let result := env.kg.buildForChunks env.draws [updated] s.graph
      ({ s with graph := result.1 }, result.2)
  else .skip

def incrementalReindex : Command (ReindexStores G) Exc := fun s =>
  match s.chunks.get? call.chunkId with
  | none => (s, some (chunkNotFoundError call.chunkId))
  | some chunk =>
    if chunk.version ≠ call.versionExpected then
      (s, some {
        cls := .editConflict, code := 3002, message := "version mismatch"
        details := [("expected", .num call.versionExpected), ("actual", .num chunk.version)] })
    else
      let updated := call.rewrite env chunk
      (call.deleteVector env).andThen ((call.deleteGraph env chunk).andThen
        ((saveUpdated env updated).andThen
          ((embedAndUpsert env updated).andThen (call.rebuildGraph env updated)))) s

end ReindexCall

/-! ## Faults

Any external step may raise, before or after it has taken effect, and steps may also refuse
what they are given. The main result says for which faults a call that raises leaves the
three stores as they were. -/

theorem Command.withFault_none {σ : Type} {c : Command σ Exc} : Command.withFault none c = c := rfl

theorem Command.withFault_some {σ : Type} {f : Fault} {c : Command σ Exc} {s : σ} :
    Command.withFault (some f) c s = (if f.done then (c s).1 else s, some f.exc) := rfl

theorem Command.withFault_raised_eq_none {σ : Type} {fault : Option Fault} {c : Command σ Exc}
    {s : σ} : (Command.withFault fault c s).2 = none ↔ fault = none ∧ (c s).2 = none := by
  cases fault with
  | none => exact (and_iff_right rfl).symm
  | some f => exact iff_of_false (Option.some_ne_none _) fun h => Option.some_ne_none f h.1

/-- A fault leaves the state of before or of after. -/
theorem Command.withFault_invariant {σ : Type} {fault : Option Fault} {c : Command σ Exc}
    {I : σ → Prop} {s : σ} (hc : I (c s).1) (hs : I s) : I (Command.withFault fault c s).1 := by
  cases fault with
  | none => exact hc
  | some f =>
    unfold Command.withFault
    dsimp only
    split_ifs
    · exact hc
    · exact hs

theorem saveChunk_keepsKey : KeyedTable.KeepsKey Chunk.chunkId saveChunk := by
  intro stored chunk h
  cases stored with
  | none => rfl
  | some old => exact h old rfl

namespace ReindexCall

variable {G : Type} [MultiDiGraph G Entity Relation] (env : ReindexEnv) (call : ReindexCall)

/-- The chunk's row, its vector entry and the graph are the same. -/
structure Unchanged (s s' : ReindexStores G) : Prop where
  chunk : s'.chunks.get? call.chunkId = s.chunks.get? call.chunkId
  vector : s'.vectors.row? call.chunkId = s.vectors.row? call.chunkId
  graph : s'.graph = s.graph

/-- A call that raises changes nothing. -/
def FailureAtomic (s : ReindexStores G) : Prop :=
  (call.incrementalReindex env s).2 ≠ none → call.Unchanged s (call.incrementalReindex env s).1

/-- Nothing raises from the embedding on, and the text has a vector that the store takes. -/
structure Completes (s : ReindexStores G) (chunk : Chunk) : Prop where
  embed : env.faults .embed = none
  upsert : env.faults .vectorUpsert = none
  vector : ∃ vector, env.kg.embedOne (call.rewrite env chunk).text = .ok vector ∧
    vector.length = s.vectors.dimension
  accepted : chunk.kbId = s.vectors.kbId
  rebuilt : call.rebuildsGraph = true → env.faults .graphBuild = none ∧
    (env.kg.buildForChunks env.draws [call.rewrite env chunk]
      (s.graph.deleteByDoc chunk.docId)).2 = none

/-- The fault of the deletion from the graph, if it is reached. -/
def graphDeleteFault : Option Fault :=
  if call.touchesGraph then env.faults .graphDelete else none

/-- Unless a check refuses the edit, the first step that raises has no trace of an earlier one
before it and leaves none itself. Behind the write of the row there is no such step. -/
def Recoverable (s : ReindexStores G) : Prop :=
  ∀ chunk, s.chunks.get? call.chunkId = some chunk → chunk.version = call.versionExpected →
    match env.faults .vectorDelete with
    | some f => f.done = true → s.vectors.row? call.chunkId = none
    | none =>
      match call.graphDeleteFault env with
      | some f => s.vectors.row? call.chunkId = none ∧
          (f.done = true → s.graph.Unlisted chunk.docId)
      | none =>
        match env.faults .saveChunks with
        | some f => s.vectors.row? call.chunkId = none ∧
            (call.touchesGraph = true → s.graph.Unlisted chunk.docId) ∧ f.done = false
        | none => call.Completes env s chunk

/-! ## Behind the write of the row -/

omit [MultiDiGraph G Entity Relation] in
/-- Embedding and upserting only touch the vector store. -/
theorem embedAndUpsert_frame (updated : Chunk) (s : ReindexStores G) :
    (embedAndUpsert env updated s).1.chunks = s.chunks ∧
      (embedAndUpsert env updated s).1.graph = s.graph := by
  unfold embedAndUpsert
  cases env.faults .embed with
  | some f => exact ⟨rfl, rfl⟩
  | none =>
    cases env.kg.embedOne updated.text with
    | error e => exact ⟨rfl, rfl⟩
    | ok vector =>
      exact Command.withFault_invariant
        (I := fun t : ReindexStores G => t.chunks = s.chunks ∧ t.graph = s.graph) ⟨rfl, rfl⟩
        ⟨rfl, rfl⟩

theorem rebuildGraph_chunks (updated : Chunk) (s : ReindexStores G) :
    (call.rebuildGraph env updated s).1.chunks = s.chunks := by
  unfold rebuildGraph
  split_ifs
  · exact Command.withFault_invariant (I := fun t : ReindexStores G => t.chunks = s.chunks) rfl rfl
  · rfl

/-- The rest of the call leaves the chunk's row alone. -/
theorem finish_chunks (updated : Chunk) (s : ReindexStores G) :
    ((embedAndUpsert env updated).andThen (call.rebuildGraph env updated) s).1.chunks =
      s.chunks := by
  refine Command.andThen_invariant (I := fun t : ReindexStores G => t.chunks = s.chunks)
    (embedAndUpsert_frame env updated s).1 fun _ => ?_
  rw [rebuildGraph_chunks, (embedAndUpsert_frame env updated s).1]

omit [MultiDiGraph G Entity Relation] in
theorem embedAndUpsert_raised_eq_none {updated : Chunk} {s : ReindexStores G} :
    (embedAndUpsert env updated s).2 = none ↔ env.faults .embed = none ∧
      env.faults .vectorUpsert = none ∧ (∃ vector, env.kg.embedOne updated.text = .ok vector ∧
        vector.length = s.vectors.dimension) ∧ updated.kbId = s.vectors.kbId := by
  unfold embedAndUpsert
  cases env.faults .embed with
  | some f => simp
  | none =>
    cases env.kg.embedOne updated.text with
    | error e => simp
    | ok vector =>
      cases env.faults .vectorUpsert with
      | some f => simp [Command.withFault]
      | none =>
        show (SqliteVectorStore.upsert [{ toChunk := updated, vector }] s.vectors).2 = none ↔ _
        rw [SqliteVectorStore.upsert, Command.forEach_singleton,
          SqliteVectorStore.upsertOne_raised_eq_none]
        simp [and_comm]

theorem rebuildGraph_raised_eq_none {updated : Chunk} {s : ReindexStores G} :
    (call.rebuildGraph env updated s).2 = none ↔ (call.rebuildsGraph = true →
      env.faults .graphBuild = none ∧
        (env.kg.buildForChunks env.draws [updated] s.graph).2 = none) := by
  unfold rebuildGraph
  split_ifs with hrebuild
  · cases env.faults .graphBuild with
    | some f => simp [Command.withFault, hrebuild]
    | none => simp [Command.withFault, hrebuild]
  · exact iff_of_true rfl fun h => absurd h hrebuild

/-! ## In front of the write of the row -/

/-- The stores without the chunk's vector. -/
def withoutVector (s : ReindexStores G) : ReindexStores G :=
  { s with vectors := s.vectors.delete [call.chunkId] }

/-- The stores with the document taken off the graph, where the call does that. -/
def withoutDoc (chunk : Chunk) (s : ReindexStores G) : ReindexStores G :=
  if call.touchesGraph then { s with graph := s.graph.deleteByDoc chunk.docId } else s

omit [MultiDiGraph G Entity Relation] in
theorem deleteVector_of_none (h : env.faults .vectorDelete = none) (s : ReindexStores G) :
    call.deleteVector env s = (call.withoutVector s, none) := by
  rw [deleteVector, h]
  rfl

omit [MultiDiGraph G Entity Relation] in
theorem deleteVector_of_some {f : Fault} (h : env.faults .vectorDelete = some f)
    (s : ReindexStores G) :
    call.deleteVector env s = (if f.done then call.withoutVector s else s, some f.exc) := by
  rw [deleteVector, h]
  rfl

theorem deleteGraph_of_none (h : call.graphDeleteFault env = none) (chunk : Chunk)
    (s : ReindexStores G) :
    call.deleteGraph env chunk s = (call.withoutDoc chunk s, none) := by
  unfold graphDeleteFault at h
  unfold deleteGraph withoutDoc
  split_ifs at h ⊢
  · rw [h]
    rfl
  · rfl

theorem deleteGraph_of_some {f : Fault} (h : call.graphDeleteFault env = some f)
    (chunk : Chunk) (s : ReindexStores G) :
    call.deleteGraph env chunk s =
      (if f.done then call.withoutDoc chunk s else s, some f.exc) := by
  unfold graphDeleteFault at h
  unfold deleteGraph withoutDoc
  by_cases htouch : call.touchesGraph = true
  · rw [if_pos htouch] at h ⊢
    rw [h, Command.withFault_some, if_pos htouch]
  · rw [if_neg htouch] at h
    cases h

omit [MultiDiGraph G Entity Relation] in
theorem unchanged_withoutVector_iff (s : ReindexStores G) :
    call.Unchanged s (call.withoutVector s) ↔ s.vectors.row? call.chunkId = none := by
  have hnone : (call.withoutVector s).vectors.row? call.chunkId = none :=
    SqliteVectorStore.row?_delete_of_mem (List.mem_singleton.mpr rfl)
  constructor
  · exact fun h => h.vector ▸ hnone
  · exact fun h => ⟨rfl, hnone.trans h.symm, rfl⟩

theorem unchanged_withoutDoc_iff (chunk : Chunk) (s : ReindexStores G) :
    call.Unchanged s (call.withoutDoc chunk (call.withoutVector s)) ↔
      s.vectors.row? call.chunkId = none ∧
        (call.touchesGraph = true → s.graph.Unlisted chunk.docId) := by
  rw [← unchanged_withoutVector_iff call, withoutDoc]
  split_ifs with htouch
  · constructor
    · exact fun h => ⟨⟨h.chunk, h.vector, rfl⟩,
        fun _ => NetworkXGraphStore.deleteByDoc_eq_self_iff.mp h.graph⟩
    · exact fun h => ⟨h.1.chunk, h.1.vector,
        NetworkXGraphStore.deleteByDoc_eq_self_iff.mpr (h.2 htouch)⟩
  · exact (and_iff_left fun h => absurd h htouch).symm

omit [MultiDiGraph G Entity Relation] in
/-- Once the row has been written, its version tells that something changed. -/
theorem not_unchanged_of_merge {s s' : ReindexStores G} {chunk : Chunk}
    (hget : s.chunks.get? call.chunkId = some chunk)
    (h : s'.chunks = s.chunks.merge saveChunk (call.rewrite env chunk)) :
    ¬ call.Unchanged s s' := by
  intro hsame
  have hkey := KeyedTable.key_of_get? hget
  have hid : (call.rewrite env chunk).chunkId = call.chunkId := hkey
  have hrow := hsame.chunk
  rw [h, KeyedTable.get?_merge saveChunk_keepsKey, if_pos hid, hget] at hrow
  have hversion : chunk.version + 1 = chunk.version :=
    congrArg Chunk.version (Option.some.inj hrow)
  omega

/-! ## The whole call -/

/-- The stores with the row rewritten. -/
def withRewritten (chunk : Chunk) (s : ReindexStores G) : ReindexStores G :=
  { s with chunks := s.chunks.merge saveChunk (call.rewrite env chunk) }

omit [MultiDiGraph G Entity Relation] in
theorem saveUpdated_of_none (h : env.faults .saveChunks = none) (chunk : Chunk)
    (s : ReindexStores G) :
    saveUpdated env (call.rewrite env chunk) s = (call.withRewritten env chunk s, none) := by
  rw [saveUpdated, h]
  rfl

omit [MultiDiGraph G Entity Relation] in
theorem saveUpdated_of_some {f : Fault} (h : env.faults .saveChunks = some f) (chunk : Chunk)
    (s : ReindexStores G) : saveUpdated env (call.rewrite env chunk) s =
      (if f.done then call.withRewritten env chunk s else s, some f.exc) := by
  rw [saveUpdated, h]
  rfl

theorem frame_withoutDoc (chunk : Chunk) (s : ReindexStores G) :
    (call.withoutDoc chunk s).chunks = s.chunks ∧
      (call.withoutDoc chunk s).vectors = s.vectors ∧
      (call.rebuildsGraph = true →
        (call.withoutDoc chunk s).graph = s.graph.deleteByDoc chunk.docId) := by
  unfold withoutDoc
  split_ifs with htouch
  · exact ⟨rfl, rfl, fun _ => rfl⟩
  · refine ⟨rfl, rfl, fun hrebuild => absurd ?_ htouch⟩
    rw [rebuildsGraph, Bool.and_eq_true, Bool.and_eq_true] at hrebuild
    exact hrebuild.1.1

/-- Behind the write of the row only success changes nothing that it should not. -/
theorem finish_raised_eq_none (s : ReindexStores G) (chunk : Chunk) :
    ((embedAndUpsert env (call.rewrite env chunk)).andThen
      (call.rebuildGraph env (call.rewrite env chunk))
      (call.withRewritten env chunk (call.withoutDoc chunk (call.withoutVector s)))).2 = none ↔
      call.Completes env s chunk := by
  obtain ⟨_, hvectors, hgraph⟩ := call.frame_withoutDoc chunk (call.withoutVector s)
  rw [Command.andThen_raised_eq_none, embedAndUpsert_raised_eq_none, rebuildGraph_raised_eq_none,
    (embedAndUpsert_frame env _ _).2]
  simp only [withRewritten, hvectors]
  constructor
  · rintro ⟨⟨hembed, hupsert, hvector, hkb⟩, hrebuilt⟩
    refine ⟨hembed, hupsert, hvector, hkb, fun h => ?_⟩
    have hgraphs := hrebuilt h
    rwa [hgraph h] at hgraphs
  · intro h
    refine ⟨⟨h.embed, h.upsert, h.vector, h.accepted⟩, fun hrebuild => ?_⟩
    rw [hgraph hrebuild]
    exact h.rebuilt hrebuild

/-- The call from the write of the row on. -/
theorem failureAtomic_save {s : ReindexStores G} {chunk : Chunk}
    (hget : s.chunks.get? call.chunkId = some chunk) {result : ReindexStores G × Option Exc}
    (hresult : result = (saveUpdated env (call.rewrite env chunk)).andThen
      ((embedAndUpsert env (call.rewrite env chunk)).andThen
        (call.rebuildGraph env (call.rewrite env chunk)))
      (call.withoutDoc chunk (call.withoutVector s))) :
    (result.2 ≠ none → call.Unchanged s result.1) ↔
      match env.faults .saveChunks with
      | some f => s.vectors.row? call.chunkId = none ∧
          (call.touchesGraph = true → s.graph.Unlisted chunk.docId) ∧ f.done = false
      | none => call.Completes env s chunk := by
  have hiff := call.unchanged_withoutDoc_iff chunk s
  obtain ⟨hchunks, _⟩ := call.frame_withoutDoc chunk (call.withoutVector s)
  have hchanged (t : ReindexStores G) (ht : t.chunks = (call.withRewritten env chunk
      (call.withoutDoc chunk (call.withoutVector s))).chunks) : ¬ call.Unchanged s t := by
    refine call.not_unchanged_of_merge env hget (ht.trans ?_)
    rw [withRewritten, hchunks]
    rfl
  cases hfault : env.faults .saveChunks with
  | some f =>
    have hstep := call.saveUpdated_of_some env hfault chunk
      (call.withoutDoc chunk (call.withoutVector s))
    rw [Command.andThen_of_some (congrArg Prod.snd hstep), hstep] at hresult
    obtain ⟨exc, done⟩ := f
    subst hresult
    cases done with
    | false =>
      refine ⟨fun h => ?_, fun h _ => hiff.mpr ⟨h.1, h.2.1⟩⟩
      obtain ⟨hnone, hunlisted⟩ := hiff.mp (h (Option.some_ne_none _))
      exact ⟨hnone, hunlisted, rfl⟩
    | true =>
      refine iff_of_false (fun h => ?_) fun h => Bool.false_ne_true h.2.2.symm
      exact hchanged _ rfl (h (Option.some_ne_none _))
  | none =>
    have hstep := call.saveUpdated_of_none env hfault chunk
      (call.withoutDoc chunk (call.withoutVector s))
    rw [Command.andThen_of_none (congrArg Prod.snd hstep), hstep] at hresult
    subst hresult
    refine Iff.trans ?_ (call.finish_raised_eq_none env s chunk)
    refine ⟨fun h => ?_, fun h hne => absurd h hne⟩
    by_contra hne
    exact hchanged _ (finish_chunks env call _ _) (h hne)

/-- The call from the deletion from the graph on. -/
theorem failureAtomic_graph {s : ReindexStores G} {chunk : Chunk}
    (hget : s.chunks.get? call.chunkId = some chunk) {result : ReindexStores G × Option Exc}
    (hresult : result = (call.deleteGraph env chunk).andThen
      ((saveUpdated env (call.rewrite env chunk)).andThen
        ((embedAndUpsert env (call.rewrite env chunk)).andThen
          (call.rebuildGraph env (call.rewrite env chunk)))) (call.withoutVector s)) :
    (result.2 ≠ none → call.Unchanged s result.1) ↔
      match call.graphDeleteFault env with
      | some f => s.vectors.row? call.chunkId = none ∧
          (f.done = true → s.graph.Unlisted chunk.docId)
      | none =>
        match env.faults .saveChunks with
        | some f => s.vectors.row? call.chunkId = none ∧
            (call.touchesGraph = true → s.graph.Unlisted chunk.docId) ∧ f.done = false
        | none => call.Completes env s chunk := by
  cases hfault : call.graphDeleteFault env with
  | some f =>
    have hstep := call.deleteGraph_of_some env hfault chunk (call.withoutVector s)
    rw [Command.andThen_of_some (congrArg Prod.snd hstep), hstep] at hresult
    have htouch : call.touchesGraph = true := by
      by_contra hno
      rw [graphDeleteFault, if_neg hno] at hfault
      cases hfault
    obtain ⟨exc, done⟩ := f
    subst hresult
    cases done with
    | false =>
      have hiff := call.unchanged_withoutVector_iff s
      exact ⟨fun h => ⟨hiff.mp (h (Option.some_ne_none _)),
        fun hdone => absurd hdone Bool.false_ne_true⟩, fun h _ => hiff.mpr h.1⟩
    | true =>
      have hiff := call.unchanged_withoutDoc_iff chunk s
      refine ⟨fun h => ?_, fun h _ => hiff.mpr ⟨h.1, fun _ => h.2 rfl⟩⟩
      obtain ⟨hnone, hunlisted⟩ := hiff.mp (h (Option.some_ne_none _))
      exact ⟨hnone, fun _ => hunlisted htouch⟩
  | none =>
    have hstep := call.deleteGraph_of_none env hfault chunk (call.withoutVector s)
    rw [Command.andThen_of_none (congrArg Prod.snd hstep), hstep] at hresult
    exact call.failureAtomic_save env hget hresult

/-- A call that raises leaves the stores as they were exactly under the condition. -/
theorem failureAtomic_iff (s : ReindexStores G) :
    call.FailureAtomic env s ↔ call.Recoverable env s := by
  unfold FailureAtomic Recoverable incrementalReindex
  cases hget : s.chunks.get? call.chunkId with
  | none =>
    refine iff_of_true (fun _ => ⟨rfl, rfl, rfl⟩) fun chunk hchunk => ?_
    cases hchunk
  | some chunk =>
    by_cases hversion : chunk.version = call.versionExpected
    · simp only [Option.some.injEq, forall_eq', ne_eq, hversion, not_true_eq_false, ↓reduceIte,
        forall_const]
      cases hfault : env.faults .vectorDelete with
      | some f =>
        have hstep := call.deleteVector_of_some env hfault s
        rw [Command.andThen_of_some (congrArg Prod.snd hstep), hstep]
        obtain ⟨exc, done⟩ := f
        cases done with
        | false =>
          exact iff_of_true (fun _ => ⟨rfl, rfl, rfl⟩) fun h => absurd h Bool.false_ne_true
        | true =>
          have hiff := call.unchanged_withoutVector_iff s
          exact ⟨fun h _ => hiff.mp (h (Option.some_ne_none _)), fun h _ => hiff.mpr (h rfl)⟩
      | none =>
        have hstep := call.deleteVector_of_none env hfault s
        rw [Command.andThen_of_none (congrArg Prod.snd hstep), hstep]
        exact call.failureAtomic_graph env hget rfl
    · refine iff_of_true (fun _ => ?_) fun chunk' hchunk' hversion' => ?_
      · dsimp only
        rw [if_pos hversion]
        exact ⟨rfl, rfl, rfl⟩
      · cases hchunk'
        exact absurd hversion' hversion

/-! ## A failing embedder -/

def embedderDownEnv : ReindexEnv where
  kg := KgEnv.oneNameEnv
  draws := KgEnv.unaryDraws 'a'
  countTokens := String.length
  faults step :=
    match step with
    | .embed => some { exc := .foreign "connection refused", done := false }
    | _ => none

/-- One chunk with its vector. -/
def adaStores : ReindexStores (EdgeTable Entity Relation) where
  chunks := KeyedTable.empty.put (KgEnv.adaChunk "chk_1" "doc_1")
  vectors :=
    { kbId := "kb"
      dimension := 1
      rows := [{ toChunk := KgEnv.adaChunk "chk_1" "doc_1", vector := [1] }]
      kb_scoped := by simp [KgEnv.adaChunk]
      dimension_eq := by simp
      ids_nodup := List.nodup_singleton _ }
  graph := .fresh "kb"

/-- The new text and the next version stay, and the vector is gone. -/
theorem not_failureAtomic_adaStores :
    let call : ReindexCall := { chunkId := "chk_1", newText := some "eve", versionExpected := 1 }
    let result := call.incrementalReindex embedderDownEnv adaStores
    result.2.map (·.message) = some "connection refused" ∧
      (result.1.chunks.get? "chk_1").map (fun chunk => (chunk.text, chunk.version)) =
        some ("eve", 2) ∧
      (adaStores.vectors.row? "chk_1").isSome = true ∧
      (result.1.vectors.row? "chk_1").isSome = false ∧
      ¬ call.FailureAtomic embedderDownEnv adaStores := by
  refine ⟨by decide +kernel, by decide +kernel, by decide +kernel, by decide +kernel, fun h => ?_⟩
  have hcompletes : Completes embedderDownEnv
      { chunkId := "chk_1", newText := some "eve", versionExpected := 1 } adaStores
      (KgEnv.adaChunk "chk_1" "doc_1") :=
    (failureAtomic_iff embedderDownEnv _ adaStores).mp h _ rfl rfl
  have hembed := hcompletes.embed
  cases hembed

end ReindexCall

end Ragx
