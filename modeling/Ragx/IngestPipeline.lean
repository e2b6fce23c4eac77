import Ragx.Chunker
import Ragx.EventRuns
import Ragx.MetadataStore

/-!
# The ingestion pipeline

A run takes one document through its stages. Every stage is wrapped: its
checkpoint is read, the task record announces the stage, the stage function
commits its rows, and the produced ids become the checkpoint. A crash may come
at every await and takes everything but the committed rows.
-/
namespace Ragx

inductive IngestStage where
  | parsing
  | processing
  | chunking
  | embedding
  | kgBuilding
deriving DecidableEq, Repr

def IngestStage.status : IngestStage → TaskStatus
  | .parsing => .parsing
  | .processing => .processing
  | .chunking => .chunking
  | .embedding => .embedding
  | .kgBuilding => .kgBuilding

/-- `_is_retryable`: an open circuit and errors from outside the tree are not. -/
def Exc.isIngestRetryable (e : Exc) : Bool :=
  match e.cls with
  | .unsupportedFormat | .config | .pluginContract | .foreign | .timeout => false
  | _ => !e.isLLMError || e.code != 6002

/-- One submitted document with its configuration and its plugins, all of which answer:
the parsed atoms, the ids that the processing stage makes of them, and one vector
for each text. -/
structure IngestEnv where
  taskId : String
  docId : String
  kbId : String
  vlmEnabled : Bool
  kgEnabled : Bool
  maxAttempts : ℕ := 3
  chunking : ChunkingOptions
  chunker : ChunkerEnv
  parse : List Atom
  processed : List Atom → Except Exc (List String)
  embed : List String → List (List ℚ)
  embed_length : ∀ texts, (embed texts).length = texts.length

/-- What survives a crash, less the task record: checkpoints, the document's rows in the
metadata store and its rows in the vector store. -/
structure IngestStores where
  checkpoints : OrderedDict IngestStage (List String) := .empty
  atoms : OrderedDict String Atom := .empty
  chunks : OrderedDict String Chunk := .empty
  vectors : OrderedDict String EmbeddedChunk := .empty

/-- The await that a run has reached. -/
inductive IngestPosition where
  | check (stage : IngestStage)
  | announce (stage : IngestStage)
  | work (stage : IngestStage)
  | record (stage : IngestStage) (producedIds : List String)
  | recover (stage : IngestStage)
  | loadAtoms
  | loadChunks
  | finish

/-- The in-memory part of a run. -/
structure IngestMemory where
  task : IngestTask
  position : IngestPosition := .check .parsing
  atoms : List Atom := []
  descriptions : List String := []
  chunks : List Chunk := []

structure IngestRun where
  stores : IngestStores := {}
  task : IngestTask
  memory : Option IngestMemory := none

inductive IngestEvent where
  | start
  /-- The next await returns; a chunking stage draws the ids. -/
  | advance (freshIds : List String)
  /-- The process dies; of a running upsert the first `written` rows are committed. -/
  | crash (written : ℕ)

/-- The vector store's upsert, with the same kept columns as the chunks table. -/
def upsertRow (stored : Option EmbeddedChunk) (row : EmbeddedChunk) : EmbeddedChunk where
  toChunk := saveChunk (stored.map (·.toChunk)) row.toChunk
  vector := row.vector

def upsert (rows : OrderedDict String EmbeddedChunk) (chunks : List EmbeddedChunk) :
    OrderedDict String EmbeddedChunk :=
  rows.accumulate (·.chunkId) upsertRow chunks

namespace IngestEnv

variable (env : IngestEnv)

def task : IngestTask where
  taskId := env.taskId
  docId := env.docId
  kbId := env.kbId

/-- The chunks that the chunker makes of the atoms, when no description reaches it. -/
def drafts (atoms : List Atom) : Except Exc (List Chunk) :=
  chunk env.chunker env.chunking env.embed atoms env.kbId env.docId .empty

/-- The drafts with their ids. -/
def identified (freshIds : List String) (drafts : List Chunk) : List Chunk :=
  (freshIds.zip drafts).map fun e => { e.2 with chunkId := e.1 }

def embedded (chunks : List Chunk) : List EmbeddedChunk :=
  (chunks.zip (env.embed (chunks.map (·.text)))).map fun e => { toChunk := e.1, vector := e.2 }

/-- The stage functions. The descriptions that reach the chunking stage are plain ids, which
have no `atom_id`. -/
def stageFn (freshIds : List String) (s : IngestStores) (m : IngestMemory) :
    IngestStage → Except Exc (IngestStores × List String)
  | .parsing =>
    .ok ({ s with atoms := saveAtoms s.atoms env.parse }, env.parse.map (·.atomId))
  | .processing => (env.processed m.atoms).map fun ids => (s, ids)
  | .chunking =>
    match m.descriptions with
    | _ :: _ => .error (.foreign "'str' object has no attribute 'atom_id'")
    | [] => (env.drafts m.atoms).map fun drafts =>
      let chunks := identified freshIds drafts
      ({ s with chunks := saveChunks s.chunks chunks }, chunks.map (·.chunkId))
  | .embedding =>
    .ok ({ s with vectors := upsert s.vectors (env.embedded m.chunks) },
      m.chunks.map (·.chunkId))
  | .kgBuilding => .ok (s, m.chunks.map (·.chunkId))

/-- New ids, one for each chunk that the stage makes. -/
def Drawn (freshIds : List String) (s : IngestStores) (m : IngestMemory) (stage : IngestStage) :
    Prop :=
  stage = .chunking → freshIds.Nodup ∧ (∀ id ∈ freshIds, id ∉ s.chunks.keys ∧ id ∉ s.vectors.keys) ∧
    freshIds.length = ((env.drafts m.atoms).toOption.getD []).length

instance (freshIds : List String) (s : IngestStores) (m : IngestMemory) (stage : IngestStage) :
    Decidable (env.Drawn freshIds s m stage) :=
  inferInstanceAs (Decidable (_ → _))

/-- Where the run goes on when a stage has its ids. -/
def completed (m : IngestMemory) (producedIds : List String) : IngestStage → IngestMemory
  | .parsing => { m with position := .loadAtoms }
  | .processing => { m with descriptions := producedIds, position := .check .chunking }
  | .chunking => { m with position := .loadChunks }
  | .embedding => { m with position := if env.kgEnabled then .check .kgBuilding else .finish }
  | .kgBuilding => { m with position := .finish }

/-- The task record after its stage raised. -/
def failStage (task : IngestTask) (e : Exc) : IngestTask :=
  { task with
    attempts := task.attempts + 1
    error := some s!"{e.code}: {e.message}"
    status :=
      if env.maxAttempts ≤ task.attempts + 1 ∨ e.isIngestRetryable = false then .failed
      else task.status }

end IngestEnv

namespace IngestStores

/-- The ids of a stage's checkpoint; an absent and an empty one are the same to the wrapper. -/
def checkpoint (s : IngestStores) (stage : IngestStage) : List String :=
  (s.checkpoints.get? stage).getD []

end IngestStores

namespace IngestRun

variable (env : IngestEnv)

def initial : IngestRun where
  task := env.task

/-- The next await of a run returns. -/
def advance (freshIds : List String) (w : IngestRun) (m : IngestMemory) : Option IngestRun :=
  match m.position with
  | .check stage =>
    match w.stores.checkpoint stage with
    | [] => some { w with
        memory := some { m with
          task := { m.task with status := stage.status }, position := .announce stage } }
    | id :: ids => some { w with memory := some (env.completed m (id :: ids) stage) }
  | .announce stage =>
    some { w with task := m.task, memory := some { m with position := .work stage } }
  | .work stage =>
    if env.Drawn freshIds w.stores m stage then
      match env.stageFn freshIds w.stores m stage with
      | .ok (stores, ids) =>
        some { w with stores := stores, memory := some { m with position := .record stage ids } }
      | .error e => some { w with
          memory := some { m with task := env.failStage m.task e, position := .recover stage } }
    else none
  | .record stage ids =>
    some { w with
      stores := { w.stores with checkpoints := w.stores.checkpoints.insert stage ids }
      memory := some (env.completed m ids stage) }
  | .recover stage =>
    some { w with
      task := m.task
      memory :=
        if m.task.status = .failed then none else some { m with position := .check stage } }
  | .loadAtoms =>
    some { w with
      memory := some { m with
        atoms := getAtoms w.stores.atoms
        position := .check (if env.vlmEnabled then .processing else .chunking) } }
  | .loadChunks =>
    some { w with
      memory := some { m with
        chunks := getChunksByDoc w.stores.chunks, position := .check .embedding } }
  | .finish =>
    some { w with task := { m.task with status := .done, progress := 1 }, memory := none }

/-- The stores as a crash leaves them. -/
def torn (written : ℕ) (s : IngestStores) (m : IngestMemory) : IngestStores :=
  match m.position with
  | .work .embedding =>
    { s with vectors := upsert s.vectors ((env.embedded m.chunks).take written) }
  | _ => s

def step (w : IngestRun) : IngestEvent → Option IngestRun
  | .start =>
    match w.memory with
    | none => some { w with memory := some { task := w.task } }
    | some _ => none
  | .advance freshIds => w.memory.bind fun m => advance env freshIds w m
  | .crash written =>
    w.memory.map fun m => { w with stores := torn env written w.stores m, memory := none }

end IngestRun

end Ragx
