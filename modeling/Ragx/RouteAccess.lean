import Ragx.ChunkEdits
import Ragx.SubmitIngest

/-!
# What the routes of documents and chunks give access to

Callers upload documents, ask for tasks and chunks and edit chunks, while the workers process what
has been uploaded. A caller's allow-list is read at one await of a request, and the data at other
ones. The main result is that, however all these interleave, a request neither shows nor changes
anything of a knowledge base that its caller's list does not grant.
-/
namespace Ragx

/-! ## Requests -/

structure ApiStores where
  submit : SubmitStores := {}
  chunks : OrderedDict String Chunk := .empty

/-- An upload comes with the ids and the time that it will draw. -/
inductive ApiRequest where
  | uploadDocument (raw : RawDocument) (docId taskId : String) (createdAt : ℚ)
  | getTask (taskId : String)
  | listChunks (docId : String)
  | editChunk (chunkId : String) (body : EditBody) (version : ℤ)

inductive ApiReply where
  | submitted (docId taskId : String)
  | duplicate (docId taskId : Json)
  | task (task : IngestTask)
  | chunks (chunks : List Chunk)
  | chunk (chunk : Chunk)
  | error (e : Exc)

/-- Where a request is between two awaits. -/
inductive ApiStage where
  | submitting (call : SubmitCall)
  | readingTask (taskId : String)
  | readingChunks (docId : String)
  | editing (chunkId : String) (edit : ChunkEdit)
  | replied (reply : ApiReply)

/-- A request with the allow-list of its caller. -/
structure ApiCall where
  kbAcl : Option (List String)
  stage : ApiStage

def taskNotFoundError (taskId : String) : Exc where
  cls := .ingest
  code := 2003
  message := "task not found"
  details := [("task_id", .str taskId)]

namespace ApiStores

variable (s : ApiStores)

def getTask (taskId : String) : Option IngestTask :=
  (s.submit.tables.tasks.find? fun row => row.task.taskId = taskId).map (·.task)

/-- `SELECT * FROM chunks WHERE doc_id=? ORDER BY chunk_id` -/
def chunksOf (docId : String) : List Chunk :=
  (getChunksByDoc s.chunks).filter fun chunk => chunk.docId = docId

end ApiStores

def grantedReply (kbAcl : Option (List String)) (kbId : String) (reply : ApiReply) : ApiReply :=
  match requireKbAccess kbAcl kbId with
  | .error e => .error e
  | .ok () => reply

def taskReply (s : ApiStores) (kbAcl : Option (List String)) (taskId : String) : ApiReply :=
  match s.getTask taskId with
  | none => .error (taskNotFoundError taskId)
  | some task => grantedReply kbAcl task.kbId (.task task)

/-- Only the first chunk is checked. -/
def chunksReply (s : ApiStores) (kbAcl : Option (List String)) (docId : String) : ApiReply :=
  match s.chunksOf docId with
  | [] => .chunks []
  | chunk :: chunks => grantedReply kbAcl chunk.kbId (.chunks (chunk :: chunks))

/-- What the route makes of the end of a submission. -/
def uploadReply : SubmitStatus → Option ApiReply
  | .awaiting _ => none
  | .returned task => some (.submitted task.docId task.taskId)
  | .duplicate e =>
    let detail (key : String) : Json := (OrderedDict.lookupIn key e.details).getD .null
    some (.duplicate (detail "existing_doc_id")
      (if (detail "existing_task_id").truthy then detail "existing_task_id" else .str ""))
  | .raised _ => some (.error (.foreign "UNIQUE constraint failed: documents.doc_id"))

section Steps

variable (sha256Hex : List UInt8 → String) (countTokens : String → ℕ)

def ApiStage.ofSubmission (submission : SubmitCall) : ApiStage :=
  match uploadReply submission.status with
  | some reply => .replied reply
  | none => .submitting submission

def ApiStage.ofEdit (chunkId : String) (edit : ChunkEdit) : ApiStage :=
  match edit.stage with
  | .reported chunk => .replied (.chunk chunk)
  | .failed e => .replied (.error e)
  | _ => .editing chunkId edit

/-- A request up to its first await. -/
def ApiRequest.start (kbAcl : Option (List String)) : ApiRequest → ApiStage
  | .uploadDocument raw docId taskId createdAt =>
    match requireKbAccess kbAcl raw.kbId with
    | .error e => .replied (.error e)
    | .ok () => .submitting (.start sha256Hex raw docId taskId createdAt)
  | .getTask taskId => .readingTask taskId
  | .listChunks docId => .readingChunks docId
  | .editChunk chunkId body version => .editing chunkId ⟨⟨body, version, kbAcl⟩, .submitted⟩

def ApiStores.withRow (s : ApiStores) (chunkId : String) : Option Chunk → ApiStores
  | none => s
  | some row => { s with chunks := s.chunks.insert chunkId row }

/-- A request from one await to the next one. The await may raise. -/
def ApiCall.advance (call : ApiCall) (s : ApiStores) (raised : Option Exc) :
    Option (ApiStores × ApiStage) :=
  match call.stage, raised with
  | .replied _, _ => none
  | .submitting _, some e | .readingTask _, some e | .readingChunks _, some e =>
    some (s, .replied (.error e))
  | .submitting submission, none =>
    let (submit, submission) := submission.advance s.submit
    some ({ s with submit }, .ofSubmission submission)
  | .readingTask taskId, none => some (s, .replied (taskReply s call.kbAcl taskId))
  | .readingChunks docId, none => some (s, .replied (chunksReply s call.kbAcl docId))
  | .editing chunkId edit, raised => do
    let (stage, row) ← edit.advance countTokens chunkId (s.chunks.get? chunkId) raised
    return (s.withRow chunkId row, .ofEdit chunkId { edit with stage })

/-! ## Runs -/

structure ApiRun where
  stores : ApiStores := {}
  calls : OrderedDict ℕ ApiCall := .empty

/-- A worker saves a task that it has taken, with chunks of its document. -/
inductive ApiEvent where
  | request (r : ℕ) (kbAcl : Option (List String)) (request : ApiRequest)
  | advance (r : ℕ) (raised : Option Exc)
  | worked (task : IngestTask) (chunks : List Chunk)

def ApiEvent.caller? : ApiEvent → Option ℕ
  | .request r _ _ | .advance r _ => some r
  | .worked _ _ => none

/-- The id that an upload has drawn for its task is not in use. -/
def ApiCall.DrawsFresh (call : ApiCall) (s : ApiStores) : Bool :=
  match call.stage with
  | .submitting submission =>
    match submission.status with
    | .awaiting .insertTask => submission.taskId ∉ s.submit.tables.tasks.map (·.task.taskId)
    | _ => true
  | _ => true

def ApiStores.worked (s : ApiStores) (task : IngestTask) (chunks : List Chunk) :
    Option ApiStores := do
  let row ← s.submit.tables.tasks.find? fun row => row.task.taskId = task.taskId
  if chunks.all fun chunk => chunk.docId = row.task.docId && chunk.kbId = row.task.kbId then
    return { submit := s.submit.insertTask { row with task := task }
             chunks := saveChunks s.chunks chunks }
  else none

def ApiRun.step (w : ApiRun) : ApiEvent → Option ApiRun
  | .request r kbAcl request =>
    if (w.calls.get? r).isSome then none
    else some { w with calls := w.calls.insert r ⟨kbAcl, request.start sha256Hex kbAcl⟩ }
  | .advance r raised => do
    let call ← w.calls.get? r
    if call.DrawsFresh w.stores then
      let (stores, stage) ← call.advance countTokens w.stores raised
      return { stores, calls := w.calls.insert r { call with stage } }
    else none
  | .worked task chunks => do
    let stores ← w.stores.worked task chunks
    return { w with stores }

end Steps

/-! ## What the rows belong to -/

/-- A document of the knowledge base has the id. -/
def ApiStores.Filed (s : ApiStores) (docId kbId : String) : Prop :=
  ∃ doc ∈ s.submit.tables.documents, doc.docId = some docId ∧ doc.kbId = kbId

/-- Tasks and chunks are filed under the document that they were made from. -/
structure ApiStores.Sound (s : ApiStores) : Prop where
  documents : (s.submit.tables.documents.map (·.docId)).Nodup
  taskIds : (s.submit.tables.tasks.map (·.task.taskId)).Nodup
  tasks : ∀ row ∈ s.submit.tables.tasks, s.Filed row.task.docId row.task.kbId
  chunks : ∀ id row, s.chunks.get? id = some row → s.Filed row.docId row.kbId

/-- Documents stay, and a chunk stays where it is filed. -/
structure ApiStores.Extends (s s' : ApiStores) : Prop where
  documents : s.submit.tables.documents ⊆ s'.submit.tables.documents
  chunks : ∀ id row, s.chunks.get? id = some row →
    ∃ row', s'.chunks.get? id = some row' ∧ row'.docId = row.docId ∧ row'.kbId = row.kbId

namespace ApiStores

variable {s s' : ApiStores}

theorem Extends.refl (s : ApiStores) : s.Extends s :=
  ⟨List.Subset.refl _, fun _ row h => ⟨row, h, rfl, rfl⟩⟩

theorem Extends.filed (h : s.Extends s') {docId kbId : String} (hfiled : s.Filed docId kbId) :
    s'.Filed docId kbId := by
  obtain ⟨doc, hmem, hdoc⟩ := hfiled
  exact ⟨doc, h.documents hmem, hdoc⟩

theorem Extends.trans {s'' : ApiStores} (h : s.Extends s') (h' : s'.Extends s'') :
    s.Extends s'' := by
  refine ⟨List.Subset.trans h.documents h'.documents, fun id row hrow => ?_⟩
  obtain ⟨row', hrow', hdoc, hkb⟩ := h.chunks id row hrow
  obtain ⟨row'', hrow'', hdoc', hkb'⟩ := h'.chunks id row' hrow'
  exact ⟨row'', hrow'', hdoc'.trans hdoc, hkb'.trans hkb⟩

theorem Sound.eq_of_filed (hs : s.Sound) {docId kbId kbId' : String} (h : s.Filed docId kbId)
    (h' : s.Filed docId kbId') : kbId = kbId' := by
  obtain ⟨doc, hmem, hid, rfl⟩ := h
  obtain ⟨doc', hmem', hid', rfl⟩ := h'
  rw [List.inj_on_of_nodup_map hs.documents hmem hmem' (hid.trans hid'.symm)]

theorem mem_chunksOf {docId : String} {chunk : Chunk} (h : chunk ∈ s.chunksOf docId) :
    chunk.docId = docId ∧ ∃ id, s.chunks.get? id = some chunk := by
  rw [chunksOf, List.mem_filter, decide_eq_true_eq] at h
  exact ⟨h.2, mem_getChunksByDoc.mp h.1⟩

end ApiStores

/-! ## What a request shows and changes -/

/-- A reply shows something of the knowledge base. -/
def ApiReply.Shows (s : ApiStores) (kbId : String) : ApiReply → Prop
  | .submitted docId _ => s.Filed docId kbId
  | .duplicate docId taskId => (∃ id, docId = .str id ∧ s.Filed id kbId) ∨
      taskId.truthy = true ∧
        ∃ row ∈ s.submit.tables.tasks, taskId = .str row.task.taskId ∧ row.task.kbId = kbId
  | .task t => t.kbId = kbId
  | .chunks cs => ∃ c ∈ cs, c.kbId = kbId
  | .chunk c => c.kbId = kbId
  | .error _ => False

/-- Something of the knowledge base is not what it was. -/
def ApiStores.Changed (s s' : ApiStores) (kbId : String) : Prop :=
  (∃ doc, ¬(doc ∈ s.submit.tables.documents ↔ doc ∈ s'.submit.tables.documents) ∧
    doc.kbId = kbId) ∨
  (∃ row, ¬(row ∈ s.submit.tables.tasks ↔ row ∈ s'.submit.tables.tasks) ∧
    row.task.kbId = kbId) ∨
  (∃ entry, ¬(entry ∈ s.submit.queued ↔ entry ∈ s'.submit.queued) ∧ entry.1 = kbId) ∨
  ∃ id row, ¬(s.chunks.get? id = some row ↔ s'.chunks.get? id = some row) ∧ row.kbId = kbId

/-- What a step of a request changes, and shows if it replies, is in knowledge bases that its
caller's list grants. -/
def ApiRun.Confined (w : ApiRun) (e : ApiEvent) (w' : ApiRun) : Prop :=
  ∀ r ∈ e.caller?, ∀ call ∈ w'.calls.get? r,
    (∀ kbId, w.stores.Changed w'.stores kbId → requireKbAccess call.kbAcl kbId = .ok ()) ∧
    ∀ reply, call.stage = .replied reply → ∀ kbId, reply.Shows w'.stores kbId →
      requireKbAccess call.kbAcl kbId = .ok ()

theorem ApiStores.not_changed_self (s : ApiStores) (kbId : String) : ¬s.Changed s kbId := by
  rintro (⟨_, h, -⟩ | ⟨_, h, -⟩ | ⟨_, h, -⟩ | ⟨_, _, h, -⟩) <;> exact h Iff.rfl

/-! ## Edits -/

/-- The chunk that an edit carries along. -/
def EditStage.chunk? : EditStage → Option Chunk
  | .checked chunk | .cleared chunk | .saved chunk | .embedded chunk | .upserted chunk
  | .reported chunk => some chunk
  | .submitted | .admitted | .failed _ => none

/-- The caller has passed the check. -/
def EditStage.isAdmitted : EditStage → Bool
  | .submitted | .failed _ => false
  | _ => true

/-- An edit that has passed the check is about a row that the list grants. -/
def EditStage.Granted (kbAcl : Option (List String)) (stored : Option Chunk) (stage : EditStage) :
    Prop :=
  stage.isAdmitted = true → ∃ row, stored = some row ∧ requireKbAccess kbAcl row.kbId = .ok () ∧
    ∀ chunk ∈ stage.chunk?, chunk.docId = row.docId ∧ chunk.kbId = row.kbId

section Edits

variable {countTokens : String → ℕ} {chunkId : String} {stored stored' : Option Chunk}
  {req : EditRequest}

theorem granted_firstCheck :
    (ChunkEdit.firstCheck chunkId req stored).Granted req.kbAcl stored := by
  unfold ChunkEdit.firstCheck
  split
  · exact nofun
  · rename_i row
    split
    · exact nofun
    · rename_i hgranted
      split_ifs
      · exact nofun
      · split
        · exact fun _ => ⟨row, rfl, hgranted, nofun⟩
        · refine fun _ => ⟨row, rfl, hgranted, fun chunk hchunk => ?_⟩
          cases hchunk
          exact ⟨rfl, rfl⟩

/-- The second check takes the row as it is by then. -/
theorem granted_secondCheck (h : EditStage.admitted.Granted req.kbAcl stored) :
    (ChunkEdit.secondCheck chunkId req stored).Granted req.kbAcl stored := by
  obtain ⟨row, rfl, hgranted, -⟩ := h rfl
  rw [ChunkEdit.secondCheck]
  split_ifs
  · exact nofun
  · refine fun _ => ⟨row, rfl, hgranted, fun chunk hchunk => ?_⟩
    cases hchunk
    exact ⟨rfl, rfl⟩

theorem granted_of_chunk {kbAcl : Option (List String)} {stage stage' : EditStage}
    (h : stage.Granted kbAcl stored) (hstage : stage.isAdmitted = true)
    (hchunk : stage'.chunk? = stage.chunk?) : stage'.Granted kbAcl stored :=
  fun _ => hchunk ▸ h hstage

theorem place_rewrite (countTokens : String → ℕ) (req : EditRequest) (base : Chunk) :
    (req.rewrite countTokens base).docId = base.docId ∧
      (req.rewrite countTokens base).kbId = base.kbId := by
  unfold EditRequest.rewrite
  split <;> exact ⟨rfl, rfl⟩

/-- An edit writes no row but the one that it was granted, and leaves it where it is filed. -/
theorem granted_advance {raised : Option Exc} {edit : ChunkEdit} {stage' : EditStage}
    (h : edit.stage.Granted edit.request.kbAcl stored)
    (hadvance : edit.advance countTokens chunkId stored raised = some (stage', stored')) :
    stage'.Granted edit.request.kbAcl stored' ∧ (stored' = stored ∨
      ∃ row row', stored = some row ∧ stored' = some row' ∧ row'.docId = row.docId ∧
        row'.kbId = row.kbId ∧ requireKbAccess edit.request.kbAcl row.kbId = .ok ()) := by
  obtain ⟨req, stage⟩ := edit
  have hsave : ∀ base, stage.isAdmitted = true → stage.chunk? = some base →
      (EditStage.saved (req.rewrite countTokens base)).Granted req.kbAcl
          (some (saveChunk stored (req.rewrite countTokens base))) ∧
        ∃ row row', stored = some row ∧
          some (saveChunk stored (req.rewrite countTokens base)) = some row' ∧
          row'.docId = row.docId ∧ row'.kbId = row.kbId ∧
          requireKbAccess req.kbAcl row.kbId = .ok () := by
    intro base hstage hbase
    obtain ⟨row, rfl, hgranted, hchunk⟩ := h hstage
    obtain ⟨hdoc, hkb⟩ := hchunk base hbase
    obtain ⟨hdoc', hkb'⟩ := place_rewrite countTokens req base
    refine ⟨fun _ => ⟨_, rfl, hgranted, fun chunk hmem => ?_⟩, row, _, rfl, rfl, rfl, rfl, hgranted⟩
    cases hmem
    exact ⟨hdoc'.trans hdoc, hkb'.trans hkb⟩
  obtain ⟨body, version, kbAcl⟩ := req
  cases stage with
  | submitted =>
    cases raised with
    | some e =>
      cases hadvance
      exact ⟨nofun, .inl rfl⟩
    | none =>
      cases hadvance
      exact ⟨granted_firstCheck, .inl rfl⟩
  | admitted =>
    cases raised with
    | some e =>
      cases hadvance
      exact ⟨nofun, .inl rfl⟩
    | none =>
      cases hadvance
      exact ⟨granted_secondCheck h, .inl rfl⟩
  | checked base =>
    cases raised with
    | some e =>
      cases hadvance
      exact ⟨nofun, .inl rfl⟩
    | none =>
      cases body with
      | put text metadata =>
        cases hadvance
        exact ⟨granted_of_chunk h rfl rfl, .inl rfl⟩
      | patch metadata =>
        cases hadvance
        exact (hsave base rfl rfl).imp_right .inr
  | cleared base =>
    cases raised with
    | some e =>
      cases hadvance
      exact ⟨nofun, .inl rfl⟩
    | none =>
      cases hadvance
      exact (hsave base rfl rfl).imp_right .inr
  | saved chunk =>
    cases body with
    | put text metadata =>
      cases raised with
      | some e =>
        cases hadvance
        exact ⟨nofun, .inl rfl⟩
      | none =>
        cases hadvance
        exact ⟨granted_of_chunk h rfl rfl, .inl rfl⟩
    | patch metadata =>
      cases hadvance
      exact ⟨granted_of_chunk h rfl rfl, .inl rfl⟩
  | embedded chunk =>
    cases raised with
    | some e =>
      cases hadvance
      exact ⟨nofun, .inl rfl⟩
    | none =>
      cases hadvance
      exact ⟨granted_of_chunk h rfl rfl, .inl rfl⟩
  | upserted chunk =>
    cases hadvance
    exact ⟨granted_of_chunk h rfl rfl, .inl rfl⟩
  | reported chunk | failed e => cases hadvance

end Edits

/-! ## Uploads -/

/-- What a submission has found or stored is in the knowledge base of its document, which the list
grants. -/
def SubmitCall.Granted (kbAcl : Option (List String)) (s : ApiStores) (call : SubmitCall) : Prop :=
  requireKbAccess kbAcl call.raw.kbId = .ok () ∧ match call.status with
    | .awaiting (.getTask existingDocId) => ∃ doc ∈ s.submit.tables.documents,
        doc.docId = existingDocId ∧ doc.kbId = call.raw.kbId
    | .awaiting .commitDoc | .awaiting .insertTask | .awaiting .commitTask | .awaiting .enqueue =>
      s.Filed call.docId call.raw.kbId
    | _ => True

namespace ApiStores

variable {s : ApiStores} {submit : SubmitStores}

theorem Filed.of_documents (h : submit.tables.documents = s.submit.tables.documents)
    {docId kbId : String} : ({ s with submit } : ApiStores).Filed docId kbId ↔
      s.Filed docId kbId := by
  rw [Filed, h, Filed]

/-- At most a document, a task of a document and entries of the queue are added, each of one
knowledge base and with an id that was not there. -/
theorem sound_grow (hs : s.Sound) (submit : SubmitStores) (kbId : String)
    (doc : Option RawDocument) (row : Option TaskRow) (entries : List (String × String))
    (hdocuments : submit.tables.documents = s.submit.tables.documents ++ doc.toList)
    (htasks : submit.tables.tasks = s.submit.tables.tasks ++ row.toList)
    (hqueued : submit.queued = s.submit.queued ++ entries)
    (hdoc : ∀ d ∈ doc, d.docId ∉ s.submit.tables.documents.map (·.docId) ∧ d.kbId = kbId)
    (hrow : ∀ r ∈ row, r.task.taskId ∉ s.submit.tables.tasks.map (·.task.taskId) ∧
      s.Filed r.task.docId r.task.kbId ∧ r.task.kbId = kbId)
    (hentries : ∀ entry ∈ entries, entry.1 = kbId) :
    ({ s with submit } : ApiStores).Sound ∧ s.Extends { s with submit } ∧
      ∀ kbId', s.Changed { s with submit } kbId' → kbId' = kbId := by
  have hextends : s.Extends { s with submit } :=
    ⟨hdocuments ▸ List.subset_append_left _ _, fun _ row h => ⟨row, h, rfl, rfl⟩⟩
  refine ⟨⟨?_, ?_, ?_, ?_⟩, hextends, ?_⟩
  · change (submit.tables.documents.map (·.docId)).Nodup
    rw [hdocuments]
    cases doc with
    | none => simpa using hs.documents
    | some d =>
      rw [Option.toList_some, List.map_append, List.map_singleton]
      exact List.nodup_append_comm.mp (List.nodup_cons.mpr ⟨(hdoc d rfl).1, hs.documents⟩)
  · change (submit.tables.tasks.map (·.task.taskId)).Nodup
    rw [htasks]
    cases row with
    | none => simpa using hs.taskIds
    | some r =>
      rw [Option.toList_some, List.map_append, List.map_singleton]
      exact List.nodup_append_comm.mp (List.nodup_cons.mpr ⟨(hrow r rfl).1, hs.taskIds⟩)
  · intro r hr
    change r ∈ submit.tables.tasks at hr
    rw [htasks, List.mem_append, Option.mem_toList] at hr
    exact hextends.filed (hr.elim (hs.tasks r) fun h => (hrow r h).2.1)
  · exact fun id row h => hextends.filed (hs.chunks id row h)
  · rintro kbId' (⟨d, hchanged, rfl⟩ | ⟨r, hchanged, rfl⟩ | ⟨entry, hchanged, rfl⟩ |
      ⟨_, _, hchanged, -⟩)
    · change ¬(d ∈ s.submit.tables.documents ↔ d ∈ submit.tables.documents) at hchanged
      rw [hdocuments, List.mem_append, Option.mem_toList] at hchanged
      exact (hdoc d (by tauto)).2
    · change ¬(r ∈ s.submit.tables.tasks ↔ r ∈ submit.tables.tasks) at hchanged
      rw [htasks, List.mem_append, Option.mem_toList] at hchanged
      exact (hrow r (by tauto)).2.2
    · change ¬(entry ∈ s.submit.queued ↔ entry ∈ submit.queued) at hchanged
      rw [hqueued, List.mem_append] at hchanged
      exact hentries entry (by tauto)
    · exact absurd Iff.rfl hchanged

end ApiStores

section Uploads

variable {s : ApiStores} {kbAcl : Option (List String)} {call : SubmitCall}

theorem getTaskByDoc_mem {s : SubmitStores} {docId : Option String} {task : IngestTask}
    (h : s.getTaskByDoc docId = some task) :
    ∃ row ∈ s.tables.tasks, row.task = task ∧ some task.docId = docId := by
  obtain ⟨row, hrow, rfl⟩ := Option.map_eq_some_iff.mp h
  have hmem := List.argmax_mem hrow
  rw [List.mem_filter, decide_eq_true_eq] at hmem
  exact ⟨row, hmem.1, rfl, hmem.2⟩

theorem uploadReply_duplicate (docId taskId : Option String) :
    uploadReply (.duplicate (duplicateDocumentError docId taskId)) =
      some (.duplicate (docId.elim .null .str) (.str (taskId.getD ""))) := by
  cases taskId with
  | none => rfl
  | some id =>
    change some (ApiReply.duplicate _ (if (id != "") = true then .str id else .str "")) = _
    split_ifs with h
    · rfl
    · rw [bne_iff_ne, not_not] at h
      rw [h]
      rfl

/-- What a refused submission reports of the document and its task. -/
theorem shows_duplicate (hs : s.Sound) {existingDocId : Option String} {kbId kbId' : String}
    (hdoc : ∃ doc ∈ s.submit.tables.documents, doc.docId = existingDocId ∧ doc.kbId = kbId)
    {reply : ApiReply}
    (hreply : uploadReply (.duplicate (duplicateDocumentError existingDocId
      ((s.submit.getTaskByDoc existingDocId).map (·.taskId)))) = some reply)
    (hshows : reply.Shows s kbId') : kbId' = kbId := by
  have hfiled : ∀ id, existingDocId = some id → s.Filed id kbId := by
    rintro id rfl
    exact hdoc
  rw [uploadReply_duplicate] at hreply
  cases hreply
  obtain ⟨id, hid, hkb⟩ | ⟨htruthy, row, hmem, hid, rfl⟩ := hshows
  · cases existingDocId with
    | none => cases hid
    | some docId =>
      cases hid
      exact hs.eq_of_filed hkb (hfiled id rfl)
  · cases htask : s.submit.getTaskByDoc existingDocId with
    | none =>
      rw [htask] at htruthy
      exact absurd htruthy nofun
    | some task =>
      obtain ⟨row', hmem', rfl, hof⟩ := getTaskByDoc_mem htask
      rw [htask] at hid
      obtain rfl : row' = row :=
        List.inj_on_of_nodup_map hs.taskIds hmem' hmem (Json.str.inj hid)
      exact hs.eq_of_filed (hs.tasks row' hmem) (hfiled _ hof.symm)

/-- A submission changes and shows nothing but its own knowledge base. -/
theorem SubmitCall.granted_advance (hs : s.Sound) (h : call.Granted kbAcl s)
    (hawaiting : call.status.isAwaiting = true)
    (hfresh : call.status = .awaiting .insertTask →
      call.taskId ∉ s.submit.tables.tasks.map (·.task.taskId)) :
    ({ s with submit := (call.advance s.submit).1 } : ApiStores).Sound ∧
      s.Extends { s with submit := (call.advance s.submit).1 } ∧
      (∀ kbId, s.Changed { s with submit := (call.advance s.submit).1 } kbId →
        kbId = call.raw.kbId) ∧
      (call.advance s.submit).2.Granted kbAcl { s with submit := (call.advance s.submit).1 } ∧
      ∀ reply, uploadReply (call.advance s.submit).2.status = some reply →
        ∀ kbId, reply.Shows { s with submit := (call.advance s.submit).1 } kbId →
          kbId = call.raw.kbId := by
  obtain ⟨raw, docId, taskId, createdAt, seen, status⟩ := call
  obtain ⟨hgranted, hfound⟩ := h
  have hsame (submit : SubmitStores) (htables : submit.tables = s.submit.tables)
      (hqueued : submit.queued = s.submit.queued) :=
    ApiStores.sound_grow hs submit raw.kbId none none []
      (by simp [htables]) (by simp [htables]) (by simp [hqueued]) nofun nofun nofun
  have hopen {step : SubmitAwait} {P : ApiReply → Prop} :
      ∀ reply, uploadReply (.awaiting step) = some reply → P reply :=
    fun reply hreply => absurd hreply.symm (Option.some_ne_none reply)
  have hidle (submit : SubmitStores) (h : submit = s.submit) := hsame submit (h ▸ rfl) (h ▸ rfl)
  cases status with
  | awaiting step =>
    cases step with
    | findDoc =>
      rw [SubmitCall.advance]
      dsimp only
      split
      · rename_i existing hexisting
        have hmem := List.mem_of_find?_eq_some hexisting
        have hkey := List.find?_some hexisting
        obtain ⟨hsound, hextends, hchanged⟩ := hidle s.submit rfl
        exact ⟨hsound, hextends, hchanged,
          ⟨hgranted, existing, hmem, rfl, (of_decide_eq_true hkey).1⟩, hopen⟩
      · obtain ⟨hsound, hextends, hchanged⟩ := hidle s.submit rfl
        exact ⟨hsound, hextends, hchanged, ⟨hgranted, trivial⟩, hopen⟩
    | getTask existingDocId =>
      obtain ⟨hsound, hextends, hchanged⟩ := hidle s.submit rfl
      exact ⟨hsound, hextends, hchanged, ⟨hgranted, trivial⟩,
        fun reply hreply kbId hshows => shows_duplicate hs hfound hreply hshows⟩
    | insertDoc =>
      rw [SubmitCall.advance]
      dsimp only
      rw [SubmitStores.insertDoc]
      split_ifs with htaken
      · obtain ⟨hsound, hextends, hchanged⟩ := hidle s.submit rfl
        refine ⟨hsound, hextends, hchanged, ⟨hgranted, trivial⟩, ?_⟩
        rintro _ ⟨⟩ kbId ⟨⟩
      · obtain ⟨hsound, hextends, hchanged⟩ := ApiStores.sound_grow hs
          { s.submit with tables.documents := s.submit.tables.documents ++ [_] } raw.kbId
          (some { raw with docId := some docId }) none [] rfl (by simp) (by simp)
          (fun d hd => by cases hd; exact ⟨htaken, rfl⟩) nofun nofun
        dsimp only
        refine ⟨hsound, hextends, hchanged,
          ⟨hgranted, { raw with docId := some docId }, ?_, rfl, rfl⟩, hopen⟩
        exact List.mem_append_right _ (List.mem_singleton_self _)
    | commitDoc | commitTask =>
      obtain ⟨hsound, hextends, hchanged⟩ := hsame s.submit.commit rfl rfl
      exact ⟨hsound, hextends, hchanged, ⟨hgranted, hextends.filed hfound⟩, hopen⟩
    | insertTask =>
      obtain ⟨hsound, hextends, hchanged⟩ := ApiStores.sound_grow hs
        (s.submit.insertTask ⟨⟨taskId, docId, raw.kbId, _, _, _, _⟩, createdAt⟩) raw.kbId none
        (some ⟨⟨taskId, docId, raw.kbId, _, _, _, _⟩, createdAt⟩) []
        (by simp [SubmitStores.insertTask]) (if_neg (hfresh rfl))
        (by simp [SubmitStores.insertTask]) nofun
        (fun r hr => by cases hr; exact ⟨hfresh rfl, hfound, rfl⟩) nofun
      exact ⟨hsound, hextends, hchanged, ⟨hgranted, hextends.filed hfound⟩, hopen⟩
    | enqueue =>
      obtain ⟨hsound, hextends, hchanged⟩ := ApiStores.sound_grow hs
        (s.submit.enqueue taskId raw.kbId) raw.kbId none none [(raw.kbId, taskId)]
        (by simp [SubmitStores.enqueue]) (by simp [SubmitStores.enqueue]) rfl nofun nofun (by simp)
      refine ⟨hsound, hextends, hchanged, ⟨hgranted, trivial⟩, ?_⟩
      rintro _ ⟨⟩ kbId hshows
      exact hsound.eq_of_filed hshows (hextends.filed hfound)
  | returned | duplicate | raised => cases hawaiting

end Uploads

/-! ## Chunks and workers -/

namespace ApiStores

variable {s s' : ApiStores}

/-- A row of a chunk is written where it is filed. -/
theorem sound_insertChunk (hs : s.Sound) {id : String} {row : Chunk}
    (hfiled : s.Filed row.docId row.kbId)
    (hplace : ∀ old, s.chunks.get? id = some old → row.docId = old.docId ∧ row.kbId = old.kbId) :
    ({ s with chunks := s.chunks.insert id row } : ApiStores).Sound ∧
      s.Extends { s with chunks := s.chunks.insert id row } := by
  refine ⟨⟨hs.documents, hs.taskIds, hs.tasks, ?_⟩, ⟨List.Subset.refl _, ?_⟩⟩
  · intro id' row' h
    change (s.chunks.insert id row).get? id' = some row' at h
    rw [OrderedDict.get?_insert] at h
    split_ifs at h with hid
    · cases h
      exact hfiled
    · exact hs.chunks id' row' h
  · intro id' row' h
    change ∃ row'', (s.chunks.insert id row).get? id' = some row'' ∧ _
    rw [OrderedDict.get?_insert]
    split_ifs with hid
    · subst hid
      exact ⟨row, rfl, hplace row' h⟩
    · exact ⟨row', h, rfl, rfl⟩

theorem sound_saveChunks (hs : s.Sound) {chunks : List Chunk}
    (hfiled : ∀ chunk ∈ chunks, s.Filed chunk.docId chunk.kbId) :
    ({ s with chunks := saveChunks s.chunks chunks } : ApiStores).Sound ∧
      s.Extends { s with chunks := saveChunks s.chunks chunks } := by
  induction chunks generalizing s with
  | nil => exact ⟨hs, .refl s⟩
  | cons chunk chunks ih =>
    have hrow : s.Filed (saveChunk (s.chunks.get? chunk.chunkId) chunk).docId
          (saveChunk (s.chunks.get? chunk.chunkId) chunk).kbId ∧
        ∀ old, s.chunks.get? chunk.chunkId = some old →
          (saveChunk (s.chunks.get? chunk.chunkId) chunk).docId = old.docId ∧
            (saveChunk (s.chunks.get? chunk.chunkId) chunk).kbId = old.kbId := by
      cases hold : s.chunks.get? chunk.chunkId with
      | none => exact ⟨hfiled chunk List.mem_cons_self, nofun⟩
      | some old =>
        refine ⟨hs.chunks _ old hold, fun old' h => ?_⟩
        cases h
        exact ⟨rfl, rfl⟩
    obtain ⟨hsound, hextends⟩ := sound_insertChunk hs hrow.1 hrow.2
    obtain ⟨hsound', hextends'⟩ := ih hsound fun chunk' h =>
      hextends.filed (hfiled chunk' (List.mem_cons_of_mem _ h))
    exact ⟨hsound', hextends.trans hextends'⟩

/-- A worker's upsert of a task leaves it with its id, under its document. -/
theorem sound_updateTask (hs : s.Sound) (row : TaskRow)
    (hmem : row.task.taskId ∈ s.submit.tables.tasks.map (·.task.taskId)) :
    ({ s with submit := s.submit.insertTask row } : ApiStores).Sound ∧
      s.Extends { s with submit := s.submit.insertTask row } := by
  have htasks : (s.submit.insertTask row).tables.tasks = s.submit.tables.tasks.map fun stored =>
      if stored.task.taskId = row.task.taskId then SubmitStores.updateTask stored row.task
      else stored := if_pos hmem
  refine ⟨⟨hs.documents, ?_, ?_, hs.chunks⟩,
    ⟨List.Subset.refl _, fun _ row h => ⟨row, h, rfl, rfl⟩⟩⟩
  · change ((s.submit.insertTask row).tables.tasks.map (·.task.taskId)).Nodup
    have hids : ((s.submit.insertTask row).tables.tasks.map (·.task.taskId)) =
        s.submit.tables.tasks.map (·.task.taskId) := by
      rw [htasks, List.map_map]
      refine List.map_congr_left fun stored _ => ?_
      rw [Function.comp_apply]
      split_ifs <;> rfl
    exact hids ▸ hs.taskIds
  · intro row' hrow'
    change row' ∈ (s.submit.insertTask row).tables.tasks at hrow'
    rw [htasks, List.mem_map] at hrow'
    obtain ⟨stored, hstored, rfl⟩ := hrow'
    have hfiled := hs.tasks stored hstored
    split_ifs <;> exact hfiled

theorem sound_worked (hs : s.Sound) {task : IngestTask} {chunks : List Chunk}
    (h : s.worked task chunks = some s') : s'.Sound ∧ s.Extends s' := by
  obtain ⟨row, hrow, h⟩ := Option.bind_eq_some_iff.mp h
  split_ifs at h with hchunks
  cases h
  have hmem : row ∈ s.submit.tables.tasks := List.mem_of_find?_eq_some hrow
  have hid := List.find?_some hrow
  rw [decide_eq_true_eq] at hid
  obtain ⟨hsound, hextends⟩ := sound_updateTask hs { row with task := task }
    (List.mem_map.mpr ⟨row, hmem, hid⟩)
  obtain ⟨hsound', hextends'⟩ := sound_saveChunks hsound fun chunk hchunk => by
    have hplace := List.all_eq_true.mp hchunks chunk hchunk
    rw [Bool.and_eq_true, decide_eq_true_eq, decide_eq_true_eq] at hplace
    rw [hplace.1, hplace.2]
    exact hextends.filed (hs.tasks row hmem)
  exact ⟨hsound', hextends.trans hextends'⟩

end ApiStores

/-! ## Requests and workers side by side -/

/-- What a request has found so far is in knowledge bases that its list grants. -/
def ApiCall.Granted (s : ApiStores) (call : ApiCall) : Prop :=
  match call.stage with
  | .submitting submission =>
    submission.status.isAwaiting = true ∧ submission.Granted call.kbAcl s
  | .editing chunkId edit =>
    edit.request.kbAcl = call.kbAcl ∧ edit.stage.Granted call.kbAcl (s.chunks.get? chunkId)
  | _ => True

section Calls

variable {sha256Hex : List UInt8 → String} {countTokens : String → ℕ} {s s' : ApiStores}
  {kbAcl : Option (List String)} {call : ApiCall}

theorem granted_start (request : ApiRequest) :
    ApiCall.Granted s ⟨kbAcl, request.start sha256Hex kbAcl⟩ := by
  cases request with
  | uploadDocument raw docId taskId createdAt =>
    rw [ApiRequest.start]
    split
    · trivial
    · rename_i hgranted
      exact ⟨rfl, hgranted, trivial⟩
  | getTask | listChunks => trivial
  | editChunk chunkId body version => exact ⟨rfl, nofun⟩

/-- A request that is answered at once is refused. -/
theorem not_shows_start (request : ApiRequest) {reply : ApiReply} {kbId : String}
    (h : request.start sha256Hex kbAcl = .replied reply) : ¬reply.Shows s kbId := by
  cases request with
  | uploadDocument raw docId taskId createdAt =>
    rw [ApiRequest.start] at h
    split at h
    · cases h
      exact id
    · cases h
  | getTask | listChunks | editChunk => cases h

/-- What a request has found stays where it is filed, whatever the others do. -/
theorem granted_of_extends (h : s.Extends s') (hcall : call.Granted s) : call.Granted s' := by
  obtain ⟨kbAcl, stage⟩ := call
  cases stage with
  | submitting submission =>
    obtain ⟨hawaiting, hgranted, hfound⟩ := hcall
    refine ⟨hawaiting, hgranted, ?_⟩
    obtain ⟨raw, docId, taskId, createdAt, seen, status⟩ := submission
    cases status with
    | awaiting step =>
      cases step with
      | findDoc | insertDoc => trivial
      | getTask =>
        obtain ⟨doc, hmem, hdoc⟩ := hfound
        exact ⟨doc, h.documents hmem, hdoc⟩
      | commitDoc | insertTask | commitTask | enqueue => exact h.filed hfound
    | returned | duplicate | raised => trivial
  | editing chunkId edit =>
    obtain ⟨hacl, hgranted⟩ := hcall
    refine ⟨hacl, fun hadmitted => ?_⟩
    obtain ⟨row, hrow, haccess, hchunk⟩ := hgranted hadmitted
    obtain ⟨row', hrow', hdoc, hkb⟩ := h.chunks chunkId row hrow
    exact ⟨row', hrow', hkb ▸ haccess, fun chunk hmem => hdoc ▸ hkb ▸ hchunk chunk hmem⟩
  | readingTask | readingChunks | replied => trivial

theorem access_of_grantedReply {kbId kbId' : String} {reply : ApiReply}
    (h : (grantedReply kbAcl kbId reply).Shows s kbId') :
    requireKbAccess kbAcl kbId = .ok () ∧ reply.Shows s kbId' := by
  unfold grantedReply at h
  split at h
  · cases h
  · rename_i hgranted
    exact ⟨hgranted, h⟩

theorem access_of_taskReply {taskId kbId : String} (h : (taskReply s kbAcl taskId).Shows s kbId) :
    requireKbAccess kbAcl kbId = .ok () := by
  unfold taskReply at h
  split at h
  · cases h
  · obtain ⟨hgranted, rfl⟩ := access_of_grantedReply h
    exact hgranted

/-- The chunks of a document are all in its knowledge base, so that the check of the first one
is as good as that of all. -/
theorem access_of_chunksReply (hs : s.Sound) {docId kbId : String}
    (h : (chunksReply s kbAcl docId).Shows s kbId) : requireKbAccess kbAcl kbId = .ok () := by
  unfold chunksReply at h
  split at h
  · obtain ⟨_, hmem, -⟩ := h
    cases hmem
  · rename_i chunk chunks hchunks
    obtain ⟨hgranted, chunk', hmem', rfl⟩ := access_of_grantedReply h
    have hfiled : ∀ c ∈ s.chunksOf docId, s.Filed docId c.kbId := by
      intro c hc
      obtain ⟨rfl, id, hid⟩ := ApiStores.mem_chunksOf hc
      exact hs.chunks id c hid
    have hmem : chunk ∈ s.chunksOf docId := hchunks ▸ List.mem_cons_self
    rw [hs.eq_of_filed (hfiled chunk' (hchunks ▸ hmem')) (hfiled chunk hmem)]
    exact hgranted

theorem ApiStores.withRow_self (s : ApiStores) (id : String) :
    s.withRow id (s.chunks.get? id) = s := by
  cases h : s.chunks.get? id with
  | none => rfl
  | some row =>
    have hmem : id ∈ s.chunks.keys := List.mem_map.mpr ⟨_, OrderedDict.mem_entries.mpr h, rfl⟩
    have hchunks : s.chunks.insert id row = s.chunks := by
      refine OrderedDict.eq_of_keys_of_get? ?_ fun k => ?_
      · rw [OrderedDict.keys_insert, if_pos hmem]
      · rw [OrderedDict.get?_insert]
        split_ifs with hk
        · rw [← hk, h]
        · rfl
    rw [withRow, hchunks]

/-- An edit writes no row but the one that it was granted. -/
theorem granted_withRow (hs : s.Sound) {chunkId : String} {edit : ChunkEdit} {raised : Option Exc}
    {stage' : EditStage} {row : Option Chunk}
    (h : edit.stage.Granted edit.request.kbAcl (s.chunks.get? chunkId))
    (hadvance : edit.advance countTokens chunkId (s.chunks.get? chunkId) raised =
      some (stage', row)) :
    (s.withRow chunkId row).Sound ∧ s.Extends (s.withRow chunkId row) ∧
      (∀ kbId, s.Changed (s.withRow chunkId row) kbId →
        requireKbAccess edit.request.kbAcl kbId = .ok ()) ∧
      stage'.Granted edit.request.kbAcl ((s.withRow chunkId row).chunks.get? chunkId) := by
  obtain ⟨hgranted, rfl | ⟨old, row, hold, rfl, hdoc, hkb, haccess⟩⟩ := granted_advance h hadvance
  · rw [s.withRow_self]
    exact ⟨hs, .refl s, fun kbId hchanged => absurd hchanged (s.not_changed_self kbId), hgranted⟩
  · have hrow : s.Filed row.docId row.kbId := by
      rw [hdoc, hkb]
      exact hs.chunks chunkId old hold
    obtain ⟨hsound, hextends⟩ := ApiStores.sound_insertChunk hs hrow fun old' hold' => by
      cases hold.symm.trans hold'
      exact ⟨hdoc, hkb⟩
    refine ⟨hsound, hextends, ?_, ?_⟩
    · rintro _ (⟨_, hchanged, -⟩ | ⟨_, hchanged, -⟩ | ⟨_, hchanged, -⟩ | ⟨id, row', hchanged, rfl⟩)
      iterate 3 exact absurd Iff.rfl hchanged
      change ¬(_ ↔ (s.chunks.insert chunkId row).get? id = _) at hchanged
      rw [OrderedDict.get?_insert] at hchanged
      split_ifs at hchanged with hid
      · subst hid
        have hrow' : row' = old ∨ row' = row := by
          rw [hold, Option.some_inj, Option.some_inj] at hchanged
          tauto
        obtain rfl | rfl := hrow'
        · exact haccess
        · exact hkb ▸ haccess
      · exact absurd Iff.rfl hchanged
    · change stage'.Granted _ ((s.chunks.insert chunkId row).get? chunkId)
      rw [OrderedDict.get?_insert, if_pos rfl]
      exact hgranted

theorem granted_ofEdit {chunkId : String} (edit : ChunkEdit)
    (h : edit.stage.Granted edit.request.kbAcl (s.chunks.get? chunkId)) :
    ApiCall.Granted s ⟨edit.request.kbAcl, .ofEdit chunkId edit⟩ ∧
      ∀ reply, ApiStage.ofEdit chunkId edit = .replied reply → ∀ kbId, reply.Shows s kbId →
        requireKbAccess edit.request.kbAcl kbId = .ok () := by
  obtain ⟨req, stage⟩ := edit
  cases stage with
  | reported chunk =>
    refine ⟨trivial, ?_⟩
    rintro _ ⟨⟩ kbId rfl
    obtain ⟨row, -, haccess, hchunk⟩ := h rfl
    rw [(hchunk chunk rfl).2]
    exact haccess
  | failed e =>
    refine ⟨trivial, ?_⟩
    rintro _ ⟨⟩ kbId ⟨⟩
  | submitted | admitted | checked | cleared | saved | embedded | upserted =>
    exact ⟨⟨rfl, h⟩, fun _ hreply => by cases hreply⟩

/-- A submission that has not been answered goes on. -/
theorem granted_ofSubmission {submission : SubmitCall} (h : submission.Granted kbAcl s)
    (hshows : ∀ reply, uploadReply submission.status = some reply → ∀ kbId, reply.Shows s kbId →
      requireKbAccess kbAcl kbId = .ok ()) :
    ApiCall.Granted s ⟨kbAcl, .ofSubmission submission⟩ ∧
      ∀ reply, ApiStage.ofSubmission submission = .replied reply → ∀ kbId, reply.Shows s kbId →
        requireKbAccess kbAcl kbId = .ok () := by
  obtain ⟨raw, docId, taskId, createdAt, seen, status⟩ := submission
  cases status with
  | awaiting => exact ⟨⟨rfl, h⟩, nofun⟩
  | returned | duplicate | raised =>
    refine ⟨trivial, ?_⟩
    rintro reply ⟨⟩
    exact hshows _ rfl

/-- One step of a request. -/
theorem ApiCall.granted_advance (hs : s.Sound) (h : call.Granted s)
    (hfresh : call.DrawsFresh s = true) {raised : Option Exc} {stage' : ApiStage}
    (hadvance : call.advance countTokens s raised = some (s', stage')) :
    s'.Sound ∧ s.Extends s' ∧
      (∀ kbId, s.Changed s' kbId → requireKbAccess call.kbAcl kbId = .ok ()) ∧
      ApiCall.Granted s' { call with stage := stage' } ∧
      ∀ reply, stage' = .replied reply → ∀ kbId, reply.Shows s' kbId →
        requireKbAccess call.kbAcl kbId = .ok () := by
  obtain ⟨kbAcl, stage⟩ := call
  have hidle (reply : ApiReply)
      (hshows : ∀ kbId, reply.Shows s kbId → requireKbAccess kbAcl kbId = .ok ()) :
      s.Sound ∧ s.Extends s ∧ (∀ kbId, s.Changed s kbId → requireKbAccess kbAcl kbId = .ok ()) ∧
        ApiCall.Granted s ⟨kbAcl, .replied reply⟩ ∧
        ∀ reply', ApiStage.replied reply = .replied reply' → ∀ kbId, reply'.Shows s kbId →
          requireKbAccess kbAcl kbId = .ok () := by
    refine ⟨hs, .refl s, fun kbId h => absurd h (s.not_changed_self kbId), trivial, ?_⟩
    rintro _ ⟨⟩
    exact hshows
  cases stage with
  | replied reply => cases hadvance
  | submitting submission =>
    cases raised with
    | some e =>
      cases hadvance
      exact hidle _ nofun
    | none =>
      cases hadvance
      obtain ⟨hawaiting, hgranted⟩ := h
      have hid : submission.status = .awaiting .insertTask →
          submission.taskId ∉ s.submit.tables.tasks.map (·.task.taskId) := by
        intro hstatus
        simpa [ApiCall.DrawsFresh, hstatus] using hfresh
      obtain ⟨hsound, hextends, hchanged, hgranted', hshows⟩ :=
        SubmitCall.granted_advance hs hgranted hawaiting hid
      obtain ⟨hcall, hreplied⟩ := granted_ofSubmission hgranted' fun reply hreply kbId h =>
        hshows reply hreply kbId h ▸ hgranted.1
      exact ⟨hsound, hextends, fun kbId h => hchanged kbId h ▸ hgranted.1, hcall, hreplied⟩
  | readingTask taskId =>
    cases raised with
    | some e =>
      cases hadvance
      exact hidle _ nofun
    | none =>
      cases hadvance
      exact hidle _ fun kbId => access_of_taskReply
  | readingChunks docId =>
    cases raised with
    | some e =>
      cases hadvance
      exact hidle _ nofun
    | none =>
      cases hadvance
      exact hidle _ fun kbId => access_of_chunksReply hs
  | editing chunkId edit =>
    obtain ⟨rfl, hgranted⟩ := h
    obtain ⟨⟨stage, row⟩, hedit, hadvance⟩ := Option.bind_eq_some_iff.mp hadvance
    cases hadvance
    obtain ⟨hsound, hextends, hchanged, hgranted'⟩ := granted_withRow hs hgranted hedit
    obtain ⟨hcall, hreplied⟩ := granted_ofEdit { edit with stage } hgranted'
    exact ⟨hsound, hextends, hchanged, hcall, hreplied⟩

end Calls

namespace ApiRun

variable (sha256Hex : List UInt8 → String) (countTokens : String → ℕ)

/-- What every request has found is in knowledge bases that its list grants. -/
structure Sound (w : ApiRun) : Prop where
  stores : w.stores.Sound
  calls : ∀ r call, w.calls.get? r = some call → call.Granted w.stores

theorem sound_start : Sound {} where
  stores :=
    { documents := List.nodup_nil
      taskIds := List.nodup_nil
      tasks := fun _ h => absurd h List.not_mem_nil
      chunks := fun _ _ h => absurd h.symm (Option.some_ne_none _) }
  calls := fun _ _ h => absurd h.symm (Option.some_ne_none _)

variable {sha256Hex countTokens}

theorem sound_step {w w' : ApiRun} {e : ApiEvent} (hw : w.Sound)
    (h : w.step sha256Hex countTokens e = some w') : w'.Sound ∧ w.Confined e w' := by
  have hcalls {r : ℕ} {call : ApiCall} {s' : ApiStores} (hextends : w.stores.Extends s')
      (hcall : call.Granted s') : ∀ r' call', (w.calls.insert r call).get? r' = some call' →
        call'.Granted s' := by
    intro r' call' h
    rw [OrderedDict.get?_insert] at h
    split_ifs at h
    · cases h
      exact hcall
    · exact granted_of_extends hextends (hw.calls r' call' h)
  cases e with
  | request r kbAcl request =>
    rw [step] at h
    split_ifs at h
    cases h
    refine ⟨⟨hw.stores, hcalls (.refl _) (granted_start request)⟩, ?_⟩
    rintro _ ⟨⟩ call hcall
    refine ⟨fun kbId hchanged => absurd hchanged (w.stores.not_changed_self kbId), ?_⟩
    intro reply hreply kbId hshows
    change (w.calls.insert r _).get? r = some call at hcall
    rw [OrderedDict.get?_insert, if_pos rfl] at hcall
    cases hcall
    exact absurd hshows (not_shows_start request hreply)
  | advance r raised =>
    obtain ⟨call, hcall, h⟩ := Option.bind_eq_some_iff.mp h
    split_ifs at h with hfresh
    obtain ⟨⟨stores, stage⟩, hadvance, h⟩ := Option.bind_eq_some_iff.mp h
    cases h
    obtain ⟨hsound, hextends, hchanged, hgranted, hreplied⟩ :=
      ApiCall.granted_advance hw.stores (hw.calls r call hcall) hfresh hadvance
    refine ⟨⟨hsound, hcalls hextends hgranted⟩, ?_⟩
    rintro _ ⟨⟩ call' hcall'
    change (w.calls.insert r _).get? r = some call' at hcall'
    rw [OrderedDict.get?_insert, if_pos rfl] at hcall'
    cases hcall'
    exact ⟨hchanged, hreplied⟩
  | worked task chunks =>
    obtain ⟨stores, hworked, h⟩ := Option.bind_eq_some_iff.mp h
    cases h
    obtain ⟨hsound, hextends⟩ := ApiStores.sound_worked hw.stores hworked
    exact ⟨⟨hsound, fun r call h => granted_of_extends hextends (hw.calls r call h)⟩, nofun⟩

/-- However requests and workers interleave, no request shows or changes anything of a knowledge
base that its caller's list does not grant. -/
theorem confined_run (sha256Hex : List UInt8 → String) (countTokens : String → ℕ)
    (es : List ApiEvent) : EveryStep (step sha256Hex countTokens) Confined {} es :=
  EveryStep.of_invariant (I := Sound) (G := fun _ _ _ => True)
    (fun _ _ _ hw h _ => (sound_step hw h).symm) sound_start
    (everyStep_of_forall (fun _ _ _ _ => trivial) _)

end ApiRun

end Ragx
