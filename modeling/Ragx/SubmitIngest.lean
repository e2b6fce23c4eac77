import Mathlib.Algebra.Order.Ring.Rat
import Mathlib.Data.List.MinMax
import Mathlib.Data.List.Perm.Basic
import Ragx.DocHash
import Ragx.EventRuns
import Ragx.Models

/-!
# Submitting documents

A submission looks for a document with the same hash, and otherwise stores the document and
its task and puts the task into the queue, one awaited call after the other. Submissions
share one connection to the metadata store; what one of them has written is seen by all,
committed or not.
-/
namespace Ragx

structure RawDocument where
  docId : Option String := none
  kbId : String
  filename : String
  mimetype : String
  content : DocContent
  sourceUri : Option String := none
  docHash : String := ""
  metadata : Metadata := .empty

/-- What documents are told apart by. -/
def RawDocument.key (doc : RawDocument) : String × String := (doc.kbId, doc.docHash)

structure TaskRow where
  task : IngestTask
  createdAt : ℚ

/-- The tables of documents and tasks, in the order of their insertion. -/
structure SubmitTables where
  documents : List RawDocument := []
  tasks : List TaskRow := []

structure SubmitStores where
  tables : SubmitTables := {}
  /-- The tables at the last commit. -/
  committed : SubmitTables := {}
  /-- What has been added to the streams, with the knowledge base of the stream. -/
  queued : List (String × String) := []

namespace SubmitStores

def findDocByHash (s : SubmitStores) (kbId docHash : String) : Option RawDocument :=
  s.tables.documents.find? fun doc => doc.kbId = kbId ∧ doc.docHash = docHash

/-- The task of the document that was created last. -/
def getTaskByDoc (s : SubmitStores) (docId : Option String) : Option IngestTask :=
  ((s.tables.tasks.filter fun row => some row.task.docId = docId).argmax (·.createdAt)).map (·.task)

/-- The INSERT is refused if the id is taken. -/
def insertDoc (s : SubmitStores) (doc : RawDocument) : Option SubmitStores :=
  if doc.docId ∈ s.tables.documents.map (·.docId) then none
  else some { s with tables.documents := s.tables.documents ++ [doc] }

/-- The columns that `ON CONFLICT` updates. -/
def updateTask (stored : TaskRow) (task : IngestTask) : TaskRow :=
  { stored with
    task.status := task.status
    task.progress := task.progress
    task.error := task.error
    task.attempts := task.attempts }

def insertTask (s : SubmitStores) (row : TaskRow) : SubmitStores :=
  { s with
    tables.tasks :=
      if row.task.taskId ∈ s.tables.tasks.map (·.task.taskId) then
        s.tables.tasks.map fun stored =>
          if stored.task.taskId = row.task.taskId then updateTask stored row.task else stored
      else s.tables.tasks ++ [row] }

def commit (s : SubmitStores) : SubmitStores := { s with committed := s.tables }

def rollback (s : SubmitStores) : SubmitStores := { s with tables := s.committed }

def enqueue (s : SubmitStores) (taskId kbId : String) : SubmitStores :=
  { s with queued := s.queued ++ [(kbId, taskId)] }

end SubmitStores

/-! ## One call -/

/-- The awaited steps of a call, named by what they do next. -/
inductive SubmitAwait where
  | findDoc
  | getTask (existingDocId : Option String)
  | insertDoc
  | commitDoc
  | insertTask
  | commitTask
  | enqueue

inductive SubmitStatus where
  | awaiting (step : SubmitAwait)
  | returned (task : IngestTask)
  | duplicate (error : Exc)
  | raised (step : SubmitAwait)

def duplicateDocumentError (existingDocId existingTaskId : Option String) : Exc where
  cls := .ingest
  code := 2004
  message := "document already ingested"
  details := [("existing_doc_id", existingDocId.elim .null .str),
    ("existing_task_id", existingTaskId.elim .null .str)]

structure SubmitCall where
  /-- With its hash. -/
  raw : RawDocument
  docId : String
  taskId : String
  createdAt : ℚ
  /-- How many documents there were at the lookup. -/
  seen : ℕ := 0
  status : SubmitStatus := .awaiting .findDoc

namespace SubmitCall

/-- A call of `submit_ingest` with the ids and the time it will draw. -/
def start (sha256Hex : List UInt8 → String) (raw : RawDocument) (docId taskId : String)
    (createdAt : ℚ) : SubmitCall where
  raw := { raw with docHash := computeDocHash sha256Hex raw.content }
  docId := docId
  taskId := taskId
  createdAt := createdAt

def document (call : SubmitCall) : RawDocument := { call.raw with docId := some call.docId }

def task (call : SubmitCall) : IngestTask where
  taskId := call.taskId
  docId := call.docId
  kbId := call.raw.kbId

/-- What the awaited step of a call does, and where it leaves the call. -/
def advance (call : SubmitCall) (s : SubmitStores) : SubmitStores × SubmitCall :=
  match call.status with
  | .awaiting .findDoc =>
    match s.findDocByHash call.raw.kbId call.raw.docHash with
    | some existing => (s, { call with status := .awaiting (.getTask existing.docId) })
    | none =>
      (s, { call with seen := s.tables.documents.length, status := .awaiting .insertDoc })
  | .awaiting (.getTask existingDocId) =>
    let existingTask := s.getTaskByDoc existingDocId
    (s, { call with
      status := .duplicate (duplicateDocumentError existingDocId (existingTask.map (·.taskId))) })
  | .awaiting .insertDoc =>
    match s.insertDoc call.document with
    | some s' => (s', { call with status := .awaiting .commitDoc })
    | none => (s, { call with status := .raised .insertDoc })
  | .awaiting .commitDoc => (s.commit, { call with status := .awaiting .insertTask })
  | .awaiting .insertTask =>
    (s.insertTask ⟨call.task, call.createdAt⟩, { call with status := .awaiting .commitTask })
  | .awaiting .commitTask => (s.commit, { call with status := .awaiting .enqueue })
  | .awaiting .enqueue =>
    (s.enqueue call.taskId call.raw.kbId, { call with status := .returned call.task })
  | _ => (s, call)

/-- The awaited step raises. -/
def raise (call : SubmitCall) : SubmitCall :=
  match call.status with
  | .awaiting step => { call with status := .raised step }
  | _ => call

end SubmitCall

/-- How many of a call's three writes have been made before a step: the document, the task, and
the entry of the queue. -/
def SubmitAwait.writes : SubmitAwait → ℕ
  | .findDoc | .getTask _ | .insertDoc => 0
  | .commitDoc | .insertTask => 1
  | .commitTask | .enqueue => 2

def SubmitStatus.writes : SubmitStatus → ℕ
  | .awaiting step | .raised step => step.writes
  | .duplicate _ => 0
  | .returned _ => 3

def SubmitStatus.isAwaiting : SubmitStatus → Bool
  | .awaiting _ => true
  | _ => false

/-! ## Calls side by side -/

structure SubmitRun where
  stores : SubmitStores
  calls : List SubmitCall := []

inductive SubmitEvent where
  | submit (raw : RawDocument) (docId taskId : String) (createdAt : ℚ)
  /-- The awaited step of a call, named by its place in the list, takes place or raises. -/
  | advance (call : ℕ)
  | raise (call : ℕ)

namespace SubmitRun

variable (sha256Hex : List UInt8 → String)

def step (w : SubmitRun) : SubmitEvent → Option SubmitRun
  | .submit raw docId taskId createdAt =>
    some { w with calls := w.calls ++ [.start sha256Hex raw docId taskId createdAt] }
  | .advance i =>
    (w.calls[i]?.filter (·.status.isAwaiting)).map fun call =>
      let (stores, call') := call.advance w.stores
      { stores, calls := w.calls.set i call' }
  | .raise i =>
    (w.calls[i]?.filter (·.status.isAwaiting)).map fun call =>
      { w with calls := w.calls.set i call.raise }

/-- The keys of the calls that have made at least so many writes. -/
def keysWith (writes : ℕ) (w : SubmitRun) : List (String × String) :=
  (w.calls.filter fun call => writes ≤ call.status.writes).map (·.raw.key)

def documentKeys (w : SubmitRun) : List (String × String) :=
  w.stores.tables.documents.map (·.key)

/-- No two documents with one key, and no two tasks created or queued for one key. -/
def Unique (w : SubmitRun) : Prop :=
  w.documentKeys.Nodup ∧ (w.keysWith 2).Nodup ∧ (w.keysWith 3).Nodup

/-- A document is stored only if none with its key has been stored since its call looked for
one, unless the drawn id is taken and nothing is stored. -/
def NoneSinceLookup (w : SubmitRun) (e : SubmitEvent) (_ : SubmitRun) : Prop :=
  match e with
  | .advance i => ∀ call ∈ w.calls[i]?, call.status = .awaiting .insertDoc →
    call.document.docId ∈ w.stores.tables.documents.map (·.docId) ∨
      call.raw.key ∉ w.documentKeys.drop call.seen
  | _ => True

/-! ## What a step changes -/

theorem findDocByHash_eq_none {s : SubmitStores} {doc : RawDocument} :
    s.findDocByHash doc.kbId doc.docHash = none ↔ doc.key ∉ s.tables.documents.map (·.key) := by
  rw [SubmitStores.findDocByHash, List.find?_eq_none]
  simp [RawDocument.key, Prod.ext_iff]

/-- Only the INSERT of the document changes the documents. -/
theorem advance_cases (call : SubmitCall) (s : SubmitStores) :
    (call.advance s).2.raw = call.raw ∧
      ((call.advance s).1.tables.documents = s.tables.documents ∧
          (1 ≤ (call.advance s).2.status.writes ↔ 1 ≤ call.status.writes) ∧
          (call.status = .awaiting .insertDoc →
            call.document.docId ∈ s.tables.documents.map (·.docId)) ∨
        call.status = .awaiting .insertDoc ∧
          call.document.docId ∉ s.tables.documents.map (·.docId) ∧
          (call.advance s).1.tables.documents = s.tables.documents ++ [call.document] ∧
          1 ≤ (call.advance s).2.status.writes) := by
  obtain ⟨raw, docId, taskId, createdAt, seen, status⟩ := call
  cases status with
  | awaiting step =>
    cases step with
    | findDoc =>
      rw [SubmitCall.advance]
      dsimp only
      split <;> exact ⟨rfl, Or.inl ⟨rfl, Iff.rfl, fun h => by cases h⟩⟩
    | insertDoc =>
      rw [SubmitCall.advance]
      dsimp only
      rw [SubmitStores.insertDoc]
      split_ifs with htaken
      · exact ⟨rfl, Or.inl ⟨rfl, Iff.rfl, fun _ => htaken⟩⟩
      · exact ⟨rfl, Or.inr ⟨rfl, htaken, rfl, Nat.le_refl 1⟩⟩
    | getTask | commitDoc | commitTask =>
      exact ⟨rfl, Or.inl ⟨rfl, Iff.rfl, fun h => by cases h⟩⟩
    | insertTask =>
      have hwrites := iff_of_true (Nat.le_succ 1) (Nat.le_refl 1)
      exact ⟨rfl, Or.inl ⟨rfl, hwrites, fun h => by cases h⟩⟩
    | enqueue =>
      have hwrites := iff_of_true (Nat.le_add_left 1 2) (Nat.le_succ 1)
      exact ⟨rfl, Or.inl ⟨rfl, hwrites, fun h => by cases h⟩⟩
  | returned | duplicate | raised => exact ⟨rfl, Or.inl ⟨rfl, Iff.rfl, fun h => by cases h⟩⟩

/-- A call that is about to insert has just found no document with its key. -/
theorem advance_insertDoc {call : SubmitCall} {s : SubmitStores}
    (hcall : call.status.isAwaiting = true)
    (h : (call.advance s).2.status = .awaiting .insertDoc) :
    call.raw.key ∉ s.tables.documents.map (·.key) ∧
      (call.advance s).2.seen = s.tables.documents.length := by
  obtain ⟨raw, docId, taskId, createdAt, seen, status⟩ := call
  cases status with
  | awaiting step =>
    cases step with
    | findDoc =>
      rw [SubmitCall.advance] at h ⊢
      dsimp only at h ⊢
      split at h
      · cases h
      · rename_i hnone
        exact ⟨findDocByHash_eq_none.mp hnone, rfl⟩
    | insertDoc =>
      rw [SubmitCall.advance] at h
      dsimp only at h
      split at h <;> cases h
    | getTask | commitDoc | insertTask | commitTask | enqueue => cases h
  | returned | duplicate | raised => cases hcall

/-! ## Documents and calls -/

/-- Every document beyond the initial ones was stored by a call, a call that is about to insert
has found no document with its key, and no key is there twice. -/
structure Consistent (initial : List (String × String)) (w : SubmitRun) : Prop where
  documents_perm : w.documentKeys.Perm (initial ++ w.keysWith 1)
  seen_le : ∀ call ∈ w.calls, call.status = .awaiting .insertDoc →
    call.seen ≤ w.documentKeys.length
  unseen : ∀ call ∈ w.calls, call.status = .awaiting .insertDoc →
    call.raw.key ∉ w.documentKeys.take call.seen
  nodup : w.documentKeys.Nodup

/-- More writes have been made by fewer calls. -/
theorem keysWith_sublist (w : SubmitRun) {m n : ℕ} (h : m ≤ n) :
    (w.keysWith n).Sublist (w.keysWith m) := by
  refine (List.monotone_filter_right w.calls fun call hn => ?_).map _
  exact decide_eq_true (h.trans (of_decide_eq_true hn))

/-- Without two documents of one key there are no two tasks of one. -/
theorem unique_iff {initial : List (String × String)} {w : SubmitRun}
    (h : w.documentKeys.Perm (initial ++ w.keysWith 1)) : Unique w ↔ w.documentKeys.Nodup := by
  refine ⟨And.left, fun hnodup => ⟨hnodup, ?_⟩⟩
  have hone : (w.keysWith 1).Nodup := (List.nodup_append.mp (h.nodup_iff.mp hnodup)).2.1
  exact ⟨hone.sublist (w.keysWith_sublist (by decide)),
    hone.sublist (w.keysWith_sublist (by decide))⟩

/-- The keys with a document after one call has moved on. -/
theorem keysWith_set {calls : List SubmitCall} {i : ℕ} {call : SubmitCall}
    (h : calls[i]? = some call) (stores stores' : SubmitStores) (call' : SubmitCall) :
    ∃ rest : List (String × String),
      (keysWith 1 ⟨stores, calls⟩).Perm
        ((if 1 ≤ call.status.writes then [call.raw.key] else []) ++ rest) ∧
      (keysWith 1 ⟨stores', calls.set i call'⟩).Perm
        ((if 1 ≤ call'.status.writes then [call'.raw.key] else []) ++ rest) := by
  obtain ⟨hi, hget⟩ := List.getElem?_eq_some_iff.mp h
  have hkeys (c : SubmitCall) (others : List SubmitCall) :
      ((c :: others).filter fun call => 1 ≤ call.status.writes).map (·.raw.key) =
        (if 1 ≤ c.status.writes then [c.raw.key] else []) ++
          (others.filter fun call => 1 ≤ call.status.writes).map (·.raw.key) := by
    rw [List.filter_cons]
    by_cases hc : 1 ≤ c.status.writes <;> simp [hc]
  refine ⟨((calls.eraseIdx i).filter fun call => 1 ≤ call.status.writes).map (·.raw.key), ?_, ?_⟩
  · rw [← hkeys]
    refine List.Perm.map _ (List.Perm.filter _ ?_)
    rw [← hget]
    exact (List.getElem_cons_eraseIdx_perm hi).symm
  · rw [← hkeys]
    exact List.Perm.map _ (List.Perm.filter _ (List.set_perm_cons_eraseIdx hi call'))

section Moves

variable {initial : List (String × String)} {w : SubmitRun} {i : ℕ} {call call' : SubmitCall}
  {stores : SubmitStores}

/-- A call moves on without touching the documents. -/
theorem consistent_move (hw : Consistent initial w) (hcall : w.calls[i]? = some call)
    (hdocs : stores.tables.documents = w.stores.tables.documents) (hraw : call'.raw = call.raw)
    (hwrites : 1 ≤ call'.status.writes ↔ 1 ≤ call.status.writes)
    (hfound : call'.status = .awaiting .insertDoc →
      call.raw.key ∉ w.documentKeys ∧ call'.seen = w.documentKeys.length) :
    Consistent initial ⟨stores, w.calls.set i call'⟩ := by
  have hkeys : documentKeys ⟨stores, w.calls.set i call'⟩ = w.documentKeys := by
    rw [documentKeys, hdocs, documentKeys]
  constructor
  · obtain ⟨rest, hold, hnew⟩ := keysWith_set hcall w.stores stores call'
    have hsame := hold.trans (hnew.trans (by rw [hraw]; simp only [hwrites]; rfl)).symm
    rw [hkeys]
    exact hw.documents_perm.trans (hsame.append_left initial)
  · intro c hc hstatus
    rw [hkeys]
    rcases List.mem_or_eq_of_mem_set hc with hc | rfl
    · exact hw.seen_le c hc hstatus
    · exact (hfound hstatus).2.le
  · intro c hc hstatus
    rw [hkeys]
    rcases List.mem_or_eq_of_mem_set hc with hc | rfl
    · exact hw.unseen c hc hstatus
    · rw [hraw]
      exact fun hmem => (hfound hstatus).1 (List.mem_of_mem_take hmem)
  · rw [hkeys]
    exact hw.nodup

/-- A call stores its document. -/
theorem consistent_insert (hw : Consistent initial w) (hcall : w.calls[i]? = some call)
    (hstatus : call.status = .awaiting .insertDoc)
    (hdocs : stores.tables.documents = w.stores.tables.documents ++ [call.document])
    (hraw : call'.raw = call.raw) (hwrites : 1 ≤ call'.status.writes) :
    (documentKeys ⟨stores, w.calls.set i call'⟩).Perm
        (initial ++ keysWith 1 ⟨stores, w.calls.set i call'⟩) ∧
      (call.raw.key ∉ w.documentKeys → Consistent initial ⟨stores, w.calls.set i call'⟩) := by
  have hkeys : documentKeys ⟨stores, w.calls.set i call'⟩ = w.documentKeys ++ [call.raw.key] := by
    rw [documentKeys, hdocs, List.map_append, documentKeys]
    rfl
  have hperm : (documentKeys ⟨stores, w.calls.set i call'⟩).Perm
      (initial ++ keysWith 1 ⟨stores, w.calls.set i call'⟩) := by
    obtain ⟨rest, hold, hnew⟩ := keysWith_set hcall w.stores stores call'
    rw [hstatus, if_neg (by decide), List.nil_append] at hold
    rw [if_pos hwrites, hraw] at hnew
    rw [hkeys]
    have hback : (w.documentKeys ++ [call.raw.key]).Perm (initial ++ (rest ++ [call.raw.key])) := by
      rw [← List.append_assoc]
      exact (hw.documents_perm.trans (hold.append_left initial)).append_right _
    exact hback.trans ((List.perm_append_comm.trans hnew.symm).append_left initial)
  have hother : ∀ c ∈ w.calls.set i call', c.status = .awaiting .insertDoc → c ∈ w.calls := by
    intro c hc hawaits
    rcases List.mem_or_eq_of_mem_set hc with hc | rfl
    · exact hc
    · rw [hawaits] at hwrites
      exact absurd hwrites (by decide)
  refine ⟨hperm, fun hfresh => ⟨hperm, fun c hc hawaits => ?_, fun c hc hawaits => ?_, ?_⟩⟩
  · rw [hkeys, List.length_append]
    exact (hw.seen_le c (hother c hc hawaits) hawaits).trans (Nat.le_add_right _ _)
  · have hc' := hother c hc hawaits
    rw [hkeys, List.take_append_of_le_length (hw.seen_le c hc' hawaits)]
    exact hw.unseen c hc' hawaits
  · rw [hkeys, List.nodup_append]
    refine ⟨hw.nodup, List.nodup_singleton _, fun k hk k' hk' heq => ?_⟩
    rw [List.mem_singleton.mp hk'] at heq
    exact hfresh (heq ▸ hk)

end Moves

theorem consistent_submit {initial : List (String × String)} {w : SubmitRun}
    (hw : Consistent initial w) (sha256Hex : List UInt8 → String) (raw : RawDocument)
    (docId taskId : String) (createdAt : ℚ) :
    Consistent initial
      { w with calls := w.calls ++ [.start sha256Hex raw docId taskId createdAt] } := by
  have hold : ∀ c ∈ w.calls ++ [.start sha256Hex raw docId taskId createdAt],
      c.status = .awaiting .insertDoc → c ∈ w.calls := by
    intro c hc hawaits
    rcases List.mem_append.mp hc with hc | hc
    · exact hc
    · cases List.mem_singleton.mp hc
      cases hawaits
  refine ⟨?_, fun c hc h => hw.seen_le c (hold c hc h) h, fun c hc h => hw.unseen c (hold c hc h) h,
    hw.nodup⟩
  have hkeys : keysWith 1
      { w with calls := w.calls ++ [.start sha256Hex raw docId taskId createdAt] } =
        w.keysWith 1 := by
    rw [keysWith, List.filter_append]
    simp [keysWith, SubmitCall.start, SubmitStatus.writes, SubmitAwait.writes]
  rw [hkeys]
  exact hw.documents_perm

/-- A step keeps keys apart exactly if it is not the INSERT of a document whose key has been
stored since the lookup. -/
theorem unique_step_iff {sha256Hex : List UInt8 → String} {initial : List (String × String)}
    {w w' : SubmitRun} {e : SubmitEvent} (hw : Consistent initial w)
    (h : step sha256Hex w e = some w') :
    (Unique w' ↔ NoneSinceLookup w e w') ∧
      (NoneSinceLookup w e w' → Consistent initial w') := by
  have hkept (hw' : Consistent initial w') (hguard : NoneSinceLookup w e w') :
      (Unique w' ↔ NoneSinceLookup w e w') ∧
        (NoneSinceLookup w e w' → Consistent initial w') :=
    ⟨iff_of_true ((unique_iff hw'.documents_perm).mpr hw'.nodup) hguard, fun _ => hw'⟩
  cases e with
  | submit raw docId taskId createdAt =>
    cases h
    exact hkept (consistent_submit hw ..) trivial
  | raise i =>
    obtain ⟨call, hfilter, rfl⟩ := Option.map_eq_some_iff.mp h
    obtain ⟨hcall, hawaits⟩ := Option.filter_eq_some_iff.mp hfilter
    obtain ⟨raw, docId, taskId, createdAt, seen, status⟩ := call
    cases status with
    | awaiting step =>
      exact hkept (consistent_move hw hcall rfl rfl Iff.rfl (fun hstatus => by cases hstatus))
        trivial
    | returned | duplicate | raised => cases hawaits
  | advance i =>
    obtain ⟨call, hfilter, rfl⟩ := Option.map_eq_some_iff.mp h
    obtain ⟨hcall, hawaits⟩ := Option.filter_eq_some_iff.mp hfilter
    obtain ⟨hraw, ⟨hdocs, hwrites, htaken⟩ | ⟨hstatus, hfree, hdocs, hwrites⟩⟩ :=
      advance_cases call w.stores
    · refine hkept (consistent_move hw hcall hdocs hraw hwrites fun hstatus => ?_) ?_
      · rw [documentKeys, List.length_map]
        exact advance_insertDoc hawaits hstatus
      · intro c hc hstatus
        cases hcall.symm.trans hc
        exact Or.inl (htaken hstatus)
    · obtain ⟨hperm, hconsistent⟩ := consistent_insert hw hcall hstatus hdocs hraw hwrites
      have hguard : NoneSinceLookup w (.advance i)
          ⟨(call.advance w.stores).1, w.calls.set i (call.advance w.stores).2⟩ ↔
            call.raw.key ∉ w.documentKeys := by
        have hin : call ∈ w.calls := List.mem_of_getElem? hcall
        have hsplit : call.raw.key ∈ w.documentKeys ↔
            call.raw.key ∈ w.documentKeys.drop call.seen := by
          conv_lhs => rw [← List.take_append_drop call.seen w.documentKeys, List.mem_append]
          exact or_iff_right (hw.unseen call hin hstatus)
        rw [hsplit]
        constructor
        · exact fun hguard => (hguard call hcall hstatus).resolve_left hfree
        · intro hnew c hc _
          cases hcall.symm.trans hc
          exact Or.inr hnew
      refine ⟨?_, fun h => hconsistent (hguard.mp h)⟩
      rw [hguard]
      refine (unique_iff hperm).trans ⟨fun hnodup hmem => ?_, fun h => (hconsistent h).nodup⟩
      rw [documentKeys, hdocs, List.map_append, List.nodup_append] at hnodup
      exact hnodup.2.2 _ hmem _ (List.mem_singleton_self _) rfl

/-- In every run keys stay apart exactly if no document is stored whose key has been stored
since its call looked for it. -/
theorem submit_unique_iff (sha256Hex : List UInt8 → String) {stores : SubmitStores}
    (hstores : (stores.tables.documents.map (·.key)).Nodup) (es : List SubmitEvent) :
    EveryStep (step sha256Hex) (fun _ _ w' => Unique w') { stores } es ↔
      EveryStep (step sha256Hex) NoneSinceLookup { stores } es := by
  have hstart : Consistent (stores.tables.documents.map (·.key)) { stores } := by
    refine ⟨?_, fun c hc => absurd hc List.not_mem_nil, fun c hc => absurd hc List.not_mem_nil,
      hstores⟩
    simp [keysWith, documentKeys]
  refine everyStep_congr (I := Consistent (stores.tables.documents.map (·.key))) ?_ hstart
  exact fun w e w' hw h => unique_step_iff hw h

/-- A Markdown file for a knowledge base. -/
def sampleUpload (kbId : String) (data : List UInt8) : RawDocument where
  kbId := kbId
  filename := "notes.md"
  mimetype := "text/markdown"
  content := .bytes data

/-- Shows the bytes themselves, so that equal digests come from equal bytes. -/
def plainDigest (data : List UInt8) : String := String.ofList (data.map fun b => Char.ofNat b.toNat)

def sampleStores : SubmitStores where
  tables.documents :=
    [{ sampleUpload "kb" [0x61] with docId := some "doc_1", docHash := plainDigest [0x61] }]

theorem submit_unique_iff_sample :
    (sampleStores.tables.documents.map (·.key)).Nodup ∧
      (EveryStep (step plainDigest) (fun _ _ w' => Unique w') { stores := sampleStores }
          [.submit (sampleUpload "kb" [0x61]) "doc_2" "task_2" 0, .advance 0] ↔
        EveryStep (step plainDigest) NoneSinceLookup { stores := sampleStores }
          [.submit (sampleUpload "kb" [0x61]) "doc_2" "task_2" 0, .advance 0]) :=
  ⟨by decide, submit_unique_iff plainDigest (by decide) _⟩

instance (w : SubmitRun) : Decidable (Unique w) :=
  inferInstanceAs (Decidable (w.documentKeys.Nodup ∧ (w.keysWith 2).Nodup ∧ (w.keysWith 3).Nodup))

/-- Two uploads of the same bytes that both look before either one stores its document. -/
theorem simultaneous_uploads_are_stored_twice :
    ¬∀ (sha256Hex : List UInt8 → String) (es : List SubmitEvent),
      EveryStep (step sha256Hex) (fun _ _ w' => Unique w') { stores := {} } es := by
  intro hall
  have hrun := hall plainDigest
    [.submit (sampleUpload "kb" [0x61]) "doc_1" "task_1" 0,
      .submit (sampleUpload "kb" [0x61]) "doc_2" "task_2" 0,
      .advance 0, .advance 1, .advance 0, .advance 1]
  exact absurd hrun (by decide +kernel)

end SubmitRun

end Ragx
