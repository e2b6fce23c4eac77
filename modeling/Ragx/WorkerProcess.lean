import Ragx.EventRuns
import Ragx.HeldMessages
import Ragx.SubmitIngest

/-!
# The standalone ingestion worker

The API process stores documents and tasks and puts the task ids into the streams. Its own
workers and those of the standalone process read them as one group. Each process looks a task
up in its own store, and the standalone one has a fresh store in memory.
-/
namespace Ragx

/-- The process that runs a worker. -/
inductive WorkerHost where
  | api
  | standalone
deriving DecidableEq

inductive FleetEvent where
  /-- A call of `submit_ingest`, with the random part of the ids that it will draw. -/
  | submit (raw : RawDocument) (docRandom taskRandom : String) (createdAt : ℚ)
  | advance (call : ℕ)
  | raise (call : ℕ)
  | join (kbId : String) (host : WorkerHost)
  | work (kbId : String) (e : QueueEvent)

/-- The API process with its store, the streams of the knowledge bases, and the process of each
worker. `finished` records the messages that were acknowledged after their pipeline
run. -/
structure Fleet where
  api : SubmitRun
  queues : String → QueueRun := fun _ => {}
  hosts : String → List WorkerHost := fun _ => []
  finished : List (String × ℕ) := []

def SubmitTables.getTask (tables : SubmitTables) (taskId : String) : Option IngestTask :=
  (tables.tasks.find? fun row => row.task.taskId = taskId).map (·.task)

namespace Fleet

/-- The tables that the consumer of a process reads. -/
def tablesOf (w : Fleet) : WorkerHost → SubmitTables
  | .api => w.api.stores.tables
  | .standalone => {}

/-- The consumer runs the pipeline for the task that it finds, and else just returns. -/
def processes (w : Fleet) (kbId : String) : QueueEvent → Option ℕ
  | .succeed worker =>
    match (w.hosts kbId)[worker]?, ((w.queues kbId).hands[worker]?).bind List.head? with
    | some host, some id =>
      if ((w.tablesOf host).getTask ((w.queues kbId).taskId id)).isSome then some id else none
    | _, _ => none
  | _ => none

/-- What a submission has put into the queue is added to the streams. -/
def withApi (w : Fleet) (api : SubmitRun) : Fleet :=
  { w with
    api
    queues := fun kbId =>
      ((api.stores.queued.drop w.api.stores.queued.length).filter fun e => e.1 = kbId).foldl
        (fun q e => { q with stream := q.stream.xadd e.2 }) (w.queues kbId) }

variable (sha256Hex : List UInt8 → String) (cfg : QueueConfig)

def step (w : Fleet) : FleetEvent → Option Fleet
  | .submit raw docRandom taskRandom createdAt =>
    (w.api.step sha256Hex (.submit raw ("doc_" ++ docRandom) ("task_" ++ taskRandom) createdAt)).map
      w.withApi
  | .advance call => (w.api.step sha256Hex (.advance call)).map w.withApi
  | .raise call => (w.api.step sha256Hex (.raise call)).map w.withApi
  | .join kbId host =>
    ((w.queues kbId).step cfg .join).map fun q =>
      { w with
        queues := fun kb => if kb = kbId then q else w.queues kb
        hosts := fun kb => if kb = kbId then w.hosts kb ++ [host] else w.hosts kb }
  | .work _ (.enqueue _) | .work _ .join => none
  | .work kbId e =>
    ((w.queues kbId).step cfg e).map fun q =>
      { w with
        queues := fun kb => if kb = kbId then q else w.queues kb
        finished := w.finished ++ ((w.processes kbId e).map fun id => (kbId, id)).toList }

/-- An acknowledged message has been processed, or is a dead letter. -/
def AckedProcessed (w : Fleet) (e : FleetEvent) (w' : Fleet) : Prop :=
  match e with
  | .work kbId e => ∀ id ∈ (w.queues kbId).acked e,
    (kbId, id) ∈ w'.finished ∨ id ∈ (w'.queues kbId).dlq
  | _ => True

/-- No consumer run of the standalone process comes to its end. -/
def EndsInApi (w : Fleet) (e : FleetEvent) (_ : Fleet) : Prop :=
  match e with
  | .work kbId (.succeed worker) => (w.hosts kbId)[worker]? = some .api
  | _ => True

end Fleet

/-! ## Submissions -/

def SubmitTables.taskIds (tables : SubmitTables) : List String :=
  tables.tasks.map (·.task.taskId)

theorem isSome_getTask {tables : SubmitTables} {taskId : String} (h : taskId ∈ tables.taskIds) :
    (tables.getTask taskId).isSome = true := by
  obtain ⟨row, hrow, rfl⟩ := List.mem_map.mp h
  rw [SubmitTables.getTask, Option.isSome_map, List.find?_isSome]
  exact ⟨row, hrow, decide_eq_true rfl⟩

/-- A task that is stored stays stored, and a call only gets behind its write with it. -/
theorem taskIds_insertTask (s : SubmitStores) (row : TaskRow) :
    (∀ id ∈ s.tables.taskIds, id ∈ (s.insertTask row).tables.taskIds) ∧
      row.task.taskId ∈ (s.insertTask row).tables.taskIds := by
  unfold SubmitStores.insertTask SubmitTables.taskIds
  dsimp only
  split_ifs with hknown
  · have hsame : (s.tables.tasks.map fun stored => if stored.task.taskId = row.task.taskId then
        SubmitStores.updateTask stored row.task else stored).map (·.task.taskId) =
        s.tables.tasks.map (·.task.taskId) := by
      rw [List.map_map]
      refine List.map_congr_left fun stored _ => ?_
      dsimp only [Function.comp]
      split_ifs <;> rfl
    rw [hsame]
    exact ⟨fun _ hid => hid, hknown⟩
  · rw [List.map_append]
    exact ⟨fun _ hid => List.mem_append_left _ hid,
      List.mem_append_right _ (List.mem_singleton.mpr rfl)⟩

theorem advance_taskIds (call : SubmitCall) (s : SubmitStores) :
    (∀ id ∈ s.tables.taskIds, id ∈ (call.advance s).1.tables.taskIds) ∧
      (call.advance s).2.taskId = call.taskId ∧
      (2 ≤ (call.advance s).2.status.writes →
        2 ≤ call.status.writes ∨ call.taskId ∈ (call.advance s).1.tables.taskIds) ∧
      ((call.advance s).1.queued = s.queued ∨ 2 ≤ call.status.writes ∧
        (call.advance s).1.queued = s.queued ++ [(call.raw.kbId, call.taskId)]) := by
  obtain ⟨raw, docId, taskId, createdAt, seen, status⟩ := call
  cases status with
  | awaiting step =>
    cases step with
    | findDoc =>
      rw [SubmitCall.advance]
      dsimp only
      split <;> exact ⟨fun _ h => h, rfl, fun h => absurd h (by decide : ¬ 2 ≤ 0), Or.inl rfl⟩
    | insertDoc =>
      rw [SubmitCall.advance]
      dsimp only
      rw [SubmitStores.insertDoc]
      split_ifs
      · exact ⟨fun _ h => h, rfl, fun h => absurd h (by decide : ¬ 2 ≤ 0), Or.inl rfl⟩
      · exact ⟨fun _ h => h, rfl, fun h => absurd h (by decide : ¬ 2 ≤ 1), Or.inl rfl⟩
    | getTask existing =>
      exact ⟨fun _ h => h, rfl, fun h => absurd h (by decide : ¬ 2 ≤ 0), Or.inl rfl⟩
    | commitDoc => exact ⟨fun _ h => h, rfl, fun h => absurd h (by decide : ¬ 2 ≤ 1), Or.inl rfl⟩
    | insertTask =>
      obtain ⟨hkept, hnew⟩ := taskIds_insertTask s ⟨SubmitCall.task ⟨raw, docId, taskId, createdAt,
        seen, .awaiting .insertTask⟩, createdAt⟩
      exact ⟨hkept, rfl, fun _ => Or.inr hnew, Or.inl rfl⟩
    | commitTask => exact ⟨fun _ h => h, rfl, fun _ => Or.inl le_rfl, Or.inl rfl⟩
    | enqueue => exact ⟨fun _ h => h, rfl, fun _ => Or.inl le_rfl, Or.inr ⟨le_rfl, rfl⟩⟩
  | returned | duplicate | raised =>
    exact ⟨fun _ h => h, rfl, fun h => Or.inl h, Or.inl rfl⟩

namespace Fleet

def finishedOf (w : Fleet) (kbId : String) : List ℕ :=
  (w.finished.filter fun m => m.1 = kbId).map Prod.snd

/-- Every message is about a task that the API process has stored. -/
structure Sound (w : Fleet) : Prop where
  separate : ∀ kbId, (w.queues kbId).Separate (w.finishedOf kbId ++ (w.queues kbId).dlq)
  known : ∀ kbId, ∀ taskId ∈ (w.queues kbId).stream.entries,
    taskId ≠ "" ∧ taskId ∈ w.api.stores.tables.taskIds
  calls : ∀ call ∈ w.api.calls, call.taskId ≠ "" ∧
    (2 ≤ call.status.writes → call.taskId ∈ w.api.stores.tables.taskIds)
  hosts_length : ∀ kbId, (w.hosts kbId).length = (w.queues kbId).hands.length

variable {sha256Hex : List UInt8 → String} {cfg : QueueConfig} {w w' : Fleet} {e : FleetEvent}

theorem mem_finishedOf {kbId : String} {id : ℕ} :
    id ∈ w.finishedOf kbId ↔ (kbId, id) ∈ w.finished := by
  simp [finishedOf]

/-- The streams after a step of the API process. -/
theorem sound_withApi (hw : w.Sound) {api : SubmitRun}
    (htables : ∀ id ∈ w.api.stores.tables.taskIds, id ∈ api.stores.tables.taskIds)
    (hcalls : ∀ call ∈ api.calls, call.taskId ≠ "" ∧
      (2 ≤ call.status.writes → call.taskId ∈ api.stores.tables.taskIds))
    (hqueued : api.stores.queued = w.api.stores.queued ∨ ∃ kbId taskId, taskId ≠ "" ∧
      taskId ∈ api.stores.tables.taskIds ∧
      api.stores.queued = w.api.stores.queued ++ [(kbId, taskId)]) :
    (w.withApi api).Sound := by
  rcases hqueued with hqueued | ⟨kbId, taskId, hne, hstored, hqueued⟩
  · have hqueues : (w.withApi api).queues = w.queues := by
      funext kb
      rw [withApi, hqueued, List.drop_length]
      rfl
    exact ⟨fun kb => hqueues ▸ hw.separate kb, fun kb taskId hmem =>
      ((hw.known kb taskId (hqueues ▸ hmem)).imp_right (htables taskId)), hcalls,
      fun kb => hqueues ▸ hw.hosts_length kb⟩
  · have hqueues (kb : String) : (w.withApi api).queues kb = if kbId = kb then
        { w.queues kb with stream := (w.queues kb).stream.xadd taskId } else w.queues kb := by
      rw [withApi, hqueued, List.drop_left]
      by_cases hkb : kbId = kb
      · simp [hkb]
      · simp [hkb]
    refine ⟨fun kb => ?_, fun kb other hmem => ?_, hcalls, fun kb => ?_⟩
    · have hfinished : (w.withApi api).finishedOf kb = w.finishedOf kb := rfl
      rw [hqueues, hfinished]
      split_ifs
      · exact (hw.separate kb).xadd taskId
      · exact hw.separate kb
    · rw [hqueues] at hmem
      split_ifs at hmem
      · rcases List.mem_append.mp hmem with hold | hnew
        · exact (hw.known kb other hold).imp_right (htables other)
        · rw [List.mem_singleton.mp hnew]
          exact ⟨hne, hstored⟩
      · exact (hw.known kb other hmem).imp_right (htables other)
    · have hhosts : (w.withApi api).hosts kb = w.hosts kb := rfl
      rw [hqueues, hhosts]
      split_ifs
      · exact hw.hosts_length kb
      · exact hw.hosts_length kb

theorem sound_advance (hw : w.Sound) {i : ℕ} {api : SubmitRun}
    (h : w.api.step sha256Hex (.advance i) = some api) : (w.withApi api).Sound := by
  obtain ⟨call, hcall, rfl⟩ := Option.map_eq_some_iff.mp h
  have hmem : call ∈ w.api.calls :=
    List.mem_of_getElem? (Option.filter_eq_some_iff.mp hcall).1
  obtain ⟨hne, hstored⟩ := hw.calls call hmem
  obtain ⟨htables, htaskId, hwrites, hqueued⟩ := advance_taskIds call w.api.stores
  refine sound_withApi hw htables (fun other hother => ?_) ?_
  · rcases List.mem_or_eq_of_mem_set hother with hold | rfl
    · exact (hw.calls other hold).imp_right fun himp h => htables _ (himp h)
    · rw [htaskId]
      exact ⟨hne, fun h => (hwrites h).elim (fun h => htables _ (hstored h)) id⟩
  · exact hqueued.imp_right fun ⟨h, heq⟩ => ⟨call.raw.kbId, call.taskId, hne,
      htables _ (hstored h), heq⟩

theorem sound_submit (hw : w.Sound) {raw : RawDocument} {docId taskId : String} {createdAt : ℚ}
    (hne : taskId ≠ "") {api : SubmitRun}
    (h : w.api.step sha256Hex (.submit raw docId taskId createdAt) = some api) :
    (w.withApi api).Sound := by
  cases h
  refine sound_withApi hw (fun _ h => h) (fun call hcall => ?_) (Or.inl rfl)
  rcases List.mem_append.mp hcall with hold | hnew
  · exact hw.calls call hold
  · rw [List.mem_singleton.mp hnew]
    exact ⟨hne, fun h => absurd h (by decide : ¬ 2 ≤ 0)⟩

theorem sound_raise (hw : w.Sound) {i : ℕ} {api : SubmitRun}
    (h : w.api.step sha256Hex (.raise i) = some api) : (w.withApi api).Sound := by
  obtain ⟨call, hcall, rfl⟩ := Option.map_eq_some_iff.mp h
  have hmem : call ∈ w.api.calls :=
    List.mem_of_getElem? (Option.filter_eq_some_iff.mp hcall).1
  refine sound_withApi hw (fun _ h => h) (fun other hother => ?_) (Or.inl rfl)
  rcases List.mem_or_eq_of_mem_set hother with hold | rfl
  · exact hw.calls other hold
  · obtain ⟨hne, hstored⟩ := hw.calls call hmem
    unfold SubmitCall.raise
    split
    · rename_i step hstatus
      refine ⟨hne, fun h => hstored ?_⟩
      rw [hstatus]
      exact h
    · exact ⟨hne, hstored⟩

/-- An event of one stream. -/
theorem sound_work (hw : w.Sound) {kbId : String} {e : QueueEvent} {q : QueueRun}
    (henqueue : ∀ taskId, e ≠ .enqueue taskId) (hjoin : e ≠ .join)
    (hq : (w.queues kbId).step cfg e = some q)
    (hprocesses : ∀ id ∈ w.processes kbId e, id ∈ (w.queues kbId).acked e) :
    Sound { w with
      queues := fun kb => if kb = kbId then q else w.queues kb
      finished := w.finished ++ ((w.processes kbId e).map fun id => (kbId, id)).toList } := by
  obtain ⟨hentries, hhands⟩ := QueueRun.frame_step henqueue hjoin hq
  refine ⟨fun kb => ?_, fun kb taskId hmem => ?_, hw.calls, fun kb => ?_⟩
  · dsimp only
    by_cases hkb : kb = kbId
    · subst hkb
      rw [if_pos rfl]
      refine QueueRun.separate_step _ _ (hw.separate kb) hq fun id hid => ?_
      rcases List.mem_append.mp (mem_finishedOf.mp hid) with hold | hnew
      · exact Or.inl (mem_finishedOf.mpr hold)
      · obtain ⟨id', hid', heq⟩ := Option.map_eq_some_iff.mp (Option.mem_toList.mp hnew)
        exact Or.inr (hprocesses id ((Prod.mk.inj heq).2 ▸ hid'))
    · rw [if_neg hkb]
      refine (hw.separate kb).mono fun id hid => ?_
      rcases List.mem_append.mp hid with hid | hid
      · rcases List.mem_append.mp (mem_finishedOf.mp hid) with hold | hnew
        · exact List.mem_append_left _ (mem_finishedOf.mpr hold)
        · obtain ⟨id', _, heq⟩ := Option.map_eq_some_iff.mp (Option.mem_toList.mp hnew)
          exact absurd (Prod.mk.inj heq).1.symm hkb
      · exact List.mem_append_right _ hid
  · dsimp only at hmem
    split_ifs at hmem with hkb
    · rw [hentries] at hmem
      exact hw.known kbId taskId hmem
    · exact hw.known kb taskId hmem
  · dsimp only
    split_ifs with hkb
    · rw [hhands, hkb]
      exact hw.hosts_length kbId
    · exact hw.hosts_length kb

theorem sound_join (hw : w.Sound) {kbId : String} {host : WorkerHost} {q : QueueRun}
    (hq : (w.queues kbId).step cfg .join = some q) :
    Sound { w with
      queues := fun kb => if kb = kbId then q else w.queues kb
      hosts := fun kb => if kb = kbId then w.hosts kb ++ [host] else w.hosts kb } := by
  cases hq
  refine ⟨fun kb => ?_, fun kb taskId hmem => ?_, hw.calls, fun kb => ?_⟩
  · have hfinished : finishedOf { w with
        queues := fun kb => if kb = kbId then { w.queues kbId with
          hands := (w.queues kbId).hands ++ [[]] } else w.queues kb
        hosts := fun kb => if kb = kbId then w.hosts kb ++ [host] else w.hosts kb } kb =
        w.finishedOf kb := rfl
    rw [hfinished]
    dsimp only
    split_ifs with hkb
    · subst hkb
      exact (hw.separate kb).join
    · exact hw.separate kb
  · dsimp only at hmem
    split_ifs at hmem with hkb
    · exact hw.known kbId taskId hmem
    · exact hw.known kb taskId hmem
  · dsimp only
    split_ifs with hkb
    · subst hkb
      rw [List.length_append, List.length_append, hw.hosts_length kb]
      rfl
    · exact hw.hosts_length kb

/-- A message that is processed is one that the event acknowledges. -/
theorem acked_of_processes {kbId : String} {e : QueueEvent} {id : ℕ}
    (h : id ∈ w.processes kbId e) : id ∈ (w.queues kbId).acked e := by
  unfold processes at h
  split at h
  · split at h
    · rename_i host id' hhost hid
      split_ifs at h
      · cases h
        exact hid
      · cases h
    · cases h
  · cases h

/-- The consumer of the API process finds every task, the one of the standalone worker none. -/
theorem ackedProcessed_work (hw : w.Sound) {kbId : String} {e : QueueEvent} {q : QueueRun}
    (hq : (w.queues kbId).step cfg e = some q) :
    AckedProcessed w (.work kbId e) { w with
        queues := fun kb => if kb = kbId then q else w.queues kb
        finished := w.finished ++ ((w.processes kbId e).map fun id => (kbId, id)).toList } ↔
      EndsInApi w (.work kbId e) w := by
  unfold AckedProcessed
  dsimp only
  rw [if_pos rfl]
  cases QueueRun.moves_of_step hq with
  | enqueue | join | read | crash =>
    exact iff_of_true (fun _ h => absurd h (Option.not_mem_none _)) trivial
  | @drop worker held _ hhand hempty =>
    refine iff_of_true (fun id hid => ?_) trivial
    have hheld : held ∈ (w.queues kbId).hands.flatten :=
      List.mem_flatten_of_mem (List.mem_of_getElem? hhand) List.mem_cons_self
    exact absurd hempty (hw.known kbId _
      (QueueRun.mem_entries_of_held (hw.separate kbId) hheld)).1
  | @fail worker held _ pendingRaises dlqRaises hhand _ =>
    refine iff_of_true (fun id hid => Or.inr ?_) trivial
    obtain ⟨hhead, hdead⟩ := Option.mem_filter_iff.mp hid
    rw [hhand] at hhead
    obtain rfl : held = id := Option.some.inj hhead
    exact (of_decide_eq_true hdead).1
  | @succeed worker held _ hhand _ =>
    have hheld : held ∈ (w.queues kbId).hands.flatten :=
      List.mem_flatten_of_mem (List.mem_of_getElem? hhand) List.mem_cons_self
    have hacked : (w.queues kbId).acked (.succeed worker) = some held := by
      rw [QueueRun.acked, hhand]
      rfl
    obtain ⟨host, hhost⟩ : ∃ host, (w.hosts kbId)[worker]? = some host := by
      have hlt := (List.getElem?_eq_some_iff.mp hhand).1
      rw [← hw.hosts_length kbId] at hlt
      exact ⟨_, List.getElem?_eq_getElem hlt⟩
    have hprocesses : w.processes kbId (.succeed worker) =
        if ((w.tablesOf host).getTask ((w.queues kbId).taskId held)).isSome then some held
        else none := by
      unfold processes
      dsimp only
      rw [hhost, hhand]
      rfl
    unfold EndsInApi
    dsimp only
    rw [hacked, hprocesses, hhost]
    cases host with
    | api =>
      have hfound : ((w.tablesOf .api).getTask ((w.queues kbId).taskId held)).isSome = true :=
        isSome_getTask (hw.known kbId _
          (QueueRun.mem_entries_of_held (hw.separate kbId) hheld)).2
      rw [if_pos hfound]
      refine iff_of_true (fun id hid => Or.inl ?_) rfl
      obtain rfl : held = id := Option.some.inj hid
      exact List.mem_append_right _ (List.mem_singleton.mpr rfl)
    | standalone =>
      have hmissed : ((w.tablesOf .standalone).getTask
          ((w.queues kbId).taskId held)).isSome = false := rfl
      rw [hmissed, if_neg Bool.false_ne_true]
      refine iff_of_false (fun h => ?_) (by simp)
      have hnot := (hw.separate kbId).held_not_settled held hheld
      rcases h held rfl with hfinished | hdead
      · rw [Option.map_none, Option.toList_none, List.append_nil] at hfinished
        exact hnot (List.mem_append_left _ (mem_finishedOf.mpr hfinished))
      · exact hnot (List.mem_append_right _ hdead)

theorem task_ne_empty (taskRandom : String) : "task_" ++ taskRandom ≠ "" := by
  intro h
  have hlength := congrArg String.length h
  rw [String.length_append] at hlength
  exact absurd hlength (by simp)

/-- One step leaves the fleet sound, and acknowledges nothing unprocessed exactly if it does not
end a consumer run of the standalone worker. -/
theorem ackedProcessed_step (hw : w.Sound) (h : step sha256Hex cfg w e = some w') :
    (AckedProcessed w e w' ↔ EndsInApi w e w') ∧ (EndsInApi w e w' → w'.Sound) := by
  cases e with
  | submit raw docRandom taskRandom createdAt =>
    rw [step, Option.map_eq_some_iff] at h
    obtain ⟨api, hapi, rfl⟩ := h
    exact ⟨Iff.rfl, fun _ => sound_submit hw (task_ne_empty taskRandom) hapi⟩
  | advance call =>
    rw [step, Option.map_eq_some_iff] at h
    obtain ⟨api, hapi, rfl⟩ := h
    exact ⟨Iff.rfl, fun _ => sound_advance hw hapi⟩
  | raise call =>
    rw [step, Option.map_eq_some_iff] at h
    obtain ⟨api, hapi, rfl⟩ := h
    exact ⟨Iff.rfl, fun _ => sound_raise hw hapi⟩
  | join kbId host =>
    rw [step, Option.map_eq_some_iff] at h
    obtain ⟨q, hq, rfl⟩ := h
    exact ⟨Iff.rfl, fun _ => sound_join hw hq⟩
  | work kbId e =>
    have hworks (henqueue : ∀ taskId, e ≠ .enqueue taskId) (hjoin : e ≠ .join)
        (hmap : ((w.queues kbId).step cfg e).map (fun q => { w with
          queues := fun kb => if kb = kbId then q else w.queues kb
          finished := w.finished ++
            ((w.processes kbId e).map fun id => (kbId, id)).toList }) = some w') :
        (AckedProcessed w (.work kbId e) w' ↔ EndsInApi w (.work kbId e) w') ∧
          (EndsInApi w (.work kbId e) w' → w'.Sound) := by
      obtain ⟨q, hq, rfl⟩ := Option.map_eq_some_iff.mp hmap
      exact ⟨ackedProcessed_work hw hq,
        fun _ => sound_work hw henqueue hjoin hq fun _ => acked_of_processes⟩
    cases e with
    | enqueue taskId => cases h
    | join => cases h
    | read worker => exact hworks (by simp) (by simp) h
    | succeed worker => exact hworks (by simp) (by simp) h
    | fail worker pendingRaises dlqRaises => exact hworks (by simp) (by simp) h
    | drop worker => exact hworks (by simp) (by simp) h
    | crash worker => exact hworks (by simp) (by simp) h

theorem sound_start (tables committed : SubmitTables) :
    Sound { api := { stores := { tables, committed } } } where
  separate _ := ⟨by simp, by simp, by simp [finishedOf], by simp⟩
  known _ _ h := absurd h List.not_mem_nil
  calls _ h := absurd h List.not_mem_nil
  hosts_length _ := rfl

/-- Every acknowledged message has been processed or is a dead letter, exactly if no consumer run
of the standalone worker comes to its end. -/
theorem ackedProcessed_iff (sha256Hex : List UInt8 → String) (cfg : QueueConfig)
    (tables committed : SubmitTables) (es : List FleetEvent) :
    EveryStep (step sha256Hex cfg) AckedProcessed
        { api := { stores := { tables, committed } } } es ↔
      EveryStep (step sha256Hex cfg) EndsInApi { api := { stores := { tables, committed } } } es :=
  everyStep_congr (fun _ _ _ => ackedProcessed_step) (sound_start tables committed)

instance : ∀ w e w', Decidable (AckedProcessed w e w')
  | w, .work kbId e, w' => inferInstanceAs (Decidable (∀ id ∈ (w.queues kbId).acked e,
      (kbId, id) ∈ w'.finished ∨ id ∈ (w'.queues kbId).dlq))
  | _, .submit .., _ | _, .advance _, _ | _, .raise _, _ | _, .join .., _ => isTrue trivial

/-- An accepted upload that the standalone worker reads. -/
theorem standalone_acks_unprocessed :
    ¬∀ (sha256Hex : List UInt8 → String) (es : List FleetEvent),
      EveryStep (step sha256Hex {}) AckedProcessed { api := { stores := {} } } es := by
  intro hall
  have hrun := hall SubmitRun.plainDigest
    [.submit (SubmitRun.sampleUpload "default" [0x61]) "1" "1" 0,
      .advance 0, .advance 0, .advance 0, .advance 0, .advance 0, .advance 0,
      .join "default" .standalone, .work "default" (.read 0), .work "default" (.succeed 0)]
  exact absurd hrun (by decide +kernel)

end Fleet

end Ragx
