import Mathlib.Data.List.Dedup
import Mathlib.Data.List.Sort
import Mathlib.Data.String.Basic
import Ragx.EventRuns
import Ragx.HeldMessages
import Ragx.RedisCache

/-!
# The workers of a stream queue

One process reads the streams of all knowledge bases. `consume` starts a worker for each stream
that the process knows of, and a coordinator scans the keys of the server for further ones. Both
go by the same set of known knowledge bases, to which `enqueue` adds as well.
-/
namespace Ragx

structure StreamsConfig extends QueueConfig where
  streamPrefix : String := "ragx:ingest"
  workerConcurrency : ℤ := 4
  dlqStream : String := "ragx:ingest:dlq"

namespace StreamsConfig

def stream (cfg : StreamsConfig) (kbId : String) : String := cfg.streamPrefix ++ ":" ++ kbId

/-- What the coordinator scans the keys for. -/
def scanPattern (cfg : StreamsConfig) : String := cfg.streamPrefix ++ ":*"

/-- The knowledge base that the coordinator takes a key to belong to. -/
def kbOf (cfg : StreamsConfig) (key : String) : String :=
  let suffix := key.toList.drop (cfg.streamPrefix.length + 1)
  if suffix = [] then "default" else String.ofList (suffix.takeWhile (· ≠ ':'))

end StreamsConfig

inductive QueuePhase where
  | idle
  /-- Workers that `consume` has still to start. Without any, the coordinator sleeps. -/
  | starting (streams : List String)
  /-- A pass of the coordinator: the keys that were there when it began, those that it has still
  to come by, and the stream whose group it is creating. -/
  | scanning (present left : List String) (creating : Option String)
deriving DecidableEq

/-- The streams that get a worker next. -/
def QueuePhase.due : QueuePhase → List String
  | .idle => []
  | .starting streams => streams
  | .scanning _ _ creating => creating.toList

inductive StreamsEvent where
  /-- The start of a call of `enqueue`, which makes the knowledge base known. -/
  | enqueue (kbId : String)
  /-- An entry is added, by a call of `enqueue` or by another process. -/
  | xadd (key taskId : String)
  | consume
  | startWorker
  | scanBegin
  /-- The scan comes by a key. -/
  | visit (key : String)
  | createGroup
  /-- SCAN or XGROUP CREATE raises, which ends the pass. -/
  | scanRaises
  | scanEnd
  | work (key : String) (e : QueueEvent)
  /-- Another client claims a pending message. -/
  | claim (key : String) (id : ℕ)
  /-- The XACK of a message without task id raises, which ends the worker. -/
  | die (key : String) (worker : ℕ)

/-- XCLAIM by another client: one more delivery of a pending message. -/
def RedisStream.xclaim {φ : Type*} (s : RedisStream φ) (id : ℕ) : RedisStream φ where
  entries := s.entries
  lastDelivered := s.lastDelivered
  pending := s.pending.map fun p => if p.1 = id then (p.1, p.2 + 1) else p
  cursor_le := s.cursor_le
  pending_lt := by
    intro p hp
    obtain ⟨p', hp', rfl⟩ := List.mem_map.mp hp
    split_ifs <;> exact s.pending_lt p' hp'

/-- The process and the server that it works with; the workers of a stream are the hands of its
queue. `dead` are the places of the dead letters in their stream. -/
structure StreamsQueue where
  queues : String → QueueRun := fun _ => {}
  keys : List String := []
  knownKbs : List String := []
  phase : QueuePhase := .idle
  dead : List ℕ := []

namespace StreamsQueue

def streams (cfg : StreamsConfig) (w : StreamsQueue) : List String :=
  (w.knownKbs.map cfg.stream).dedup.insertionSort (· ≤ ·)

def workers (w : StreamsQueue) (key : String) : ℕ := (w.queues key).hands.length

def setQueue (w : StreamsQueue) (key : String) (q : QueueRun) : StreamsQueue :=
  { w with queues := Function.update w.queues key q }

def xadd (w : StreamsQueue) (key taskId : String) : StreamsQueue :=
  { w.setQueue key { w.queues key with stream := (w.queues key).stream.xadd taskId } with
    keys := w.keys.insert key }

/-- XGROUP CREATE with MKSTREAM, and the task of a worker, which a negative concurrency ends at
once. -/
def spawn (cfg : StreamsConfig) (w : StreamsQueue) (key : String) : StreamsQueue :=
  let w := { w with keys := w.keys.insert key }
  if 0 ≤ cfg.workerConcurrency then
    w.setQueue key { w.queues key with hands := (w.queues key).hands ++ [[]] }
  else w

def deadLetter (cfg : StreamsConfig) (w : StreamsQueue) (taskId : String) : StreamsQueue :=
  { w.xadd cfg.dlqStream taskId with
    dead := w.dead ++ [(w.queues cfg.dlqStream).stream.entries.length] }

/-- What a worker does to its stream, and the dead letters that it writes. -/
def worked (cfg : StreamsConfig) (w : StreamsQueue) (key : String) (q : QueueRun) : StreamsQueue :=
  ((q.dlq.drop (w.queues key).dlq.length).map q.taskId).foldl (deadLetter cfg) (w.setQueue key q)

/-- The events of a worker; a consumer run waits for the semaphore first. -/
def works (cfg : StreamsConfig) : QueueEvent → Bool
  | .read _ | .drop _ => true
  | .succeed _ | .fail .. => 0 < cfg.workerConcurrency
  | .enqueue _ | .join | .crash _ => false

variable (server : RedisServer) (cfg : StreamsConfig)

def step (w : StreamsQueue) : StreamsEvent → Option StreamsQueue
  | .enqueue kbId => some { w with knownKbs := w.knownKbs.insert kbId }
  | .xadd key taskId => some (w.xadd key taskId)
  | .consume =>
    match w.phase with
    | .idle => some { w with phase := .starting (w.streams cfg) }
    | _ => none
  | .startWorker =>
    match w.phase with
    | .starting (key :: rest) => some { w.spawn cfg key with phase := .starting rest }
    | _ => none
  | .scanBegin =>
    match w.phase with
    | .starting [] =>
      some { w with
        phase := .scanning w.keys
          (w.keys.filter fun key => server.globMatch cfg.scanPattern key) none }
    | _ => none
  | .visit key =>
    match w.phase with
    | .scanning present left none =>
      if key ∈ w.keys ∧ server.globMatch cfg.scanPattern key then
        if key ∈ w.streams cfg then
          some { w with phase := .scanning present (left.filter (· ≠ key)) none }
        else
          some { w with
            knownKbs := w.knownKbs.insert (cfg.kbOf key)
            phase := .scanning present (left.filter (· ≠ key)) (some key) }
      else none
    | _ => none
  | .createGroup =>
    match w.phase with
    | .scanning present left (some key) =>
      some { w.spawn cfg key with phase := .scanning present left none }
    | _ => none
  | .scanRaises =>
    match w.phase with
    | .scanning .. => some { w with phase := .starting [] }
    | _ => none
  | .scanEnd =>
    match w.phase with
    | .scanning _ left none => if left = [] then some { w with phase := .starting [] } else none
    | _ => none
  | .work key e =>
    if works cfg e then ((w.queues key).step cfg.toQueueConfig e).map (w.worked cfg key) else none
  | .claim key id =>
    some (w.setQueue key { w.queues key with stream := (w.queues key).stream.xclaim id })
  | .die key worker =>
    match (w.queues key).hands[worker]? with
    | some (id :: _) =>
      if (w.queues key).taskId id = "" then
        some (w.setQueue key { w.queues key with hands := (w.queues key).hands.eraseIdx worker })
      else none
    | _ => none

/-- No stream has two workers, and after a pass each stream that held a message when the pass
began has one. -/
def Covered (w : StreamsQueue) (e : StreamsEvent) (w' : StreamsQueue) : Prop :=
  (∀ kbId, w'.workers (cfg.stream kbId) ≤ 1) ∧
    match e, w.phase with
    | .scanEnd, .scanning present _ _ => ∀ kbId, cfg.stream kbId ∈ present →
      (w'.queues (cfg.stream kbId)).stream.entries ≠ [] → w'.workers (cfg.stream kbId) = 1
    | _, _ => True

/-- Knowledge bases become known before `consume`, the streams that the coordinator finds are
those of the knowledge bases it takes them for, and each gets its worker. -/
def InOrder (w : StreamsQueue) (e : StreamsEvent) (_ : StreamsQueue) : Prop :=
  match e with
  | .enqueue kbId => w.phase = .idle ∨ kbId ∈ w.knownKbs
  | .visit key => key ∈ w.streams cfg ∨ cfg.stream (cfg.kbOf key) = key
  | .scanRaises => w.phase.due = []
  | .die .. => False
  | _ => True

/-! ## One step -/

/-- A stream has a worker, or gets one next, once its knowledge base is known and `consume` has
been called. -/
structure Balanced (w : StreamsQueue) : Prop where
  workers_add_due : ∀ key, w.workers key + w.phase.due.count key =
    if w.phase ≠ .idle ∧ key ∈ w.streams cfg then 1 else 0
  scanned : ∀ present left creating, w.phase = .scanning present left creating →
    ∀ kbId, cfg.stream kbId ∈ present → cfg.stream kbId ∈ left ∨ cfg.stream kbId ∈ w.streams cfg

/-- What an event does, with the phase that it needs. -/
inductive Moves (w : StreamsQueue) : StreamsEvent → StreamsQueue → Prop
  | enqueue (kbId : String) :
      Moves w (.enqueue kbId) { w with knownKbs := w.knownKbs.insert kbId }
  | xadd (key taskId : String) : Moves w (.xadd key taskId) (w.xadd key taskId)
  | consume (hphase : w.phase = .idle) :
      Moves w .consume { w with phase := .starting (w.streams cfg) }
  | startWorker {key : String} {rest : List String} (hphase : w.phase = .starting (key :: rest)) :
      Moves w .startWorker { w.spawn cfg key with phase := .starting rest }
  | scanBegin (hphase : w.phase = .starting []) :
      Moves w .scanBegin { w with
        phase := .scanning w.keys
          (w.keys.filter fun key => server.globMatch cfg.scanPattern key) none }
  | pass {present left : List String} {key : String}
      (hphase : w.phase = .scanning present left none) (hknown : key ∈ w.streams cfg) :
      Moves w (.visit key) { w with phase := .scanning present (left.filter (· ≠ key)) none }
  | discover {present left : List String} {key : String}
      (hphase : w.phase = .scanning present left none)
      (hmatch : server.globMatch cfg.scanPattern key = true) (hnew : key ∉ w.streams cfg) :
      Moves w (.visit key) { w with
        knownKbs := w.knownKbs.insert (cfg.kbOf key)
        phase := .scanning present (left.filter (· ≠ key)) (some key) }
  | createGroup {present left : List String} {key : String}
      (hphase : w.phase = .scanning present left (some key)) :
      Moves w .createGroup { w.spawn cfg key with phase := .scanning present left none }
  | scanRaises {present left : List String} {creating : Option String}
      (hphase : w.phase = .scanning present left creating) :
      Moves w .scanRaises { w with phase := .starting [] }
  | scanEnd {present : List String} (hphase : w.phase = .scanning present [] none) :
      Moves w .scanEnd { w with phase := .starting [] }
  | work {key : String} {e : QueueEvent} {q : QueueRun} (hworks : works cfg e = true)
      (hq : (w.queues key).step cfg.toQueueConfig e = some q) :
      Moves w (.work key e) (w.worked cfg key q)
  | claim (key : String) (id : ℕ) :
      Moves w (.claim key id)
        (w.setQueue key { w.queues key with stream := (w.queues key).stream.xclaim id })
  | die (key : String) (worker : ℕ) :
      Moves w (.die key worker)
        (w.setQueue key { w.queues key with hands := (w.queues key).hands.eraseIdx worker })

variable {server cfg} {w w' : StreamsQueue}

theorem moves_of_step {e : StreamsEvent} (h : step server cfg w e = some w') :
    Moves server cfg w e w' := by
  cases e with
  | enqueue kbId =>
    cases h
    exact .enqueue kbId
  | xadd key taskId =>
    cases h
    exact .xadd key taskId
  | consume =>
    simp only [step] at h
    split at h
    · cases h
      exact .consume ‹_›
    · cases h
  | startWorker =>
    simp only [step] at h
    split at h
    · cases h
      exact .startWorker ‹_›
    · cases h
  | scanBegin =>
    simp only [step] at h
    split at h
    · cases h
      exact .scanBegin ‹_›
    · cases h
  | visit key =>
    simp only [step] at h
    split at h
    · split_ifs at h with hkey hknown
      · cases h
        exact .pass ‹_› hknown
      · cases h
        exact .discover ‹_› hkey.2 hknown
    · cases h
  | createGroup =>
    simp only [step] at h
    split at h
    · cases h
      exact .createGroup ‹_›
    · cases h
  | scanRaises =>
    simp only [step] at h
    split at h
    · cases h
      exact .scanRaises ‹_›
    · cases h
  | scanEnd =>
    simp only [step] at h
    split at h
    · rename_i present left hphase
      split_ifs at h with hleft
      cases h
      exact .scanEnd (hleft ▸ hphase)
    · cases h
  | work key e =>
    simp only [step] at h
    split_ifs at h with hworks
    obtain ⟨q, hq, rfl⟩ := Option.map_eq_some_iff.mp h
    exact .work hworks hq
  | claim key id =>
    cases h
    exact .claim key id
  | die key worker =>
    simp only [step] at h
    split at h
    · split_ifs at h
      cases h
      exact .die key worker
    · cases h

theorem mem_streams {key : String} :
    key ∈ w.streams cfg ↔ ∃ kbId ∈ w.knownKbs, cfg.stream kbId = key := by
  simp [streams]

theorem streams_nodup (cfg : StreamsConfig) (w : StreamsQueue) : (w.streams cfg).Nodup :=
  (List.perm_insertionSort _ _).nodup_iff.mpr (List.nodup_dedup _)

theorem workers_setQueue (key key' : String) (q : QueueRun) :
    (w.setQueue key q).workers key' = if key' = key then q.hands.length else w.workers key' := by
  unfold workers setQueue
  dsimp only
  rw [Function.update_apply]
  split_ifs <;> rfl

theorem workers_setQueue_of_length {key : String} {q : QueueRun}
    (h : q.hands.length = (w.queues key).hands.length) (key' : String) :
    (w.setQueue key q).workers key' = w.workers key' := by
  rw [workers_setQueue]
  split_ifs with hkey
  · rw [h, hkey]
    rfl
  · rfl

theorem workers_xadd (key taskId key' : String) :
    (w.xadd key taskId).workers key' = w.workers key' :=
  workers_setQueue_of_length (q := { w.queues key with
    stream := (w.queues key).stream.xadd taskId }) rfl key'

/-- The dead letters leave the workers and the coordinator alone. -/
theorem worked_frame (cfg : StreamsConfig) {key : String} {q : QueueRun}
    (h : q.hands.length = (w.queues key).hands.length) :
    (w.worked cfg key q).phase = w.phase ∧ (w.worked cfg key q).knownKbs = w.knownKbs ∧
      ∀ key', (w.worked cfg key q).workers key' = w.workers key' := by
  unfold worked
  refine List.foldlRecOn _ (motive := fun v : StreamsQueue => v.phase = w.phase ∧
    v.knownKbs = w.knownKbs ∧ ∀ key', v.workers key' = w.workers key') _
    ⟨rfl, rfl, workers_setQueue_of_length h⟩ ?_
  rintro v ⟨hphase, hknown, hworkers⟩ taskId _
  exact ⟨hphase, hknown, fun key' => (workers_xadd cfg.dlqStream taskId key').trans (hworkers key')⟩

theorem workers_spawn (hconc : 0 ≤ cfg.workerConcurrency) (key key' : String) :
    (w.spawn cfg key).workers key' = w.workers key' + [key].count key' := by
  have hspawn : (w.spawn cfg key).workers key' = if key' = key then
      ((w.queues key).hands ++ [[]]).length else w.workers key' := by
    rw [spawn, if_pos hconc]
    exact workers_setQueue key key' _
  rw [hspawn]
  split_ifs with hkey
  · rw [hkey, List.count_singleton_self, List.length_append]
    rfl
  · rw [List.count_eq_zero.mpr (by simpa using hkey), Nat.add_zero]

theorem spawn_frame (key : String) :
    (w.spawn cfg key).phase = w.phase ∧ (w.spawn cfg key).knownKbs = w.knownKbs := by
  unfold spawn
  dsimp only
  split_ifs <;> exact ⟨rfl, rfl⟩

theorem streams_congr (h : w'.knownKbs = w.knownKbs) : w'.streams cfg = w.streams cfg := by
  rw [streams, h, streams]

theorem Balanced.congr (hw : Balanced cfg w) (hphase : w'.phase = w.phase)
    (hknown : w'.knownKbs = w.knownKbs) (hworkers : ∀ key, w'.workers key = w.workers key) :
    Balanced cfg w' := by
  constructor
  · intro key
    rw [hworkers, hphase, streams_congr hknown]
    exact hw.workers_add_due key
  · rw [hphase, streams_congr hknown]
    exact hw.scanned

/-- A change of the phase that leaves the same streams due. -/
theorem Balanced.withPhase (hw : Balanced cfg w) {phase : QueuePhase} (hidle : w.phase ≠ .idle)
    (hidle' : phase ≠ .idle) (hdue : phase.due = w.phase.due)
    (hscanned : ∀ present left creating, phase = .scanning present left creating →
      ∀ kbId, cfg.stream kbId ∈ present →
        cfg.stream kbId ∈ left ∨ cfg.stream kbId ∈ w.streams cfg) :
    Balanced cfg { w with phase } := by
  refine ⟨fun key => ?_, hscanned⟩
  have h := hw.workers_add_due key
  rw [← hdue] at h
  simp only [ne_eq, hidle, hidle', not_false_eq_true, true_and] at h ⊢
  exact h

/-- The next due stream gets its worker. -/
theorem Balanced.spawn (hw : Balanced cfg w) (hconc : 0 ≤ cfg.workerConcurrency) {key : String}
    {phase : QueuePhase} (hidle : w.phase ≠ .idle) (hidle' : phase ≠ .idle)
    (hdue : w.phase.due = key :: phase.due)
    (hscanned : ∀ present left creating, phase = .scanning present left creating →
      ∀ kbId, cfg.stream kbId ∈ present →
        cfg.stream kbId ∈ left ∨ cfg.stream kbId ∈ w.streams cfg) :
    Balanced cfg { w.spawn cfg key with phase } := by
  have hstreams : streams cfg { w.spawn cfg key with phase } = w.streams cfg :=
    streams_congr (spawn_frame key).2
  refine ⟨fun key' => ?_, fun present left creating h => ?_⟩
  · have h := hw.workers_add_due key'
    have hworkers : workers { w.spawn cfg key with phase } key' =
        w.workers key' + [key].count key' := workers_spawn hconc key key'
    rw [hdue, ← List.singleton_append, List.count_append, ← Nat.add_assoc, ← hworkers] at h
    rw [hstreams]
    simpa only [ne_eq, hidle, hidle', not_false_eq_true, true_and] using h
  · rw [hstreams]
    exact hscanned present left creating h

/-- The coordinator finds the stream of a knowledge base that was not known. -/
theorem Balanced.discover (hw : Balanced cfg w) {present left : List String} {key : String}
    (hphase : w.phase = .scanning present left none) (hnew : key ∉ w.streams cfg)
    (hown : cfg.stream (cfg.kbOf key) = key) :
    Balanced cfg { w with
      knownKbs := w.knownKbs.insert (cfg.kbOf key)
      phase := .scanning present (left.filter (· ≠ key)) (some key) } := by
  have hstreams (key' : String) : key' ∈ streams cfg { w with
      knownKbs := w.knownKbs.insert (cfg.kbOf key)
      phase := .scanning present (left.filter (· ≠ key)) (some key) } ↔
      key' = key ∨ key' ∈ w.streams cfg := by
    rw [mem_streams, mem_streams]
    simp [hown, eq_comm]
  refine ⟨fun key' => ?_, fun _ _ _ heq kbId hpresent => ?_⟩
  · have h := hw.workers_add_due key'
    have hworkers : workers { w with
        knownKbs := w.knownKbs.insert (cfg.kbOf key)
        phase := .scanning present (left.filter (· ≠ key)) (some key) } key' =
        w.workers key' := rfl
    rw [hphase] at h
    simp only [ne_eq, reduceCtorEq, not_false_eq_true, true_and, QueuePhase.due,
      Option.toList_none, List.count_nil, Nat.add_zero] at h
    simp only [hworkers, hstreams, h, ne_eq, reduceCtorEq, not_false_eq_true, true_and,
      QueuePhase.due, Option.toList_some]
    by_cases hsame : key' = key
    · rw [hsame, if_neg hnew, if_pos (Or.inl rfl), List.count_singleton_self]
    · rw [List.count_eq_zero.mpr (by simpa using hsame), Nat.add_zero]
      simp only [hsame, false_or]
  · cases heq
    rw [hstreams]
    by_cases hsame : cfg.stream kbId = key
    · exact Or.inr (Or.inl hsame)
    · exact (hw.scanned present left none hphase kbId hpresent).imp
        (fun hleft => List.mem_filter.mpr ⟨hleft, decide_eq_true hsame⟩) Or.inr

theorem balanced_step (hconc : 0 ≤ cfg.workerConcurrency)
    (hfinds : ∀ kbId, server.globMatch cfg.scanPattern (cfg.stream kbId))
    {e : StreamsEvent} (hw : Balanced cfg w) (h : step server cfg w e = some w')
    (hin : InOrder cfg w e w') : Balanced cfg w' := by
  cases moves_of_step h with
  | enqueue kbId =>
    rcases hin with hidle | hknown
    · refine ⟨fun key => ?_, fun present left creating hphase => ?_⟩
      · have h := hw.workers_add_due key
        rw [if_neg (by simp [hidle])] at h
        rw [if_neg (by simp [hidle])]
        exact h
      · rw [hidle] at hphase
        cases hphase
    · rw [List.insert_of_mem hknown]
      exact hw
  | xadd key taskId => exact hw.congr rfl rfl (workers_xadd key taskId)
  | consume hidle =>
    refine ⟨fun key => ?_, fun _ _ _ hphase => ?_⟩
    · have h := hw.workers_add_due key
      rw [if_neg (by simp [hidle]), hidle] at h
      have hnone : w.workers key = 0 := (Nat.add_eq_zero_iff.mp h).1
      have hworkers : workers { w with phase := .starting (w.streams cfg) } key = 0 := hnone
      rw [hworkers, Nat.zero_add, QueuePhase.due, (streams_nodup cfg w).count]
      simp only [ne_eq, reduceCtorEq, not_false_eq_true, true_and]
      rfl
    · cases hphase
  | startWorker hphase =>
    refine hw.spawn hconc (by simp [hphase]) (by simp) (by rw [hphase]; rfl) fun _ _ _ h => ?_
    cases h
  | scanBegin hphase =>
    refine hw.withPhase (by simp [hphase]) (by simp) (by rw [hphase]; rfl) ?_
    intro present left creating heq kbId hpresent
    cases heq
    exact Or.inl (List.mem_filter.mpr ⟨hpresent, hfinds kbId⟩)
  | @pass present left key hphase hknown =>
    refine hw.withPhase (by simp [hphase]) (by simp) (by rw [hphase]; rfl) ?_
    intro present' left' creating heq kbId hpresent
    cases heq
    by_cases hsame : cfg.stream kbId = key
    · exact Or.inr (hsame ▸ hknown)
    · exact (hw.scanned present left none hphase kbId hpresent).imp_left fun hleft =>
        List.mem_filter.mpr ⟨hleft, decide_eq_true hsame⟩
  | discover hphase _ hnew => exact hw.discover hphase hnew (hin.resolve_left hnew)
  | @createGroup present left key hphase =>
    refine hw.spawn hconc (by simp [hphase]) (by simp) (by rw [hphase]; rfl) ?_
    intro present' left' creating heq
    cases heq
    exact hw.scanned present left (some key) hphase
  | scanRaises hphase =>
    refine hw.withPhase (by simp [hphase]) (by simp) hin.symm fun _ _ _ h => ?_
    cases h
  | scanEnd hphase =>
    refine hw.withPhase (by simp [hphase]) (by simp) (by rw [hphase]; rfl) fun _ _ _ h => ?_
    cases h
  | @work key e q hworks hq =>
    have hlength : q.hands.length = (w.queues key).hands.length := by
      refine (QueueRun.frame_step (fun taskId he => ?_) (fun he => ?_) hq).2
      · rw [he] at hworks
        exact Bool.false_ne_true hworks
      · rw [he] at hworks
        exact Bool.false_ne_true hworks
    obtain ⟨hphase, hknown, hworkers⟩ := worked_frame cfg hlength
    exact hw.congr hphase hknown hworkers
  | claim key id => exact hw.congr rfl rfl (workers_setQueue_of_length rfl)
  | die key worker => exact absurd hin id

/-- What a balanced process has after a step. -/
theorem covered_step {e : StreamsEvent} (hw : Balanced cfg w) (hw' : Balanced cfg w')
    (h : step server cfg w e = some w') : Covered cfg w e w' := by
  refine ⟨fun kbId => ?_, ?_⟩
  · have h := hw'.workers_add_due (cfg.stream kbId)
    split_ifs at h <;> omega
  · split
    · rename_i present left creating hphase
      intro kbId hpresent _
      cases moves_of_step h with
      | @scanEnd present' hphase' =>
        obtain ⟨rfl, rfl, rfl⟩ : present = present' ∧ left = [] ∧ creating = none := by
          simpa using hphase.symm.trans hphase'
        have hstream : cfg.stream kbId ∈ w.streams cfg :=
          (hw.scanned present [] none hphase kbId hpresent).resolve_left List.not_mem_nil
        have h := hw.workers_add_due (cfg.stream kbId)
        rw [hphase, if_pos ⟨by simp, hstream⟩] at h
        exact h
    · trivial

theorem balanced_start (cfg : StreamsConfig) : Balanced cfg {} where
  workers_add_due _ := rfl
  scanned _ _ _ h := by cases h

/-- In every run in which the knowledge bases become known before `consume` and the coordinator
takes each new stream for its own knowledge base and starts its worker, the streams are covered. -/
theorem covered_of_inOrder (server : RedisServer) (cfg : StreamsConfig)
    (hconc : 0 ≤ cfg.workerConcurrency)
    (hfinds : ∀ kbId, server.globMatch cfg.scanPattern (cfg.stream kbId)) (es : List StreamsEvent)
    (h : EveryStep (step server cfg) (InOrder cfg) {} es) :
    EveryStep (step server cfg) (Covered cfg) {} es := by
  refine EveryStep.of_invariant (I := Balanced cfg) ?_ (balanced_start cfg) h
  intro w e w' hw hstep hin
  have hw' := balanced_step hconc hfinds hw hstep hin
  exact ⟨covered_step hw hw' hstep, hw'⟩

/-- A prefix without special characters finds its own streams. -/
theorem globMatch_stream (server : RedisServer) {cfg : StreamsConfig}
    (h : GlobFree (cfg.streamPrefix ++ ":")) (kbId : String) :
    server.globMatch cfg.scanPattern (cfg.stream kbId) := by
  have hpattern : cfg.scanPattern = cfg.streamPrefix ++ ":" ++ "*" := by
    rw [StreamsConfig.scanPattern, String.append_assoc]
    rfl
  rw [hpattern, server.globMatch_star _ _ h, StreamsConfig.stream,
    String.toList_append (s := cfg.streamPrefix ++ ":")]
  exact List.prefix_append _ _

instance : ∀ w e w', Decidable (InOrder cfg w e w')
  | w, .enqueue kbId, _ => inferInstanceAs (Decidable (w.phase = .idle ∨ kbId ∈ w.knownKbs))
  | w, .visit key, _ =>
    inferInstanceAs (Decidable (key ∈ w.streams cfg ∨ cfg.stream (cfg.kbOf key) = key))
  | w, .scanRaises, _ => inferInstanceAs (Decidable (w.phase.due = []))
  | _, .die .., _ => isFalse id
  | _, .xadd .., _ | _, .consume, _ | _, .startWorker, _ | _, .scanBegin, _
  | _, .createGroup, _ | _, .scanEnd, _ | _, .work .., _ | _, .claim .., _ => isTrue trivial

/-- One stream is known before `consume`, another one is found. -/
theorem covered_of_inOrder_twoStreams :
    EveryStep (step plainServer {}) (Covered {}) {}
      [.enqueue "kb", .xadd "ragx:ingest:kb" "task_1", .consume, .startWorker,
        .xadd "ragx:ingest:other" "task_2", .scanBegin, .visit "ragx:ingest:other", .createGroup,
        .visit "ragx:ingest:kb", .scanEnd] :=
  covered_of_inOrder plainServer {} (by decide) (globMatch_stream plainServer (by decide)) _
    (by decide +kernel)

/-- A knowledge base that becomes known after `consume`: the coordinator passes its stream by. -/
theorem late_stream_is_not_covered :
    ¬∀ (server : RedisServer) (cfg : StreamsConfig) (es : List StreamsEvent),
      EveryStep (step server cfg) (Covered cfg) {} es := by
  intro hall
  obtain ⟨_, _, _, _, _, ⟨_, hscanned⟩, _⟩ := hall plainServer {} [.consume, .enqueue "kb",
    .xadd "ragx:ingest:kb" "task_1", .scanBegin, .visit "ragx:ingest:kb", .scanEnd]
  have hone := hscanned "kb" (by decide +kernel) (by decide +kernel)
  exact absurd hone (by decide +kernel)

/-- A knowledge base with a colon in its name gets a worker in each pass. -/
example : (run (step plainServer {}) {} [.xadd "ragx:ingest:a:b" "task_1", .consume, .scanBegin,
    .visit "ragx:ingest:a:b", .createGroup, .scanEnd, .scanBegin, .visit "ragx:ingest:a:b",
    .createGroup]).map (·.workers "ragx:ingest:a:b") = some 2 := by
  decide +kernel

end StreamsQueue

end Ragx
