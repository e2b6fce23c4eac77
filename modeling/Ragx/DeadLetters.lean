import Ragx.StreamWorkers

/-!
# Dead letters

A message that has failed too often is moved to a stream of its own. The coordinator scans the
same keys for the streams of knowledge bases, and what a worker reads goes to the consumer.
-/
namespace Ragx

namespace StreamsConfig

/-- No message comes to a consumer. -/
def Stalled (cfg : StreamsConfig) : Prop := cfg.readCount = 0 ∨ cfg.workerConcurrency ≤ 0

/-- The stream of the dead letters is neither that of a knowledge base nor found by a scan. -/
def KeepsApart (server : RedisServer) (cfg : StreamsConfig) : Prop :=
  server.globMatch cfg.scanPattern cfg.dlqStream = false ∧ ∀ kbId, cfg.stream kbId ≠ cfg.dlqStream

end StreamsConfig

namespace StreamsQueue

variable {server : RedisServer} {cfg : StreamsConfig} {w w' : StreamsQueue} {e : StreamsEvent}

/-- No worker reads a dead letter, and no consumer is invoked for one. -/
def StaysDead (cfg : StreamsConfig) (w : StreamsQueue) (e : StreamsEvent) (_ : StreamsQueue) :
    Prop :=
  match e with
  | .work key (.read _) =>
    key = cfg.dlqStream → ∀ id ∈ (w.queues key).stream.unread cfg.readCount, id ∉ w.dead
  | .work key (.succeed worker) | .work key (.fail worker _ _) =>
    ∀ id ∈ ((w.queues key).hands[worker]?).bind List.head?,
      id ∉ (w.queues key).dlq ∧ (key = cfg.dlqStream → id ∉ w.dead)
  | _ => True

/-! ## What a step does to the streams -/

section Queues

variable {P : String → QueueRun → Prop}

theorem setQueue_keeps (hw : ∀ key, P key (w.queues key)) {key : String} {q : QueueRun}
    (hq : P key q) (key' : String) : P key' ((w.setQueue key q).queues key') := by
  unfold setQueue
  dsimp only
  rw [Function.update_apply]
  split_ifs with hkey
  · exact hkey ▸ hq
  · exact hw key'

/-- What new entries, new workers, lost workers, claims and the events of the workers keep of a
stream, every step keeps of all streams. -/
theorem queues_step
    (hxadd : ∀ key q taskId, P key q → P key { q with stream := q.stream.xadd taskId })
    (hclaim : ∀ key q id, P key q → P key { q with stream := q.stream.xclaim id })
    (hspawn : ∀ key ∈ w.phase.due, ∀ q, P key q → P key { q with hands := q.hands ++ [[]] })
    (hdie : ∀ key q worker, P key q → P key { q with hands := q.hands.eraseIdx worker })
    (hwork : ∀ key e q q', works cfg e → P key q → q.step cfg.toQueueConfig e = some q' → P key q')
    (hw : ∀ key, P key (w.queues key)) (h : step server cfg w e = some w') :
    ∀ key, P key (w'.queues key) := by
  have hspawned (key : String) (hkey : key ∈ w.phase.due) (key' : String) :
      P key' ((w.spawn cfg key).queues key') := by
    unfold spawn
    dsimp only
    split_ifs
    · exact setQueue_keeps hw (hspawn key hkey _ (hw key)) key'
    · exact hw key'
  cases moves_of_step h with
  | enqueue | consume | scanBegin | pass | discover | scanRaises | scanEnd => exact hw
  | xadd key taskId => exact setQueue_keeps hw (hxadd key _ taskId (hw key))
  | @startWorker key _ hphase => exact hspawned key (by rw [hphase]; exact List.mem_cons_self)
  | @createGroup _ _ key hphase =>
    exact hspawned key (by rw [hphase]; exact List.mem_singleton_self key)
  | @work key e q hworks hq =>
    unfold worked
    refine List.foldlRecOn _ (motive := fun v : StreamsQueue => ∀ key', P key' (v.queues key')) _
      (setQueue_keeps hw (hwork key e _ q hworks (hw key) hq)) fun v hv taskId _ => ?_
    exact setQueue_keeps hv (hxadd cfg.dlqStream _ taskId (hv cfg.dlqStream))
  | claim key id => exact setQueue_keeps hw (hclaim key _ id (hw key))
  | die key worker => exact setQueue_keeps hw (hdie key _ worker (hw key))

end Queues

@[simp] theorem queues_setQueue_self (key : String) (q : QueueRun) :
    (w.setQueue key q).queues key = q := by
  simp [setQueue]

theorem dlq_worked (key : String) (q : QueueRun) :
    ((w.worked cfg key q).queues key).dlq = q.dlq := by
  unfold worked
  refine List.foldlRecOn _ (motive := fun v : StreamsQueue => (v.queues key).dlq = q.dlq) _
    (congrArg QueueRun.dlq (queues_setQueue_self key q)) fun v hv taskId _ => ?_
  exact setQueue_keeps (P := fun key' q' => key' = key → q'.dlq = q.dlq)
    (fun key' hkey => hkey ▸ hv) (fun hkey => hkey ▸ hv) key rfl

/-- Where no stream has dead letters afterwards, none is written. -/
theorem dead_step (hw' : ∀ key, (w'.queues key).dlq = []) (h : step server cfg w e = some w') :
    w'.dead = w.dead := by
  cases moves_of_step h with
  | enqueue | xadd | consume | scanBegin | pass | discover | scanRaises | scanEnd | claim | die =>
    rfl
  | startWorker | createGroup =>
    unfold spawn
    dsimp only
    split_ifs <;> rfl
  | @work key _ q =>
    have hnone : q.dlq = [] := (dlq_worked key q).symm.trans (hw' key)
    rw [worked, hnone, List.drop_nil]
    rfl

/-! ## Runs -/

/-- Between the steps of every run: what the workers hold is not dead. -/
def Apart (w : StreamsQueue) : Prop := ∀ key, (w.queues key).Separate (w.queues key).dlq

theorem apart_step (hw : w.Apart) (h : step server cfg w e = some w') : w'.Apart := by
  refine queues_step (P := fun _ q => q.Separate q.dlq) (fun _ q taskId hq => hq.xadd taskId)
    (fun _ q id hq => ⟨hq.held_lt, hq.held_nodup, hq.settled_lt, hq.held_not_settled⟩)
    (fun _ _ q hq => hq.join) (fun _ q worker hq => hq.leave worker) ?_ hw h
  intro _ e q q' _ hq hstep
  exact QueueRun.separate_step [] [] hq hstep fun _ hid =>
    absurd hid List.not_mem_nil

theorem notMem_dlq_of_head (hw : w.Apart) {key : String} {worker id : ℕ}
    (hid : id ∈ ((w.queues key).hands[worker]?).bind List.head?) : id ∉ (w.queues key).dlq := by
  obtain ⟨hand, hhand, hhead⟩ := Option.bind_eq_some_iff.mp hid
  exact (hw key).held_not_settled id
    (List.mem_flatten_of_mem (List.mem_of_getElem? hhand) (List.mem_of_mem_head? hhead))

/-- Where no message comes to a consumer, none becomes a dead letter. -/
structure Quiet (cfg : StreamsConfig) (w : StreamsQueue) : Prop where
  apart : w.Apart
  dead_eq : w.dead = []
  streams : ∀ key, (w.queues key).dlq = [] ∧
    (cfg.readCount = 0 → ∀ hand ∈ (w.queues key).hands, hand = [])

theorem quiet_work (hstalled : cfg.Stalled) {e : QueueEvent} {q q' : QueueRun}
    (hworks : works cfg e)
    (hq : q.dlq = [] ∧ (cfg.readCount = 0 → ∀ hand ∈ q.hands, hand = []))
    (h : q.step cfg.toQueueConfig e = some q') :
    q'.dlq = [] ∧ (cfg.readCount = 0 → ∀ hand ∈ q'.hands, hand = []) := by
  have hset {worker id : ℕ} {rest : List ℕ} (hhand : q.hands[worker]? = some (id :: rest)) :
      cfg.readCount = 0 → ∀ hand ∈ q.hands.set worker rest, hand = [] := by
    intro hcount
    exact absurd (hq.2 hcount _ (List.mem_of_getElem? hhand)) (List.cons_ne_nil id rest)
  cases QueueRun.moves_of_step h with
  | enqueue | join | crash => cases hworks
  | read =>
    refine ⟨hq.1, fun hcount hand hmem => ?_⟩
    rcases List.mem_or_eq_of_mem_set hmem with hold | rfl
    · exact hq.2 hcount hand hold
    · rw [RedisStream.unread, hcount, Nat.zero_min, List.range'_zero]
  | succeed hhand | drop hhand => exact ⟨hq.1, hset hhand⟩
  | @fail _ id rest _ _ hhand =>
    rcases hstalled with hcount | hconc
    · exact absurd (hq.2 hcount _ (List.mem_of_getElem? hhand)) (List.cons_ne_nil id rest)
    · exact absurd (of_decide_eq_true hworks) hconc.not_gt

theorem quiet_step (hstalled : cfg.Stalled) (hw : Quiet cfg w)
    (h : step server cfg w e = some w') : Quiet cfg w' := by
  have hstreams : ∀ key, (w'.queues key).dlq = [] ∧
      (cfg.readCount = 0 → ∀ hand ∈ (w'.queues key).hands, hand = []) := by
    refine queues_step (P := fun _ q => q.dlq = [] ∧
      (cfg.readCount = 0 → ∀ hand ∈ q.hands, hand = [])) (fun _ _ _ hq => hq) (fun _ _ _ hq => hq)
      ?_ ?_ (fun _ e q q' hworks hq hstep => quiet_work hstalled hworks hq hstep) hw.streams h
    · refine fun _ _ q hq => ⟨hq.1, fun hcount hand hmem => ?_⟩
      rcases List.mem_append.mp hmem with hold | hnew
      · exact hq.2 hcount hand hold
      · exact List.mem_singleton.mp hnew
    · exact fun _ q worker hq =>
        ⟨hq.1, fun hcount hand hmem => hq.2 hcount hand (List.mem_of_mem_eraseIdx hmem)⟩
  exact ⟨apart_step hw.apart h, (dead_step (fun key => (hstreams key).1) h).trans hw.dead_eq,
    hstreams⟩

theorem staysDead_of_quiet (hw : Quiet cfg w) : StaysDead cfg w e w' := by
  unfold StaysDead
  split
  · exact fun _ id _ => hw.dead_eq ▸ List.not_mem_nil
  · exact fun id hid => ⟨notMem_dlq_of_head hw.apart hid, fun _ => hw.dead_eq ▸ List.not_mem_nil⟩
  · exact fun id hid => ⟨notMem_dlq_of_head hw.apart hid, fun _ => hw.dead_eq ▸ List.not_mem_nil⟩
  · trivial

/-- No worker reads the stream of the dead letters, and none is about to be started there. -/
structure Unread (cfg : StreamsConfig) (w : StreamsQueue) : Prop where
  apart : w.Apart
  not_due : cfg.dlqStream ∉ w.phase.due
  no_worker : (w.queues cfg.dlqStream).hands = []

theorem due_step (hapart : cfg.KeepsApart server) (hw : cfg.dlqStream ∉ w.phase.due)
    (h : step server cfg w e = some w') : cfg.dlqStream ∉ w'.phase.due := by
  have hstreams : cfg.dlqStream ∉ w.streams cfg := by
    rw [mem_streams]
    rintro ⟨kbId, _, hkey⟩
    exact hapart.2 kbId hkey
  cases moves_of_step h with
  | enqueue | xadd | claim | die => exact hw
  | consume => exact hstreams
  | @startWorker key _ hphase =>
    rw [hphase] at hw
    exact fun hmem => hw (List.mem_cons_of_mem key hmem)
  | scanBegin | pass | createGroup | scanRaises | scanEnd => exact List.not_mem_nil
  | discover _ hmatch =>
    intro hmem
    rw [← List.mem_singleton.mp hmem, hapart.1] at hmatch
    exact Bool.false_ne_true hmatch
  | work =>
    unfold worked
    exact List.foldlRecOn _ (motive := fun v : StreamsQueue => cfg.dlqStream ∉ v.phase.due) _ hw
      fun v hv _ _ => hv

/-- Without a worker nothing is done. -/
theorem work_of_no_worker {e : QueueEvent} {q : QueueRun} (hworks : works cfg e)
    (hq : q.hands = []) : q.step cfg.toQueueConfig e = none := by
  cases e with
  | enqueue | join | crash => cases hworks
  | read | succeed | fail | drop => simp [QueueRun.step, hq]

theorem unread_step (hapart : cfg.KeepsApart server) (hw : Unread cfg w)
    (h : step server cfg w e = some w') : Unread cfg w' := by
  refine ⟨apart_step hw.apart h, due_step hapart hw.not_due h, ?_⟩
  refine queues_step (P := fun key q => key = cfg.dlqStream → q.hands = []) (fun _ _ _ hq => hq)
    (fun _ _ _ hq => hq) ?_ ?_ ?_ (fun key hkey => hkey ▸ hw.no_worker) h cfg.dlqStream rfl
  · exact fun key hdue _ _ hkey => absurd (hkey ▸ hdue) hw.not_due
  · intro key q worker hq hkey
    rw [hq hkey, List.eraseIdx_nil]
  · intro key e q q' hworks hq hstep hkey
    rw [work_of_no_worker hworks (hq hkey)] at hstep
    cases hstep

theorem staysDead_of_unread (hw : Unread cfg w) (h : step server cfg w e = some w') :
    StaysDead cfg w e w' := by
  have hnone {key : String} {worker id : ℕ}
      (hid : id ∈ ((w.queues key).hands[worker]?).bind List.head?) : key ≠ cfg.dlqStream := by
    rintro rfl
    rw [hw.no_worker] at hid
    cases hid
  unfold StaysDead
  split
  · rintro rfl
    cases moves_of_step h with
    | work hworks hq =>
      rw [work_of_no_worker hworks hw.no_worker] at hq
      cases hq
  · exact fun id hid => ⟨notMem_dlq_of_head hw.apart hid, fun hkey => absurd hkey (hnone hid)⟩
  · exact fun id hid => ⟨notMem_dlq_of_head hw.apart hid, fun hkey => absurd hkey (hnone hid)⟩
  · trivial

theorem apart_start : Apart {} := fun _ =>
  ⟨fun _ h => absurd h List.not_mem_nil, List.nodup_nil, fun _ h => absurd h List.not_mem_nil,
    fun _ h => absurd h List.not_mem_nil⟩

/-- A configuration that keeps the dead letters apart, or that handles no message at all. -/
theorem staysDead_of_config (h : cfg.Stalled ∨ cfg.KeepsApart server) (es : List StreamsEvent) :
    EveryStep (step server cfg) (StaysDead cfg) {} es := by
  have hall : EveryStep (step server cfg) (fun _ _ _ => True) {} es :=
    everyStep_of_forall (fun _ _ _ _ => trivial) _
  rcases h with hstalled | hapart
  · refine EveryStep.of_invariant (I := Quiet cfg) (fun w e w' hw hs _ => ?_) ?_ hall
    · exact ⟨staysDead_of_quiet hw, quiet_step hstalled hw hs⟩
    · exact ⟨apart_start, rfl, fun _ => ⟨rfl, fun _ _ h => absurd h List.not_mem_nil⟩⟩
  · refine EveryStep.of_invariant (I := Unread cfg) (fun w e w' hw hs _ => ?_) ?_ hall
    · exact ⟨staysDead_of_unread hw hs, unread_step hapart hw hs⟩
    · exact ⟨apart_start, List.not_mem_nil, rfl⟩

/-! ## A dead letter that is read -/

theorem setQueue_setQueue (key : String) (q q' : QueueRun) :
    (w.setQueue key q).setQueue key q' = w.setQueue key q' := by
  simp [setQueue]

theorem step_work {key : String} {e : QueueEvent} {q : QueueRun} (hworks : works cfg e)
    (hq : (w.queues key).step cfg.toQueueConfig e = some q) :
    step server cfg w (.work key e) = some (w.worked cfg key q) := by
  rw [step, if_pos hworks, hq]
  rfl

theorem worked_eq_setQueue {key : String} {q : QueueRun} (h : q.dlq = (w.queues key).dlq) :
    w.worked cfg key q = w.setQueue key q := by
  rw [worked, h, List.drop_length]
  rfl

/-- The stream of the only task before the first read, with its worker. -/
def waitingRun : QueueRun where
  stream := RedisStream.empty.xadd "task_1"
  hands := [[]]

/-- The message is in hand, and has been delivered so often. -/
def heldRun (deliveries : ℕ) : QueueRun where
  stream := ⟨["task_1"], 1, [(0, deliveries)], le_rfl, by simp⟩
  hands := [[0]]
  deliveries := [0]

/-- The message is dead. -/
def buriedRun : QueueRun where
  stream := ⟨["task_1"], 1, [], le_rfl, by simp⟩
  hands := [[]]
  dlq := [0]
  deliveries := [0]

/-- A process that has started its only worker. -/
def started (cfg : StreamsConfig) (kbId : String) : StreamsQueue where
  keys := [cfg.stream kbId]
  knownKbs := [kbId]
  phase := .starting []

theorem step_waitingRun (hcount : 0 < cfg.readCount) :
    waitingRun.step cfg.toQueueConfig (.read 0) = some (heldRun 1) := by
  have hone : 1 ≤ cfg.readCount := hcount
  simp [QueueRun.step, waitingRun, heldRun, RedisStream.xreadgroup, RedisStream.unread,
    RedisStream.xadd, RedisStream.empty, hone]

theorem run_started (hconc : 0 < cfg.workerConcurrency) (kbId : String) :
    run (step server cfg) {} [.enqueue kbId, .xadd (cfg.stream kbId) "task_1", .consume,
      .startWorker] = some ((started cfg kbId).setQueue (cfg.stream kbId) waitingRun) := by
  simp [run, step, xadd, spawn, setQueue, started, waitingRun, streams, hconc.le]

/-- Two claims by another client, and the next failure is the last one. -/
theorem run_buried (hconc : 0 < cfg.workerConcurrency) (hcount : 0 < cfg.readCount)
    (kbId : String) :
    run (step server cfg) ((started cfg kbId).setQueue (cfg.stream kbId) waitingRun)
      [.work (cfg.stream kbId) (.read 0), .claim (cfg.stream kbId) 0, .claim (cfg.stream kbId) 0,
        .work (cfg.stream kbId) (.fail 0 false false)] =
      some (((started cfg kbId).setQueue (cfg.stream kbId) buriedRun).deadLetter cfg "task_1") := by
  have hread : step server cfg ((started cfg kbId).setQueue (cfg.stream kbId) waitingRun)
      (.work (cfg.stream kbId) (.read 0)) =
      some ((started cfg kbId).setQueue (cfg.stream kbId) (heldRun 1)) := by
    rw [step_work rfl (q := heldRun 1), worked_eq_setQueue, setQueue_setQueue]
    · rw [queues_setQueue_self]
      rfl
    · rw [queues_setQueue_self]
      exact step_waitingRun hcount
  have hclaim (n : ℕ) : step server cfg ((started cfg kbId).setQueue (cfg.stream kbId) (heldRun n))
      (.claim (cfg.stream kbId) 0) =
      some ((started cfg kbId).setQueue (cfg.stream kbId) (heldRun (n + 1))) := by
    rw [step, queues_setQueue_self, setQueue_setQueue]
    rfl
  have hfail : step server cfg ((started cfg kbId).setQueue (cfg.stream kbId) (heldRun 3))
      (.work (cfg.stream kbId) (.fail 0 false false)) =
      some (((started cfg kbId).setQueue (cfg.stream kbId) buriedRun).deadLetter cfg "task_1") := by
    have hworks : works cfg (.fail 0 false false) := decide_eq_true hconc
    rw [step_work hworks (q := buriedRun), worked, queues_setQueue_self, setQueue_setQueue]
    · rfl
    · rw [queues_setQueue_self]
      rfl
  rw [run_cons hread, run_cons (hclaim 1), run_cons (hclaim 2), run_cons hfail]
  rfl

/-- A worker on the stream of the dead letters reads what comes next there. -/
theorem not_staysDead_of_next (hcount : 0 < cfg.readCount)
    (hhand : (w.queues cfg.dlqStream).hands[0]? = some [])
    (hnext : (w.queues cfg.dlqStream).stream.lastDelivered <
      (w.queues cfg.dlqStream).stream.entries.length)
    (hdead : (w.queues cfg.dlqStream).stream.lastDelivered ∈ w.dead) :
    ¬ EveryStep (step server cfg) (StaysDead cfg) w [.work cfg.dlqStream (.read 0)] := by
  intro h
  obtain ⟨q, hstep⟩ : ∃ q, (w.queues cfg.dlqStream).step cfg.toQueueConfig (.read 0) = some q := by
    simp [QueueRun.step, hhand]
  rw [everyStep_cons (step_work rfl hstep)] at h
  refine h.1 rfl _ (RedisStream.mem_unread.mpr ⟨le_rfl, ?_⟩) hdead
  exact Nat.lt_add_of_pos_right (lt_min hcount (Nat.sub_pos_of_lt hnext))

theorem queues_deadLetter (cfg : StreamsConfig) (w : StreamsQueue) (taskId : String) :
    (w.deadLetter cfg taskId).queues cfg.dlqStream = { w.queues cfg.dlqStream with
      stream := (w.queues cfg.dlqStream).stream.xadd taskId } :=
  queues_setQueue_self cfg.dlqStream _

/-- A pass of the coordinator that finds the stream of the dead letters. -/
theorem run_found (hconc : 0 < cfg.workerConcurrency)
    (hmatch : server.globMatch cfg.scanPattern cfg.dlqStream = true)
    (hphase : w.phase = .starting []) (hkey : cfg.dlqStream ∈ w.keys)
    (hunknown : cfg.dlqStream ∉ w.streams cfg) :
    ∃ w', run (step server cfg) w [.scanBegin, .visit cfg.dlqStream, .createGroup] = some w' ∧
      w'.dead = w.dead ∧ w'.queues cfg.dlqStream = { w.queues cfg.dlqStream with
        hands := (w.queues cfg.dlqStream).hands ++ [[]] } := by
  obtain ⟨present, left, hbegin⟩ : ∃ present left, step server cfg w .scanBegin =
      some { w with phase := .scanning present left none } := by
    simp only [step, hphase]
    exact ⟨_, _, rfl⟩
  have hvisit : step server cfg { w with phase := .scanning present left none }
      (.visit cfg.dlqStream) = some { w with
        knownKbs := w.knownKbs.insert (cfg.kbOf cfg.dlqStream)
        phase := .scanning present (left.filter (· ≠ cfg.dlqStream)) (some cfg.dlqStream) } := by
    simp only [step]
    rw [if_pos ⟨hkey, hmatch⟩]
    exact if_neg hunknown
  rw [run_cons hbegin, run_cons hvisit]
  refine ⟨_, rfl, ?_, ?_⟩
  · rw [spawn, if_pos hconc.le]
    rfl
  · rw [spawn, if_pos hconc.le]
    exact queues_setQueue_self cfg.dlqStream _

/-- Dead letters are read again in some run of every other configuration. -/
theorem config_of_staysDead (h : ∀ es, EveryStep (step server cfg) (StaysDead cfg) {} es) :
    cfg.Stalled ∨ cfg.KeepsApart server := by
  by_contra hnot
  rw [not_or, StreamsConfig.Stalled, not_or, not_le] at hnot
  obtain ⟨⟨hzero, hconc⟩, hapart⟩ := hnot
  have hcount : 0 < cfg.readCount := Nat.pos_of_ne_zero hzero
  have hburied (kbId : String) (es : List StreamsEvent) :
      EveryStep (step server cfg) (StaysDead cfg)
        (((started cfg kbId).setQueue (cfg.stream kbId) buriedRun).deadLetter cfg "task_1") es :=
    ((h _).of_append (run_started hconc kbId)).of_append (run_buried hconc hcount kbId)
  by_cases hown : ∃ kbId, cfg.stream kbId = cfg.dlqStream
  · -- the worker of that stream reads on
    obtain ⟨kbId, hkey⟩ := hown
    have hqueue := queues_deadLetter cfg
      ((started cfg kbId).setQueue (cfg.stream kbId) buriedRun) "task_1"
    rw [hkey, queues_setQueue_self] at hqueue
    have hrun := hburied kbId [.work cfg.dlqStream (.read 0)]
    rw [hkey] at hrun
    refine not_staysDead_of_next hcount ?_ ?_ ?_ hrun
    · rw [hqueue]
      rfl
    · rw [hqueue]
      exact Nat.lt_succ_self 1
    · rw [hqueue, deadLetter, queues_setQueue_self]
      exact List.mem_singleton_self 1
  · have hother (kbId : String) : cfg.stream kbId ≠ cfg.dlqStream := fun hkey => hown ⟨kbId, hkey⟩
    have hmatch : server.globMatch cfg.scanPattern cfg.dlqStream = true := by
      by_contra hmiss
      exact hapart ⟨Bool.eq_false_of_not_eq_true hmiss, hother⟩
    have hfresh : ((started cfg "default").setQueue (cfg.stream "default") buriedRun).queues
        cfg.dlqStream = {} := by
      rw [setQueue]
      exact Function.update_of_ne (hother "default").symm _ _
    have hqueue := queues_deadLetter cfg
      ((started cfg "default").setQueue (cfg.stream "default") buriedRun) "task_1"
    rw [hfresh] at hqueue
    obtain ⟨w, hfound, hdead, hw⟩ := run_found (w := ((started cfg "default").setQueue
      (cfg.stream "default") buriedRun).deadLetter cfg "task_1") hconc hmatch rfl
      List.mem_insert_self fun hmem => by
        obtain ⟨kbId, _, hkey⟩ := mem_streams.mp hmem
        exact hother kbId hkey
    rw [hqueue] at hw
    refine not_staysDead_of_next hcount ?_ ?_ ?_ ((hburied "default" _).of_append hfound)
    · rw [hw]
      rfl
    · rw [hw]
      exact Nat.lt_succ_self 0
    · rw [hw, hdead, deadLetter, hfresh]
      exact List.mem_singleton_self 0

/-- A dead letter stays dead in every run exactly if no message comes to a consumer, or the
stream of the dead letters is out of reach of the coordinator and of every knowledge base. -/
theorem staysDead_iff (server : RedisServer) (cfg : StreamsConfig) :
    (∀ es, EveryStep (step server cfg) (StaysDead cfg) {} es) ↔
      cfg.Stalled ∨ cfg.KeepsApart server :=
  ⟨config_of_staysDead, staysDead_of_config⟩

/-- With the defaults the coordinator finds the dead letters. -/
theorem default_dead_letters_are_read :
    ¬∀ (server : RedisServer) (cfg : StreamsConfig) (es : List StreamsEvent),
      EveryStep (step server cfg) (StaysDead cfg) {} es := by
  intro hall
  obtain ⟨_, _, _, _, _, _, _, _, _, _, _, hread, _⟩ := hall plainServer {}
    [.enqueue "default", .xadd "ragx:ingest:default" "task_1", .consume, .startWorker,
      .work "ragx:ingest:default" (.read 0), .claim "ragx:ingest:default" 0,
      .claim "ragx:ingest:default" 0, .work "ragx:ingest:default" (.fail 0 false false),
      .scanBegin, .visit "ragx:ingest:dlq", .createGroup, .work "ragx:ingest:dlq" (.read 0)]
  exact hread rfl 0 (by decide +kernel) (by decide +kernel)

end StreamsQueue

end Ragx
