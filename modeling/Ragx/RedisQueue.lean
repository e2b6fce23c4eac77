import Ragx.RedisStream

/-!
# The Redis Streams task queue

One stream of a knowledge base, its group of workers and the dead-letter stream. A
worker reads a batch of new entries and handles them one after the other; a message
whose consumer run fails is moved to the dead letters if it was delivered
three times, and is otherwise left pending.
-/
namespace Ragx

structure QueueConfig where
  readCount : ℕ := 1

inductive QueueEvent where
  | enqueue (taskId : String)
  /-- A worker process joins. -/
  | join
  | read (worker : ℕ)
  /-- The consumer returns and the message is acknowledged. -/
  | succeed (worker : ℕ)
  /-- The consumer or its XACK raises; XPENDING and the XADD to the dead letters may raise too. -/
  | fail (worker : ℕ) (pendingRaises dlqRaises : Bool)
  /-- The message has no task id: acknowledged without a consumer run. -/
  | drop (worker : ℕ)
  /-- The process dies; its slot then stands for a fresh one. -/
  | crash (worker : ℕ)

/-- `hands` are the delivered entries that each worker has still to finish, the first
being handled. `succeeded` and `deliveries` record what happened so far. -/
structure QueueRun where
  stream : RedisStream String := .empty
  hands : List (List ℕ) := []
  dlq : List ℕ := []
  succeeded : List ℕ := []
  deliveries : List ℕ := []

namespace QueueRun

def taskId (w : QueueRun) (id : ℕ) : String := (w.stream.entries[id]?).getD ""

/-- The failure path: dead letters from three deliveries on, else nothing. -/
def retryOrDlq (w : QueueRun) (id : ℕ) (pendingRaises dlqRaises : Bool) : QueueRun :=
  let deliveryCount := if pendingRaises then 1 else (w.stream.timesDelivered id).getD 1
  if 3 ≤ deliveryCount ∧ dlqRaises = false then
    { w with dlq := w.dlq ++ [id], stream := w.stream.xack id }
  else w

def step (cfg : QueueConfig) (w : QueueRun) : QueueEvent → Option QueueRun
  | .enqueue taskId => some { w with stream := w.stream.xadd taskId }
  | .join => some { w with hands := w.hands ++ [[]] }
  | .read worker =>
    match w.hands[worker]? with
    | some [] =>
      some { w with
        stream := w.stream.xreadgroup cfg.readCount
        hands := w.hands.set worker (w.stream.unread cfg.readCount)
        deliveries := w.deliveries ++ w.stream.unread cfg.readCount }
    | _ => none
  | .succeed worker =>
    match w.hands[worker]? with
    | some (id :: rest) =>
      if w.taskId id = "" then none
      else some { w with
        stream := w.stream.xack id
        hands := w.hands.set worker rest
        succeeded := w.succeeded ++ [id] }
    | _ => none
  | .fail worker pendingRaises dlqRaises =>
    match w.hands[worker]? with
    | some (id :: rest) =>
      if w.taskId id = "" then none
      else some { w.retryOrDlq id pendingRaises dlqRaises with
        hands := w.hands.set worker rest }
    | _ => none
  | .drop worker =>
    match w.hands[worker]? with
    | some (id :: rest) =>
      if w.taskId id = "" then
        some { w with stream := w.stream.xack id, hands := w.hands.set worker rest }
      else none
    | _ => none
  | .crash worker =>
    match w.hands[worker]? with
    | some _ => some { w with hands := w.hands.set worker [] }
    | none => none

/-! ## One step -/

/-- What an event does: only a worker with empty hands reads, and only the first message in a
worker's hands is handled. -/
inductive Moves (cfg : QueueConfig) (w : QueueRun) : QueueEvent → QueueRun → Prop
  | enqueue (taskId : String) :
      Moves cfg w (.enqueue taskId) { w with stream := w.stream.xadd taskId }
  | join : Moves cfg w .join { w with hands := w.hands ++ [[]] }
  | read {worker : ℕ} (hhand : w.hands[worker]? = some []) :
      Moves cfg w (.read worker) { w with
        stream := w.stream.xreadgroup cfg.readCount
        hands := w.hands.set worker (w.stream.unread cfg.readCount)
        deliveries := w.deliveries ++ w.stream.unread cfg.readCount }
  | succeed {worker id : ℕ} {rest : List ℕ} (hhand : w.hands[worker]? = some (id :: rest))
      (htask : w.taskId id ≠ "") :
      Moves cfg w (.succeed worker) { w with
        stream := w.stream.xack id
        hands := w.hands.set worker rest
        succeeded := w.succeeded ++ [id] }
  | fail {worker id : ℕ} {rest : List ℕ} (pendingRaises dlqRaises : Bool)
      (hhand : w.hands[worker]? = some (id :: rest)) (htask : w.taskId id ≠ "") :
      Moves cfg w (.fail worker pendingRaises dlqRaises)
        { w.retryOrDlq id pendingRaises dlqRaises with hands := w.hands.set worker rest }
  | drop {worker id : ℕ} {rest : List ℕ} (hhand : w.hands[worker]? = some (id :: rest))
      (htask : w.taskId id = "") :
      Moves cfg w (.drop worker)
        { w with stream := w.stream.xack id, hands := w.hands.set worker rest }
  | crash {worker : ℕ} {hand : List ℕ} (hhand : w.hands[worker]? = some hand) :
      Moves cfg w (.crash worker) { w with hands := w.hands.set worker [] }

theorem moves_of_step {cfg : QueueConfig} {w w' : QueueRun} {e : QueueEvent}
    (hs : w.step cfg e = some w') : Moves cfg w e w' := by
  cases e with
  | enqueue taskId =>
    cases hs
    exact .enqueue taskId
  | join =>
    cases hs
    exact .join
  | read worker =>
    simp only [step] at hs
    split at hs
    · cases hs
      exact .read ‹_›
    · cases hs
  | succeed worker =>
    simp only [step] at hs
    split at hs
    · split_ifs at hs with htask
      cases hs
      exact .succeed ‹_› htask
    · cases hs
  | fail worker pendingRaises dlqRaises =>
    simp only [step] at hs
    split at hs
    · split_ifs at hs with htask
      cases hs
      exact .fail pendingRaises dlqRaises ‹_› htask
    · cases hs
  | drop worker =>
    simp only [step] at hs
    split at hs
    · split_ifs at hs with htask
      cases hs
      exact .drop ‹_› htask
    · cases hs
  | crash worker =>
    simp only [step] at hs
    split at hs
    · cases hs
      exact .crash ‹_›
    · cases hs

end QueueRun

end Ragx
