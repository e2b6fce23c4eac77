import Ragx.AgenticTasks

/-!
# Sub-tasks with what they are told

A task of the plan as the executor runs it: it waits for one call at a time and goes on with
whatever comes back, a value or an exception. The replies are not assumed to agree with one
another; the same call may be answered differently each time.
-/
namespace Ragx.Executor

/-! ## Tasks and calls -/

inductive PlanTaskStatus where
  | pending
  | running
  | done
  | failed
deriving DecidableEq, Repr

/-- A task of the plan, with what the executor writes to it. -/
structure PlanTask extends Task where
  taskId : String
  subAnswer : Option String := none
  citations : List Citation := []
  status : PlanTaskStatus := .pending
  noData : Bool := false

/-- As the planner makes it. -/
def PlanTask.Fresh (task : PlanTask) : Prop :=
  task = { seedQuery := task.seedQuery, taskId := task.taskId }

structure SubAnswer where
  answer : String
  citations : List Citation

/-- What a call can raise; `except Exception` does not catch a cancellation. -/
inductive Raised where
  | exception (e : Exc)
  | cancelled

structure AgenticState where
  plan : List PlanTask
  subAnswers : Option (List String) := none
  kbId : Option String := none
  filterExpr : Option FilterExpr := none
  budgetUsed : Option ℕ := none

/-- `state.get("kb_id", "default")`. -/
def AgenticState.kb (state : AgenticState) : String := state.kbId.getD "default"

inductive Call where
  | embed (texts : List String)
  | retrieve (query : String) (qvec : List ℚ) (filterExpr : Option FilterExpr)
  | assemble (hits : List RetrievalHit)
  | chat (req : ChatRequest)
  | structured (req : ChatRequest)

inductive Reply where
  | embedded (reply : Except Raised (List (List ℚ)))
  | retrieved (reply : Except Raised (List RetrievalHit))
  | assembled (reply : Except Raised (String × List Citation))
  | answered (reply : Except Raised ChatResponse)
  | rewritten (reply : Except Raised String)

/-- The reply is one to this call. -/
def Reply.Answers : Reply → Call → Prop
  | .embedded _, .embed _ => True
  | .retrieved _, .retrieve _ _ _ => True
  | .assembled _, .assemble _ => True
  | .answered _, .chat _ => True
  | .rewritten _, .structured _ => True
  | _, _ => False

/-- What the executor adds to its total for a reply. -/
def Reply.usage : Reply → ℕ
  | .answered (.ok resp) => resp.usage.total
  | _ => 0

def Call.isRewriting : Call → Bool
  | .structured _ => true
  | _ => false

/-! ## One task -/

/-- The call at which a task is suspended; a query may be a rewritten one. -/
inductive Stage where
  | embedding (query : String) (rewritten : Bool)
  | retrieving (query : String) (qvec : List ℚ) (rewritten : Bool)
  | rewriting
  | assembling (query : String) (hits : List RetrievalHit)
  | answering (query context : String) (citations : List Citation)
  | ended (result : Except Raised SubAnswer)

structure TaskRun where
  task : PlanTask
  stage : Stage
  log : List (Call × Reply) := []

def missing : SubAnswer where
  answer := noData
  citations := []

/-- Without hits the query is rewritten, unless it has been. -/
def maybeSeedRetry (task : PlanTask) : PlanTask × Stage :=
  if maxRetries ≤ task.retries then ({ task with noData := true }, .ended (.ok missing))
  else ({ task with retries := task.retries + 1 }, .rewriting)

/-- The task and its next stage after a reply. -/
def resumed (task : PlanTask) : Stage → Reply → Option (PlanTask × Stage)
  | .embedding query rewritten, .embedded reply => some (task,
      match reply with
      | .error e => .ended (.error e)
      | .ok [] => .ended (.error (.exception (.foreign "list index out of range")))
      | .ok (qvec :: _) => .retrieving query qvec rewritten)
  | .retrieving query _ rewritten, .retrieved reply =>
    match reply with
    | .error e => some (task, .ended (.error e))
    | .ok [] =>
      -- the second empty recall is not retried, whatever the count of retries says
      if rewritten then some ({ task with noData := true }, .ended (.ok missing))
      else some (maybeSeedRetry task)
    | .ok hits => some (task, .assembling query hits)
  | .rewriting, .rewritten reply =>
    match reply with
    | .error .cancelled => some (task, .ended (.error .cancelled))
    | .error (.exception _) => some ({ task with noData := true }, .ended (.ok missing))
    | .ok query => some (task, .embedding query true)
  | .assembling query _, .assembled reply => some (task,
      match reply with
      | .error e => .ended (.error e)
      | .ok (context, citations) => .answering query context citations)
  | .answering _ _ citations, .answered reply => some (task,
      match reply with
      | .error e => .ended (.error e)
      | .ok resp => .ended (.ok { answer := resp.text, citations }))
  | _, _ => none

namespace TaskRun

variable (state : AgenticState)

/-- The call whose reply the task waits for. -/
def pending (t : TaskRun) : Option Call :=
  match t.stage with
  | .embedding query _ => some (.embed [query])
  | .retrieving query qvec _ => some (.retrieve query qvec state.filterExpr)
  | .rewriting => some (.structured (rewriteRequest t.task.seedQuery state.kb))
  | .assembling _ hits => some (.assemble hits)
  | .answering query context _ => some (.chat (answerRequest query context state.kb))
  | .ended _ => none

def start (task : PlanTask) : TaskRun where
  task := task
  stage := .embedding task.seedQuery false

/-- The task goes on with the reply to its call. -/
def resume (t : TaskRun) (reply : Reply) : Option TaskRun := do
  let call ← t.pending state
  let (task, stage) ← resumed t.task t.stage reply
  return { task, stage, log := t.log ++ [(call, reply)] }

def result? (t : TaskRun) : Option (Except Raised SubAnswer) :=
  match t.stage with
  | .ended result => some result
  | _ => none

variable {state} {t t' : TaskRun} {reply : Reply}

/-- Everything about a step: the call that was answered and what came of it. -/
theorem resume_cases (h : t.resume state reply = some t') :
    ∃ call, t.pending state = some call ∧ t'.log = t.log ++ [(call, reply)] ∧
      resumed t.task t.stage reply = some (t'.task, t'.stage) := by
  obtain ⟨call, hcall, h⟩ := Option.bind_eq_some_iff.mp h
  obtain ⟨⟨task, stage⟩, hresumed, h⟩ := Option.bind_eq_some_iff.mp h
  cases h
  exact ⟨call, hcall, rfl, hresumed⟩

theorem exists_resumed_of_retrieved (task : PlanTask) (query : String) (qvec : List ℚ)
    (rewritten : Bool) (reply : Except Raised (List RetrievalHit)) :
    ∃ next, resumed task (.retrieving query qvec rewritten) (.retrieved reply) = some next := by
  rcases reply with e | _ | ⟨hit, hits⟩
  · exact ⟨_, rfl⟩
  · cases rewritten with
    | false => exact ⟨_, rfl⟩
    | true => exact ⟨_, rfl⟩
  · exact ⟨_, rfl⟩

theorem exists_resumed_of_rewritten (task : PlanTask) (reply : Except Raised String) :
    ∃ next, resumed task .rewriting (.rewritten reply) = some next := by
  rcases reply with (e | _) | query
  · exact ⟨_, rfl⟩
  · exact ⟨_, rfl⟩
  · exact ⟨_, rfl⟩

theorem exists_resumed {call : Call} (hcall : t.pending state = some call)
    (hreply : reply.Answers call) : ∃ next, resumed t.task t.stage reply = some next := by
  obtain ⟨task, stage, log⟩ := t
  cases stage with
  | embedding query rewritten =>
    cases hcall
    cases reply with
    | embedded reply => exact ⟨_, rfl⟩
    | _ => exact hreply.elim
  | retrieving query qvec rewritten =>
    cases hcall
    cases reply with
    | retrieved reply => exact exists_resumed_of_retrieved task query qvec rewritten reply
    | _ => exact hreply.elim
  | rewriting =>
    cases hcall
    cases reply with
    | rewritten reply => exact exists_resumed_of_rewritten task reply
    | _ => exact hreply.elim
  | assembling query hits =>
    cases hcall
    cases reply with
    | assembled reply => exact ⟨_, rfl⟩
    | _ => exact hreply.elim
  | answering query context citations =>
    cases hcall
    cases reply with
    | answered reply => exact ⟨_, rfl⟩
    | _ => exact hreply.elim
  | ended result => exact nomatch hcall

/-- A task takes every reply to the call that it waits for. -/
theorem exists_resume {call : Call} (hcall : t.pending state = some call)
    (hreply : reply.Answers call) : ∃ t', t.resume state reply = some t' := by
  obtain ⟨next, hnext⟩ := exists_resumed hcall hreply
  exact ⟨_, by rw [resume, hcall, hnext]; rfl⟩

end TaskRun

/-! ## What one step can do -/

/-- The last reply of a task with an answer. -/
def Reply.IsAnswer : Reply → Prop
  | .answered (.ok _) => True
  | _ => False

/-- The steps of a task: the two ends without an answer, and one step for each call that
succeeds. -/
inductive Steps (task : PlanTask) : Stage → Reply → PlanTask → Stage → Prop
  | raises (stage : Stage) {reply : Reply} (e : Raised) (hreply : ¬ reply.IsAnswer) :
    Steps task stage reply task (.ended (.error e))
  | givesUp (stage : Stage) {reply : Reply} (hreply : ¬ reply.IsAnswer) :
    Steps task stage reply { task with noData := true } (.ended (.ok missing))
  | embedded (query : String) (rewritten : Bool) (qvec : List ℚ) (more : List (List ℚ)) :
    Steps task (.embedding query rewritten) (.embedded (.ok (qvec :: more))) task
      (.retrieving query qvec rewritten)
  | retries (query : String) (qvec : List ℚ) (hretries : task.retries < maxRetries) :
    Steps task (.retrieving query qvec false) (.retrieved (.ok []))
      { task with retries := task.retries + 1 } .rewriting
  | found (query : String) (qvec : List ℚ) (rewritten : Bool) (hit : RetrievalHit)
      (hits : List RetrievalHit) :
    Steps task (.retrieving query qvec rewritten) (.retrieved (.ok (hit :: hits))) task
      (.assembling query (hit :: hits))
  | rewritten (query : String) :
    Steps task .rewriting (.rewritten (.ok query)) task (.embedding query true)
  | assembled (query : String) (hits : List RetrievalHit) (context : String)
      (citations : List Citation) :
    Steps task (.assembling query hits) (.assembled (.ok (context, citations))) task
      (.answering query context citations)
  | answered (query context : String) (citations : List Citation) (resp : ChatResponse) :
    Steps task (.answering query context citations) (.answered (.ok resp)) task
      (.ended (.ok { answer := resp.text, citations }))

theorem steps_of_retrieved {task task' : PlanTask} {stage' : Stage} {query : String}
    {qvec : List ℚ} {rewritten : Bool} {reply : Except Raised (List RetrievalHit)}
    (h : resumed task (.retrieving query qvec rewritten) (.retrieved reply) =
      some (task', stage')) :
    Steps task (.retrieving query qvec rewritten) (.retrieved reply) task' stage' := by
  rcases reply with e | _ | ⟨hit, hits⟩
  · cases h
    exact .raises _ e id
  · cases rewritten with
    | true =>
      cases h
      exact .givesUp _ id
    | false =>
      have hretry : maybeSeedRetry task = (task', stage') := Option.some.inj h
      unfold maybeSeedRetry at hretry
      split_ifs at hretry with hretries
      · cases hretry
        exact .givesUp _ id
      · cases hretry
        exact .retries query qvec (Nat.lt_of_not_le hretries)
  · cases h
    exact .found query qvec rewritten hit hits

theorem steps_of_resumed {task task' : PlanTask} {stage stage' : Stage} {reply : Reply}
    (h : resumed task stage reply = some (task', stage')) :
    Steps task stage reply task' stage' := by
  unfold resumed at h
  split at h
  case h_1 query rewritten reply =>
    rcases reply with e | _ | ⟨qvec, more⟩
    · cases h
      exact .raises _ e id
    · cases h
      exact .raises _ _ id
    · cases h
      exact .embedded query rewritten qvec more
  case h_2 => exact steps_of_retrieved h
  case h_3 reply =>
    rcases reply with (e | _) | query
    · cases h
      exact .givesUp _ id
    · cases h
      exact .raises _ _ id
    · cases h
      exact .rewritten query
  case h_4 query hits reply =>
    rcases reply with e | ⟨context, citations⟩
    · cases h
      exact .raises _ e id
    · cases h
      exact .assembled query hits context citations
  case h_5 query context citations reply =>
    rcases reply with e | resp
    · cases h
      exact .raises _ e id
    · cases h
      exact .answered query context citations resp
  case h_6 => exact nomatch h

/-! ## The number of calls -/

/-- The calls that can still come. -/
def Stage.remaining : Stage → ℕ
  | .embedding _ false => 7
  | .retrieving _ _ false => 6
  | .rewriting => 5
  | .embedding _ true => 4
  | .retrieving _ _ true => 3
  | .assembling _ _ => 2
  | .answering _ _ _ => 1
  | .ended _ => 0

/-- The rewriting that is being waited for. -/
def Stage.rewritings : Stage → ℕ
  | .rewriting => 1
  | _ => 0

def rewritings (log : List (Call × Reply)) : ℕ := log.countP fun exchange => exchange.1.isRewriting

/-- At most seven calls, of which at most one asks for another query. -/
structure Bounded (t : TaskRun) : Prop where
  calls : t.log.length + t.stage.remaining ≤ 7
  rewritings_eq : rewritings t.log + t.stage.rewritings = t.task.retries
  retries_le : t.task.retries ≤ maxRetries

section Bounded

variable {state : AgenticState} {t t' : TaskRun} {reply : Reply}

theorem remaining_pos {call : Call} (h : t.pending state = some call) : 0 < t.stage.remaining := by
  obtain ⟨task, stage, log⟩ := t
  cases stage with
  | embedding query rewritten => cases rewritten <;> exact Nat.succ_pos _
  | retrieving query qvec rewritten => cases rewritten <;> exact Nat.succ_pos _
  | ended result => exact nomatch h
  | _ => exact Nat.succ_pos _

theorem rewritings_pending (reply : Reply) {call : Call} (h : t.pending state = some call) :
    rewritings [(call, reply)] = t.stage.rewritings := by
  obtain ⟨task, stage, log⟩ := t
  cases stage with
  | ended result => exact nomatch h
  | _ =>
    cases h
    rfl

theorem remaining_lt {task task' : PlanTask} {stage stage' : Stage}
    (h : Steps task stage reply task' stage') (hpos : 0 < stage.remaining) :
    stage'.remaining < stage.remaining := by
  cases h with
  | raises => exact hpos
  | givesUp => exact hpos
  | embedded query rewritten => cases rewritten <;> simp [Stage.remaining]
  | found query qvec rewritten => cases rewritten <;> simp [Stage.remaining]
  | _ => simp [Stage.remaining]

/-- The count of retries goes up with the rewriting that it stands for. -/
theorem retries_of_steps {task task' : PlanTask} {stage stage' : Stage}
    (h : Steps task stage reply task' stage') :
    task'.retries = task.retries + stage'.rewritings ∧
      (task.retries ≤ maxRetries → task'.retries ≤ maxRetries) := by
  cases h with
  | retries query qvec hretries => exact ⟨rfl, fun _ => hretries⟩
  | _ => exact ⟨rfl, id⟩

theorem bounded_start {task : PlanTask} (htask : task.Fresh) : Bounded (.start task) where
  calls := le_rfl
  rewritings_eq := by rw [htask]; rfl
  retries_le := by rw [htask]; exact Nat.zero_le _

theorem Bounded.resume (ht : Bounded t) (h : t.resume state reply = some t') : Bounded t' := by
  obtain ⟨call, hcall, hlog, hresumed⟩ := TaskRun.resume_cases h
  have hsteps := steps_of_resumed hresumed
  obtain ⟨hretries, hle⟩ := retries_of_steps hsteps
  have hlength : t'.log.length = t.log.length + 1 := by rw [hlog, List.length_append]; rfl
  have hcount : rewritings t'.log = rewritings t.log + t.stage.rewritings := by
    rw [← rewritings_pending reply hcall, hlog]
    exact List.countP_append
  constructor
  · have hcalls := ht.calls
    have hremaining := remaining_lt hsteps (remaining_pos hcall)
    omega
  · rw [hcount, ht.rewritings_eq, hretries]
  · exact hle ht.retries_le

end Bounded

end Ragx.Executor
