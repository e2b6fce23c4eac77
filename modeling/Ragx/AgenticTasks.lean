import Ragx.LlmCalls

/-!
# Sub-tasks as coroutines

The executor starts all sub-tasks of a plan, and each goes on whenever what it waits for is
there. Step by step a sub-task comes to the result and makes the calls that it has as a
function.
-/
namespace Ragx

/-- What a sub-task waits for: the hits for its query, which may be a rewritten one, or a reply
of the model. -/
inductive TaskStage where
  | retrieving (query : String) (rewritten : Bool)
  | rewriting (req : ChatRequest)
  | answering (req : ChatRequest) (cited : List RetrievalHit)
  | ended (result : Except Exc SubAnswer)

structure TaskRun where
  task : Task
  stage : TaskStage

/-- What a sub-task does for a query up to its call: the request with the hits it is based on,
if there are any. The retriever, the assembler and the embedder of an executor are in here. -/
abbrev Prepare := (query kbId : String) → Except Exc (Option (ChatRequest × List RetrievalHit))

def ParallelExecutor.prepare (ex : ParallelExecutor) (s : Services) : Prepare :=
  fun query kbId => do
    let qvec ← s.embedOne query
    let hits ← ex.retriever.retrieve s.db query qvec none
    if hits.isEmpty then return none
    else
      let (context, used) ← assemble ex.cfg hits
      return some (answerRequest query context kbId, used)

/-- The usage that an answer reports. -/
def replyUsage : Except Exc ChatResponse → ℕ
  | .ok resp => resp.usage.total
  | .error _ => 0

namespace TaskRun

def missing : SubAnswer := { answer := noData, noData := true }

def start (task : Task) : TaskRun := ⟨task, .retrieving task.seedQuery false⟩

/-- The hits are there: an answer is asked for, or without hits a new query, once. -/
def retrieved (prepare : Prepare) (kbId : String) (t : TaskRun) : Option TaskRun :=
  match t.stage with
  | .retrieving query rewritten =>
    match prepare query kbId with
    | .error e => some { t with stage := .ended (.error e) }
    | .ok (some (req, used)) => some { t with stage := .answering req used }
    | .ok none =>
      if rewritten || maxRetries ≤ t.task.retries then
        some { t with stage := .ended (.ok missing) }
      else some {
        task := { t.task with retries := t.task.retries + 1 }
        stage := .rewriting (rewriteRequest t.task.seedQuery kbId) }
  | _ => none

def rewritten (reply : Except Exc String) (t : TaskRun) : Option TaskRun :=
  match t.stage with
  | .rewriting _ =>
    match reply with
    | .error _ => some { t with stage := .ended (.ok missing) }
    | .ok query => some { t with stage := .retrieving query true }
  | _ => none

def answered (reply : Except Exc ChatResponse) (t : TaskRun) : Option TaskRun :=
  match t.stage with
  | .answering _ cited =>
    some { t with stage := .ended (reply.map fun resp => { answer := resp.text, cited }) }
  | _ => none

/-- The result of an ended task; a raised error is a result without data. -/
def result? (t : TaskRun) : Option SubAnswer :=
  match t.stage with
  | .ended (.ok sub) => some sub
  | .ended (.error _) => some missing
  | _ => none

/-! ## Results without data -/

/-- A result without data has the answer that says so. -/
def Sound (t : TaskRun) : Prop :=
  ∀ sub, t.result? = some sub → sub.noData = true → sub.answer = noData

section Sound

variable {t t' : TaskRun}

theorem sound_missing (task : Task) : Sound ⟨task, .ended (.ok missing)⟩ := by
  rintro sub hsub -
  cases hsub
  rfl

theorem sound_start (task : Task) : (start task).Sound := fun _ hsub => nomatch hsub

/-- Whatever a step leads to is sound. -/
theorem sound_of_retrieved {prepare : Prepare} {kbId : String}
    (h : t.retrieved prepare kbId = some t') : t'.Sound := by
  unfold retrieved at h
  split at h
  · split at h
    · cases h
      rintro sub hsub -
      cases hsub
      rfl
    · cases h
      exact fun _ hsub => nomatch hsub
    · split_ifs at h
      · cases h
        exact sound_missing _
      · cases h
        exact fun _ hsub => nomatch hsub
  · exact nomatch h

theorem sound_of_rewritten {reply : Except Exc String} (h : t.rewritten reply = some t') :
    t'.Sound := by
  unfold rewritten at h
  split at h
  · split at h
    · cases h
      exact sound_missing _
    · cases h
      exact fun _ hsub => nomatch hsub
  · exact nomatch h

theorem sound_of_answered {reply : Except Exc ChatResponse} (h : t.answered reply = some t') :
    t'.Sound := by
  unfold answered at h
  split at h
  · cases h
    rintro sub hsub hmissing
    cases reply with
    | error e =>
      cases hsub
      rfl
    | ok resp =>
      cases hsub
      exact nomatch hmissing
  · exact nomatch h

end Sound

/-- Only a task at its rewrite takes the reply to it. -/
theorem stage_of_rewritten {t t' : TaskRun} {reply : Except Exc String}
    (h : t.rewritten reply = some t') : ∃ req, t.stage = .rewriting req := by
  unfold rewritten at h
  split at h
  case h_1 req hstage => exact ⟨req, hstage⟩
  case h_2 => exact nomatch h

theorem stage_of_answered {t t' : TaskRun} {reply : Except Exc ChatResponse}
    (h : t.answered reply = some t') : ∃ req cited, t.stage = .answering req cited := by
  unfold answered at h
  split at h
  case h_1 req cited hstage => exact ⟨req, cited, hstage⟩
  case h_2 => exact nomatch h

/-! ## The whole of a sub-task -/

section Whole

variable (ex : ParallelExecutor) (s : Services) (llm : Llm) (kbId : String)

/-- The next step of the task, with the replies of one model. -/
def next (t : TaskRun) : TaskRun :=
  (match t.stage with
    | .retrieving _ _ => t.retrieved (ex.prepare s) kbId
    | .rewriting req => t.rewritten (llm.structuredRewrite req)
    | .answering req _ => t.answered (llm.chat req)
    | .ended _ => none).getD t

/-- The call that the task waits for. -/
def pendingCall (t : TaskRun) : Option LlmCall :=
  match t.stage with
  | .rewriting req => some (.rewrite req)
  | .answering req _ => some (.chat req)
  | _ => none

/-- The calls that the next steps wait for. -/
def callsIn : ℕ → TaskRun → List LlmCall
  | 0, _ => []
  | n + 1, t => t.pendingCall.toList ++ callsIn n (t.next ex s llm kbId)

variable {ex s llm kbId}

@[simp] theorem next_ended (task : Task) (result : Except Exc SubAnswer) :
    (⟨task, .ended result⟩ : TaskRun).next ex s llm kbId = ⟨task, .ended result⟩ := rfl

theorem iterate_next_ended (n : ℕ) (task : Task) (result : Except Exc SubAnswer) :
    (next ex s llm kbId)^[n] ⟨task, .ended result⟩ = ⟨task, .ended result⟩ :=
  Function.iterate_fixed (next_ended task result) n

theorem callsIn_ended (n : ℕ) (task : Task) (result : Except Exc SubAnswer) :
    callsIn ex s llm kbId n ⟨task, .ended result⟩ = [] := by
  induction n with
  | zero => rfl
  | succ n ih => simp only [callsIn, next_ended, ih, pendingCall, Option.toList, List.append_nil]

theorem answerFrom_eq (query : String) : ex.answerFrom s llm query kbId =
    (ex.prepare s query kbId).bind fun prepared =>
      match prepared with
      | none => .ok none
      | some (req, used) => (llm.chat req).map fun resp =>
          some { answer := resp.text, cited := used } := by
  unfold ParallelExecutor.answerFrom ParallelExecutor.prepare
  cases s.embedOne query with
  | error e => rfl
  | ok qvec =>
    cases hr : ex.retriever.retrieve s.db query qvec none with
    | error e => simp only [bind, Except.bind, hr]
    | ok hits =>
      cases hits with
      | nil => simp [bind, Except.bind, pure, Except.pure, hr]
      | cons hit hits =>
        cases ha : assemble ex.cfg (hit :: hits) with
        | error e => simp [bind, Except.bind, hr, ha]
        | ok assembled =>
          simp only [bind, Except.bind, pure, Except.pure, hr, ha, List.isEmpty_cons,
            Bool.false_eq_true, if_false]
          rfl

theorem answerCalls_eq (query : String) : ex.answerCalls s query kbId =
    callsAfter (ex.prepare s query kbId) fun prepared =>
      (prepared.map fun p => LlmCall.chat p.1).toList := by
  unfold ParallelExecutor.answerCalls ParallelExecutor.prepare
  cases s.embedOne query with
  | error e => rfl
  | ok qvec =>
    cases hr : ex.retriever.retrieve s.db query qvec none with
    | error e => simp [bind, Except.bind, hr]
    | ok hits =>
      cases hits with
      | nil => simp [bind, Except.bind, pure, Except.pure, hr]
      | cons hit hits =>
        cases ha : assemble ex.cfg (hit :: hits) with
        | error e => simp [bind, Except.bind, hr, ha]
        | ok assembled => simp [bind, Except.bind, pure, Except.pure, hr, ha]

/-- Two steps after a query that can no longer be rewritten, there is an answer or none. -/
theorem two_steps_rewritten (ex : ParallelExecutor) (s : Services) (llm : Llm) (kbId : String)
    (task : Task) (query : String) :
    (next ex s llm kbId)^[2] ⟨task, .retrieving query true⟩ =
        ⟨task, .ended ((ex.answerFrom s llm query kbId).map fun sub => sub.getD missing)⟩ ∧
      callsIn ex s llm kbId 2 ⟨task, .retrieving query true⟩ = ex.answerCalls s query kbId := by
  rw [answerFrom_eq, answerCalls_eq]
  simp only [Function.iterate_succ, Function.iterate_zero, Function.comp_apply, id, callsIn]
  cases hp : ex.prepare s query kbId with
  | error e => simp [next, retrieved, hp, Except.bind, Except.map, pendingCall]
  | ok prepared =>
    cases prepared with
    | none => simp [next, retrieved, hp, Except.bind, Except.map, pendingCall]
    | some prepared =>
      cases hc : llm.chat prepared.1 <;>
        simp [next, retrieved, answered, hp, hc, Except.bind, Except.map, pendingCall]

/-- Four steps run the whole of a task: they end with its result and make its calls. -/
theorem four_steps (task : Task) :
    ((next ex s llm kbId)^[4] (start task)).stage = .ended (ex.execTask s llm kbId task) ∧
      callsIn ex s llm kbId 4 (start task) = ex.taskCalls s llm kbId task := by
  unfold ParallelExecutor.execTask ParallelExecutor.taskCalls
  rw [answerFrom_eq, answerCalls_eq, Function.iterate_succ_apply, callsIn]
  cases hp : ex.prepare s task.seedQuery kbId with
  | error e =>
    have hnext : (start task).next ex s llm kbId = ⟨task, .ended (.error e)⟩ := by
      simp [next, start, retrieved, hp]
    rw [hnext, iterate_next_ended, callsIn_ended]
    exact ⟨rfl, rfl⟩
  | ok prepared =>
    cases prepared with
    | some prepared =>
      have hnext : (start task).next ex s llm kbId = ⟨task, .answering prepared.1 prepared.2⟩ := by
        simp [next, start, retrieved, hp]
      rw [hnext, Function.iterate_succ_apply, callsIn]
      cases hc : llm.chat prepared.1 <;>
        simp [next, answered, hc, Except.bind, Except.map, bind, pure, Except.pure, pendingCall,
          start, callsIn_ended]
    | none =>
      unfold ParallelExecutor.maybeSeedRetry ParallelExecutor.retryCalls
      by_cases hretries : maxRetries ≤ task.retries
      · have hnext : (start task).next ex s llm kbId = ⟨task, .ended (.ok missing)⟩ := by
          simp [next, start, retrieved, hp, hretries]
        rw [hnext, iterate_next_ended, callsIn_ended]
        simp [Except.bind, bind, hretries, pendingCall, start, missing]
      · have hnext : (start task).next ex s llm kbId =
            ⟨{ task with retries := task.retries + 1 },
              .rewriting (rewriteRequest task.seedQuery kbId)⟩ := by
          simp [next, start, retrieved, hp, hretries]
        rw [hnext, Function.iterate_succ_apply, callsIn]
        cases hrw : llm.structuredRewrite (rewriteRequest task.seedQuery kbId) with
        | error e =>
          simp [next, rewritten, hrw, Except.bind, bind, hretries, pendingCall, start, missing,
            callsIn_ended]
        | ok query =>
          have hnext' : (⟨{ task with retries := task.retries + 1 },
              .rewriting (rewriteRequest task.seedQuery kbId)⟩ : TaskRun).next ex s llm kbId =
              ⟨{ task with retries := task.retries + 1 }, .retrieving query true⟩ := by
            simp [next, rewritten, hrw]
          obtain ⟨hstage, hcalls⟩ := two_steps_rewritten ex s llm kbId
            { task with retries := task.retries + 1 } query
          rw [hnext', hstage, hcalls]
          simp [Except.bind, bind, hretries, pendingCall, start, missing]

end Whole

end TaskRun

/-! ## The gathered results -/

/-- The results of the tasks in order, once all have ended. -/
def gather (tasks : List TaskRun) : Option (List SubAnswer) := tasks.mapM TaskRun.result?

/-- Each gathered result is that of a task. -/
theorem exists_of_mem_gather {tasks : List TaskRun} {results : List SubAnswer} {sub : SubAnswer}
    (h : gather tasks = some results) (hsub : sub ∈ results) :
    ∃ t ∈ tasks, t.result? = some sub := by
  unfold gather at h
  induction tasks generalizing results with
  | nil =>
    cases h
    exact absurd hsub List.not_mem_nil
  | cons t tasks ih =>
    rw [List.mapM_cons] at h
    obtain ⟨head, hhead, h⟩ := Option.bind_eq_some_iff.mp h
    obtain ⟨rest, hrest, h⟩ := Option.bind_eq_some_iff.mp h
    cases h
    obtain rfl | hsub := List.mem_cons.mp hsub
    · exact ⟨t, List.mem_cons_self, hhead⟩
    · obtain ⟨u, hu, hresult⟩ := ih hrest hsub
      exact ⟨u, List.mem_cons_of_mem t hu, hresult⟩

/-- What the executor makes of the results. -/
def tasksResult (results : List SubAnswer) : Except Exc (List SubAnswer) :=
  if results.all (·.noData) then
    .error {
      cls := .agenticTasksFailed, code := 7002, message := "all tasks failed"
      details := [("task_count", .num results.length)] }
  else .ok results

theorem result?_four_steps (ex : ParallelExecutor) (s : Services) (llm : Llm) (kbId : String)
    (task : Task) :
    ((TaskRun.next ex s llm kbId)^[4] (.start task)).result? =
      some (match ex.execTask s llm kbId task with
        | .ok sub => sub
        | .error _ => TaskRun.missing) := by
  rw [TaskRun.result?, (TaskRun.four_steps task).1]
  cases ex.execTask s llm kbId task <;> rfl

/-- Gathered, the tasks that have run as coroutines have the results of the executor. -/
theorem run_eq_tasksResult (ex : ParallelExecutor) (s : Services) (llm : Llm) (kbId : String)
    (tasks : List Task) :
    ∃ results, gather (tasks.map fun task => (TaskRun.next ex s llm kbId)^[4] (.start task)) =
        some results ∧ ex.run s llm kbId tasks = tasksResult results := by
  let result (task : Task) : SubAnswer := match ex.execTask s llm kbId task with
    | .ok sub => sub
    | .error _ => TaskRun.missing
  refine ⟨tasks.map result, ?_, ?_⟩
  · unfold gather
    induction tasks with
    | nil => rfl
    | cons task tasks ih =>
      rw [List.map_cons, List.mapM_cons, result?_four_steps, ih]
      rfl
  · rw [tasksResult, List.length_map]
    rfl

/-! ## Tasks that find something -/

/-- A retriever that finds something for every query. -/
def foundAlways : Prepare := fun query kbId => .ok (some (answerRequest query "context" kbId, []))

def answerOf (tokens : ℕ) : Except Exc ChatResponse :=
  .ok { text := "answer", usage := { total := tokens } }

end Ragx
