import Mathlib.Algebra.GroupWithZero.Nat
import Ragx.EventRuns
import Ragx.ExecutorTasks

/-!
# Runs of the executor

All tasks of a plan run at once; a run is the replies that their calls get, in any order. The
tasks have nothing in common but the counter of tokens, so each ends with what its own
retrieval has come to.
-/
namespace Ragx.Executor

abbrev Log := List (Call × Reply)

/-! ## The answer of a task -/

section OwnAnswers

variable (state : AgenticState)

/-- The calls for a query for which nothing is found. -/
def RecallsNothing (query : String) (log : Log) : Prop :=
  ∃ qvec more, log = [
    (.embed [query], .embedded (.ok (qvec :: more))),
    (.retrieve query qvec state.filterExpr, .retrieved (.ok []))]

/-- The calls for a query that is answered from the hits for it. -/
def AnswersFrom (query : String) (log : Log) (sub : SubAnswer) : Prop :=
  ∃ qvec more hit hits context resp, log = [
      (.embed [query], .embedded (.ok (qvec :: more))),
      (.retrieve query qvec state.filterExpr, .retrieved (.ok (hit :: hits))),
      (.assemble (hit :: hits), .assembled (.ok (context, sub.citations))),
      (.chat (answerRequest query context state.kb), .answered (.ok resp))] ∧
    sub.answer = resp.text

/-- The exchange that gives a task another query. -/
def rewriting (seed query : String) : Call × Reply :=
  (.structured (rewriteRequest seed state.kb), .rewritten (.ok query))

/-- The calls of a task that end in an answer, for its seed query or, where nothing is found for
that, for the query that it is rewritten to. -/
inductive OwnAnswer (seed : String) : Log → SubAnswer → Prop
  | first {log : Log} {sub : SubAnswer} (h : AnswersFrom state seed log sub) :
    OwnAnswer seed log sub
  | second {before after : Log} {query : String} {sub : SubAnswer}
      (hbefore : RecallsNothing state seed before) (hafter : AnswersFrom state query after sub) :
    OwnAnswer seed (before ++ rewriting state seed query :: after) sub

/-- The calls before a query is embedded. -/
inductive Asked (seed : String) : String → Bool → Log → Prop
  | first : Asked seed seed false []
  | second {before : Log} {query : String} (hbefore : RecallsNothing state seed before) :
    Asked seed query true (before ++ [rewriting state seed query])

variable {state} {seed query : String} {log : Log} {sub : SubAnswer}

theorem OwnAnswer.of_asked {rewritten : Bool} {before : Log}
    (hasked : Asked state seed query rewritten before) (h : AnswersFrom state query log sub) :
    OwnAnswer state seed (before ++ log) sub := by
  cases hasked with
  | first => exact .first h
  | second hbefore =>
    rw [List.append_assoc]
    exact .second hbefore h

theorem AnswersFrom.getLast (h : AnswersFrom state query log sub) :
    ∃ call reply, log.getLast? = some (call, reply) ∧ reply.IsAnswer := by
  obtain ⟨qvec, more, hit, hits, context, resp, rfl, -⟩ := h
  exact ⟨_, _, rfl, trivial⟩

/-- The calls of a task with an answer end with one. -/
theorem OwnAnswer.getLast (h : OwnAnswer state seed log sub) :
    ∃ call reply, log.getLast? = some (call, reply) ∧ reply.IsAnswer := by
  cases h with
  | first h => exact h.getLast
  | second hbefore hafter =>
    obtain ⟨call, reply, hlast, hreply⟩ := hafter.getLast
    refine ⟨call, reply, ?_, hreply⟩
    rw [List.getLast?_append, List.getLast?_cons, hlast]
    rfl

end OwnAnswers

/-- A task for which its calls have come to no answer. -/
def WithoutData (state : AgenticState) (t : TaskRun) : Prop :=
  ∀ sub, ¬ OwnAnswer state t.task.seedQuery t.log sub

/-! ## The invariant of a task -/

/-- What the calls so far have come to at a stage, of a task that may be marked as one without
data. -/
def StageReached (state : AgenticState) (seed : String) (noData : Bool) (log : Log) :
    Stage → Prop
  | .embedding query rewritten => Asked state seed query rewritten log
  | .retrieving query qvec rewritten => ∃ before more, Asked state seed query rewritten before ∧
      log = before ++ [(.embed [query], .embedded (.ok (qvec :: more)))]
  | .rewriting => RecallsNothing state seed log
  | .assembling query hits => ∃ rewritten before qvec more hit rest,
      Asked state seed query rewritten before ∧ hits = hit :: rest ∧ log = before ++ [
        (.embed [query], .embedded (.ok (qvec :: more))),
        (.retrieve query qvec state.filterExpr, .retrieved (.ok hits))]
  | .answering query context citations => ∃ rewritten before qvec more hit rest,
      Asked state seed query rewritten before ∧ log = before ++ [
        (.embed [query], .embedded (.ok (qvec :: more))),
        (.retrieve query qvec state.filterExpr, .retrieved (.ok (hit :: rest))),
        (.assemble (hit :: rest), .assembled (.ok (context, citations)))]
  | .ended (.ok sub) => OwnAnswer state seed log sub ∧ noData = false ∨
      sub = missing ∧ noData = true ∧ ∀ sub, ¬ OwnAnswer state seed log sub
  | .ended (.error _) => ∀ sub, ¬ OwnAnswer state seed log sub

structure TaskReached (state : AgenticState) (task : PlanTask) (t : TaskRun) : Prop where
  taskId_eq : t.task.taskId = task.taskId
  seedQuery_eq : t.task.seedQuery = task.seedQuery
  citations_eq : t.task.citations = []
  marked : t.task.noData = true → t.stage = .ended (.ok missing)
  stage : StageReached state task.seedQuery t.task.noData t.log t.stage

section Reached

variable {state : AgenticState} {task : PlanTask} {t t' : TaskRun} {reply : Reply}

theorem taskReached_start (htask : task.Fresh) : TaskReached state task (.start task) where
  taskId_eq := rfl
  seedQuery_eq := rfl
  citations_eq := by rw [htask]; rfl
  marked h := by rw [htask] at h; exact nomatch h
  stage := .first

theorem not_ownAnswer_snoc {seed : String} {log : Log} {call : Call} {reply : Reply}
    (hreply : ¬ reply.IsAnswer) (sub : SubAnswer) :
    ¬ OwnAnswer state seed (log ++ [(call, reply)]) sub := by
  intro h
  obtain ⟨_, _, hlast, hanswer⟩ := h.getLast
  rw [List.getLast?_concat, Option.some.injEq, Prod.mk.injEq] at hlast
  exact hreply (hlast.2 ▸ hanswer)

/-- What a step makes of the task apart from its marks. -/
theorem frame_of_steps {task task' : PlanTask} {stage stage' : Stage}
    (h : Steps task stage reply task' stage') :
    task'.taskId = task.taskId ∧ task'.seedQuery = task.seedQuery ∧
      task'.citations = task.citations ∧
      (task'.noData = task.noData ∨ stage' = .ended (.ok missing)) := by
  cases h with
  | givesUp => exact ⟨rfl, rfl, rfl, .inr rfl⟩
  | _ => exact ⟨rfl, rfl, rfl, .inl rfl⟩

theorem stageReached_of_steps {task task' : PlanTask} {stage stage' : Stage} {call : Call}
    {log : Log} {seed : String} (hseed : task.seedQuery = seed) (hunmarked : task.noData = false)
    (hcall : TaskRun.pending state ⟨task, stage, log⟩ = some call)
    (hstage : StageReached state seed task.noData log stage)
    (h : Steps task stage reply task' stage') :
    StageReached state seed task'.noData (log ++ [(call, reply)]) stage' := by
  cases h with
  | raises stage e hreply => exact not_ownAnswer_snoc hreply
  | givesUp stage hreply => exact .inr ⟨rfl, rfl, not_ownAnswer_snoc hreply⟩
  | embedded query rewritten qvec more =>
    cases hcall
    exact ⟨log, more, hstage, rfl⟩
  | retries query qvec hretries =>
    cases hcall
    obtain ⟨before, more, hasked, rfl⟩ := hstage
    cases hasked
    exact ⟨qvec, more, rfl⟩
  | found query qvec rewritten hit hits =>
    cases hcall
    obtain ⟨before, more, hasked, rfl⟩ := hstage
    exact ⟨rewritten, before, qvec, more, hit, hits, hasked, rfl, List.append_assoc _ _ _⟩
  | rewritten query =>
    cases hcall
    rw [hseed]
    exact .second hstage
  | assembled query hits context citations =>
    cases hcall
    obtain ⟨rewritten, before, qvec, more, hit, rest, hasked, rfl, rfl⟩ := hstage
    exact ⟨rewritten, before, qvec, more, hit, rest, hasked, List.append_assoc _ _ _⟩
  | answered query context citations resp =>
    cases hcall
    obtain ⟨rewritten, before, qvec, more, hit, rest, hasked, rfl⟩ := hstage
    refine .inl ⟨?_, hunmarked⟩
    rw [List.append_assoc]
    exact .of_asked hasked ⟨qvec, more, hit, rest, context, resp, rfl, rfl⟩

theorem TaskReached.resume (ht : TaskReached state task t)
    (h : t.resume state reply = some t') : TaskReached state task t' := by
  obtain ⟨call, hcall, hlog, hresumed⟩ := TaskRun.resume_cases h
  have hsteps := steps_of_resumed hresumed
  obtain ⟨hid, hseed, hcitations, hmarked⟩ := frame_of_steps hsteps
  have hunmarked : t.task.noData = false := by
    by_contra hnoData
    rw [TaskRun.pending, ht.marked (Bool.eq_true_of_not_eq_false hnoData)] at hcall
    exact nomatch hcall
  constructor
  · rw [hid, ht.taskId_eq]
  · rw [hseed, ht.seedQuery_eq]
  · rw [hcitations, ht.citations_eq]
  · intro hnoData
    obtain hsame | hended := hmarked
    · rw [hsame, hunmarked] at hnoData
      exact nomatch hnoData
    · exact hended
  · rw [hlog]
    exact stageReached_of_steps ht.seedQuery_eq hunmarked hcall ht.stage hsteps

end Reached

/-! ## All tasks of a plan -/

structure Running where
  tasks : List TaskRun
  usageTotal : ℕ := 0

def start (state : AgenticState) : Running where
  tasks := state.plan.map .start

/-- One reply, to the call of a task that waits for it. -/
def step (state : AgenticState) (s : Running) (event : ℕ × Reply) : Option Running := do
  let t ← s.tasks[event.1]?
  let t ← t.resume state event.2
  return { tasks := s.tasks.set event.1 t, usageTotal := s.usageTotal + event.2.usage }

/-- A task with its result, and the entry that stands for it. -/
def settle (task : PlanTask) : Except Raised SubAnswer → PlanTask × String
  | .error _ => ({ task with status := .failed, noData := true }, noData)
  | .ok sub =>
    ({ task with subAnswer := some sub.answer, citations := sub.citations, status := .done },
      sub.answer)

def agenticTasksFailed (taskCount : ℕ) : Exc where
  cls := .agenticTasksFailed
  code := 7002
  message := "all tasks failed"
  details := [("task_count", .num taskCount)]

/-- What `run` does with the gathered results. -/
def finish (state : AgenticState) (tasks : List PlanTask)
    (results : List (Except Raised SubAnswer)) (usageTotal : ℕ) : Except Exc AgenticState :=
  let settled := (tasks.zip results).map fun (task, result) => settle task result
  let updatedTasks := settled.map (·.1)
  let answers := settled.map (·.2)
  if updatedTasks.all (·.noData) then .error (agenticTasksFailed state.plan.length)
  else .ok { state with
    plan := updatedTasks
    subAnswers := some answers
    budgetUsed := some (state.budgetUsed.getD 0 + usageTotal) }

/-- What `run` returns or raises, once every task has ended. -/
def outcome? (state : AgenticState) (s : Running) : Option (Except Exc AgenticState) :=
  if state.plan.isEmpty then some (.ok { state with subAnswers := some [] })
  else do
    let results ← s.tasks.mapM TaskRun.result?
    return finish state (s.tasks.map (·.task)) results s.usageTotal

/-- What is returned for a task: its own answer with the citations of its own hits, or that it
has none. -/
def Settled (state : AgenticState) (t : TaskRun) (task : PlanTask) (answer : String) : Prop :=
  task.taskId = t.task.taskId ∧
    ((∃ sub, OwnAnswer state t.task.seedQuery t.log sub ∧ answer = sub.answer ∧
        task.citations = sub.citations ∧ task.noData = false) ∨
      WithoutData state t ∧ answer = noData ∧ task.citations = [] ∧ task.noData = true)

/-- The run of a plan on the replies, in the state that it has come to. -/
structure RunsApart (state : AgenticState) (events : List (ℕ × Reply)) (s : Running) : Prop where
  tasks_eq : s.tasks.map (fun t => (t.task.taskId, t.task.seedQuery)) =
    state.plan.map fun task => (task.taskId, task.seedQuery)
  /-- A task has had the replies to its own calls. -/
  replies_eq : ∀ i t, s.tasks[i]? = some t →
    t.log.map Prod.snd = (events.filter fun event => event.1 = i).map Prod.snd
  rewritings_le : ∀ t ∈ s.tasks, rewritings t.log ≤ 1
  /-- Whatever the reply to a call is, the run goes on with it. -/
  takes : ∀ i t call, s.tasks[i]? = some t → t.pending state = some call →
    ∀ reply : Reply, reply.Answers call → (step state s (i, reply)).isSome = true
  length_le : events.length ≤ 7 * state.plan.length
  /-- When no call is left, `run` is over. -/
  ends : (∀ t ∈ s.tasks, t.pending state = none) → (outcome? state s).isSome = true
  /-- It raises when every task has ended without data, and only then. -/
  raises : ∀ result, outcome? state s = some result →
    (∀ e, result = .error e → e = agenticTasksFailed state.plan.length) ∧
      ((∃ e, result = .error e) ↔ ∀ t ∈ s.tasks, WithoutData state t)
  returns : ∀ out, outcome? state s = some (.ok out) → ∃ answers, out.subAnswers = some answers ∧
    List.Forall₂ (fun t entry => Settled state t entry.1 entry.2) s.tasks (out.plan.zip answers) ∧
    out.plan.length = answers.length

section Steps

variable {state : AgenticState} {s s' : Running} {event : ℕ × Reply}

theorem step_cases (h : step state s event = some s') :
    ∃ t t', s.tasks[event.1]? = some t ∧ t.resume state event.2 = some t' ∧
      s'.tasks = s.tasks.set event.1 t' := by
  obtain ⟨t, ht, h⟩ := Option.bind_eq_some_iff.mp h
  obtain ⟨t', ht', h⟩ := Option.bind_eq_some_iff.mp h
  cases h
  exact ⟨t, t', ht, ht', rfl⟩

/-! ## The invariant of a run -/

/-- Every task is as the calls for it have left it. -/
def Inv (state : AgenticState) (s : Running) : Prop :=
  List.Forall₂ (fun task t => TaskReached state task t ∧ Bounded t) state.plan s.tasks

theorem forall₂_set {α β : Type*} {R : α → β → Prop} {l : List α} {l' : List β} {b b' : β}
    {i : ℕ} (h : List.Forall₂ R l l') (hi : l'[i]? = some b) (hb : ∀ a, R a b → R a b') :
    List.Forall₂ R l (l'.set i b') := by
  induction h generalizing i with
  | nil => exact .nil
  | cons hhead htail ih =>
    cases i with
    | zero =>
      cases hi
      exact .cons (hb _ hhead) htail
    | succ i => exact .cons hhead (ih hi)

theorem inv_start (hfresh : ∀ task ∈ state.plan, task.Fresh) : Inv state (start state) := by
  refine List.forall₂_map_right_iff.mpr (List.forall₂_same.mpr fun task htask => ?_)
  exact ⟨taskReached_start (hfresh task htask), bounded_start (hfresh task htask)⟩

theorem Inv.step (hs : Inv state s) (h : step state s event = some s') : Inv state s' := by
  obtain ⟨t, t', ht, hresume, htasks⟩ := step_cases h
  unfold Inv
  rw [htasks]
  exact forall₂_set hs ht fun _ hinv => ⟨hinv.1.resume hresume, hinv.2.resume hresume⟩

/-! ## Replies and calls -/

def ownReplies (i : ℕ) (events : List (ℕ × Reply)) : List Reply :=
  (events.filter fun event => event.1 = i).map Prod.snd

theorem replies_step (h : step state s event = some s') {i : ℕ} {t' : TaskRun}
    (ht' : s'.tasks[i]? = some t') : ∃ t, s.tasks[i]? = some t ∧
      t'.log.map Prod.snd = t.log.map Prod.snd ++ ownReplies i [event] := by
  obtain ⟨t, u, ht, hresume, htasks⟩ := step_cases h
  rw [htasks] at ht'
  by_cases hi : event.1 = i
  · subst hi
    rw [List.getElem?_set_self (List.getElem?_eq_some_iff.mp ht).1] at ht'
    cases ht'
    obtain ⟨call, -, hlog, -⟩ := TaskRun.resume_cases hresume
    refine ⟨t, ht, ?_⟩
    simp [hlog, ownReplies]
  · rw [List.getElem?_set_ne hi] at ht'
    exact ⟨t', ht', by simp [ownReplies, hi]⟩

theorem replies_run {events : List (ℕ × Reply)} (h : run (step state) s events = some s') {i : ℕ}
    {t' : TaskRun} (ht' : s'.tasks[i]? = some t') : ∃ t, s.tasks[i]? = some t ∧
      t'.log.map Prod.snd = t.log.map Prod.snd ++ ownReplies i events := by
  induction events generalizing s with
  | nil =>
    cases h
    exact ⟨t', ht', (List.append_nil _).symm⟩
  | cons event events ih =>
    obtain ⟨u, hstep, hrun⟩ := run_cons_eq_some h
    obtain ⟨t, ht, hrest⟩ := ih hrun
    obtain ⟨t₀, ht₀, hfirst⟩ := replies_step hstep ht
    refine ⟨t₀, ht₀, ?_⟩
    rw [hrest, hfirst, List.append_assoc]
    congr 1
    simp only [ownReplies, ← List.map_append, ← List.filter_append]
    rfl

def Running.remaining (s : Running) : ℕ := (s.tasks.map (·.stage.remaining)).sum

theorem sum_set_lt {α : Type*} {f : α → ℕ} {l : List α} {i : ℕ} {a b : α} (hi : l[i]? = some a)
    (h : f b < f a) : ((l.set i b).map f).sum < (l.map f).sum := by
  induction l generalizing i with
  | nil => exact nomatch hi
  | cons x l ih =>
    cases i with
    | zero =>
      cases hi
      exact Nat.add_lt_add_right h _
    | succ i => exact Nat.add_lt_add_left (ih hi) _

theorem remaining_step (h : step state s event = some s') : s'.remaining < s.remaining := by
  obtain ⟨t, t', ht, hresume, htasks⟩ := step_cases h
  obtain ⟨call, hcall, -, hresumed⟩ := TaskRun.resume_cases hresume
  have hless := remaining_lt (steps_of_resumed hresumed) (remaining_pos hcall)
  unfold Running.remaining
  rw [htasks]
  exact sum_set_lt ht hless

/-- A run is no longer than the calls that its tasks can make. -/
theorem length_run_le {events : List (ℕ × Reply)} (h : run (step state) s events = some s') :
    events.length ≤ s.remaining := by
  induction events generalizing s with
  | nil => exact Nat.zero_le _
  | cons event events ih =>
    obtain ⟨u, hstep, hrun⟩ := run_cons_eq_some h
    have hrest := ih hrun
    have hfirst := remaining_step hstep
    rw [List.length_cons]
    omega

theorem remaining_start : (start state).remaining = 7 * state.plan.length := by
  have hseven : (state.plan.map TaskRun.start).map (·.stage.remaining) =
      state.plan.map fun _ => 7 := by
    rw [List.map_map]
    exact List.map_congr_left fun _ _ => rfl
  unfold Running.remaining start
  rw [hseven, List.map_const', List.sum_replicate_nat, mul_comm]

/-! ## The end of a run -/

theorem settled_settle {task : PlanTask} {t : TaskRun} {result : Except Raised SubAnswer}
    (ht : TaskReached state task t) (hended : t.result? = some result) :
    Settled state t (settle t.task result).1 (settle t.task result).2 := by
  have hstage := ht.stage
  rw [← ht.seedQuery_eq] at hstage
  unfold TaskRun.result? at hended
  split at hended
  case h_2 => exact nomatch hended
  case h_1 hresult =>
    cases hended
    rw [hresult] at hstage
    cases result with
    | error e => exact ⟨rfl, .inr ⟨hstage, rfl, ht.citations_eq, rfl⟩⟩
    | ok sub =>
      obtain ⟨hown, hunmarked⟩ | ⟨rfl, hmarked, hnone⟩ := hstage
      · exact ⟨rfl, .inl ⟨sub, hown, rfl, rfl, hunmarked⟩⟩
      · exact ⟨rfl, .inr ⟨hnone, rfl, rfl, hmarked⟩⟩

theorem exists_result_of_pending {t : TaskRun} (h : t.pending state = none) :
    ∃ result, t.result? = some result := by
  obtain ⟨task, stage, log⟩ := t
  cases stage with
  | ended result => exact ⟨result, rfl⟩
  | _ => exact nomatch h

theorem exists_mapM_result {tasks : List TaskRun} (h : ∀ t ∈ tasks, t.pending state = none) :
    ∃ results, tasks.mapM TaskRun.result? = some results := by
  induction tasks with
  | nil => exact ⟨[], rfl⟩
  | cons t tasks ih =>
    obtain ⟨result, hresult⟩ := exists_result_of_pending (h t List.mem_cons_self)
    obtain ⟨results, hresults⟩ := ih fun u hu => h u (List.mem_cons_of_mem t hu)
    exact ⟨result :: results, by rw [List.mapM_cons, hresult, hresults]; rfl⟩

/-- The settled tasks are those of the run, in their order. -/
theorem settled_tasks {plan : List PlanTask} {tasks : List TaskRun}
    {results : List (Except Raised SubAnswer)}
    (hinv : List.Forall₂ (fun task t => TaskReached state task t ∧ Bounded t) plan tasks)
    (h : tasks.mapM TaskRun.result? = some results) :
    List.Forall₂ (fun t entry => Settled state t entry.1 entry.2) tasks
      (((tasks.map (·.task)).zip results).map fun (task, result) => settle task result) := by
  induction hinv generalizing results with
  | nil =>
    cases h
    exact .nil
  | cons hhead htail ih =>
    rw [List.mapM_cons] at h
    obtain ⟨result, hresult, h⟩ := Option.bind_eq_some_iff.mp h
    obtain ⟨rest, hrest, h⟩ := Option.bind_eq_some_iff.mp h
    cases h
    exact .cons (settled_settle hhead.1 hresult) (ih hrest)

theorem noData_iff_of_settled {t : TaskRun} {task : PlanTask} {answer : String}
    (h : Settled state t task answer) : task.noData = true ↔ WithoutData state t := by
  obtain ⟨-, ⟨sub, hown, -, -, hdata⟩ | ⟨hnone, -, -, hdata⟩⟩ := h
  · simp only [hdata, Bool.false_eq_true, false_iff]
    exact fun hnone => hnone sub hown
  · simp only [hdata, true_iff]
    exact hnone

theorem all_noData_iff {tasks : List TaskRun} {settled : List (PlanTask × String)}
    (h : List.Forall₂ (fun t entry => Settled state t entry.1 entry.2) tasks settled) :
    (settled.map (·.1)).all (·.noData) = true ↔ ∀ t ∈ tasks, WithoutData state t := by
  induction h with
  | nil => simp
  | cons hhead htail ih =>
    rw [List.map_cons, List.all_cons, Bool.and_eq_true, ih, noData_iff_of_settled hhead,
      List.forall_mem_cons]

theorem names_eq (h : Inv state s) :
    s.tasks.map (fun t => (t.task.taskId, t.task.seedQuery)) =
      state.plan.map fun task => (task.taskId, task.seedQuery) := by
  unfold Inv at h
  generalize state.plan = plan, s.tasks = tasks at h ⊢
  induction h with
  | nil => rfl
  | cons hhead htail ih =>
    rw [List.map_cons, List.map_cons, ih, hhead.1.taskId_eq, hhead.1.seedQuery_eq]

theorem bounded_of_mem (h : Inv state s) {t : TaskRun} (ht : t ∈ s.tasks) : Bounded t := by
  unfold Inv at h
  generalize state.plan = plan, s.tasks = tasks at h ht
  induction h with
  | nil => exact absurd ht List.not_mem_nil
  | cons hhead htail ih =>
    obtain rfl | ht := List.mem_cons.mp ht
    · exact hhead.2
    · exact ih ht

theorem Bounded.rewritings_le {t : TaskRun} (h : Bounded t) : rewritings t.log ≤ 1 :=
  calc
    rewritings t.log ≤ rewritings t.log + t.stage.rewritings := Nat.le_add_right _ _
    _ = t.task.retries := h.rewritings_eq
    _ ≤ 1 := h.retries_le

theorem log_start {i : ℕ} {t : TaskRun} (h : (start state).tasks[i]? = some t) : t.log = [] := by
  unfold start at h
  rw [List.getElem?_map] at h
  obtain ⟨task, -, rfl⟩ := Option.map_eq_some_iff.mp h
  rfl

/-- What an outcome is made of. -/
theorem outcome_cases {result : Except Exc AgenticState} (hplan : state.plan ≠ [])
    (h : outcome? state s = some result) : ∃ results, s.tasks.mapM TaskRun.result? = some results ∧
      result = finish state (s.tasks.map (·.task)) results s.usageTotal := by
  unfold outcome? at h
  rw [if_neg (by simpa using hplan)] at h
  obtain ⟨results, hresults, h⟩ := Option.bind_eq_some_iff.mp h
  cases h
  exact ⟨results, hresults, rfl⟩

theorem raises_of_outcome {result : Except Exc AgenticState} (hplan : state.plan ≠ [])
    (hinv : Inv state s) (h : outcome? state s = some result) :
    (∀ e, result = .error e → e = agenticTasksFailed state.plan.length) ∧
      ((∃ e, result = .error e) ↔ ∀ t ∈ s.tasks, WithoutData state t) := by
  obtain ⟨results, hresults, rfl⟩ := outcome_cases hplan h
  have hall := all_noData_iff (settled_tasks hinv hresults)
  unfold finish
  dsimp only
  split
  case isTrue hnoData =>
    refine ⟨fun e he => (Except.error.inj he).symm, ?_⟩
    exact ⟨fun _ => hall.mp hnoData, fun _ => ⟨_, rfl⟩⟩
  case isFalse hnoData =>
    refine ⟨(fun e he => nomatch he), (fun ⟨_, he⟩ => nomatch he), fun hnone => ?_⟩
    exact absurd (hall.mpr hnone) hnoData

theorem returns_of_outcome {out : AgenticState} (hplan : state.plan ≠ []) (hinv : Inv state s)
    (h : outcome? state s = some (.ok out)) : ∃ answers, out.subAnswers = some answers ∧
      List.Forall₂ (fun t entry => Settled state t entry.1 entry.2) s.tasks
        (out.plan.zip answers) ∧
      out.plan.length = answers.length := by
  obtain ⟨results, hresults, hfinish⟩ := outcome_cases hplan h
  have hsettled := settled_tasks hinv hresults
  unfold finish at hfinish
  dsimp only at hfinish
  split_ifs at hfinish
  cases hfinish
  refine ⟨_, rfl, ?_, ?_⟩
  · rw [List.zip_map', List.map_id']
    exact hsettled
  · simp only [List.length_map]

end Steps

/-- For every behaviour of what the tasks call, and every order of the replies: a run raises
when all tasks are without data, and otherwise returns for each task what its own calls have come
to. -/
theorem runsApart_run {state : AgenticState} (hplan : state.plan ≠ [])
    (hfresh : ∀ task ∈ state.plan, task.Fresh) {events : List (ℕ × Reply)} {s : Running}
    (hrun : run (step state) (start state) events = some s) : RunsApart state events s := by
  have hinv : Inv state s :=
    run_invariant (fun _ _ _ hs hstep => Inv.step hs hstep) (inv_start hfresh) hrun
  constructor
  case tasks_eq => exact names_eq hinv
  case replies_eq =>
    intro i t ht
    obtain ⟨t₀, ht₀, hreplies⟩ := replies_run hrun ht
    rw [hreplies, log_start ht₀]
    rfl
  case rewritings_le => exact fun t ht => (bounded_of_mem hinv ht).rewritings_le
  case takes =>
    intro i t call ht hcall reply hreply
    obtain ⟨t', ht'⟩ := TaskRun.exists_resume hcall hreply
    simp [step, ht, ht']
  case length_le =>
    rw [← remaining_start]
    exact length_run_le hrun
  case ends =>
    intro hended
    obtain ⟨results, hresults⟩ := exists_mapM_result hended
    simp [outcome?, hplan, hresults]
  case raises => exact fun result => raises_of_outcome hplan hinv
  case returns => exact fun out => returns_of_outcome hplan hinv

/-! ## Two tasks -/

def twoTasks : AgenticState where
  plan := [
    { seedQuery := "first", taskId := "task_1" },
    { seedQuery := "second", taskId := "task_2" }]
  kbId := some "kb"

/-- The second task finds something when its query has been rewritten; the first one fails while
that goes on. -/
def twoTasksEvents : List (ℕ × Reply) := [
  (1, .embedded (.ok [[1]])),
  (1, .retrieved (.ok [])),
  (0, .embedded (.error (.exception (.foreign "boom")))),
  (1, .rewritten (.ok "other words")),
  (1, .embedded (.ok [[1]])),
  (1, .retrieved (.ok [{ chunk := bareChunk "chk_1", rrfScore := 1 }])),
  (1, .assembled (.ok ("context", []))),
  (1, .answered (.ok { text := "answer" }))]

theorem runsApart_twoTasks : ∃ s, run (step twoTasks) (start twoTasks) twoTasksEvents = some s ∧
    (outcome? twoTasks s).isSome = true ∧ RunsApart twoTasks twoTasksEvents s := by
  refine ⟨_, rfl, rfl, runsApart_run (by decide) ?_ rfl⟩
  simp [twoTasks, PlanTask.Fresh]

/-! ## With services that always answer alike -/

section Services

variable (ex : ParallelExecutor) (s : Services) (llm : Llm) (state : AgenticState)

def raised {α : Type} (reply : Except Exc α) : Except Raised α := reply.mapError .exception

def serve : Call → Reply
  | .embed texts => .embedded (raised (s.embedder texts))
  | .retrieve query qvec filter =>
    .retrieved (raised (ex.retriever.retrieve s.db query qvec filter))
  | .assemble hits => .assembled (raised
      ((Ragx.assemble ex.cfg hits).map fun (context, used) => (context, used.map Citation.ofHit)))
  | .chat req => .answered (raised (llm.chat req))
  | .structured req => .rewritten (raised (llm.structuredRewrite req))

def next (t : TaskRun) : TaskRun :=
  ((t.pending state).bind fun call => t.resume state (serve ex s llm call)).getD t

/-- The result of a task as that of the task as a function. -/
def resultOf (result : Except Exc Ragx.SubAnswer) : Except Raised SubAnswer :=
  raised (result.map fun sub =>
    { answer := sub.answer, citations := sub.cited.map Citation.ofHit })

variable {ex s llm state}

theorem iterate_next_ended (n : ℕ) {t : TaskRun} {result : Except Raised SubAnswer}
    (h : t.stage = .ended result) : (next ex s llm state)^[n] t = t := by
  refine Function.iterate_fixed ?_ n
  simp [next, TaskRun.pending, h]

section OneStep

variable {task : PlanTask} {query : String} {rewritten : Bool} {log : Log}

theorem next_eq {stage stage' : Stage} {task' : PlanTask} {call : Call} {reply : Reply}
    (hcall : TaskRun.pending state ⟨task, stage, log⟩ = some call)
    (hreply : serve ex s llm call = reply)
    (h : resumed task stage reply = some (task', stage')) :
    ∃ log', next ex s llm state ⟨task, stage, log⟩ = ⟨task', stage', log'⟩ := by
  refine ⟨log ++ [(call, reply)], ?_⟩
  rw [next, hcall, Option.bind_some, hreply, TaskRun.resume, hcall]
  simp only [h, bind, Option.bind, pure, Option.getD]

theorem serve_embed {query : String} {reply : Except Exc (List (List ℚ))}
    (h : s.embedder [query] = reply) :
    serve ex s llm (.embed [query]) = .embedded (raised reply) := by rw [serve, h]

theorem next_embedding (ex : ParallelExecutor) (s : Services) (llm : Llm) (state : AgenticState)
    (task : PlanTask) (query : String) (rewritten : Bool) (log : Log) : ∃ log',
    next ex s llm state ⟨task, .embedding query rewritten, log⟩ =
      match s.embedOne query with
      | .error e => ⟨task, .ended (.error (.exception e)), log'⟩
      | .ok qvec => ⟨task, .retrieving query qvec rewritten, log'⟩ := by
  unfold Services.embedOne
  cases hembed : s.embedder [query] with
  | error e => exact next_eq rfl (serve_embed hembed) rfl
  | ok vectors =>
    cases vectors with
    | nil => exact next_eq rfl (serve_embed hembed) rfl
    | cons qvec more => exact next_eq rfl (serve_embed hembed) rfl

theorem next_retrieving (ex : ParallelExecutor) (s : Services) (llm : Llm)
    (hfilter : state.filterExpr = none) (task : PlanTask) (query : String) (qvec : List ℚ)
    (rewritten : Bool) (log : Log) : ∃ log',
    next ex s llm state ⟨task, .retrieving query qvec rewritten, log⟩ =
      match ex.retriever.retrieve s.db query qvec none with
      | .error e => ⟨task, .ended (.error (.exception e)), log'⟩
      | .ok [] =>
        if rewritten then ⟨{ task with noData := true }, .ended (.ok missing), log'⟩
        else ⟨(maybeSeedRetry task).1, (maybeSeedRetry task).2, log'⟩
      | .ok hits => ⟨task, .assembling query hits, log'⟩ := by
  have hserve {reply : Except Exc (List RetrievalHit)}
      (h : ex.retriever.retrieve s.db query qvec none = reply) :
      serve ex s llm (.retrieve query qvec state.filterExpr) = .retrieved (raised reply) := by
    rw [serve, hfilter, h]
  cases hr : ex.retriever.retrieve s.db query qvec none with
  | error e => exact next_eq rfl (hserve hr) rfl
  | ok hits =>
    cases hits with
    | nil =>
      cases rewritten with
      | false => exact next_eq rfl (hserve hr) rfl
      | true => exact next_eq rfl (hserve hr) rfl
    | cons hit hits => exact next_eq rfl (hserve hr) rfl

/-- With hits a task has its answer after two steps. -/
theorem two_steps (hits : List RetrievalHit) :
    ((next ex s llm state)^[2] ⟨task, .assembling query hits, log⟩).stage = .ended (resultOf do
      let (context, used) ← Ragx.assemble ex.cfg hits
      let resp ← llm.chat (answerRequest query context state.kb)
      return { answer := resp.text, cited := used }) := by
  cases ha : Ragx.assemble ex.cfg hits with
  | error e =>
    have hnext : ∃ log', next ex s llm state ⟨task, .assembling query hits, log⟩ =
        ⟨task, .ended (.error (.exception e)), log'⟩ := next_eq rfl (by rw [serve, ha]) rfl
    obtain ⟨log', hnext⟩ := hnext
    rw [Function.iterate_succ_apply, hnext, iterate_next_ended 1 rfl]
    rfl
  | ok assembled =>
    obtain ⟨context, used⟩ := assembled
    have hnext : ∃ log', next ex s llm state ⟨task, .assembling query hits, log⟩ =
        ⟨task, .answering query context (used.map Citation.ofHit), log'⟩ :=
      next_eq rfl (by rw [serve, ha]) rfl
    obtain ⟨log', hnext⟩ := hnext
    rw [Function.iterate_succ_apply, hnext, Function.iterate_one]
    cases hc : llm.chat (answerRequest query context state.kb) with
    | error e =>
      obtain ⟨log'', hlast⟩ : ∃ log'', next ex s llm state
          ⟨task, .answering query context (used.map Citation.ofHit), log'⟩ =
          ⟨task, .ended (.error (.exception e)), log''⟩ := next_eq rfl (by rw [serve, hc]) rfl
      rw [hlast]
      simp only [bind, Except.bind, hc]
      rfl
    | ok resp =>
      obtain ⟨log'', hlast⟩ : ∃ log'', next ex s llm state
          ⟨task, .answering query context (used.map Citation.ofHit), log'⟩ =
          ⟨task, .ended (.ok ⟨resp.text, used.map Citation.ofHit⟩), log''⟩ :=
        next_eq rfl (by rw [serve, hc]) rfl
      rw [hlast]
      simp only [bind, Except.bind, hc]
      rfl

/-- A query has its result after four steps, unless it finds nothing, which two steps show. -/
theorem four_steps (ex : ParallelExecutor) (s : Services) (llm : Llm)
    (hfilter : state.filterExpr = none) (task : PlanTask) (query : String) (rewritten : Bool)
    (log : Log) :
    (∃ result, ex.answerFrom s llm query state.kb = result.map some ∧
      ((next ex s llm state)^[4] ⟨task, .embedding query rewritten, log⟩).stage =
        .ended (resultOf result)) ∨
    ex.answerFrom s llm query state.kb = .ok none ∧ ∃ log',
      (next ex s llm state)^[2] ⟨task, .embedding query rewritten, log⟩ =
        if rewritten then ⟨{ task with noData := true }, .ended (.ok missing), log'⟩
        else ⟨(maybeSeedRetry task).1, (maybeSeedRetry task).2, log'⟩ := by
  unfold ParallelExecutor.answerFrom
  obtain ⟨log₁, hfirst⟩ := next_embedding ex s llm state task query rewritten log
  cases hembed : s.embedOne query with
  | error e =>
    rw [hembed] at hfirst
    refine .inl ⟨.error e, rfl, ?_⟩
    rw [Function.iterate_succ_apply, hfirst, iterate_next_ended 3 rfl]
    rfl
  | ok qvec =>
    rw [hembed] at hfirst
    dsimp only at hfirst
    obtain ⟨log₂, hsecond⟩ := next_retrieving ex s llm hfilter task query qvec rewritten log₁
    cases hr : ex.retriever.retrieve s.db query qvec none with
    | error e =>
      rw [hr] at hsecond
      refine .inl ⟨.error e, by simp only [bind, Except.bind, hr]; rfl, ?_⟩
      rw [Function.iterate_succ_apply, hfirst, Function.iterate_succ_apply, hsecond,
        iterate_next_ended 2 rfl]
      rfl
    | ok hits =>
      rw [hr] at hsecond
      cases hits with
      | nil =>
        refine .inr ⟨by simp only [bind, Except.bind, hr]; rfl, log₂, ?_⟩
        rw [Function.iterate_succ_apply, hfirst, Function.iterate_one, hsecond]
      | cons hit hits =>
        dsimp only at hsecond
        refine .inl ⟨_, ?_, by
          rw [Function.iterate_succ_apply, hfirst, Function.iterate_succ_apply, hsecond]
          exact two_steps _⟩
        simp only [bind, Except.bind, hr]
        cases ha : Ragx.assemble ex.cfg (hit :: hits) with
        | error e => rfl
        | ok assembled =>
          simp only [List.isEmpty_cons, Bool.false_eq_true, if_false]
          cases hc : llm.chat (answerRequest query assembled.1 state.kb) with
          | error e => rfl
          | ok resp => rfl

/-- Step by step, a task comes to the result that it has as a function. -/
theorem seven_steps (hfilter : state.filterExpr = none) (task : PlanTask) :
    ((next ex s llm state)^[7] (.start task)).stage =
      .ended (resultOf (ex.execTask s llm state.kb task.toTask)) := by
  unfold ParallelExecutor.execTask TaskRun.start
  obtain ⟨result, hresult, hended⟩ | ⟨hnone, log', hnext⟩ :=
    four_steps ex s llm hfilter task task.seedQuery false []
  · rw [Function.iterate_add_apply _ 3 4, iterate_next_ended 3 hended, hended, hresult]
    cases result with
    | error e => rfl
    | ok sub => rfl
  · rw [Function.iterate_add_apply _ 5 2, hnext, hnone]
    simp only [bind, Except.bind, Bool.false_eq_true, if_false]
    unfold ParallelExecutor.maybeSeedRetry maybeSeedRetry
    split_ifs with hretries
    · rw [iterate_next_ended 5 rfl]
      rfl
    · cases hrw : llm.structuredRewrite (rewriteRequest task.seedQuery state.kb) with
      | error e =>
        obtain ⟨log₁, hfirst⟩ : ∃ log₁, next ex s llm state
            ⟨{ task with retries := task.retries + 1 }, .rewriting, log'⟩ =
            ⟨{ task with retries := task.retries + 1, noData := true }, .ended (.ok missing),
              log₁⟩ :=
          next_eq rfl (by rw [serve, hrw]) rfl
        rw [Function.iterate_succ_apply, hfirst, iterate_next_ended 4 rfl]
        rfl
      | ok query =>
        obtain ⟨log₁, hfirst⟩ : ∃ log₁, next ex s llm state
            ⟨{ task with retries := task.retries + 1 }, .rewriting, log'⟩ =
            ⟨{ task with retries := task.retries + 1 }, .embedding query true, log₁⟩ :=
          next_eq rfl (by rw [serve, hrw]) rfl
        rw [Function.iterate_succ_apply, hfirst]
        obtain ⟨result, hresult, hended⟩ | ⟨hnone, log', hnext⟩ :=
          four_steps ex s llm hfilter
            { task with retries := task.retries + 1 } query true log₁
        · dsimp only
          rw [hended, hresult]
          cases result with
          | error e => rfl
          | ok sub => rfl
        · dsimp only
          rw [Function.iterate_add_apply _ 2 2, hnext, hnone, if_pos rfl, iterate_next_ended 2 rfl]
          rfl

end OneStep

end Services

end Ragx.Executor
