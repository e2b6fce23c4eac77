import Ragx.StageRetries

/-!
# The task record of a run

A run takes a task through its stages and reads the atoms and the chunks back between them. The
stages write the task record behind their wrapper, and the run writes it once more at its end.
What the stage functions come to is given, in the order in which they run; the atoms, the
descriptions and the chunks reach nothing else.
-/
namespace Ragx

/-- One step of a run: a stage behind its wrapper, or a read between the stages. -/
inductive RunStep where
  | stage (stage : IngestStage)
  | read (raised : Option Exc)

/-- One run of the pipeline: its configuration, the outcomes of the stage functions and the
exceptions of the two reads. -/
structure IngestCall where
  vlmEnabled : Bool
  kgEnabled : Bool
  retry : RetryPolicy := {}
  uniform : ℕ → ℚ → ℚ → ℚ := fun _ low _ => low
  outcomes : ℕ → StageOutcome
  atomsRead : Option Exc := none
  chunksRead : Option Exc := none

/-- The tables and the caller's task behind a run, and whether it raised. -/
structure RunResult where
  after : StageWorld ℕ
  task : IngestTask
  outcome : Except Exc Unit

namespace IngestCall

variable (call : IngestCall)

/-- The world counts the stage functions that have run. -/
def stageCall (stage : IngestStage) : CheckpointedStage ℕ where
  stage := stage.status
  stageFn _ n := (n + 1, call.outcomes n)
  retry := call.retry
  uniform := call.uniform

/-- `_parse`, `_process`, `_chunk`, `_embed` and `_build_kg`. -/
def steps : List RunStep :=
  [.stage .parsing, .read call.atomsRead] ++
    (if call.vlmEnabled then [.stage .processing] else []) ++
    [.stage .chunking, .read call.chunksRead, .stage .embedding] ++
    (if call.kgEnabled then [.stage .kgBuilding] else [])

def runSteps : List RunStep → IngestTask → StageWorld ℕ → RunResult
  | [], task, w => ⟨w, task, .ok ()⟩
  | .stage stage :: rest, task, w =>
    let r := (call.stageCall stage).runStage task w
    match r.outcome with
    | .error e => ⟨r.after, r.task, .error e⟩
    | .ok _ => runSteps rest r.task r.after
  | .read none :: rest, task, w => runSteps rest task w
  | .read (some e) :: _, task, w => ⟨w, task, .error e⟩

/-- The last save of a run that has come through its steps. -/
def finish (r : RunResult) : RunResult :=
  match r.outcome with
  | .error _ => r
  | .ok () =>
    let done : IngestTask := { r.task with status := .done, progress := 1 }
    ⟨r.after.saveTask done, done, .ok ()⟩

def run (task : IngestTask) (w : StageWorld ℕ) : RunResult :=
  finish (call.runSteps call.steps task { w with world := 0 })

end IngestCall

/-- The stored record tells how the run ended. -/
def RunResult.Told (r : RunResult) (taskId : String) : Prop :=
  ∃ row, r.after.tasks.get? taskId = some row ∧
    match r.outcome with
    | .ok () => row.status = .done ∧ row.progress = 1 ∧ row.error = none
    | .error _ => row.status = .failed ∧ ∃ message, message ≠ "" ∧ row.error = some message

/-! ## Outcomes that a run survives -/

/-- The failures among the first `n` outcomes. -/
def failures (outs : ℕ → StageOutcome) (n : ℕ) : ℕ :=
  (List.range n).countP fun i => (outs i).isFailure

/-- A failure is for good or uses up the attempts before the `k` stages have returned, and no
delay before it is too large. -/
def GivesUp (maxAttempts k attempts : ℕ) (outs : ℕ → StageOutcome) : Prop :=
  ∃ i e, outs i = .error e ∧
    (e.isIngestRetryable = false ∨ maxAttempts ≤ attempts + failures outs i + 1) ∧
    i < k + failures outs i ∧ (failures outs i = 0 ∨ attempts + failures outs i ≤ 1024)

/-- The task has no error yet and none of the `k` stages fails. -/
def FirstTry (k : ℕ) (error : Option String) (outs : ℕ → StageOutcome) : Prop :=
  error = none ∧ ∀ i < k, (outs i).isFailure = false

/-- The stages before the first read that raises. -/
def reached : List RunStep → List IngestStage
  | [] => []
  | .stage stage :: rest => stage :: reached rest
  | .read none :: rest => reached rest
  | .read (some _) :: _ => []

def RunStep.isBroken : RunStep → Bool
  | .read (some _) => true
  | _ => false

/-- The number of stages to run before the first read that raises. -/
def pending (taskId : String) (w : StageWorld ℕ) (steps : List RunStep) : ℕ :=
  (reached steps).countP fun stage => (w.completedIds taskId stage.status).isEmpty

namespace IngestCall

variable (call : IngestCall)

/-- The outcomes from the `n`-th on. -/
def outcomesFrom (n i : ℕ) : StageOutcome := call.outcomes (n + i)

/-- The steps end in a failure for good. Else no read raises, and the task comes through without
a failure; or a read raises where a failed task has nothing to run before it. -/
def Clear (steps : List RunStep) (task : IngestTask) (w : StageWorld ℕ) : Prop :=
  GivesUp call.retry.maxAttempts (pending task.taskId w steps) task.attempts
      (call.outcomesFrom w.world) ∨
    if steps.any (·.isBroken) then
      pending task.taskId w steps = 0 ∧ task.status = .failed ∧
        ∃ message, message ≠ "" ∧ task.error = some message
    else FirstTry (pending task.taskId w steps) task.error (call.outcomesFrom w.world)

end IngestCall

theorem failures_succ (outs : ℕ → StageOutcome) (n : ℕ) :
    failures outs (n + 1) =
      failures (fun i => outs (i + 1)) n + if (outs 0).isFailure then 1 else 0 := by
  rw [failures, List.range_succ_eq_map, List.countP_cons, List.countP_map]
  rfl

section Outcomes

variable {m k attempts : ℕ} {outs : ℕ → StageOutcome}

theorem not_givesUp_zero : ¬ GivesUp m 0 attempts outs := by
  rintro ⟨i, e, -, -, hlt, -⟩
  have hle : failures outs i ≤ i := by
    have h := List.countP_le_length (p := fun j => (outs j).isFailure) (l := List.range i)
    rwa [List.length_range] at h
  omega

theorem givesUp_of_ok {ids : List String} (h : outs 0 = .ok ids) :
    GivesUp m (k + 1) attempts outs ↔ GivesUp m k attempts fun i => outs (i + 1) := by
  have hsucc (i : ℕ) : failures outs (i + 1) = failures (fun i => outs (i + 1)) i := by
    rw [failures_succ, h]
    rfl
  constructor
  · rintro ⟨i, e, he, hfatal, hlt, hslept⟩
    cases i with
    | zero =>
      rw [h] at he
      cases he
    | succ i =>
      rw [hsucc] at hfatal hlt hslept
      exact ⟨i, e, he, hfatal, by omega, hslept⟩
  · rintro ⟨i, e, he, hfatal, hlt, hslept⟩
    exact ⟨i + 1, e, he, by rwa [hsucc], by rw [hsucc]; omega, by rwa [hsucc]⟩

theorem failures_succ_of_error {e : Exc} (h : outs 0 = .error e) (i : ℕ) :
    failures outs (i + 1) = failures (fun i => outs (i + 1)) i + 1 := by
  rw [failures_succ, h]
  rfl

theorem givesUp_of_fatal {e : Exc} (h : outs 0 = .error e)
    (hfatal : e.isIngestRetryable = false ∨ m ≤ attempts + 1) :
    GivesUp m (k + 1) attempts outs :=
  ⟨0, e, h, hfatal, Nat.succ_pos k, Or.inl rfl⟩

theorem givesUp_of_retried {e : Exc} (h : outs 0 = .error e)
    (hretried : ¬ (e.isIngestRetryable = false ∨ m ≤ attempts + 1))
    (hnear : attempts + 1 ≤ 1024) :
    GivesUp m (k + 1) attempts outs ↔
      GivesUp m (k + 1) (attempts + 1) fun i => outs (i + 1) := by
  have hsucc := failures_succ_of_error h
  constructor
  · rintro ⟨i, e', he, hfatal, hlt, hslept⟩
    cases i with
    | zero =>
      obtain rfl := Except.error.inj (h.symm.trans he)
      exact absurd hfatal hretried
    | succ i =>
      rw [hsucc] at hfatal hlt hslept
      exact ⟨i, e', he, hfatal.imp_right (by omega), by omega, by omega⟩
  · rintro ⟨i, e', he, hfatal, hlt, hslept⟩
    exact ⟨i + 1, e', he, hfatal.imp_right (by rw [hsucc]; omega), by rw [hsucc]; omega,
      by rw [hsucc]; omega⟩

theorem not_givesUp_of_overflow {e : Exc} (h : outs 0 = .error e)
    (hretried : ¬ (e.isIngestRetryable = false ∨ m ≤ attempts + 1))
    (hfar : 1024 < attempts + 1) : ¬ GivesUp m k attempts outs := by
  rintro ⟨i, e', he, hfatal, -, hslept⟩
  cases i with
  | zero =>
    obtain rfl := Except.error.inj (h.symm.trans he)
    exact hretried hfatal
  | succ i =>
    rw [failures_succ_of_error h] at hslept
    omega

theorem firstTry_of_ok {ids : List String} {error : Option String} (h : outs 0 = .ok ids) :
    FirstTry (k + 1) error outs ↔ FirstTry k error fun i => outs (i + 1) := by
  refine and_congr_right fun _ => ⟨fun hall i hi => hall (i + 1) (by omega), fun hall i hi => ?_⟩
  cases i with
  | zero =>
    rw [h]
    rfl
  | succ i => exact hall i (by omega)

theorem not_firstTry_of_error {e : Exc} {error : Option String} (h : outs 0 = .error e) :
    ¬ FirstTry (k + 1) error outs := by
  rintro ⟨-, hall⟩
  have hzero := hall 0 (Nat.succ_pos k)
  rw [h] at hzero
  cases hzero

end Outcomes

/-! ## One stage of a run -/

theorem IngestStage.status_injective : Function.Injective IngestStage.status := by
  intro s s' h
  cases s <;> cases s' <;> first | rfl | cases h

theorem IngestStage.status_ne_failed (stage : IngestStage) : stage.status ≠ .failed := by
  cases stage <;> decide

theorem errorText_ne (e : Exc) : s!"{e.code}: {e.message}" ≠ "" := by
  intro h
  have hlength := congrArg String.length h
  simp [String.length_append] at hlength

namespace IngestCall

open CheckpointedStage

variable {call : IngestCall} {stage : IngestStage} {task : IngestTask} {w : StageWorld ℕ}
variable {outs : List StageOutcome} {r : StageResult ℕ}

theorem outcomesFrom_succ (call : IngestCall) (n : ℕ) :
    call.outcomesFrom (n + 1) = fun i => call.outcomesFrom n (i + 1) := by
  funext i
  exact congrArg call.outcomes (by omega)

/-- The next outcome, and the count behind it. -/
theorem of_stageFn {task' : IngestTask} {n world : ℕ} {out : StageOutcome}
    (h : (call.stageCall stage).stageFn task' n = (world, out)) :
    call.outcomesFrom n 0 = out ∧
      call.outcomesFrom world = fun i => call.outcomesFrom n (i + 1) := by
  obtain ⟨hworld, hout⟩ := Prod.mk.inj h
  exact ⟨hout, hworld ▸ outcomesFrom_succ call n⟩

/-- After a failure that is not the last one, the wrapper may try again. -/
theorem retried_of_status {e : Exc}
    (h : ((call.stageCall stage).failed ((call.stageCall stage).announced task) e).status ≠
      .failed) :
    ¬ (e.isIngestRetryable = false ∨ call.retry.maxAttempts ≤ task.attempts + 1) := by
  rintro (hfinal | hmax)
  · exact h (failed_status.mpr (Or.inr (Or.inl hfinal)))
  · exact h (failed_status.mpr (Or.inl hmax))

theorem fatal_of_status {e : Exc}
    (h : ((call.stageCall stage).failed ((call.stageCall stage).announced task) e).status =
      .failed) :
    e.isIngestRetryable = false ∨ call.retry.maxAttempts ≤ task.attempts + 1 := by
  rcases failed_status.mp h with hmax | hfinal | hstatus
  · exact Or.inr hmax
  · exact Or.inl hfinal
  · exact absurd hstatus stage.status_ne_failed

/-- A stage that returns takes its outcomes from the run, and leaves the rest to the next. -/
theorem stage_returned (h : Trace (call.stageCall stage) task w outs r) (k : ℕ) :
    ∀ ids, r.outcome = .ok ids →
      r.after.Stored r.task ∧ r.task.taskId = task.taskId ∧ r.task.status = stage.status ∧
      (GivesUp call.retry.maxAttempts (k + 1) task.attempts (call.outcomesFrom w.world) ↔
        GivesUp call.retry.maxAttempts k r.task.attempts (call.outcomesFrom r.after.world)) ∧
      (FirstTry (k + 1) task.error (call.outcomesFrom w.world) ↔
        FirstTry k r.task.error (call.outcomesFrom r.after.world)) := by
  induction h with
  | @returned task w world ids hfn =>
    intro _ _
    obtain ⟨hout, hrest⟩ := of_stageFn hfn
    refine ⟨w.stored_saveTask ((call.stageCall stage).announced task), rfl, rfl, ?_, ?_⟩
    · rw [givesUp_of_ok hout, ← hrest]
      rfl
    · rw [firstTry_of_ok hout, ← hrest]
      rfl
  | gaveUp _ _ => exact nofun
  | overflowed _ _ _ => exact nofun
  | @again task w world e outs r hfn hmore hnear _ ih =>
    intro ids hids
    obtain ⟨hout, hrest⟩ := of_stageFn hfn
    obtain ⟨hstored, hid, hstatus, hgives, hfirst⟩ := ih ids hids
    refine ⟨hstored, hid, hstatus, ?_, iff_of_false (not_firstTry_of_error hout) fun hclean => ?_⟩
    · rw [givesUp_of_retried hout (retried_of_status hmore) (by omega), ← hrest]
      exact hgives
    · cases (hfirst.mpr hclean).1

/-- A stage that raises has given up, or its delay is too large. -/
theorem stage_raised (h : Trace (call.stageCall stage) task w outs r) (k : ℕ) :
    ∀ e, r.outcome = .error e →
      (RunResult.Told ⟨r.after, r.task, .error e⟩ task.taskId ↔
        GivesUp call.retry.maxAttempts (k + 1) task.attempts (call.outcomesFrom w.world)) ∧
      ¬ FirstTry (k + 1) task.error (call.outcomesFrom w.world) := by
  induction h with
  | returned _ => exact nofun
  | @gaveUp task w world e hfn hlast =>
    intro e' _
    obtain ⟨hout, -⟩ := of_stageFn hfn
    obtain ⟨row, hrow, hstatus, -, herror, -⟩ :=
      ((call.stageCall stage).startedWorld task w world).stored_saveTask
        ((call.stageCall stage).failed ((call.stageCall stage).announced task) e)
    refine ⟨iff_of_true ?_ (givesUp_of_fatal hout (fatal_of_status hlast)),
      not_firstTry_of_error hout⟩
    exact ⟨row, hrow, hstatus.trans hlast, _, errorText_ne e, herror⟩
  | @overflowed task w world e e' hfn hmore hfar =>
    intro e'' _
    obtain ⟨hout, -⟩ := of_stageFn hfn
    obtain ⟨row, hrow, hstatus, -⟩ :=
      ((call.stageCall stage).startedWorld task w world).stored_saveTask
        ((call.stageCall stage).failed ((call.stageCall stage).announced task) e)
    refine ⟨iff_of_false ?_ (not_givesUp_of_overflow hout (retried_of_status hmore) hfar),
      not_firstTry_of_error hout⟩
    rintro ⟨row', hrow', hfailed, -⟩
    obtain rfl := Option.some.inj (hrow.symm.trans hrow')
    exact hmore (hstatus.symm.trans hfailed)
  | @again task w world e outs r hfn hmore hnear _ ih =>
    intro e' he'
    obtain ⟨hout, hrest⟩ := of_stageFn hfn
    refine ⟨?_, not_firstTry_of_error hout⟩
    rw [givesUp_of_retried hout (retried_of_status hmore) (by omega), ← hrest]
    exact (ih e' he').1

/-! ## A whole run -/

theorem pending_stage (taskId : String) (w : StageWorld ℕ) (stage : IngestStage)
    (rest : List RunStep) :
    pending taskId w (.stage stage :: rest) =
      pending taskId w rest + if w.completedIds taskId stage.status = [] then 1 else 0 := by
  simp only [pending, reached, List.countP_cons, List.isEmpty_iff]

theorem pending_congr {taskId : String} {w w' : StageWorld ℕ} {steps : List RunStep}
    (h : ∀ stage ∈ reached steps,
      w'.completedIds taskId stage.status = w.completedIds taskId stage.status) :
    pending taskId w' steps = pending taskId w steps :=
  List.countP_congr fun stage hmem => by rw [h stage hmem]

/-- Without a step left, the record says that the task is done, and keeps its error. -/
theorem told_finish_nil (call : IngestCall) (task : IngestTask) (w : StageWorld ℕ) :
    (finish (call.runSteps [] task w)).Told task.taskId ↔ call.Clear [] task w := by
  obtain ⟨row, hrow, hstatus, hprogress, herror, -⟩ :=
    w.stored_saveTask { task with status := .done, progress := 1 }
  have hclear : call.Clear [] task w ↔ task.error = none :=
    ⟨fun h => h.elim (absurd · not_givesUp_zero) (·.1), fun h => Or.inr ⟨h, nofun⟩⟩
  rw [hclear]
  constructor
  · rintro ⟨row', hrow', -, -, herror'⟩
    obtain rfl := Option.some.inj (hrow.symm.trans hrow')
    exact herror.symm.trans herror'
  · exact fun h => ⟨row, hrow, hstatus, hprogress, herror.trans h⟩

/-- A read that raises leaves the record as it is. -/
theorem told_finish_broken (call : IngestCall) (e : Exc) (rest : List RunStep)
    (hstored : w.Stored task) :
    (finish (call.runSteps (.read (some e) :: rest) task w)).Told task.taskId ↔
      call.Clear (.read (some e) :: rest) task w := by
  obtain ⟨row, hrow, hstatus, -, herror, -⟩ := hstored
  constructor
  · rintro ⟨row', hrow', hfailed, message, hne, hmessage⟩
    obtain rfl := Option.some.inj (hrow.symm.trans hrow')
    exact Or.inr ⟨rfl, hstatus.symm.trans hfailed, message, hne, herror.symm.trans hmessage⟩
  · rintro (hgives | ⟨-, hfailed, message, hne, hmessage⟩)
    · exact absurd hgives not_givesUp_zero
    · exact ⟨row, hrow, hstatus.trans hfailed, message, hne, herror.trans hmessage⟩

/-- A stage writes no checkpoint but its own. -/
theorem pending_runStage (call : IngestCall) (task : IngestTask) (w : StageWorld ℕ)
    {stage : IngestStage} {rest : List RunStep} (hnew : stage ∉ reached rest) :
    pending task.taskId ((call.stageCall stage).runStage task w).after rest =
      pending task.taskId w rest := by
  have hframe := traced_runStage (call.stageCall stage) task w
  refine pending_congr fun other hmem => ?_
  have hother : (task.taskId, other.status) ≠ (task.taskId, stage.status) := fun h =>
    hnew (IngestStage.status_injective (Prod.mk.inj h).2 ▸ hmem)
  rw [StageWorld.completedIds, hframe.frame _ _ hother]
  rfl

/-- The record behind the steps tells the outcome exactly if the steps are clear. -/
theorem told_finish_iff (call : IngestCall) (steps : List RunStep) (task : IngestTask)
    (w : StageWorld ℕ) (hn : (reached steps).Nodup) (hstored : w.Stored task) :
    (finish (call.runSteps steps task w)).Told task.taskId ↔ call.Clear steps task w := by
  induction steps generalizing task w with
  | nil => exact told_finish_nil call task w
  | cons step rest ih =>
    match step with
    | .read none => exact ih task w hn hstored
    | .read (some e) => exact told_finish_broken call e rest hstored
    | .stage stage =>
      obtain ⟨hnew, hn⟩ := List.nodup_cons.mp hn
      rw [runSteps]
      unfold Clear
      rw [pending_stage]
      by_cases hdone : w.completedIds task.taskId stage.status = []
      · have htrace := trace_runStage (call.stageCall stage) task w hdone
        rw [if_pos hdone]
        cases hr : ((call.stageCall stage).runStage task w).outcome with
        | error e =>
          obtain ⟨htold, hfirst⟩ := stage_raised htrace (pending task.taskId w rest) e hr
          refine htold.trans ⟨Or.inl, fun h => h.elim id fun h => ?_⟩
          split_ifs at h
          · exact h.1.elim
          · exact absurd h hfirst
        | ok ids =>
          obtain ⟨hstored', hid, hstatus, hgives, hfirst⟩ :=
            stage_returned htrace (pending task.taskId w rest) ids hr
          rw [← hid, ih _ _ hn hstored', Clear, hid, pending_runStage call task w hnew, hgives,
            hfirst]
          refine or_congr_right ?_
          rw [show List.any (RunStep.stage stage :: rest) (·.isBroken) =
            List.any rest (·.isBroken) from rfl]
          split_ifs
          · refine iff_of_false (fun h => ?_) fun h => h.1.elim
            exact stage.status_ne_failed (hstatus.symm.trans h.2.1)
          · exact Iff.rfl
      · rw [runStage_of_completed hdone, if_neg hdone]
        exact ih task w hn hstored

theorem nodup_steps (call : IngestCall) : (reached call.steps).Nodup := by
  unfold steps
  rcases call.atomsRead with _ | _ <;> rcases call.chunksRead with _ | _ <;>
    cases call.vlmEnabled <;> cases call.kgEnabled <;> simp [reached]

/-- One run on a stored task. -/
theorem told_run_iff (call : IngestCall) (task : IngestTask) (w : StageWorld ℕ)
    (hstored : w.Stored task) :
    (call.run task w).Told task.taskId ↔ call.Clear call.steps task { w with world := 0 } :=
  told_finish_iff call call.steps task { w with world := 0 } call.nodup_steps hstored

end IngestCall

/-! ## Runs one after another -/

/-- A run, with the task and the tables that it starts from. -/
structure StartedRun where
  call : IngestCall
  task : IngestTask
  w : StageWorld ℕ

/-- `get_task`: the row is found by its key. -/
def StageWorld.getTask {W : Type} (w : StageWorld W) (taskId : String) : Option IngestTask :=
  (w.tasks.get? taskId).map fun row => { row with taskId := taskId }

/-- The runs on a task, each on the record that the one before it left. -/
def startedRuns (taskId : String) : List IngestCall → StageWorld ℕ → List StartedRun
  | [], _ => []
  | call :: calls, w =>
    match w.getTask taskId with
    | none => []
    | some task => ⟨call, task, w⟩ :: startedRuns taskId calls (call.run task w).after

theorem stored_of_mem_startedRuns {taskId : String} {calls : List IngestCall} {w : StageWorld ℕ}
    {x : StartedRun} (hx : x ∈ startedRuns taskId calls w) :
    x.task.taskId = taskId ∧ x.w.Stored x.task := by
  induction calls generalizing w with
  | nil => cases hx
  | cons call calls ih =>
    rw [startedRuns] at hx
    cases htask : w.getTask taskId with
    | none =>
      rw [htask] at hx
      cases hx
    | some task =>
      rw [htask] at hx
      rcases List.mem_cons.mp hx with rfl | hx
      · obtain ⟨row, hrow, rfl⟩ := Option.map_eq_some_iff.mp htask
        exact ⟨rfl, row, hrow, rfl, rfl, rfl, rfl⟩
      · exact ih hx

/-- After every run the record tells the outcome exactly if every run is clear. -/
theorem told_runs_iff (taskId : String) (calls : List IngestCall) (w : StageWorld ℕ) :
    (∀ x ∈ startedRuns taskId calls w, (x.call.run x.task x.w).Told taskId) ↔
      ∀ x ∈ startedRuns taskId calls w,
        x.call.Clear x.call.steps x.task { x.w with world := 0 } := by
  refine forall₂_congr fun x hx => ?_
  obtain ⟨rfl, hstored⟩ := stored_of_mem_startedRuns hx
  exact x.call.told_run_iff x.task x.w hstored

section Sample

/-- The parser cannot read the document at first; after that every stage returns. -/
def flakyCall : IngestCall where
  vlmEnabled := false
  kgEnabled := false
  outcomes
    | 0 => .error { cls := .ingest, code := 2001, message := "unreadable" }
    | _ => .ok ["id_1"]

/-- The submitted task is stored. -/
def submittedWorld : StageWorld ℕ where
  tasks := OrderedDict.empty.insert "task_1" CheckpointedStage.sampleTask
  checkpoints := .empty
  world := 0

/-- The finished task keeps the error of its first attempt. -/
theorem flakyCall_not_told :
    ¬ ∀ x ∈ startedRuns "task_1" [flakyCall] submittedWorld,
      (x.call.run x.task x.w).Told "task_1" := by
  intro h
  have htold := h ⟨flakyCall, CheckpointedStage.sampleTask, submittedWorld⟩ List.mem_cons_self
  have hclear := (flakyCall.told_run_iff CheckpointedStage.sampleTask submittedWorld
    ⟨CheckpointedStage.sampleTask, rfl, rfl, rfl, rfl, rfl⟩).mp htold
  rcases hclear with ⟨i, e, he, hfatal, -⟩ | hfirst
  · cases i with
    | zero =>
      cases he
      revert hfatal
      decide
    | succ i =>
      rw [IngestCall.outcomesFrom, Nat.zero_add] at he
      cases he
  · have hzero := hfirst.2 0 (by decide)
    cases hzero

end Sample

end Ragx
