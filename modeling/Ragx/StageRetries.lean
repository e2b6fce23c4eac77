import Mathlib.Data.List.Count
import Ragx.StageRuns

/-!
# Retries of one stage

A call without a checkpoint runs its stage function until that returns, raises for good or has
used up the attempts. The outcomes of the runs are recorded beside the world. The account of a
call comes out even, unless the delay before the next attempt is itself too large a number.
-/
namespace Ragx

/-- What one run of a stage function comes to. -/
abbrev StageOutcome := Except Exc (List String)

def StageOutcome.isFailure : StageOutcome → Bool
  | .ok _ => false
  | .error _ => true

/-- A failure that the wrapper may try again. -/
def StageOutcome.isRetryable : StageOutcome → Bool
  | .ok _ => false
  | .error e => e.isIngestRetryable

namespace StageWorld

variable {W : Type}

/-- The world without the record of outcomes. -/
def forget (w : StageWorld (W × List StageOutcome)) : StageWorld W where
  tasks := w.tasks
  checkpoints := w.checkpoints
  world := w.world.1
  runs := w.runs

/-- The world with an empty record. -/
def unrecorded (w : StageWorld W) : StageWorld (W × List StageOutcome) where
  tasks := w.tasks
  checkpoints := w.checkpoints
  world := (w.world, [])
  runs := w.runs

/-- The stored task says that it failed, with which error and after how many attempts. -/
def FailedRow (w : StageWorld W) (taskId : String) (e : Exc) (attempts : ℕ) : Prop :=
  ∃ row, w.tasks.get? taskId = some row ∧ row.status = .failed ∧
    row.error = some s!"{e.code}: {e.message}" ∧ row.attempts = attempts

/-- The stored row agrees with the caller's task. -/
def Stored (w : StageWorld W) (task : IngestTask) : Prop :=
  ∃ row, w.tasks.get? task.taskId = some row ∧ row.status = task.status ∧
    row.progress = task.progress ∧ row.error = task.error ∧ row.attempts = task.attempts

theorem stored_saveTask (w : StageWorld W) (task : IngestTask) : (w.saveTask task).Stored task := by
  unfold saveTask
  cases h : w.tasks.get? task.taskId with
  | none =>
    refine ⟨task, ?_, rfl, rfl, rfl, rfl⟩
    dsimp only
    rw [OrderedDict.get?_insert, if_pos rfl]
  | some old =>
    refine ⟨{ task with docId := old.docId, kbId := old.kbId }, ?_, rfl, rfl, rfl, rfl⟩
    dsimp only
    rw [OrderedDict.get?_insert, if_pos rfl]

end StageWorld

def StageResult.forget {W : Type} (r : StageResult (W × List StageOutcome)) : StageResult W :=
  ⟨r.after.forget, r.task, r.outcome⟩

namespace CheckpointedStage

section Account

variable {W : Type} (call : CheckpointedStage W)

/-- The task as the stage function gets it. -/
def announced (task : IngestTask) : IngestTask := { task with status := call.stage }

/-- The same call, with its outcomes appended to a list in the world. -/
def recorded : CheckpointedStage (W × List StageOutcome) where
  stage := call.stage
  stageFn task w :=
    let run := call.stageFn task w.1
    ((run.1, w.2 ++ [run.2]), run.2)
  retry := call.retry
  uniform := call.uniform

/-- The outcomes of the runs of the stage function, in their order. -/
def outcomes (task : IngestTask) (w : StageWorld W) : List StageOutcome :=
  (call.recorded.runStage task w.unrecorded).after.world.2

/-- The account of one call. -/
structure Accounted (task : IngestTask) (w : StageWorld W) : Prop where
  executed : (call.runStage task w).after.runs = w.runs + (call.outcomes task w).length
  bounded : (call.outcomes task w).length ≤ max 1 (call.retry.maxAttempts - task.attempts)
  /-- The attempts count the failed runs. -/
  counted : (call.runStage task w).task.attempts =
    task.attempts + (call.outcomes task w).countP (·.isFailure)
  /-- Only a retryable failure is followed by another run. -/
  retried : ∀ o ∈ (call.outcomes task w).dropLast, o.isRetryable = true
  returned : ∀ ids, (call.runStage task w).outcome = .ok ids →
    (call.runStage task w).after.getCheckpoint task.taskId call.stage = some ids
  raised : ∀ e, (call.runStage task w).outcome = .error e →
    (call.runStage task w).after.FailedRow task.taskId e (call.runStage task w).task.attempts ∧
      (call.runStage task w).after.getCheckpoint task.taskId call.stage = none

/-- The next `n` runs of the stage function all fail retryably. -/
def FailsInARow : ℕ → IngestTask → W → Prop
  | 0, _, _ => True
  | n + 1, task, world =>
    match call.stageFn (call.announced task) world with
    | (_, .ok _) => False
    | (world', .error e) =>
      e.isIngestRetryable = true ∧ FailsInARow n (call.failed (call.announced task) e) world'

/-- The failures go on up to an attempt whose delay is too large, and attempts are left. -/
def BacksOffTooFar (task : IngestTask) (world : W) : Prop :=
  call.stage ≠ .failed ∧ max (task.attempts + 1) 1025 < call.retry.maxAttempts ∧
    call.FailsInARow (max 1 (1025 - task.attempts)) task world

end Account

/-! ## One run of the stage function -/

variable {W : Type} {call : CheckpointedStage W} {task : IngestTask} {w : StageWorld W}

theorem failed_status {e : Exc} : (call.failed task e).status = .failed ↔
    call.retry.maxAttempts ≤ task.attempts + 1 ∨ e.isIngestRetryable = false ∨
      task.status = .failed := by
  simp only [failed]
  split_ifs with h
  · exact iff_of_true rfl (h.imp_right Or.inl)
  · rw [not_or] at h
    exact ⟨fun hstatus => Or.inr (Or.inr hstatus), fun h' => h'.elim (absurd · h.1)
      fun h' => h'.elim (absurd · h.2) id⟩

/-- The rows after the announcement and one run. -/
def startedWorld (call : CheckpointedStage W) (task : IngestTask) (w : StageWorld W) (world : W) :
    StageWorld W :=
  (w.saveTask (call.announced task)).ran world

/-- What happens in a call without a checkpoint: each run, and how the last one ends it. -/
inductive Trace (call : CheckpointedStage W) :
    IngestTask → StageWorld W → List StageOutcome → StageResult W → Prop
  | returned {task w world ids}
      (hfn : call.stageFn (call.announced task) w.world = (world, .ok ids)) :
      Trace call task w [.ok ids]
        ⟨(call.startedWorld task w world).saveCheckpoint task.taskId call.stage ids,
          call.announced task, .ok ids⟩
  | gaveUp {task w world e}
      (hfn : call.stageFn (call.announced task) w.world = (world, .error e))
      (hlast : (call.failed (call.announced task) e).status = .failed) :
      Trace call task w [.error e]
        ⟨(call.startedWorld task w world).saveTask (call.failed (call.announced task) e),
          call.failed (call.announced task) e, .error e⟩
  | overflowed {task w world e e'}
      (hfn : call.stageFn (call.announced task) w.world = (world, .error e))
      (hmore : (call.failed (call.announced task) e).status ≠ .failed)
      (hfar : 1024 < task.attempts + 1) :
      Trace call task w [.error e]
        ⟨(call.startedWorld task w world).saveTask (call.failed (call.announced task) e),
          call.failed (call.announced task) e, .error e'⟩
  | again {task w world e outs r}
      (hfn : call.stageFn (call.announced task) w.world = (world, .error e))
      (hmore : (call.failed (call.announced task) e).status ≠ .failed)
      (hnear : ¬ 1024 < task.attempts + 1)
      (hrest : Trace call (call.failed (call.announced task) e)
        ((call.startedWorld task w world).saveTask (call.failed (call.announced task) e)) outs r) :
      Trace call task w (.error e :: outs) r

/-- The four ways through a call without a checkpoint. -/
theorem runStage_eq (h : w.completedIds task.taskId call.stage = []) :
    call.runStage task w =
      match call.stageFn (call.announced task) w.world with
      | (world, .ok ids) =>
        ⟨(call.startedWorld task w world).saveCheckpoint task.taskId call.stage ids,
          call.announced task, .ok ids⟩
      | (world, .error e) =>
        let task' := call.failed (call.announced task) e
        let saved := (call.startedWorld task w world).saveTask task'
        if task'.status = .failed then ⟨saved, task', .error e⟩
        else if 1024 < task.attempts + 1 then
          ⟨saved, task', .error (.foreign "int too large to convert to float")⟩
        else call.runStage task' saved := by
  unfold StageWorld.completedIds at h
  rw [runStage, h]
  have hworld : (w.saveTask { task with status := call.stage }).world = w.world := rfl
  dsimp only [announced, startedWorld]
  rw [hworld]
  cases hfn : call.stageFn { task with status := call.stage } w.world with
  | mk world outcome =>
    cases outcome with
    | ok ids => rfl
    | error e =>
      dsimp only
      by_cases hlast : (call.failed { task with status := call.stage } e).status = .failed
      · rw [if_pos hlast, if_pos hlast]
      · rw [if_neg hlast, if_neg hlast]
        by_cases hfar : 1024 < task.attempts + 1
        · rw [if_pos hfar, RetryPolicy.backoff,
            if_pos (show 1024 < (call.failed { task with status := call.stage } e).attempts
              from hfar)]
        · rw [if_neg hfar, RetryPolicy.backoff,
            if_neg (show ¬ 1024 < (call.failed { task with status := call.stage } e).attempts
              from hfar)]

theorem failed_recorded (call : CheckpointedStage W) (task : IngestTask) (e : Exc) :
    call.recorded.failed (call.recorded.announced task) e =
      call.failed (call.announced task) e := rfl

/-- Recording the outcomes changes nothing else, and what they record is a trace. -/
theorem trace_recorded (call : CheckpointedStage W) (task : IngestTask)
    (w : StageWorld (W × List StageOutcome)) (h : w.completedIds task.taskId call.stage = []) :
    ∃ outs, (call.recorded.runStage task w).after.world.2 = w.world.2 ++ outs ∧
      (call.recorded.runStage task w).forget = call.runStage task w.forget ∧
      Trace call task w.forget outs (call.runStage task w.forget) := by
  -- on the attempts that are left
  induction hn : call.retry.maxAttempts - task.attempts using Nat.strong_induction_on
    generalizing task w with
  | _ n ih =>
  have hrecorded : call.recorded.runStage task w = _ := runStage_eq h
  have hplain : call.runStage task w.forget = _ := runStage_eq h
  have hrun : call.recorded.stageFn (call.recorded.announced task) w.world =
      (((call.stageFn (call.announced task) w.forget.world).1,
        w.world.2 ++ [(call.stageFn (call.announced task) w.forget.world).2]),
        (call.stageFn (call.announced task) w.forget.world).2) := rfl
  rw [hrun] at hrecorded
  rcases hfn : call.stageFn (call.announced task) w.forget.world with ⟨world, e | ids⟩
  · rw [hfn] at hrecorded hplain
    dsimp only at hrecorded hplain
    rw [failed_recorded] at hrecorded
    by_cases hlast : (call.failed (call.announced task) e).status = .failed
    · rw [if_pos hlast] at hrecorded hplain
      rw [hrecorded, hplain]
      exact ⟨[.error e], rfl, rfl, .gaveUp hfn hlast⟩
    · rw [if_neg hlast] at hrecorded hplain
      by_cases hfar : 1024 < task.attempts + 1
      · rw [if_pos hfar] at hrecorded hplain
        rw [hrecorded, hplain]
        exact ⟨[.error e], rfl, rfl, .overflowed hfn hlast hfar⟩
      · rw [if_neg hfar] at hrecorded hplain
        have hleft : ¬ call.retry.maxAttempts ≤ task.attempts + 1 :=
          fun hle => hlast (failed_status.mpr (Or.inl hle))
        have hattempts : (call.failed (call.announced task) e).attempts = task.attempts + 1 := rfl
        obtain ⟨outs, hlog, hsame, htrace⟩ := ih
          (call.retry.maxAttempts - (call.failed (call.announced task) e).attempts) (by omega)
          (call.failed (call.announced task) e)
          ((call.recorded.startedWorld task w (world, w.world.2 ++ [.error e])).saveTask
            (call.failed (call.announced task) e)) h rfl
        rw [hrecorded, hplain]
        refine ⟨.error e :: outs, ?_, hsame, .again hfn hlast hfar htrace⟩
        exact hlog.trans (List.append_assoc _ _ _)
  · rw [hfn] at hrecorded hplain
    rw [hrecorded, hplain]
    exact ⟨[.ok ids], rfl, rfl, .returned hfn⟩

theorem trace_runStage (call : CheckpointedStage W) (task : IngestTask) (w : StageWorld W)
    (h : w.completedIds task.taskId call.stage = []) :
    Trace call task w (call.outcomes task w) (call.runStage task w) := by
  obtain ⟨outs, hlog, -, htrace⟩ := trace_recorded call task w.unrecorded h
  have houts : call.outcomes task w = outs := hlog
  rw [houts]
  exact htrace

/-! ## The account of a trace -/

namespace Trace

variable {outs : List StageOutcome} {r : StageResult W}

theorem ne_nil (h : Trace call task w outs r) : outs ≠ [] := by
  cases h <;> exact List.cons_ne_nil _ _

theorem runs (h : Trace call task w outs r) : r.after.runs = w.runs + outs.length := by
  induction h with
  | returned _ => rfl
  | gaveUp _ _ => rfl
  | overflowed _ _ _ => rfl
  | again _ _ _ _ ih =>
    rw [ih, List.length_cons]
    exact Nat.add_right_comm _ 1 _

theorem length_le (h : Trace call task w outs r) :
    outs.length ≤ max 1 (call.retry.maxAttempts - task.attempts) := by
  induction h with
  | returned _ => exact le_max_left _ _
  | gaveUp _ _ => exact le_max_left _ _
  | overflowed _ _ _ => exact le_max_left _ _
  | @again task w world e outs r _ hmore _ _ ih =>
    have hleft : ¬ call.retry.maxAttempts ≤ task.attempts + 1 :=
      fun hle => hmore (failed_status.mpr (Or.inl hle))
    have hattempts : (call.failed (call.announced task) e).attempts = task.attempts + 1 := rfl
    rw [hattempts] at ih
    rw [List.length_cons]
    omega

theorem attempts (h : Trace call task w outs r) :
    r.task.attempts = task.attempts + outs.countP (·.isFailure) := by
  induction h with
  | returned _ => rfl
  | gaveUp _ _ => rfl
  | overflowed _ _ _ => rfl
  | @again task w world e outs r _ _ _ _ ih =>
    rw [ih, List.countP_cons_of_pos (show StageOutcome.isFailure (.error e) = true from rfl)]
    exact Nat.add_right_comm _ 1 _

theorem retryable_of_mem_dropLast (h : Trace call task w outs r) :
    ∀ o ∈ outs.dropLast, o.isRetryable = true := by
  induction h with
  | returned _ => exact nofun
  | gaveUp _ _ => exact nofun
  | overflowed _ _ _ => exact nofun
  | @again task w world e outs r _ hmore _ hrest ih =>
    rw [List.dropLast_cons_of_ne_nil hrest.ne_nil]
    intro o ho
    rcases List.mem_cons.mp ho with rfl | ho
    · by_contra hfinal
      exact hmore (failed_status.mpr (Or.inr (Or.inl (Bool.eq_false_iff.mpr hfinal))))
    · exact ih o ho

theorem getCheckpoint_of_ok (h : Trace call task w outs r) :
    ∀ ids, r.outcome = .ok ids → r.after.getCheckpoint task.taskId call.stage = some ids := by
  induction h with
  | returned _ =>
    rintro ids ⟨⟩
    rw [StageWorld.getCheckpoint_saveCheckpoint, if_pos rfl]
  | gaveUp _ _ => exact nofun
  | overflowed _ _ _ => exact nofun
  | again _ _ _ _ ih => exact ih

theorem getCheckpoint_of_error (h : Trace call task w outs r)
    (hnone : w.getCheckpoint task.taskId call.stage = none) :
    ∀ e, r.outcome = .error e → r.after.getCheckpoint task.taskId call.stage = none := by
  induction h with
  | returned _ => exact nofun
  | gaveUp _ _ => exact fun _ _ => hnone
  | overflowed _ _ _ => exact fun _ _ => hnone
  | again _ _ _ _ ih => exact ih hnone

end Trace

/-! ## Delays that are too large -/

/-- A retry brings the call nearer to a delay that is too large, or not. -/
theorem backsOffTooFar_again {world world' : W} {e : Exc}
    (hfn : call.stageFn (call.announced task) world = (world', .error e))
    (hmore : (call.failed (call.announced task) e).status ≠ .failed)
    (hnear : ¬ 1024 < task.attempts + 1) :
    call.BacksOffTooFar task world ↔
      call.BacksOffTooFar (call.failed (call.announced task) e) world' := by
  rw [Ne, failed_status, not_or, not_or, Bool.not_eq_false] at hmore
  have hattempts : (call.failed (call.announced task) e).attempts = task.attempts + 1 := rfl
  have hcount : max 1 (1025 - task.attempts) = max 1 (1025 - (task.attempts + 1)) + 1 := by omega
  unfold BacksOffTooFar
  rw [hattempts, hcount, FailsInARow, hfn]
  dsimp only
  constructor
  · rintro ⟨hstage, hmax, -, hrow⟩
    exact ⟨hstage, by omega, hrow⟩
  · rintro ⟨hstage, hmax, hrow⟩
    exact ⟨hstage, by omega, hmore.2.1, hrow⟩

theorem backsOffTooFar_of_overflow {world world' : W} {e : Exc}
    (hfn : call.stageFn (call.announced task) world = (world', .error e))
    (hmore : (call.failed (call.announced task) e).status ≠ .failed)
    (hfar : 1024 < task.attempts + 1) : call.BacksOffTooFar task world := by
  rw [Ne, failed_status, not_or, not_or, Bool.not_eq_false] at hmore
  have hleft : ¬ call.retry.maxAttempts ≤ task.attempts + 1 := hmore.1
  have hcount : max 1 (1025 - task.attempts) = 1 := by omega
  refine ⟨hmore.2.2, by omega, ?_⟩
  rw [hcount, FailsInARow, hfn]
  exact ⟨hmore.2.1, trivial⟩

/-- Such a failure is not the last one. -/
theorem BacksOffTooFar.fails {world : W} (h : call.BacksOffTooFar task world) :
    ∃ e world', call.stageFn (call.announced task) world = (world', .error e) ∧
      (call.failed (call.announced task) e).status ≠ .failed := by
  obtain ⟨hstage, hmax, hrow⟩ := h
  obtain ⟨n, hn⟩ := Nat.exists_eq_add_of_le' (le_max_left 1 (1025 - task.attempts))
  rw [hn, FailsInARow] at hrow
  rcases hfn : call.stageFn (call.announced task) world with ⟨world', e | ids⟩
  · rw [hfn] at hrow
    refine ⟨e, world', rfl, fun hlast => ?_⟩
    have hattempts : (call.announced task).attempts = task.attempts := rfl
    rcases failed_status.mp hlast with hle | hfinal | hstatus
    · omega
    · exact absurd hrow.1 (Bool.eq_false_iff.mp hfinal)
    · exact hstage hstatus
  · rw [hfn] at hrow
    exact hrow.elim

namespace Trace

variable {outs : List StageOutcome} {r : StageResult W}

theorem failedRow (h : Trace call task w outs r) (hfar : ¬ call.BacksOffTooFar task w.world) :
    ∀ e, r.outcome = .error e → r.after.FailedRow task.taskId e r.task.attempts := by
  induction h with
  | returned _ => exact nofun
  | @gaveUp task w world e hfn hlast =>
    rintro e' ⟨⟩
    obtain ⟨row, hrow, hstatus, -, herror, hattempts⟩ :=
      (call.startedWorld task w world).stored_saveTask (call.failed (call.announced task) e)
    exact ⟨row, hrow, hstatus.trans hlast, herror, hattempts⟩
  | overflowed hfn hmore hlarge => exact absurd (backsOffTooFar_of_overflow hfn hmore hlarge) hfar
  | again hfn hmore hnear _ ih =>
    exact ih fun h => hfar ((backsOffTooFar_again hfn hmore hnear).mpr h)

/-- The stored task does not say that it failed. -/
theorem not_failedRow (h : Trace call task w outs r) (hfar : call.BacksOffTooFar task w.world) :
    ∃ e, r.outcome = .error e ∧ ∀ n, ¬ r.after.FailedRow task.taskId e n := by
  induction h with
  | returned hfn =>
    obtain ⟨e, world', hfail, -⟩ := hfar.fails
    rw [hfn] at hfail
    cases hfail
  | gaveUp hfn hlast =>
    obtain ⟨e, world', hfail, hmore⟩ := hfar.fails
    rw [hfn] at hfail
    cases hfail
    exact absurd hlast hmore
  | @overflowed task w world e e' hfn hmore hlarge =>
    refine ⟨e', rfl, fun n hfailed => ?_⟩
    obtain ⟨row, hrow, hstatus, -⟩ :=
      (call.startedWorld task w world).stored_saveTask (call.failed (call.announced task) e)
    obtain ⟨row', hrow', hfailed, -⟩ := hfailed
    obtain rfl := Option.some.inj (hrow.symm.trans hrow')
    exact hmore (hstatus.symm.trans hfailed)
  | again hfn hmore hnear _ ih => exact ih ((backsOffTooFar_again hfn hmore hnear).mp hfar)

end Trace

/-- The account of a call without a checkpoint comes out even exactly if its failures do not
reach an attempt whose delay is too large. -/
theorem accounted_iff (call : CheckpointedStage W) (task : IngestTask) (w : StageWorld W)
    (h : w.getCheckpoint task.taskId call.stage = none) :
    call.Accounted task w ↔ ¬ call.BacksOffTooFar task w.world := by
  have htrace := trace_runStage call task w (by rw [StageWorld.completedIds, h]; rfl)
  constructor
  · intro haccount hfar
    obtain ⟨e, houtcome, hrow⟩ := htrace.not_failedRow hfar
    exact hrow _ (haccount.raised e houtcome).1
  · intro hfar
    exact {
      executed := htrace.runs
      bounded := htrace.length_le
      counted := htrace.attempts
      retried := htrace.retryable_of_mem_dropLast
      returned := htrace.getCheckpoint_of_ok
      raised := fun e he => ⟨htrace.failedRow hfar e he, htrace.getCheckpoint_of_error h e he⟩ }

section Sample

theorem accounted_sampleTask : (producing ["a_1"]).Accounted sampleTask blankWorld :=
  (accounted_iff (producing ["a_1"]) sampleTask blankWorld rfl).mpr fun h =>
    absurd h.2.1 (by decide)

/-- A parsing stage that always fails, with more attempts than there are delays. -/
def unreadable : CheckpointedStage Unit where
  stage := .parsing
  stageFn _ world := (world, .error { cls := .ingest, code := 2001, message := "unreadable" })
  retry := { maxAttempts := 1026 }

/-- The task has failed 1024 times. -/
def exhaustedTask : IngestTask := { sampleTask with attempts := 1024 }

/-- The next failure leaves the stored task in its parsing stage. -/
theorem not_accounted_exhaustedTask :
    blankWorld.getCheckpoint "task_1" .parsing = none ∧
      ¬ unreadable.Accounted exhaustedTask blankWorld := by
  refine ⟨rfl, fun h => ?_⟩
  have hfar : unreadable.BacksOffTooFar exhaustedTask () :=
    ⟨by decide, by decide, rfl, trivial⟩
  obtain ⟨e, houtcome, hrow⟩ :=
    (trace_runStage unreadable exhaustedTask blankWorld rfl).not_failedRow hfar
  exact hrow _ (h.raised e houtcome).1

end Sample

end CheckpointedStage

end Ragx
