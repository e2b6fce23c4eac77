import Mathlib.Data.List.Basic
import Ragx.IngestPipeline

/-!
# Calls of one stage

The wrapper around a stage function reads the checkpoint first. Without one it announces the
stage, runs the function, and records what it produced, or counts the failure and tries again.
A stage that has produced ids is skipped from then on. One that has produced none is taken for
one that has not run.
-/
namespace Ragx

/-- The tables of tasks and checkpoints, whatever else a stage function works on, and how often
one has run. -/
structure StageWorld (W : Type) where
  tasks : OrderedDict String IngestTask
  checkpoints : OrderedDict (String × TaskStatus) (List String)
  world : W
  runs : ℕ := 0

/-- The retry settings, with rationals for the floats of the source. -/
structure RetryPolicy where
  maxAttempts : ℕ := 3
  baseDelay : ℚ := 2
  maxDelay : ℚ := 60
  jitter : ℚ := 1 / 5

/-- The delay before the next attempt. From `2 ** 1024` on a power of two has no float. -/
def RetryPolicy.backoff (retry : RetryPolicy) (uniform : ℚ → ℚ → ℚ) (attempt : ℕ) :
    Except Exc ℚ :=
  if 1024 < attempt then .error (.foreign "int too large to convert to float")
  else .ok (min (retry.baseDelay * 2 ^ (attempt - 1)) retry.maxDelay *
    (1 + uniform (-retry.jitter) retry.jitter))

/-- One call of the wrapper, less the task. A stage function may change the world and then
raise; `uniform` is the draw behind each failed attempt. -/
structure CheckpointedStage (W : Type) where
  stage : TaskStatus
  stageFn : IngestTask → W → W × Except Exc (List String)
  retry : RetryPolicy := {}
  uniform : ℕ → ℚ → ℚ → ℚ := fun _ low _ => low

/-- The stores and the caller's task behind a call, and what it returned or raised. -/
structure StageResult (W : Type) where
  after : StageWorld W
  task : IngestTask
  outcome : Except Exc (List String)

namespace StageWorld

variable {W : Type} (w : StageWorld W)

/-- The upsert of the tasks table: it keeps the row's document and knowledge base. -/
def saveTask (task : IngestTask) : StageWorld W :=
  let row : IngestTask :=
    match w.tasks.get? task.taskId with
    | none => task
    | some old => { task with docId := old.docId, kbId := old.kbId }
  { w with tasks := w.tasks.insert task.taskId row }

def saveCheckpoint (taskId : String) (stage : TaskStatus) (producedIds : List String) :
    StageWorld W :=
  { w with checkpoints := w.checkpoints.insert (taskId, stage) producedIds }

def getCheckpoint (taskId : String) (stage : TaskStatus) : Option (List String) :=
  w.checkpoints.get? (taskId, stage)

/-- A stage function has run. -/
def ran (world : W) : StageWorld W := { w with world := world, runs := w.runs + 1 }

end StageWorld

namespace CheckpointedStage

variable {W : Type} (call : CheckpointedStage W)

/-- The task after its stage raised. -/
def failed (task : IngestTask) (e : Exc) : IngestTask :=
  { task with
    attempts := task.attempts + 1
    error := some s!"{e.code}: {e.message}"
    status :=
      if call.retry.maxAttempts ≤ task.attempts + 1 ∨ e.isIngestRetryable = false then .failed
      else task.status }

/-- `if ckpt: return ckpt`: an empty list is no checkpoint. -/
def runStage (task : IngestTask) (w : StageWorld W) : StageResult W :=
  match (w.getCheckpoint task.taskId call.stage).getD [] with
  | id :: ids => ⟨w, task, .ok (id :: ids)⟩
  | [] =>
    let announced : IngestTask := { task with status := call.stage }
    let started := w.saveTask announced
    match call.stageFn announced started.world with
    | (world, .ok produced) =>
      ⟨(started.ran world).saveCheckpoint task.taskId call.stage produced, announced,
        .ok produced⟩
    | (world, .error e) =>
      let task' := call.failed announced e
      let saved := (started.ran world).saveTask task'
      if task'.status = .failed then ⟨saved, task', .error e⟩
      else match call.retry.backoff (call.uniform task'.attempts) task'.attempts with
        | .error e' => ⟨saved, task', .error e'⟩
        | .ok _ => runStage task' saved
termination_by call.retry.maxAttempts - task.attempts
decreasing_by
  rename_i hgoes
  have hleft : ¬ call.retry.maxAttempts ≤ task.attempts + 1 := by
    intro hle
    exact hgoes (if_pos (Or.inl hle))
  show call.retry.maxAttempts - (task.attempts + 1) < call.retry.maxAttempts - task.attempts
  omega

end CheckpointedStage

/-! ## What a call leaves behind -/

namespace StageWorld

variable {W : Type} {w : StageWorld W}

theorem getCheckpoint_saveCheckpoint (taskId taskId' : String) (stage stage' : TaskStatus)
    (producedIds : List String) :
    (w.saveCheckpoint taskId stage producedIds).getCheckpoint taskId' stage' =
      if (taskId, stage) = (taskId', stage') then some producedIds
      else w.getCheckpoint taskId' stage' :=
  OrderedDict.get?_insert w.checkpoints (taskId, stage) (taskId', stage') producedIds

/-- The ids that the wrapper takes for the checkpoint. -/
def completedIds (w : StageWorld W) (taskId : String) (stage : TaskStatus) : List String :=
  (w.getCheckpoint taskId stage).getD []

end StageWorld

namespace CheckpointedStage

variable {W : Type} {call : CheckpointedStage W} {task : IngestTask} {w : StageWorld W}

/-- With a checkpoint, the call only reads it. -/
theorem runStage_of_completed (h : w.completedIds task.taskId call.stage ≠ []) :
    call.runStage task w = ⟨w, task, .ok (w.completedIds task.taskId call.stage)⟩ := by
  rw [runStage]
  unfold StageWorld.completedIds at h ⊢
  split
  · rename_i id ids hids
    rw [hids]
  · rename_i hnil
    exact absurd hnil h

/-- The three ways through a call without a checkpoint. -/
theorem runStage_cases (h : w.completedIds task.taskId call.stage = []) :
    ∃ world started, started = w.saveTask { task with status := call.stage } ∧
      ((∃ produced, call.runStage task w =
          ⟨(started.ran world).saveCheckpoint task.taskId call.stage produced,
            { task with status := call.stage }, .ok produced⟩) ∨
        ∃ e task', task'.taskId = task.taskId ∧ task'.attempts = task.attempts + 1 ∧
          (call.runStage task w = ⟨(started.ran world).saveTask task', task', .error e⟩ ∨
            task'.attempts < call.retry.maxAttempts ∧
              call.runStage task w =
                call.runStage task' ((started.ran world).saveTask task'))) := by
  refine ⟨(call.stageFn { task with status := call.stage } w.world).1, _, rfl, ?_⟩
  rw [runStage]
  unfold StageWorld.completedIds at h
  rw [h]
  have hworld : (w.saveTask { task with status := call.stage }).world = w.world := rfl
  dsimp only
  rw [hworld]
  cases hfn : call.stageFn { task with status := call.stage } w.world with
  | mk world outcome =>
    cases outcome with
    | ok produced => exact Or.inl ⟨produced, rfl⟩
    | error e =>
      dsimp only
      split_ifs with hfailed
      · exact Or.inr ⟨e, call.failed { task with status := call.stage } e, rfl, rfl, Or.inl rfl⟩
      · split
        · rename_i e' _
          exact Or.inr ⟨e', call.failed { task with status := call.stage } e, rfl, rfl,
            Or.inl rfl⟩
        · refine Or.inr ⟨e, call.failed { task with status := call.stage } e, rfl, rfl,
            Or.inr ⟨?_, rfl⟩⟩
          by_contra hle
          exact hfailed (if_pos (Or.inl (not_lt.mp hle)))

/-- What a call leaves of the checkpoints, and what it tells of the stage function. -/
structure Traced (call : CheckpointedStage W) (task : IngestTask) (w : StageWorld W)
    (r : StageResult W) : Prop where
  /-- Other checkpoints stay. -/
  frame : ∀ taskId stage, (taskId, stage) ≠ (task.taskId, call.stage) →
    r.after.getCheckpoint taskId stage = w.getCheckpoint taskId stage
  /-- What is returned is the checkpoint. -/
  recorded : ∀ ids, r.outcome = .ok ids → r.after.completedIds task.taskId call.stage = ids
  /-- Without a checkpoint the stage function runs. -/
  ran : w.completedIds task.taskId call.stage = [] → w.runs < r.after.runs

theorem traced_runStage (call : CheckpointedStage W) (task : IngestTask) (w : StageWorld W) :
    Traced call task w (call.runStage task w) := by
  -- on the attempts that are left
  induction hn : call.retry.maxAttempts - task.attempts using Nat.strong_induction_on
    generalizing task w with
  | _ n ih =>
  by_cases hnone : w.completedIds task.taskId call.stage = []
  · obtain ⟨world, started, rfl, ⟨produced, h⟩ | ⟨e, task', hid, htries, h | ⟨hleft, h⟩⟩⟩ :=
      runStage_cases hnone
    · rw [h]
      refine ⟨fun taskId stage hother => ?_, fun ids hids => ?_, fun _ => Nat.lt_succ_self _⟩
      · rw [StageWorld.getCheckpoint_saveCheckpoint, if_neg (Ne.symm hother)]
        rfl
      · cases hids
        rw [StageWorld.completedIds, StageWorld.getCheckpoint_saveCheckpoint, if_pos rfl]
        rfl
    · rw [h]
      exact ⟨fun _ _ _ => rfl, nofun, fun _ => Nat.lt_succ_self _⟩
    · have hrest := ih (call.retry.maxAttempts - task'.attempts) (by omega) task'
        (((w.saveTask { task with status := call.stage }).ran world).saveTask task') rfl
      rw [h]
      refine ⟨fun taskId stage hother => ?_, fun ids hids => ?_, fun _ => ?_⟩
      · exact hrest.frame taskId stage (hid ▸ hother)
      · exact hid ▸ hrest.recorded ids hids
      · have hmore := hrest.ran (hid ▸ hnone)
        exact Nat.lt_of_succ_lt hmore
  · rw [runStage_of_completed hnone]
    exact ⟨fun _ _ _ => rfl, fun ids hids => Except.ok.inj hids, fun h => absurd h hnone⟩

/-- A checkpoint with ids stays through every call. -/
theorem completedIds_runStage {taskId : String} {stage : TaskStatus}
    (h : w.completedIds taskId stage ≠ []) (call : CheckpointedStage W) (task : IngestTask) :
    (call.runStage task w).after.completedIds taskId stage = w.completedIds taskId stage := by
  by_cases hkey : (taskId, stage) = (task.taskId, call.stage)
  · obtain ⟨rfl, rfl⟩ := Prod.mk.inj hkey
    rw [runStage_of_completed h]
  · rw [StageWorld.completedIds, (traced_runStage call task w).frame taskId stage hkey]
    rfl

/-! ## Later calls -/

/-- Calls one after another, each with the task as its caller has it. -/
def runCalls (calls : List (CheckpointedStage W × IngestTask)) (w : StageWorld W) : StageWorld W :=
  calls.foldl (fun w c => (c.1.runStage c.2 w).after) w

theorem completedIds_runCalls {taskId : String} {stage : TaskStatus}
    (h : w.completedIds taskId stage ≠ []) (calls : List (CheckpointedStage W × IngestTask)) :
    (runCalls calls w).completedIds taskId stage = w.completedIds taskId stage := by
  induction calls generalizing w with
  | nil => rfl
  | cons c calls ih =>
    have hkeep := completedIds_runStage h c.1 c.2
    exact (ih (hkeep ▸ h)).trans hkeep

/-- After any calls, a call for the task and the stage returns the ids and leaves the stores, the
count of runs and the task as they are. -/
def NeverRepeated (taskId : String) (stage : TaskStatus) (ids : List String) (w : StageWorld W) :
    Prop :=
  ∀ (calls : List (CheckpointedStage W × IngestTask)) (later : CheckpointedStage W)
      (task : IngestTask),
    later.stage = stage → task.taskId = taskId →
      later.runStage task (runCalls calls w) = ⟨runCalls calls w, task, .ok ids⟩

/-- A stage that has returned is never repeated exactly if it has returned something. -/
theorem neverRepeated_iff (call : CheckpointedStage W) (task : IngestTask) (w : StageWorld W)
    (ids : List String) (hreturn : (call.runStage task w).outcome = .ok ids) :
    NeverRepeated task.taskId call.stage ids (call.runStage task w).after ↔ ids ≠ [] := by
  have hids := (traced_runStage call task w).recorded ids hreturn
  constructor
  · rintro hnever rfl
    -- the next call runs its function
    have hnext := hnever [] call task rfl rfl
    have hran := (traced_runStage call task (call.runStage task w).after).ran hids
    rw [show call.runStage task (call.runStage task w).after = _ from hnext] at hran
    exact Nat.lt_irrefl _ hran
  · intro hne calls later task' hstage htask
    have hkept := completedIds_runCalls (hids ▸ hne) calls
    rw [hids, ← htask, ← hstage] at hkept
    rw [runStage_of_completed (hkept ▸ hne), hkept]

section Sample

/-- A world of nothing but the count of runs. -/
def blankWorld : StageWorld Unit where
  tasks := .empty
  checkpoints := .empty
  world := ()

def sampleTask : IngestTask where
  taskId := "task_1"
  docId := "doc_1"
  kbId := "kb_1"

/-- A processing stage that produces these ids. -/
def producing (ids : List String) : CheckpointedStage Unit where
  stage := .processing
  stageFn _ world := (world, .ok ids)

theorem outcome_producing (ids : List String) :
    ((producing ids).runStage sampleTask blankWorld).outcome = .ok ids := by
  rw [runStage]
  rfl

theorem neverRepeated_one :
    NeverRepeated "task_1" .processing ["a_1"]
      ((producing ["a_1"]).runStage sampleTask blankWorld).after :=
  (neverRepeated_iff (producing ["a_1"]) sampleTask blankWorld ["a_1"]
    (outcome_producing ["a_1"])).mpr (by decide)

/-- Without a processor the processing stage produces nothing, and the next call runs it again. -/
theorem not_neverRepeated_nothing :
    ((producing []).runStage sampleTask blankWorld).outcome = .ok [] ∧
      ¬ NeverRepeated "task_1" .processing []
        ((producing []).runStage sampleTask blankWorld).after := by
  refine ⟨outcome_producing [], fun hnever => ?_⟩
  have hnext := congrArg (·.after.runs) (hnever [] (producing []) sampleTask rfl rfl)
  have honce : ((producing []).runStage sampleTask blankWorld).after.runs = 1 := by
    rw [runStage]
    rfl
  have htwice : ((producing []).runStage sampleTask
      ((producing []).runStage sampleTask blankWorld).after).after.runs = 2 := by
    rw [runStage, runStage]
    rfl
  exact absurd (htwice.symm.trans (hnext.trans honce)) (by decide)

end Sample

end CheckpointedStage

end Ragx
