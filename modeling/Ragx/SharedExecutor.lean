import Ragx.AgenticTasks
import Ragx.EventRuns

/-!
# One executor for all requests

The application has one executor, and each agentic request runs its tasks on it. A counter on the
executor is set to zero when a run starts and is read when it ends. The main result says
when what a run reads is what its own calls have used.
-/
namespace Ragx

/-- A run that has not ended, with what the calls for its tasks have used. -/
structure ExecutorRun where
  kbId : String
  tasks : List TaskRun
  ownUsage : ℕ := 0

structure SharedExecutor where
  usageTotal : ℕ := 0
  runs : OrderedDict ℕ ExecutorRun := .empty

/-- Starts and ends of runs, and what their tasks wait for. A rewrite comes with the usage that
its provider meters; an answer reports its own. -/
inductive ExecutorEvent where
  | start (r : ℕ) (kbId : String) (tasks : List Task)
  | retrieved (r i : ℕ)
  | rewritten (r i : ℕ) (reply : Except Exc String) (usage : ℕ)
  | answered (r i : ℕ) (reply : Except Exc ChatResponse)
  | finish (r : ℕ)

/-- A task of the run goes on, after a call that has used so much. -/
def ExecutorRun.advance (run : ExecutorRun) (i : ℕ) (next : TaskRun → Option TaskRun)
    (usage : ℕ) : Option ExecutorRun := do
  let t ← run.tasks[i]?
  let t ← next t
  return { run with tasks := run.tasks.set i t, ownUsage := run.ownUsage + usage }

namespace SharedExecutor

/-- `run` without tasks returns at once; with tasks it resets the counter, and ends when all of
them have. Only answers are counted. -/
def step (prepare : Prepare) (sh : SharedExecutor) : ExecutorEvent → Option SharedExecutor
  | .start r kbId tasks =>
    if (sh.runs.get? r).isSome then none
    else if tasks.isEmpty then some sh
    else some { usageTotal := 0, runs := sh.runs.insert r ⟨kbId, tasks.map .start, 0⟩ }
  | .retrieved r i => do
    let run ← sh.runs.get? r
    let run ← run.advance i (·.retrieved prepare run.kbId) 0
    return { sh with runs := sh.runs.insert r run }
  | .rewritten r i reply usage => do
    let run ← sh.runs.get? r
    let run ← run.advance i (·.rewritten reply) usage
    return { sh with runs := sh.runs.insert r run }
  | .answered r i reply => do
    let run ← sh.runs.get? r
    let run ← run.advance i (·.answered reply) (replyUsage reply)
    return { usageTotal := sh.usageTotal + replyUsage reply, runs := sh.runs.insert r run }
  | .finish r => do
    let run ← sh.runs.get? r
    let _ ← gather run.tasks
    return { sh with runs := sh.runs.erase r }

/-- What a run adds to the budget of its state when it ends, unless it raises. -/
def budgetAdded (sh : SharedExecutor) (run : ExecutorRun) : Option ℕ :=
  match (gather run.tasks).map tasksResult with
  | some (.ok _) => some sh.usageTotal
  | _ => none

/-- A run that ends adds what the calls for its own tasks have used. -/
def AddsOwnUsage (sh : SharedExecutor) : ExecutorEvent → Prop
  | .finish r => ∀ run added, sh.runs.get? r = some run → sh.budgetAdded run = some added →
      added = run.ownUsage
  | _ => True

/-- A run starts only while no other has used anything, an answer that has used something comes
only if no other run is going on, and rewrites use nothing. -/
def Undisturbed (sh : SharedExecutor) : ExecutorEvent → Prop
  | .start _ _ tasks => tasks ≠ [] → ∀ r run, sh.runs.get? r = some run → run.ownUsage = 0
  | .rewritten _ _ _ usage => usage = 0
  | .answered r _ reply => replyUsage reply = 0 ∨ ∀ r', (sh.runs.get? r').isSome → r' = r
  | _ => True

/-- The counter is what each of the runs has used. -/
def CounterExact (sh : SharedExecutor) : Prop :=
  ∀ r run, sh.runs.get? r = some run → run.ownUsage = sh.usageTotal

variable {prepare : Prepare} {sh sh' : SharedExecutor}

theorem ownUsage_advance {run run' : ExecutorRun} {i usage : ℕ}
    {next : TaskRun → Option TaskRun} (h : run.advance i next usage = some run') :
    run'.ownUsage = run.ownUsage + usage := by
  obtain ⟨t, -, h⟩ := Option.bind_eq_some_iff.mp h
  obtain ⟨t', -, h⟩ := Option.bind_eq_some_iff.mp h
  cases h
  rfl

/-- A run's own call leaves the counter exact if both have counted the same, and if no other run
is there to see a usage. -/
theorem counterExact_insert_iff (h : sh.CounterExact) {r : ℕ} {run run' : ExecutorRun}
    (hrun : sh.runs.get? r = some run) (own counted : ℕ)
    (hown : run'.ownUsage = run.ownUsage + own) :
    CounterExact { usageTotal := sh.usageTotal + counted, runs := sh.runs.insert r run' } ↔
      own = counted ∧ (counted = 0 ∨ ∀ r', (sh.runs.get? r').isSome → r' = r) := by
  have hsame := h r run hrun
  simp only [CounterExact, OrderedDict.get?_insert]
  constructor
  · intro h'
    have hself := h' r run' (if_pos rfl)
    refine ⟨by omega, or_iff_not_imp_left.mpr fun hne r' hr' => ?_⟩
    by_contra hother
    obtain ⟨other, hget⟩ := Option.isSome_iff_exists.mp hr'
    have hseen := h' r' other (by rw [if_neg (Ne.symm hother), hget])
    have hwas := h r' other hget
    omega
  · rintro ⟨rfl, hquiet⟩ r' other hget
    split_ifs at hget with hr
    · cases hget
      omega
    · obtain hzero | halone := hquiet
      · rw [h r' other hget, hzero, Nat.add_zero]
      · exact absurd (halone r' (by rw [hget]; rfl)).symm hr

/-- The counter stays exact exactly through undisturbed steps. -/
theorem counterExact_step_iff (h : sh.CounterExact) {e : ExecutorEvent}
    (hs : sh.step prepare e = some sh') : sh'.CounterExact ↔ sh.Undisturbed e := by
  cases e with
  | start r kbId tasks =>
    simp only [step] at hs
    split_ifs at hs with hbusy hempty
    · cases hs
      exact iff_of_true h fun hne => absurd (List.isEmpty_iff.mp hempty) hne
    · cases hs
      simp only [CounterExact, OrderedDict.get?_insert]
      constructor
      · intro h' _ r' run hget
        refine h' r' run ?_
        rw [if_neg, hget]
        rintro rfl
        exact hbusy (by rw [hget]; rfl)
      · intro hunused r' run hget
        split_ifs at hget
        · cases hget
          rfl
        · exact hunused (fun hnil => hempty (List.isEmpty_iff.mpr hnil)) r' run hget
  | retrieved r i =>
    obtain ⟨run, hrun, hs⟩ := Option.bind_eq_some_iff.mp hs
    obtain ⟨run', hrun', hs⟩ := Option.bind_eq_some_iff.mp hs
    cases hs
    exact (counterExact_insert_iff h hrun 0 0 (ownUsage_advance hrun')).trans
      (iff_of_true ⟨rfl, .inl rfl⟩ trivial)
  | rewritten r i reply usage =>
    obtain ⟨run, hrun, hs⟩ := Option.bind_eq_some_iff.mp hs
    obtain ⟨run', hrun', hs⟩ := Option.bind_eq_some_iff.mp hs
    cases hs
    exact (counterExact_insert_iff h hrun usage 0 (ownUsage_advance hrun')).trans
      (and_iff_left (.inl rfl))
  | answered r i reply =>
    obtain ⟨run, hrun, hs⟩ := Option.bind_eq_some_iff.mp hs
    obtain ⟨run', hrun', hs⟩ := Option.bind_eq_some_iff.mp hs
    cases hs
    exact (counterExact_insert_iff h hrun _ _ (ownUsage_advance hrun')).trans
      (and_iff_right rfl)
  | finish r =>
    obtain ⟨run, -, hs⟩ := Option.bind_eq_some_iff.mp hs
    obtain ⟨results, -, hs⟩ := Option.bind_eq_some_iff.mp hs
    cases hs
    refine iff_of_true (fun r' other hget => h r' other ?_) trivial
    rw [OrderedDict.erase, OrderedDict.get?_filterKeys] at hget
    split_ifs at hget
    exact hget

theorem addsOwnUsage_of_counterExact (h : sh.CounterExact) (e : ExecutorEvent) :
    sh.AddsOwnUsage e := by
  cases e with
  | finish r =>
    intro run added hrun hadded
    unfold budgetAdded at hadded
    split at hadded
    · cases hadded
      exact (h r run hrun).symm
    · cases hadded
  | start _ _ _ | retrieved _ _ | rewritten _ _ _ _ | answered _ _ _ => trivial

/-- In a history whose steps are all undisturbed, every run that ends adds to its budget what its
own calls have used. -/
theorem addsOwnUsage_of_undisturbed (prepare : Prepare) {events : List ExecutorEvent}
    (h : EveryStep (step prepare) (fun sh e _ => sh.Undisturbed e) {} events) :
    EveryStep (step prepare) (fun sh e _ => sh.AddsOwnUsage e) {} events := by
  refine EveryStep.of_invariant (I := CounterExact) (fun sh e sh' hexact hs hguard => ?_) ?_ h
  · exact ⟨addsOwnUsage_of_counterExact hexact e, (counterExact_step_iff hexact hs).mpr hguard⟩
  · intro r run hget
    cases hget

/-! ## Two runs -/

/-- One task of a run, from its start to its answer. -/
def oneTask (r tokens : ℕ) : List ExecutorEvent :=
  [.start r "kb_a" [{ seedQuery := "question" }], .retrieved r 0, .answered r 0 (answerOf tokens)]

theorem addsOwnUsage_of_undisturbed_inTurn :
    EveryStep (step foundAlways) (fun sh e _ => sh.AddsOwnUsage e) {}
      (oneTask 0 10 ++ [.finish 0] ++ oneTask 1 5 ++ [.finish 1]) := by
  refine addsOwnUsage_of_undisturbed foundAlways
    ⟨?_, trivial, ?_, trivial, ?_, trivial, ?_, trivial, trivial⟩
  · intro _ r run hget
    cases hget
  · refine .inr fun r' hr' => ?_
    cases r' with
    | zero => rfl
    | succ r' => cases hr'
  · intro _ r run hget
    cases r with
    | zero => cases hget
    | succ r => cases hget
  · refine .inr fun r' hr' => ?_
    match r' with
    | 0 => cases hr'
    | 1 => rfl
    | r' + 2 => cases hr'

theorem overlapping_not_addsOwnUsage :
    ¬ EveryStep (step foundAlways) (fun sh e _ => sh.AddsOwnUsage e) {}
      [.start 0 "kb_a" [{ seedQuery := "question" }], .start 1 "kb_a" [{ seedQuery := "question" }],
        .retrieved 0 0, .retrieved 1 0, .answered 0 0 (answerOf 10), .answered 1 0 (answerOf 5),
        .finish 0] := by
  rintro ⟨-, -, -, -, -, -, hfinish, -⟩
  exact absurd (hfinish _ 15 rfl rfl) (by decide)

end SharedExecutor

end Ragx
