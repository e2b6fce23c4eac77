import Ragx.AgenticReplies

/-!
# What the verifier sees

The last stages of an agentic run pass a state on: the sub-answers, and under `context` the answer
that has been put together from them. The verifier is to check that answer against the sub-answers,
and its request has a place for them. The main result says when the request contains them.
-/
namespace Ragx

/-- The state of the graph, as far as the last stages read it. -/
structure GraphState where
  query : String
  kbId : String
  subAnswers : List String := []
  context : String := ""

namespace GraphState

/-- The sub-answers that the answer is put together from. -/
def evidence (state : GraphState) : List String :=
  state.subAnswers.filter fun a => a ≠ "" && a ≠ noData

/-- The executor leaves its results, unless it raises; without evidence the answer is there. -/
def gathered (state : GraphState) (tasks : List TaskRun) : GraphState :=
  match (gather tasks).map tasksResult with
  | some (.ok results) => { state with
      subAnswers := results.map (·.answer)
      context := if (validAnswers results).isEmpty then notFoundAnswer else state.context }
  | _ => state

/-- The answer takes the place of a context. -/
def next (state : GraphState) (phase : RunPhase) : RunEvent → GraphState
  | .gathered =>
    match phase with
    | .executing tasks => state.gathered tasks
    | _ => state
  | .synthesised (.ok resp) => { state with context := resp.text }
  | _ => state

/-- The request of `Verifier.run`. -/
def verifierRequest (state : GraphState) : ChatRequest :=
  verifyRequest state.context state.query "" state.kbId

end GraphState

/-- A run with the state that it passes on. -/
structure StatefulRun where
  run : BudgetedRun
  state : GraphState

namespace AgenticSetup

variable (setup : AgenticSetup)

def stepState (r : StatefulRun) (e : RunEvent) : Option StatefulRun := do
  let run ← setup.step r.run e
  return ⟨run, r.state.next r.run.phase e⟩

def beginState : StatefulRun where
  run := setup.begin
  state := { query := setup.query, kbId := setup.kbId }

/-- The state and the request of a run that has come to its verification. -/
def verification (events : List RunEvent) : Option (GraphState × ChatRequest) := do
  let r ← Ragx.run setup.stepState setup.beginState events
  match r.run.phase with
  | .verifying => some (r.state, r.state.verifierRequest)
  | _ => none

/-- The request has a context, up to its cut, in which each sub-answer stands that the answer has
been put together from. -/
def SeesEvidence (state : GraphState) (request : ChatRequest) : Prop :=
  ∃ context, request = verifyRequest state.context setup.query context setup.kbId ∧
    ∀ a ∈ state.evidence, a.toList <:+: context.toList

end AgenticSetup

/-- The evidence as far as a request can hold it. -/
def GraphState.evidenceCut (state : GraphState) : List Char :=
  (combinedAnswers state.evidence).toList.take 4000

/-! ## The context of a request -/

/-- A verification request tells its contexts apart up to the cut. -/
theorem verifyRequest_inj {answer query context context' kbId : String} :
    verifyRequest answer query context kbId = verifyRequest answer query context' kbId ↔
      context.toList.take 4000 = context'.toList.take 4000 := by
  constructor
  · intro h
    have hmessages := congrArg ChatRequest.messages h
    unfold verifyRequest at hmessages
    dsimp only at hmessages
    have hcontent := congrArg String.toList
      (ChatMessage.mk.inj (List.cons.inj (List.cons.inj hmessages).2).1).2
    simp only [String.toList_append, String.toList_ofList] at hcontent
    exact List.append_cancel_left (List.append_cancel_right (List.append_cancel_right hcontent))
  · intro h
    unfold verifyRequest
    rw [h]

/-! ## What a run keeps -/

namespace AgenticSetup

variable {setup : AgenticSetup}

/-- As long as a task goes on, nothing is put together. -/
theorem resumeTask_ne_synthesising {tasks : List TaskRun} {i : ℕ}
    {next : TaskRun → Option TaskRun} {valid : List String} :
    resumeTask tasks i next ≠ some (.synthesising valid) := by
  intro h
  obtain ⟨t, t', -, -, hp⟩ := resumeTask_eq_some h
  cases hp

/-- The executor's results are put together, as far as they are answers. -/
theorem exists_of_synthesising {run : BudgetedRun} {e : RunEvent} {valid : List String}
    (h : setup.nextPhase run e = some (.synthesising valid)) :
    ∃ tasks results, e = .gathered ∧ run.phase = .executing tasks ∧
      (gather tasks).map tasksResult = some (.ok results) ∧ valid = validAnswers results := by
  cases hphase : run.phase with
  | executing tasks =>
    cases e with
    | gathered =>
      simp only [nextPhase, hphase] at h
      obtain ⟨results, hgather, h⟩ := Option.bind_eq_some_iff.mp h
      refine ⟨tasks, results, rfl, rfl, ?_⟩
      rw [hgather, Option.map_some]
      unfold tasksResult at h ⊢
      split_ifs at h ⊢
      · cases h
      · dsimp only at h
        split_ifs at h
        · cases h
        · exact ⟨rfl, (RunPhase.synthesising.inj (Option.some.inj h)).symm⟩
    | retrieved i =>
      simp only [nextPhase, hphase] at h
      exact absurd h resumeTask_ne_synthesising
    | rewritten i reply usage =>
      simp only [nextPhase, hphase] at h
      exact absurd h resumeTask_ne_synthesising
    | answered i reply =>
      simp only [nextPhase, hphase] at h
      exact absurd h resumeTask_ne_synthesising
    | _ => simp [nextPhase, hphase] at h
  | deciding =>
    cases e with
    | intent reply usage =>
      cases reply with
      | error error => simp [nextPhase, hphase] at h
      | ok decision =>
        simp only [nextPhase, hphase, Option.some.injEq] at h
        split_ifs at h
    | _ => simp [nextPhase, hphase] at h
  | planning =>
    cases e with
    | plan reply usage =>
      cases reply with
      | error error => simp [nextPhase, hphase] at h
      | ok plan =>
        simp only [nextPhase, hphase] at h
        split_ifs at h <;> cases h
    | _ => simp [nextPhase, hphase] at h
  | synthesising valid' =>
    cases e with
    | synthesised reply => cases reply <;> simp [nextPhase, hphase] at h
    | _ => simp [nextPhase, hphase] at h
  | verifying =>
    cases e with
    | verified reply usage =>
      cases reply with
      | error error => simp [nextPhase, hphase] at h
      | ok verdict =>
        simp only [nextPhase, hphase, Option.some.injEq] at h
        split_ifs at h
    | _ => simp [nextPhase, hphase] at h
  | degrading =>
    cases e with
    | degrade =>
      simp only [nextPhase, hphase, Option.some.injEq] at h
      split_ifs at h
    | _ => simp [nextPhase, hphase] at h
  | _ => cases e <;> simp [nextPhase, hphase] at h

/-- The state belongs to the run, and what is put together is its evidence. -/
structure Tracks (setup : AgenticSetup) (r : StatefulRun) : Prop where
  query : r.state.query = setup.query
  kbId : r.state.kbId = setup.kbId
  evidence : ∀ valid, r.run.phase = .synthesising valid → valid = r.state.evidence

theorem next_of_executing {state : GraphState} {tasks : List TaskRun} {results : List SubAnswer}
    (h : (gather tasks).map tasksResult = some (.ok results)) :
    (state.next (.executing tasks) .gathered).evidence = validAnswers results := by
  unfold GraphState.next GraphState.gathered
  dsimp only
  rw [h]
  rfl

/-- The question and the knowledge base stay as they are. -/
theorem next_query (state : GraphState) (phase : RunPhase) (e : RunEvent) :
    (state.next phase e).query = state.query ∧ (state.next phase e).kbId = state.kbId := by
  unfold GraphState.next GraphState.gathered
  constructor <;> split <;> (try split) <;> (try split) <;> rfl

theorem tracks_stepState (r : StatefulRun) (e : RunEvent) (r' : StatefulRun)
    (h : setup.Tracks r) (hstep : setup.stepState r e = some r') : setup.Tracks r' := by
  obtain ⟨run', hrun, hr'⟩ := Option.bind_eq_some_iff.mp hstep
  cases hr'
  obtain ⟨p, hp, hphase, -⟩ := step_eq_some hrun
  obtain ⟨hquery, hkbId⟩ := next_query r.state r.run.phase e
  refine ⟨hquery.trans h.query, hkbId.trans h.kbId, fun valid hvalid => ?_⟩
  rw [← hphase, hvalid] at hp
  obtain ⟨tasks, results, rfl, hexecuting, hresults, rfl⟩ := exists_of_synthesising hp
  rw [hexecuting, next_of_executing hresults]

theorem tracks_run {events : List RunEvent} {r : StatefulRun}
    (h : Ragx.run setup.stepState setup.beginState events = some r) : setup.Tracks r := by
  refine run_invariant tracks_stepState ⟨rfl, rfl, fun valid hvalid => ?_⟩ h
  have hcreated : RunPhase.created = .synthesising valid := hvalid
  exact nomatch hcreated

/-- In every run the request of the verifier is that for an empty context. -/
theorem verification_eq_some {events : List RunEvent} {state : GraphState} {request : ChatRequest}
    (h : setup.verification events = some (state, request)) :
    request = verifyRequest state.context setup.query "" setup.kbId := by
  obtain ⟨r, hrun, hr⟩ := Option.bind_eq_some_iff.mp h
  have htracks := tracks_run hrun
  cases hphase : r.run.phase with
  | verifying =>
    rw [hphase] at hr
    cases hr
    rw [GraphState.verifierRequest, htracks.query, htracks.kbId]
  | _ =>
    rw [hphase] at hr
    exact nomatch hr

/-- Only an empty list of answers stands in an empty context. -/
theorem seesEvidence_iff {state : GraphState} {request : ChatRequest}
    (h : request = verifyRequest state.context setup.query "" setup.kbId) :
    setup.SeesEvidence state request ↔ ∀ a ∈ state.subAnswers, a = "" ∨ a = noData := by
  have hevidence : state.evidence = [] ↔ ∀ a ∈ state.subAnswers, a = "" ∨ a = noData := by
    unfold GraphState.evidence
    rw [List.filter_eq_nil_iff]
    exact forall₂_congr fun a _ => by
      rw [Bool.and_eq_true, decide_eq_true_iff, decide_eq_true_iff, not_and_or, not_not, not_not]
  rw [← hevidence]
  constructor
  · rintro ⟨context, hrequest, hall⟩
    have hcut := verifyRequest_inj.mp (h.symm.trans hrequest)
    have hcontext : context.toList = [] := by
      have hlength := congrArg List.length hcut
      rw [List.length_take, List.length_take] at hlength
      have hempty : "".toList.length = 0 := rfl
      exact List.length_eq_zero_iff.mp (by omega)
    refine List.eq_nil_iff_forall_not_mem.mpr fun a ha => ?_
    have hinfix := hall a ha
    rw [hcontext, List.infix_nil] at hinfix
    have hne : a ≠ "" := by
      have hkept := (List.mem_filter.mp ha).2
      rw [Bool.and_eq_true, decide_eq_true_iff] at hkept
      exact hkept.1
    exact hne (String.toList_inj.mp hinfix)
  · intro hnone
    refine ⟨"", h, ?_⟩
    rw [hnone]
    exact fun a ha => absurd ha List.not_mem_nil

/-- The verifier sees the evidence exactly if there is none, and it is asked the same whenever the
question and the answer are the same. -/
theorem verification_sees_evidence_iff (setup : AgenticSetup) (events : List RunEvent)
    {state : GraphState} {request : ChatRequest}
    (h : setup.verification events = some (state, request)) :
    (setup.SeesEvidence state request ↔ ∀ a ∈ state.subAnswers, a = "" ∨ a = noData) ∧
    ∀ (setup' : AgenticSetup) (events' : List RunEvent) (state' : GraphState)
      (request' : ChatRequest), setup'.verification events' = some (state', request') →
      setup'.query = setup.query → setup'.kbId = setup.kbId → state'.context = state.context →
        ((state'.evidenceCut ≠ state.evidenceCut → request' ≠ request) ↔
          state'.evidenceCut = state.evidenceCut) := by
  have hrequest := verification_eq_some h
  refine ⟨seesEvidence_iff hrequest, ?_⟩
  intro setup' events' state' request' h' hquery hkbId hanswer
  have hsame : request' = request := by
    rw [verification_eq_some h', hrequest, hquery, hkbId, hanswer]
  constructor
  · intro hlaw
    by_contra hne
    exact hlaw hne hsame
  · exact fun heq hne => absurd heq hne

end AgenticSetup

/-! ## A run of an application -/

/-- One task, whose answer is put into a sentence that is verified. -/
def salesRun (answer : String) : List RunEvent :=
  [.start, .intent (.ok { branch := "answer" }) 100, .plan (.ok { tasks := [some "seed"] }) 100,
    .retrieved 0, .answered 0 (.ok { text := answer }), .gathered,
    .synthesised (.ok { text := "Sales rose in 2025." })]

def salesState (answer : String) : GraphState where
  query := "question"
  kbId := "kb_a"
  subAnswers := [answer]
  context := "Sales rose in 2025."

theorem verification_salesRun (answer : String) (hne : answer ≠ "")
    (hdata : answer ≠ noData) :
    (soleSetup {}).verification (salesRun answer) =
      some (salesState answer, (salesState answer).verifierRequest) := by
  obtain ⟨prepared, hprepare⟩ := prepare_soleSetup {}
  have hcap : (soleSetup {}).budgetCap = 100000 := rfl
  have hquery : (soleSetup {}).query = "question" := rfl
  have hkbId : (soleSetup {}).kbId = "kb_a" := rfl
  have hvalid : ∀ cited, validAnswers [{ answer, cited }] = [answer] := by
    simp [validAnswers, hne, hdata]
  rw [hkbId] at hprepare
  generalize soleSetup {} = setup at *
  simp [salesRun, salesState, AgenticSetup.verification, run, AgenticSetup.stepState,
    AgenticSetup.beginState, AgenticSetup.step, AgenticSetup.nextPhase, AgenticSetup.begin,
    GraphState.next, GraphState.gathered, plannedTasks, maxTasks, resumeTask, TaskRun.start,
    TaskRun.retrieved, TaskRun.answered, hprepare, hcap, hquery, hkbId, gather, TaskRun.result?,
    tasksResult, hvalid, Except.map]

/-- Two runs whose sub-answers say opposite things ask the verifier the same. -/
theorem not_seesEvidence_salesRun :
    ∃ rise fall request,
      (soleSetup {}).verification (salesRun "Sales rose by 5%.") = some (rise, request) ∧
      (soleSetup {}).verification (salesRun "Sales fell by 5%.") = some (fall, request) ∧
      rise.context = fall.context ∧ rise.evidenceCut ≠ fall.evidenceCut ∧
      ¬ (soleSetup {}).SeesEvidence rise request ∧ ¬ (soleSetup {}).SeesEvidence fall request := by
  have hrise := verification_salesRun "Sales rose by 5%." (by decide) (by decide)
  have hfall := verification_salesRun "Sales fell by 5%." (by decide) (by decide)
  refine ⟨_, _, _, hrise, hfall, rfl, by decide, fun hsees => ?_, fun hsees => ?_⟩
  · have hnone := (AgenticSetup.seesEvidence_iff (AgenticSetup.verification_eq_some hrise)).mp hsees
    exact absurd (hnone _ List.mem_cons_self) (by decide)
  · have hnone := (AgenticSetup.seesEvidence_iff (AgenticSetup.verification_eq_some hfall)).mp hsees
    exact absurd (hnone _ List.mem_cons_self) (by decide)

theorem AgenticSetup.verification_sees_evidence_iff_sales :
    ((soleSetup {}).SeesEvidence (salesState "Sales rose by 5%.")
        (salesState "Sales rose by 5%.").verifierRequest ↔
      ∀ a ∈ ["Sales rose by 5%."], a = "" ∨ a = noData) :=
  (AgenticSetup.verification_sees_evidence_iff (soleSetup {}) (salesRun "Sales rose by 5%.")
    (verification_salesRun _ (by decide) (by decide))).1

end Ragx
