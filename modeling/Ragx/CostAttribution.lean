import Ragx.DailyBudget
import Ragx.LlmCalls

/-!
# Which knowledge base a query is charged to

A router keeps its daily budgets and its cost records by the knowledge base that a request
carries. The main result says for which queries every request carries the queried one, so that
the budgets and the records of all others stay as they are.
-/
namespace Ragx

namespace LlmCall

def request : LlmCall → ChatRequest
  | .chat req | .intent req | .plan req | .rewrite req | .verify req => req

/-- The event of a router that serves the call. -/
def IsServedBy : LlmCall → RouterEvent → Prop
  | .chat req, .chat _ req' => req' = req
  | .intent req, .structured _ req' | .plan req, .structured _ req'
  | .rewrite req, .structured _ req' | .verify req, .structured _ req' => req' = req
  | _, _ => False

theorem eq_request_of_chat {call : LlmCall} {enc : Encounter ChatResponse} {req : ChatRequest}
    (h : call.IsServedBy (.chat enc req)) : req = call.request := by
  cases call with
  | chat _ => exact h
  | intent _ | plan _ | rewrite _ | verify _ => exact h.elim

theorem eq_request_of_structured {call : LlmCall} {enc : Encounter StructuredAnswer}
    {req : ChatRequest} (h : call.IsServedBy (.structured enc req)) : req = call.request := by
  cases call with
  | chat _ => exact h.elim
  | intent _ | plan _ | rewrite _ | verify _ => exact h

def Carries (kbId : String) (call : LlmCall) : Prop := call.request.kbId = kbId

end LlmCall

/-- What a router knows and charges of another knowledge base is the same after the run. -/
structure SameFor (router : ResilientRouter) (kbId : String) (w w' : RouterRun) : Prop where
  cost : ResilientRouter.sumDailyCost w'.state kbId = ResilientRouter.sumDailyCost w.state kbId
  bill : ∀ day, spentOn kbId day w'.bill = spentOn kbId day w.bill
  gate : ∀ (enc : Encounter ChatResponse) (req : ChatRequest), req.kbId = kbId →
    router.checkBudget w'.state enc req = router.checkBudget w.state enc req

/-- All calls carry the knowledge base, and in every run of a router that serves them, in any
order, the other knowledge bases are unaffected. -/
def ChargedTo (kbId : String) (calls : List LlmCall) : Prop :=
  (∀ call ∈ calls, call.Carries kbId) ∧
    ∀ (router : ResilientRouter) (w w' : RouterRun) (events : List RouterEvent),
      (∀ e ∈ events, ∃ call ∈ calls, call.IsServedBy e) →
      run (RouterRun.step router) w events = some w' →
      ∀ other, other ≠ kbId → SameFor router other w w'

theorem SameFor.trans {router : ResilientRouter} {kbId : String} {w w' w'' : RouterRun}
    (h : SameFor router kbId w w') (h' : SameFor router kbId w' w'') :
    SameFor router kbId w w'' where
  cost := h'.cost.trans h.cost
  bill day := (h'.bill day).trans (h.bill day)
  gate enc req hreq := (h'.gate enc req hreq).trans (h.gate enc req hreq)

/-! ## The router -/

namespace RouterRun

variable {router : ResilientRouter} {kbId other : String} {w w' : RouterRun}

theorem sameFor_of_records
    (hcost : ResilientRouter.sumDailyCost w'.state kbId =
      ResilientRouter.sumDailyCost w.state kbId)
    (hbill : ∀ day, spentOn kbId day w'.bill = spentOn kbId day w.bill) :
    SameFor router kbId w w' where
  cost := hcost
  bill := hbill
  gate enc req hreq := by
    unfold ResilientRouter.checkBudget
    rw [hreq, hcost]

theorem spentOn_append_of_ne {bill calls : List ProviderCall} (day : ℤ)
    (h : ∀ call ∈ calls, call.kbId ≠ kbId) :
    spentOn kbId day (bill ++ calls) = spentOn kbId day bill := by
  have hnone : (calls.filter fun call => call.kbId = kbId && utcDay call.time = day) = [] :=
    List.filter_eq_nil_iff.mpr fun call hcall => by simp [h call hcall]
  rw [spentOn, spentOn, List.filter_append, hnone, List.append_nil]

/-- A call is on record and on the bill for the knowledge base that its request carries. -/
theorem sameFor_call {α : Type} {enc : Encounter α} {req : ChatRequest} {out : CallOutcome α}
    {recordOf : ProviderTarget → α → List CostRecord} {call : ProviderTarget → α → ProviderCall}
    (hout : CallCases router w.state enc req recordOf out)
    (hrecord : ∀ target a, ∀ record ∈ recordOf target a, record.kbId = kbId)
    (hcall : ∀ target a, (call target a).kbId = kbId) (hne : other ≠ kbId)
    (hstate : w'.state = out.state) (hbill : w'.bill = w.bill ++ billed out call) :
    SameFor router other w w' := by
  have hbilled : ∀ c ∈ billed out call, c.kbId ≠ other := by
    intro c hc
    unfold billed at hc
    split at hc
    · rw [List.mem_singleton.mp hc, hcall]
      exact hne.symm
    · cases hc
  refine sameFor_of_records ?_ fun day => hbill ▸ spentOn_append_of_ne day hbilled
  rw [hstate]
  have hsame (hrec : out.state.costRecords = w.state.costRecords) :
      ResilientRouter.sumDailyCost out.state other =
        ResilientRouter.sumDailyCost w.state other := by
    rw [ResilientRouter.sumDailyCost, hrec, ResilientRouter.sumDailyCost]
  rcases hout with ⟨hkept, _⟩ | ⟨_, hkept⟩ | ⟨_, _, ⟨hrec, _⟩ | ⟨target, a, _, _, hrec⟩⟩
  · exact hsame hkept.records
  · exact hsame hkept.records
  · exact hsame hrec
  · have hnone : (recordOf target a).filter (·.kbId = other) = [] :=
      List.filter_eq_nil_iff.mpr fun record hmem => by
        simpa [hrecord target a record hmem] using hne.symm
    rw [ResilientRouter.sumDailyCost, hrec, List.filter_append, hnone, List.append_nil,
      ResilientRouter.sumDailyCost]

/-- Serving calls that carry one knowledge base leaves the others as they are. -/
theorem sameFor_step {e : RouterEvent} {calls : List LlmCall}
    (hcalls : ∀ call ∈ calls, call.Carries kbId) (he : ∃ call ∈ calls, call.IsServedBy e)
    (hs : RouterRun.step router w e = some w') (hne : other ≠ kbId) :
    SameFor router other w w' := by
  obtain ⟨call, hcall, hserved⟩ := he
  cases e with
  | chat enc req =>
    have hreq : req.kbId = kbId := by
      rw [LlmCall.eq_request_of_chat hserved]
      exact hcalls call hcall
    simp only [RouterRun.step] at hs
    split_ifs at hs
    cases hs
    exact sameFor_call (chat_cases router w.state enc req)
      (fun target a record hmem => by rw [List.mem_singleton.mp hmem]; exact hreq)
      (fun _ _ => hreq) hne rfl rfl
  | structured enc req =>
    have hreq : req.kbId = kbId := by
      rw [LlmCall.eq_request_of_structured hserved]
      exact hcalls call hcall
    simp only [RouterRun.step] at hs
    split_ifs at hs
    cases hs
    exact sameFor_call (structured_cases router w.state enc req)
      (fun _ _ _ hmem => absurd hmem List.not_mem_nil) (fun _ _ => hreq) hne rfl rfl
  | restart => cases call <;> cases hserved

theorem chargedTo_iff {calls : List LlmCall} :
    ChargedTo kbId calls ↔ ∀ call ∈ calls, call.Carries kbId := by
  refine and_iff_left_of_imp fun hcalls router w w' events hserved hrun other hne => ?_
  induction events generalizing w with
  | nil =>
    cases hrun
    exact sameFor_of_records rfl fun _ => rfl
  | cons e events ih =>
    obtain ⟨w₁, hstep, hrest⟩ := run_cons_eq_some hrun
    rw [List.forall_mem_cons] at hserved
    exact (sameFor_step hcalls hserved.1 hstep hne).trans (ih w₁ hserved.2 hrest)

end RouterRun

/-! ## The calls of a query -/

section Carries

variable {s : Services} {llm : Llm} {query kbId traceId : String}

theorem forall_mem_callsAfter {α : Type*} {x : Except Exc α} {calls : α → List LlmCall}
    {P : LlmCall → Prop} (h : ∀ a, ∀ call ∈ calls a, P call) :
    ∀ call ∈ callsAfter x calls, P call := by
  cases x with
  | error e => exact fun call hcall => absurd hcall List.not_mem_nil
  | ok a => exact h a

theorem carries_standardCalls (svc : QueryService) (qvec : List ℚ) (filter : Option FilterExpr) :
    ∀ call ∈ svc.standardCalls s query qvec kbId traceId filter, call.Carries kbId := by
  refine forall_mem_callsAfter fun hits => ?_
  split_ifs
  · simp
  · refine forall_mem_callsAfter fun assembled => forall_mem_callsAfter fun prompt => ?_
    split_ifs
    · intro call hcall
      rw [List.mem_singleton.mp hcall]
      rfl
    · simp

theorem carries_answerCalls (ex : ParallelExecutor) :
    ∀ call ∈ ex.answerCalls s query kbId, call.Carries kbId := by
  refine forall_mem_callsAfter fun qvec => forall_mem_callsAfter fun hits => ?_
  split_ifs
  · simp
  · refine forall_mem_callsAfter fun assembled call hcall => ?_
    rw [List.mem_singleton.mp hcall]
    rfl

theorem carries_taskCalls (ex : ParallelExecutor) (task : Task) :
    ∀ call ∈ ex.taskCalls s llm kbId task, call.Carries kbId := by
  intro call hcall
  obtain hanswer | hretry := List.mem_append.mp hcall
  · exact carries_answerCalls ex call hanswer
  · refine forall_mem_callsAfter (fun sub => ?_) call hretry
    split_ifs
    · simp
    · intro call hcall
      unfold ParallelExecutor.retryCalls at hcall
      split_ifs at hcall
      · cases hcall
      · obtain rfl | hrest := List.mem_cons.mp hcall
        · rfl
        · exact forall_mem_callsAfter (fun _ => carries_answerCalls ex) call hrest

theorem carries_synthesisCalls (subAnswers : List String) :
    ∀ call ∈ synthesisCalls subAnswers query kbId, call.Carries kbId := by
  unfold synthesisCalls
  dsimp only
  split_ifs
  · simp
  · intro call hcall
    rw [List.mem_singleton.mp hcall]
    rfl

/-- The planner's calls carry the default knowledge base. -/
theorem carries_plannerCalls (graphStore : Option GraphStore) :
    ∀ call ∈ plannerCalls llm graphStore query, call.Carries defaultKb := by
  intro call hcall
  obtain rfl | hrest := List.mem_cons.mp hcall
  · rfl
  · refine forall_mem_callsAfter (fun intent => ?_) call hrest
    split
    · simp
    · intro call hcall
      rw [List.mem_singleton.mp hcall]
      rfl

/-- The calls of an agentic run carry the queried knowledge base, or are the planner's. -/
theorem carries_agenticCalls (o : AgenticOrchestrator) :
    ∀ call ∈ o.agenticCalls s llm query kbId,
      call.Carries kbId ∨ call.Carries defaultKb := by
  intro call hcall
  obtain hgraph | hfallback := List.mem_append.mp hcall
  · obtain hplanner | hrest := List.mem_append.mp hgraph
    · exact .inr (carries_plannerCalls _ call hplanner)
    · refine .inl (forall_mem_callsAfter (fun plan => ?_) call hrest)
      split_ifs
      · simp
      · refine forall_mem_callsAfter fun _ call hcall => ?_
        obtain htasks | hafter := List.mem_append.mp hcall
        · obtain ⟨task, -, htask⟩ := List.mem_flatMap.mp htasks
          exact carries_taskCalls o.executor task call htask
        · refine forall_mem_callsAfter (fun subs call hcall => ?_) call hafter
          obtain hsynthesis | hverify := List.mem_append.mp hcall
          · exact carries_synthesisCalls _ call hsynthesis
          · refine forall_mem_callsAfter (fun answer call hcall => ?_) call hverify
            rw [List.mem_singleton.mp hcall]
            rfl
  · refine .inl ?_
    split at hfallback
    · cases hfallback
    · exact carries_standardCalls _ _ _ call hfallback

end Carries

/-- A query is charged to its own knowledge base alone exactly if that is the default one or the
query does not take the agentic route. -/
theorem chargedTo_appCalls_iff (kbCfg : KBConfig) (s : Services) (reg : Registry) (query : String)
    (qvec : List ℚ) (kbId traceId : String) (override : RequestOverride)
    (filter : Option FilterExpr) :
    ChargedTo kbId (appCalls kbCfg s reg query qvec kbId traceId override filter) ↔
      kbId = defaultKb ∨ s.llm = none ∨
        routeQuery kbCfg.flags (fun _ => false) query override ≠ .agentic := by
  rw [RouterRun.chargedTo_iff]
  by_cases hstandard : s.llm = none ∨
      routeQuery kbCfg.flags (fun _ => false) query override ≠ .agentic
  · rw [appCalls_of_not_agentic hstandard]
    exact iff_of_true (carries_standardCalls _ qvec filter) (.inr hstandard)
  · rw [or_iff_left hstandard]
    obtain ⟨hsome, hroute⟩ := not_or.mp hstandard
    obtain ⟨llm, hllm⟩ := Option.ne_none_iff_exists'.mp hsome
    rw [appCalls_of_agentic hllm (not_not.mp hroute)]
    constructor
    · intro h
      exact (h _ (List.mem_append_left _ (List.mem_append_left _ List.mem_cons_self))).symm
    · rintro rfl call hcall
      exact (carries_agenticCalls _ call hcall).elim id id

/-- The planner of an agentic query for `kb_a` is charged to the default knowledge base. -/
theorem agenticQuery_not_chargedTo :
    ¬ ChargedTo "kb_a" (appCalls { flags := { agenticEnabled := true } }
      (answeringServices plainSqlite 1) (soleRegistry defaultChunk 1 emptyGraph) "question" [0]
      "kb_a" "trace-1" { mode := some .agentic } none) := by
  intro h
  have hintent : defaultKb = "kb_a" :=
    h.1 (.intent (planRequest intentPrompt "question")) (.head _)
  exact absurd hintent (by decide)

end Ragx
