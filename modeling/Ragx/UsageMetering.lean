import Ragx.ChatCompletions
import Ragx.EntryPoints
import Ragx.EventRuns
import Ragx.RagTraces

/-!
# Token usage, from the provider to the quota

Providers report the tokens of every call. Each query result starts from an empty
usage instead, the flush of a trace writes it over what the collector has added up,
and the quota reads it from the response. So usage is conserved only in runs in
which the providers report none.
-/
namespace Ragx

/-! ## Requests one after the other -/

structure ChatApp where
  kbCfg : KBConfig
  config : SecurityConfig

/-- A request, with the world that it meets. -/
structure ChatTurn where
  tenantId : Option String := none
  kbAcl : Option (List String) := none
  traceId : String
  clock : QuotaClock
  req : ChatCompletionRequest
  services : Services
  registry : Registry
  /-- What the provider calls report that were made for the i-th call to the model. -/
  reported : ℕ → LlmCall → List TokenUsage

namespace ChatTurn

variable (app : ChatApp) (turn : ChatTurn)

def request : HttpRequest where
  method := "POST"
  path := "/v1/chat/completions"
  tenantId := turn.tenantId

/-- Access, override and query vector, before the service is asked. -/
def admitted : Except Exc (RequestOverride × List ℚ) := do
  requireKbAccess turn.kbAcl turn.req.kbId
  let override ← turn.req.override
  let qvec ← turn.services.embedOne turn.req.query
  return (override, qvec)

def outcome : Except Exc QueryOutcome := do
  let (override, qvec) ← turn.admitted
  (createApp app.kbCfg turn.services turn.registry).query turn.services turn.req.query qvec
    turn.req.kbId turn.traceId override none

def reply : Except Exc ChatReply :=
  (turn.outcome app).map fun out => .ofResult turn.req turn.traceId out.result

/-- What the quota middleware sees. The handler of a foreign exception stands outside of it, and
its body has no usage either. -/
def response : HttpResponse :=
  match turn.reply app with
  | .ok reply => reply.response
  | .error e => { payload := some (errorBody e turn.traceId) }

def calls : List LlmCall :=
  callsAfter turn.admitted fun (override, qvec) =>
    appCalls app.kbCfg turn.services turn.registry turn.req.query qvec turn.req.kbId turn.traceId
      override none

/-- The usages of the provider calls made for the request. -/
def providerUsages : List TokenUsage :=
  ((turn.calls app).mapIdx turn.reported).flatten

def usage : TokenUsage := TokenUsage.sum (turn.providerUsages app)

def savedTraces : List RAGTrace :=
  match turn.admitted, turn.outcome app with
  | .ok (override, qvec), .ok out =>
    appTraces app.kbCfg turn.services turn.registry turn.req.query qvec turn.req.kbId turn.traceId
      override none out.result
  | _, _ => []

/-- Its providers report nothing; where the quota counts, also those of a failed request. -/
def Silent : Prop :=
  ((turn.reply app).isOk → ∀ u ∈ turn.providerUsages app, u = {}) ∧
    (0 < app.config.monthlyTokenQuota → ∀ u ∈ turn.providerUsages app, u.total = 0)

end ChatTurn

/-- The counters, the table of traces, and the tokens that each tenant's requests used up in
each period. -/
structure UsageRun where
  store : QuotaStore
  traces : OrderedDict String RAGTrace := .empty
  spent : String → String → ℕ := fun _ _ => 0

namespace UsageRun

variable (app : ChatApp)

def step (w : UsageRun) (turn : ChatTurn) : Option UsageRun :=
  some {
    store := (app.config.dispatch turn.clock (fun _ => turn.response app) w.store turn.request).1
    traces := (turn.savedTraces app).foldl (fun traces t => traces.insert t.traceId t) w.traces
    spent := fun period tenant => w.spent period tenant +
      if period = turn.clock.periodStart ∧ tenant = turn.request.tenant then (turn.usage app).total
      else 0 }

/-- An answered request's reply and trace hold the usage of its provider calls, and each
tenant's counter of the month what its requests used up. -/
structure Conserves (w : UsageRun) (turn : ChatTurn) (w' : UsageRun) : Prop where
  replied : ∀ reply, turn.reply app = .ok reply → reply.Reports (turn.usage app)
  traced : ∀ reply, turn.reply app = .ok reply →
    ∃ trace, w'.traces.get? turn.traceId = some trace ∧ trace.usage = turn.usage app
  counted : 0 < app.config.monthlyTokenQuota → ∀ tenant,
    (w'.store.usage turn.clock.periodStart tenant).tokens = w'.spent turn.clock.periodStart tenant

/-- The counters are right. -/
def Metered (w : UsageRun) : Prop :=
  0 < app.config.monthlyTokenQuota → ∀ period tenant,
    (w.store.usage period tenant).tokens = w.spent period tenant

end UsageRun

/-! ## One request -/

namespace ChatTurn

variable {app : ChatApp} {turn : ChatTurn}

theorem exists_query {out : QueryOutcome} (h : turn.outcome app = .ok out) :
    ∃ override qvec, turn.admitted = .ok (override, qvec) ∧
      (createApp app.kbCfg turn.services turn.registry).query turn.services turn.req.query qvec
        turn.req.kbId turn.traceId override none = .ok out := by
  unfold outcome at h
  cases ha : turn.admitted with
  | error e =>
    rw [ha] at h
    cases h
  | ok entry =>
    rw [ha] at h
    exact ⟨entry.1, entry.2, rfl, h⟩

/-- An admitted request of the standard route. -/
theorem standard_route (app : ChatApp) {override : RequestOverride} {qvec : List ℚ}
    (ha : turn.admitted = .ok (override, qvec))
    (hroute : routeQuery app.kbCfg.flags (fun _ => false) turn.req.query override ≠ .agentic) :
    turn.outcome app = (standardService app.kbCfg turn.registry).queryStandard turn.services
        turn.req.query qvec turn.req.kbId turn.traceId none ∧
      turn.calls app = (standardService app.kbCfg turn.registry).standardCalls turn.services
        turn.req.query qvec turn.req.kbId turn.traceId none := by
  constructor
  · rw [outcome, ha]
    exact query_of_not_agentic (Or.inr hroute)
  · rw [calls, ha]
    exact appCalls_of_not_agentic (Or.inr hroute)

/-- A reply is made of a result without usage. -/
theorem exists_outcome {reply : ChatReply} (h : turn.reply app = .ok reply) :
    ∃ out, turn.outcome app = .ok out ∧ reply = .ofResult turn.req turn.traceId out.result ∧
      out.result.usage = {} := by
  unfold ChatTurn.reply at h
  cases ho : turn.outcome app with
  | error e =>
    rw [ho] at h
    cases h
  | ok out =>
    rw [ho] at h
    cases h
    obtain ⟨_, _, _, hq⟩ := exists_query ho
    exact ⟨out, rfl, rfl, usage_query hq⟩

/-- What the quota sees of a request is not counted: a stream never is, and a body reports none. -/
theorem countTokens_response (app : ChatApp) (turn : ChatTurn) (store : QuotaStore) :
    app.config.countTokens turn.clock turn.request.tenant (turn.response app) store = store := by
  unfold response
  split
  · rename_i reply hreply
    obtain ⟨out, _, rfl, hused⟩ := exists_outcome hreply
    unfold ChatReply.ofResult
    split_ifs
    · exact app.config.countTokens_stream turn.clock _ _ store
    · have hbody := SecurityConfig.reportedTokens_completionBody turn.req turn.traceId out.result
      rw [hused] at hbody
      exact app.config.countTokens_of_silent turn.clock _ store hbody
  · exact app.config.countTokens_of_silent turn.clock _ store
      (SecurityConfig.reportedTokens_errorBody _ _)

/-- No request changes a counter. -/
theorem dispatch_request (app : ChatApp) (turn : ChatTurn) (store : QuotaStore) :
    (app.config.dispatch turn.clock (fun _ => turn.response app) store turn.request).1 = store := by
  have hpath : "/v1/documents".toList.isSuffixOf "/v1/chat/completions".toList = false := by decide
  have hgate : app.config.gateUpload turn.clock store turn.request = (store, .ok ()) := by
    refine if_neg ?_
    simp only [HttpRequest.isUpload, request, hpath, Bool.and_false, Bool.false_and,
      Bool.false_eq_true, not_false_eq_true]
  unfold SecurityConfig.dispatch
  rw [hgate]
  exact countTokens_response app turn store

theorem get?_savedTraces {reply : ChatReply} (h : turn.reply app = .ok reply)
    (traces : OrderedDict String RAGTrace) :
    ∃ trace, ((turn.savedTraces app).foldl (fun traces t => traces.insert t.traceId t)
      traces).get? turn.traceId = some trace ∧ trace.usage = {} := by
  obtain ⟨out, ho, _, hused⟩ := exists_outcome h
  obtain ⟨override, qvec, ha, _⟩ := exists_query ho
  obtain ⟨front, trace, happ, hid, htrace⟩ := exists_appTraces app.kbCfg turn.services
    turn.registry turn.req.query qvec turn.req.kbId turn.traceId override none out.result
  have hsaved : turn.savedTraces app = front ++ [trace] := by
    rw [savedTraces, ha, ho]
    exact happ
  refine ⟨trace, ?_, htrace.trans hused⟩
  rw [hsaved, List.foldl_append, List.foldl_cons, List.foldl_nil, OrderedDict.get?_insert,
    if_pos hid]

end ChatTurn

/-! ## A run -/

namespace UsageRun

variable {app : ChatApp} {w w' : UsageRun} {turn : ChatTurn}

theorem store_step (h : w.step app turn = some w') : w'.store = w.store := by
  cases h
  exact turn.dispatch_request app w.store

theorem spent_step (h : w.step app turn = some w') (period tenant : String) :
    w'.spent period tenant = w.spent period tenant +
      if period = turn.clock.periodStart ∧ tenant = turn.request.tenant then (turn.usage app).total
      else 0 := by
  cases h
  rfl

/-- A silent request leaves right counters right. -/
theorem metered_step (hw : w.Metered app) (h : w.step app turn = some w')
    (hsilent : turn.Silent app) : w'.Metered app := by
  intro hquota period tenant
  have htotal : (turn.usage app).total = 0 :=
    TokenUsage.total_sum_eq_zero.mpr (hsilent.2 hquota)
  rw [store_step h, spent_step h, htotal, ite_self, Nat.add_zero]
  exact hw hquota period tenant

theorem conserves_of_silent (hw : w.Metered app) (h : w.step app turn = some w')
    (hsilent : turn.Silent app) : w.Conserves app turn w' := by
  have hzero (reply : ChatReply) (hreply : turn.reply app = .ok reply) : turn.usage app = {} :=
    TokenUsage.sum_eq_zero.mpr (hsilent.1 (by rw [hreply]; rfl))
  constructor
  · intro reply hreply
    obtain ⟨out, _, rfl, hused⟩ := ChatTurn.exists_outcome hreply
    rw [ChatReply.reports_ofResult, hused, hzero _ hreply]
    exact ⟨rfl, rfl, rfl⟩
  · intro reply hreply
    obtain ⟨trace, hget, hused⟩ := ChatTurn.get?_savedTraces hreply w.traces
    cases h
    exact ⟨trace, hget, hused.trans (hzero reply hreply).symm⟩
  · exact fun hquota tenant => metered_step hw h hsilent hquota _ tenant

theorem silent_of_conserves (hw : w.Metered app) (h : w.step app turn = some w')
    (hc : w.Conserves app turn w') : turn.Silent app := by
  constructor
  · intro hok
    obtain ⟨reply, hreply⟩ : ∃ reply, turn.reply app = .ok reply := by
      cases hr : turn.reply app with
      | error e =>
        rw [hr] at hok
        cases hok
      | ok reply => exact ⟨reply, rfl⟩
    obtain ⟨trace, hget, hused⟩ := hc.traced reply hreply
    obtain ⟨trace', hget', hused'⟩ := ChatTurn.get?_savedTraces hreply w.traces
    cases h
    obtain rfl : trace = trace' := Option.some.inj (hget.symm.trans hget')
    exact TokenUsage.sum_eq_zero.mp (hused.symm.trans hused')
  · intro hquota
    have hcount := hc.counted hquota turn.request.tenant
    rw [store_step h, spent_step h, if_pos ⟨rfl, rfl⟩,
      hw hquota turn.clock.periodStart turn.request.tenant] at hcount
    have htotal : (turn.usage app).total = 0 := by
      push_cast at hcount
      omega
    exact TokenUsage.total_sum_eq_zero.mp htotal

theorem conserves_step (hw : w.Metered app) (h : w.step app turn = some w') :
    w.Conserves app turn w' ↔ turn.Silent app :=
  ⟨silent_of_conserves hw h, conserves_of_silent hw h⟩

/-- From right counters, usage is conserved exactly as long as the providers of every request
report none. -/
theorem conserves_iff (app : ChatApp) {w : UsageRun} (hw : w.Metered app)
    (turns : List ChatTurn) :
    EveryStep (step app) (Conserves app) w turns ↔ ∀ turn ∈ turns, turn.Silent app := by
  have htotal (w : UsageRun) (turn : ChatTurn) : (w.step app turn).isSome := rfl
  have hstep (w : UsageRun) (turn : ChatTurn) (w' : UsageRun) (hw : w.Metered app)
      (h : w.step app turn = some w') :
      (w.Conserves app turn w' ↔ turn.Silent app) ∧ (turn.Silent app → w'.Metered app) :=
    ⟨conserves_step hw h, metered_step hw h⟩
  exact (everyStep_congr hstep hw).trans (everyStep_iff_forall htotal w turns)

/-- A query with one hit, put to a model that answers, makes one call. -/
theorem standard_answered {s : Services} {llm : Llm} {reg : Registry} {kbCfg : KBConfig}
    {filter : Option FilterExpr} {kb query system user : String} {qvec : List ℚ}
    {h : RetrievalHit} {resp : ChatResponse} (traceId : String) (hllm : s.llm = some llm)
    (hrender : ∀ name overrides values, s.renderForKb name overrides values = .ok (system, user))
    (hchat : ∀ req, llm.chat req = .ok resp) (htokens : h.chunk.tokenCount ≤ 4096)
    (hr : (reg.retriever kbCfg {} kb).retrieve s.db query qvec
      (some (QueryService.excludeCache filter)) = .ok [h]) :
    (∃ out, (standardService kbCfg reg).queryStandard s query qvec kb traceId filter = .ok out) ∧
      (standardService kbCfg reg).standardCalls s query qvec kb traceId filter =
        [.chat (QueryService.generateRequest system user kb traceId)] := by
  obtain ⟨context, hassemble⟩ := assemble_default htokens
  have hretriever : (standardService kbCfg reg).retrieverFor kb = reg.retriever kbCfg {} kb := rfl
  have hcfg : (standardService kbCfg reg).cfg = {} := rfl
  have hgenerate : (standardService kbCfg reg).generate s query context kb traceId =
      .ok resp.text := by
    simp only [QueryService.generate, hrender, Services.chat, hllm, hchat, bind, Except.bind]
    rfl
  constructor
  · simp only [QueryService.queryStandard, hretriever, hr, hcfg, hassemble, hgenerate, bind,
      Except.bind]
    exact ⟨_, rfl⟩
  · simp only [QueryService.standardCalls, hretriever, hr, hcfg, hassemble, callsAfter_ok,
      QueryService.generateCalls, hrender, hllm]
    rfl

def reportingLlm (usage : TokenUsage) : Llm :=
  { answeringLlm with chat := fun _ => .ok { text := "answer", usage } }

/-- One chunk in the default knowledge base, and one provider that answers from it. -/
def oneAnswer (stream : Bool) (usage : TokenUsage) : ChatTurn where
  traceId := "01HZX5K2V8QJ3R7N4T6W9YBCDE"
  clock := { periodStart := "2026-05-01T00:00:00+00:00" }
  req := { messages := [⟨"user", "What is in the report?"⟩], stream, kbId := defaultKb }
  services := (answeringServices plainSqlite 1).withLlm (reportingLlm usage)
  registry := soleRegistry defaultChunk 1 emptyGraph
  reported _ _ := [usage]

theorem oneAnswer_spec (config : SecurityConfig) (stream : Bool) (usage : TokenUsage) :
    ((oneAnswer stream usage).reply { kbCfg := {}, config }).isOk ∧
      (oneAnswer stream usage).providerUsages { kbCfg := {}, config } = [usage] := by
  have hpass : satisfiedBy plainSqlite (some (QueryService.excludeCache none)) defaultChunk =
      true := by
    decide
  obtain ⟨h, hretrieve, hchunk⟩ :=
    (seesOnly_soleRegistry {} defaultChunk 1 emptyGraph).retrieve_dense "What is in the report?"
      hpass
  have htokens : h.chunk.tokenCount ≤ 4096 := by
    rw [hchunk]
    decide
  have hadmitted : (oneAnswer stream usage).admitted = .ok ({}, List.replicate 1 0) := rfl
  have hnot : routeQuery ({} : KBConfig).flags (fun _ => false) "What is in the report?" {} ≠
      .agentic := by
    decide
  obtain ⟨houtcome, hcalls⟩ := ChatTurn.standard_route { kbCfg := {}, config } hadmitted hnot
  obtain ⟨⟨out, hout⟩, hone⟩ := standard_answered (s := (oneAnswer stream usage).services)
    (oneAnswer stream usage).traceId rfl (fun _ _ _ => rfl) (fun _ => rfl) htokens hretrieve
  constructor
  · rw [ChatTurn.reply, houtcome.trans hout]
    rfl
  · rw [ChatTurn.providerUsages, hcalls.trans hone]
    rfl

/-- An application whose tenants may use a thousand tokens a month. -/
def thousandTokens : ChatApp where
  kbCfg := {}
  config := { monthlyTokenQuota := 1000 }

/-- While the provider reports nothing, usage is conserved. -/
theorem conserves_iff_thousandTokens :
    EveryStep (step thousandTokens) (Conserves thousandTokens) { store := .metadata .empty }
      [oneAnswer true {}, oneAnswer false {}] := by
  refine (conserves_iff thousandTokens (fun _ _ _ => rfl) _).mpr ?_
  intro turn hturn
  obtain ⟨stream, rfl⟩ : ∃ stream, turn = oneAnswer stream {} := by
    rcases List.mem_pair.mp hturn with rfl | rfl
    · exact ⟨true, rfl⟩
    · exact ⟨false, rfl⟩
  have husages : (oneAnswer stream {}).providerUsages thousandTokens = [{}] :=
    (oneAnswer_spec thousandTokens.config stream {}).2
  constructor
  · intro _ u hu
    rw [husages] at hu
    exact List.mem_singleton.mp hu
  · intro _ u hu
    rw [husages] at hu
    rw [List.mem_singleton.mp hu]

/-- Ten tokens in and five out for an answer: its reply and its trace say none, in either form,
and no counter has them. -/
theorem not_conserves_fifteenTokens :
    ¬ EveryStep (step thousandTokens) (Conserves thousandTokens) { store := .inMemory .empty }
        [oneAnswer false ⟨10, 5, 15, false⟩] ∧
      ¬ EveryStep (step { kbCfg := {}, config := {} }) (Conserves { kbCfg := {}, config := {} })
        { store := .inMemory .empty } [oneAnswer true ⟨10, 5, 15, false⟩] := by
  have hnot (config : SecurityConfig) (stream : Bool) :
      ¬ EveryStep (step { kbCfg := {}, config }) (Conserves { kbCfg := {}, config })
        { store := .inMemory .empty } [oneAnswer stream ⟨10, 5, 15, false⟩] := by
    intro h
    obtain ⟨hok, husages⟩ := oneAnswer_spec config stream ⟨10, 5, 15, false⟩
    have hsilent := silent_of_conserves (fun _ _ _ => rfl) rfl ((everyStep_cons rfl).mp h).1
    have hzero := hsilent.1 hok ⟨10, 5, 15, false⟩
      (by rw [husages]; exact List.mem_singleton_self _)
    exact absurd hzero (by decide)
  exact ⟨hnot thousandTokens.config false, hnot {} true⟩

end UsageRun

end Ragx
