import Ragx.App
import Ragx.QuotaMiddleware

/-!
# The chat completion route

A reply reports the usage of the query's result, in the body or in one of the events of a stream.
No result of the application has any, and the quota reads a body only.
-/
namespace Ragx

/-! ## The route -/

structure ChatCompletionRequest where
  model : Option String := none
  messages : List ChatMessage := []
  stream : Bool := true
  kbId : String
  /-- What `RequestOverride.from_dict` makes of the overrides. -/
  override : Except Exc RequestOverride := .ok {}

def ChatCompletionRequest.query (req : ChatCompletionRequest) : String :=
  match req.messages.getLast? with
  | some message => message.content
  | none => ""

def QueryMode.value : QueryMode → String
  | .fast => "fast"
  | .standard => "standard"
  | .agentic => "agentic"

def Citation.modelDump (c : Citation) : Json :=
  .obj [("chunk_id", .str c.chunkId), ("doc_id", .str c.docId), ("filename", .str c.filename),
    ("page", match c.page with
      | some page => .num page
      | none => .null),
    ("snippet", .str c.snippet), ("score", .num c.score)]

/-- The total stands under another key in a stream. -/
def usageBlock (totalKey : String) (u : TokenUsage) : Json :=
  .obj [("prompt_tokens", .num u.promptTokens), ("completion_tokens", .num u.completionTokens),
    (totalKey, .num u.total)]

def completionBody (req : ChatCompletionRequest) (traceId : String) (result : QueryResult) : Json :=
  .obj [
    ("id", .str ("chatcmpl-" ++ traceId)),
    ("object", .str "chat.completion"),
    ("model", .str (match req.model with
      | some model => if model = "" then "ragx-default" else model
      | none => "ragx-default")),
    ("choices", .arr [.obj [
      ("index", .num 0),
      ("message", .obj [("role", .str "assistant"), ("content", .str result.answer)]),
      ("finish_reason", .str "stop")]]),
    ("usage", usageBlock "total_tokens" result.usage),
    ("ragx", .obj [
      ("mode", .str result.mode.value),
      ("citations", .arr (result.citations.map Citation.modelDump)),
      ("cost_usd", .num result.costUsd),
      ("degraded", .bool result.degraded),
      ("trace_id", .str traceId)])]

/-- The events before `[DONE]`. -/
def streamEvents (result : QueryResult) : List (String × Json) :=
  [("role", .obj [("role", .str "assistant")]),
    ("content", .obj [("delta", .str result.answer)]),
    ("ragx.citations", .obj [("citations", .arr (result.citations.map Citation.modelDump))]),
    ("ragx.usage", .obj [
      ("usage", usageBlock "total" result.usage),
      ("cost_usd", .num result.costUsd),
      ("mode", .str result.mode.value),
      ("degraded", .bool result.degraded)])]

inductive ChatReply where
  | completion (body : Json)
  | stream (events : List (String × Json))

namespace ChatReply

def ofResult (req : ChatCompletionRequest) (traceId : String) (result : QueryResult) : ChatReply :=
  if req.stream then .stream (streamEvents result)
  else .completion (completionBody req traceId result)

/-- The reply gives these counts as the usage of the request. -/
def Reports (u : TokenUsage) : ChatReply → Prop
  | .completion body => body.member? "usage" = some (usageBlock "total_tokens" u)
  | .stream events => (OrderedDict.lookupIn "ragx.usage" events).bind (Json.member? "usage") =
      some (usageBlock "total" u)

def response : ChatReply → HttpResponse
  | .completion body => { payload := some body }
  | .stream _ => { contentType := "text/event-stream; charset=utf-8" }

end ChatReply

/-- The envelope of an error; what is not of the tree keeps its message to itself. -/
def errorBody (e : Exc) (traceId : String) : Json :=
  if e.cls = .foreign then
    .obj [("error", .obj [("code", .num 5000), ("message", .str "internal server error")])]
  else
    .obj [("error", .obj ([("code", .num e.code), ("message", .str e.message)] ++
      if traceId = "" then [] else [("trace_id", .str traceId)]))]

/-! ## What a result reports -/

section Results

variable {s : Services} {query kbId traceId : String} {qvec : List ℚ} {out : QueryOutcome}

theorem QueryService.usage_queryStandard {svc : QueryService} {filter : Option FilterExpr}
    (hq : svc.queryStandard s query qvec kbId traceId filter = .ok out) :
    out.result.usage = {} := by
  rcases queryStandard_cases hq with rfl | ⟨_, _, _, _, _, _, _, rfl⟩
  · rfl
  · rfl

theorem AgenticOrchestrator.usage_runGraph {o : AgenticOrchestrator} {llm : Llm}
    (hr : o.runGraph s llm query kbId = .ok out) : out.result.usage = {} := by
  rcases runGraph_cases hr with rfl | ⟨_, _, _, _, rfl⟩
  · rfl
  · rfl

/-- No result of the application reports any usage. -/
theorem usage_query {kbCfg : KBConfig} {reg : Registry} {override : RequestOverride}
    {filter : Option FilterExpr}
    (hq : (createApp kbCfg s reg).query s query qvec kbId traceId override filter = .ok out) :
    out.result.usage = {} := by
  by_cases hagentic : s.llm = none ∨
      routeQuery kbCfg.flags (fun _ => false) query override ≠ .agentic
  · rw [query_of_not_agentic hagentic] at hq
    exact QueryService.usage_queryStandard hq
  · rw [not_or, not_not] at hagentic
    obtain ⟨llm, hllm⟩ := Option.ne_none_iff_exists'.mp hagentic.1
    rw [query_of_agentic hllm hagentic.2, AgenticOrchestrator.runAgentic] at hq
    split at hq
    · rename_i out' hgraph
      cases hq
      exact AgenticOrchestrator.usage_runGraph hgraph
    · rename_i e _
      cases hf : (agenticOrchestrator kbCfg reg).fallback s query kbId with
      | error e' =>
        rw [hf] at hq
        cases hq
      | ok out' =>
        rw [hf] at hq
        cases hq
        rw [AgenticOrchestrator.fallback] at hf
        have hused : out'.result.usage = {} :=
          QueryService.usage_queryStandard (query_standardService.symm.trans hf)
        exact hused

end Results

namespace ChatReply

variable {u v : TokenUsage}

theorem usageBlock_inj {totalKey : String} : usageBlock totalKey u = usageBlock totalKey v ↔
    u.promptTokens = v.promptTokens ∧ u.completionTokens = v.completionTokens ∧
      u.total = v.total := by
  simp [usageBlock]

theorem reports_ofResult (req : ChatCompletionRequest) (traceId : String) (result : QueryResult) :
    (ofResult req traceId result).Reports u ↔ result.usage.promptTokens = u.promptTokens ∧
      result.usage.completionTokens = u.completionTokens ∧ result.usage.total = u.total := by
  unfold ofResult
  split_ifs with hstream
  · have hblock : (OrderedDict.lookupIn "ragx.usage" (streamEvents result)).bind
        (Json.member? "usage") = some (usageBlock "total" result.usage) := by
      simp [streamEvents, OrderedDict.lookupIn, Json.member?]
    rw [Reports, hblock, Option.some_inj, usageBlock_inj]
  · have hblock : (completionBody req traceId result).member? "usage" =
        some (usageBlock "total_tokens" result.usage) := by
      simp [completionBody, OrderedDict.lookupIn, Json.member?]
    rw [Reports, hblock, Option.some_inj, usageBlock_inj]

end ChatReply

namespace SecurityConfig

/-- From a JSON body the quota reads the reported total. -/
theorem reportedTokens_completionBody (req : ChatCompletionRequest) (traceId : String)
    (result : QueryResult) :
    reportedTokens (completionBody req traceId result) = result.usage.total := by
  simp [reportedTokens, completionBody, usageBlock, OrderedDict.lookupIn, Json.toInt, truncate]

theorem reportedTokens_errorBody (e : Exc) (traceId : String) :
    reportedTokens (errorBody e traceId) = 0 := by
  unfold errorBody
  split_ifs <;> simp [reportedTokens, OrderedDict.lookupIn]

theorem countTokens_of_silent (config : SecurityConfig) (clock : QuotaClock) (tenantId : String)
    {response : HttpResponse} (store : QuotaStore)
    (h : reportedTokens (response.payload.getD (.obj [])) = 0) :
    config.countTokens clock tenantId response store = store := by
  unfold countTokens
  dsimp only
  rw [h, if_neg (lt_irrefl 0), ite_self]

/-- A stream is not counted, whatever it reports. -/
theorem countTokens_stream (config : SecurityConfig) (clock : QuotaClock) (tenantId : String)
    (events : List (String × Json)) (store : QuotaStore) :
    config.countTokens clock tenantId (ChatReply.stream events).response store = store := by
  have htype : "application/json".toList.isPrefixOf
      "text/event-stream; charset=utf-8".toList = false := by
    decide
  simp only [countTokens, ChatReply.response, htype, Bool.and_false, Bool.false_eq_true, if_false]

end SecurityConfig

end Ragx
