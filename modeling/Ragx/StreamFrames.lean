import Ragx.ChatCompletions
import Ragx.EventStreams
import Ragx.McpSessions
import Ragx.Simulations

/-!
# What the clients of the streams read

The frames of a completion and of an MCP session, as a client takes them apart and decodes
them again. A completion arrives as the events that the route has put together. A session
gets its id and then the responses to the messages that were accepted for it, in their order,
however the requests, the streams and the disconnects of all sessions interleave.
-/
namespace Ragx

open JsonTexts EventStreams

/-! ## Values on the wire -/

section Values

variable {fmt : NumberFormat}

theorem valid_usageBlock {totalKey : String}
    (hkey : totalKey ∉ ["prompt_tokens", "completion_tokens"]) (u : TokenUsage) :
    Valid fmt (usageBlock totalKey u) := by
  simp only [List.mem_cons, List.not_mem_nil, or_false, not_or] at hkey
  simp [usageBlock, Ne.symm hkey.1, Ne.symm hkey.2]

theorem valid_citation {c : Citation} (h : fmt.Exact c.score) : Valid fmt c.modelDump := by
  cases hpage : c.page with
  | none => simp [Citation.modelDump, h, hpage]
  | some page => simp [Citation.modelDump, h, hpage]

theorem valid_streamEvents {result : QueryResult}
    (hscores : ∀ c ∈ result.citations, fmt.Exact c.score) (hcost : fmt.Exact result.costUsd) :
    ∀ event ∈ streamEvents result, Valid fmt event.2 := by
  have husage : Valid fmt (usageBlock "total" result.usage) := valid_usageBlock (by simp) _
  have hcitations : ∀ c ∈ result.citations, Valid fmt c.modelDump :=
    fun c hc => valid_citation (hscores c hc)
  simpa [streamEvents, husage, hcost] using hcitations

end Values

/-! ## Completions -/

/-- `_sse`, for an event and its data. -/
def sseFrame (fmt : NumberFormat) (event : String × Json) : List Char :=
  frame event.1.toList (encode .dumpsText fmt event.2)

/-- What the route sends of a reply that is streamed, piece by piece. -/
def chatChunks (fmt : NumberFormat) (events : List (String × Json)) : List (List Char) :=
  events.map (sseFrame fmt) ++ [dataFrame "[DONE]".toList]

/-- What a client makes of a stream: the types of the events, and their data if it is JSON. -/
def receivedEvents (fmt : NumberFormat) (text : List Char) : List (String × Option Json) :=
  (events text).map fun e => (String.ofList e.type, loads fmt e.data)

theorem receivedEvents_sseFrame {fmt : NumberFormat} {event : String × Json}
    (hne : event.1.toList ≠ []) (hname : OneLine event.1.toList) (h : Valid fmt event.2)
    (rest : List Char) : receivedEvents fmt (sseFrame fmt event ++ rest) =
      (event.1, some event.2) :: receivedEvents fmt rest := by
  rw [receivedEvents, sseFrame, events_frame hne hname (oneLine_encode _ h), List.map_cons,
    String.ofList_toList, loads_encode _ h]
  rfl

theorem receivedEvents_frames {fmt : NumberFormat} {sent : List (String × Json)}
    (hnames : ∀ event ∈ sent, event.1.toList ≠ [] ∧ OneLine event.1.toList)
    (h : ∀ event ∈ sent, Valid fmt event.2) (rest : List Char) :
    receivedEvents fmt ((sent.map (sseFrame fmt)).flatten ++ rest) =
      sent.map (fun event => (event.1, some event.2)) ++ receivedEvents fmt rest := by
  induction sent with
  | nil => rfl
  | cons event sent ih =>
    obtain ⟨hname, hnames⟩ := List.forall_mem_cons.mp hnames
    obtain ⟨hvalid, h⟩ := List.forall_mem_cons.mp h
    rw [List.map_cons, List.flatten_cons, List.append_assoc,
      receivedEvents_sseFrame hname.1 hname.2 hvalid, ih hnames h]
    rfl

/-- The mark at the end of a stream is an event of its own, and no JSON. -/
theorem receivedEvents_done (fmt : NumberFormat) :
    receivedEvents fmt (dataFrame "[DONE]".toList) = [("message", none)] := by
  have hline : OneLine "[DONE]".toList := ⟨by decide, by decide⟩
  have hevents := events_dataFrame hline []
  rw [List.append_nil] at hevents
  rw [receivedEvents, hevents]
  rfl

/-- A client reads a streamed completion as the events that the route has put together, with
the mark behind them. -/
theorem ChatReply.received_chatChunks (fmt : NumberFormat) (result : QueryResult)
    (hscores : ∀ c ∈ result.citations, fmt.Exact c.score) (hcost : fmt.Exact result.costUsd) :
    receivedEvents fmt (chatChunks fmt (streamEvents result)).flatten =
      (streamEvents result).map (fun event => (event.1, some event.2)) ++ [("message", none)] := by
  have hnames : ∀ event ∈ streamEvents result,
      event.1.toList ≠ [] ∧ OneLine event.1.toList := by
    simp only [streamEvents, List.forall_mem_cons]
    exact ⟨by decide, by decide, by decide, by decide, fun _ h => absurd h List.not_mem_nil⟩
  rw [chatChunks, List.flatten_append, List.flatten_singleton,
    receivedEvents_frames hnames (valid_streamEvents hscores hcost), receivedEvents_done]

/-- An answer on two lines, with a citation. -/
def streamedResult : QueryResult where
  answer := "\"One\"\ntwo"
  mode := .standard
  traceId := "trace_1"
  citations := [{
    chunkId := "chk_1", docId := "doc_1", filename := "a.txt", page := some 3, snippet := "one"
    score := 1 }]

theorem ChatReply.received_chatChunks_streamedResult :
    receivedEvents integerFormat (chatChunks integerFormat (streamEvents streamedResult)).flatten =
      (streamEvents streamedResult).map (fun event => (event.1, some event.2)) ++
        [("message", none)] :=
  received_chatChunks integerFormat streamedResult
    (List.forall_mem_singleton.mpr (integerFormat.exact_int 1)) (integerFormat.exact_int 0)

/-! ## The frames of a session -/

/-- What the queue of a session holds is sent as data without a type. -/
def responseFrame (fmt : NumberFormat) (response : Json) : List Char :=
  dataFrame (encode .modelDumpJson fmt response)

def greeting (sid : String) : List Char := frame "sessionId".toList sid.toList

def responseEvent (fmt : NumberFormat) (response : Json) : ServerEvent :=
  { type := "message".toList, data := encode .modelDumpJson fmt response }

def greetingEvent (sid : String) : ServerEvent :=
  { type := "sessionId".toList, data := sid.toList }

section Answers

variable {fmt : NumberFormat}

theorem valid_fromText (text : String) (isError : Bool) :
    Valid fmt (ToolCallResult.fromText text isError).dump := by
  simp [ToolCallResult.dump, ToolCallResult.fromText]

theorem valid_tools : Valid fmt (.obj [("tools", .arr (toolDefs.map MCPTool.dump))]) := by
  have height : fmt.Exact 8 := fmt.exact_int 8
  simp [toolDefs, MCPTool.dump, schemaProperty, optionalMember, height]

theorem valid_initializeResult : Valid fmt MCPServer.initializeResult := by
  simp [MCPServer.initializeResult]

theorem valid_rpcId (id : RpcId) : Valid fmt id.json := by
  cases id with
  | num n => simp [RpcId.json]
  | str s => simp [RpcId.json]

theorem valid_ok {result : Json} (h : Valid fmt result) (id : Option RpcId) :
    Valid fmt (JSONRPCResponse.ok id result).dump := by
  cases id with
  | none => simp [JSONRPCResponse.dump, JSONRPCResponse.ok, optionalMember, h]
  | some id =>
    simp [JSONRPCResponse.dump, JSONRPCResponse.ok, optionalMember, h, valid_rpcId id]

theorem valid_failure (id : Option RpcId) (code : ℤ) (message : String) :
    Valid fmt (JSONRPCResponse.failure id code message).dump := by
  have herror : Valid fmt (JSONRPCError.dump { code, message }) := by
    simp [JSONRPCError.dump, optionalMember]
  cases id with
  | none => simp [JSONRPCResponse.dump, JSONRPCResponse.failure, optionalMember, herror]
  | some id =>
    simp [JSONRPCResponse.dump, JSONRPCResponse.failure, optionalMember, herror, valid_rpcId id]

/-- What a tool returns is a text, whatever the backend has returned to it. -/
theorem valid_tool? {server : MCPServer} {name arguments : Json} {tool : ToolRun}
    {result : ToolCallResult} (h : server.tool? name arguments = some tool)
    (hresult : tool.result = .ok result) : Valid fmt result.dump := by
  have hkb (failed : String) (call : (kbId query args : Json) → Except Exc Json) (args : Json)
      (hr : (server.execOnKb failed call args).result = .ok result) : Valid fmt result.dump := by
    unfold MCPServer.execOnKb at hr
    split at hr
    · cases hr
    · cases hr
      exact valid_fromText _ _
    · split at hr
      · dsimp only at hr
        split at hr <;> cases hr <;> exact valid_fromText _ _
      · cases hr
        exact valid_fromText _ _
      · cases hr
        exact valid_fromText _ _
  unfold MCPServer.tool? at h
  split at h
  · cases h
    exact hkb _ _ _ hresult
  · cases h
    exact hkb _ _ _ hresult
  · cases h
    unfold MCPServer.execListKbs at hresult
    split at hresult <;> cases hresult <;> exact valid_fromText _ _
  · cases h

theorem valid_handleRequest {server : MCPServer} {req : JSONRPCRequest} {resp : JSONRPCResponse}
    (h : (server.handleRequest req).result = .ok resp) : Valid fmt resp.dump := by
  unfold MCPServer.handleRequest at h
  split_ifs at h
  · cases h
    exact valid_ok valid_initializeResult _
  · cases h
    exact valid_failure _ _ _
  · cases h
    exact valid_ok valid_tools _
  · unfold MCPServer.handleToolsCall at h
    dsimp only at h
    split at h
    · cases h
      exact valid_failure _ _ _
    · rename_i tool htool
      dsimp only at h
      cases hr : tool.result with
      | error e =>
        rw [hr] at h
        cases h
      | ok result =>
        rw [hr] at h
        cases h
        exact valid_ok (valid_tool? htool hr) _
  · cases h
    exact valid_failure _ _ _

/-- Every response can be written and read again. -/
theorem valid_answer (wire : WireFormat) (server : MCPServer) (data : Json) :
    Valid fmt (wire.answer server data).response.dump := by
  unfold WireFormat.answer
  split
  · exact valid_failure _ _ _
  · dsimp only
    split
    · exact valid_handleRequest ‹_›
    · exact valid_failure _ _ _

theorem valid_responses (wire : WireFormat) (server : MCPServer)
    (messages : List (Except String Json)) :
    ∀ response ∈ wire.responses server messages, Valid fmt response := by
  induction messages generalizing server with
  | nil => exact fun _ h => absurd h List.not_mem_nil
  | cons message messages ih =>
    cases message with
    | error text => exact List.forall_mem_cons.mpr ⟨valid_failure _ _ _, ih server⟩
    | ok data => exact List.forall_mem_cons.mpr ⟨valid_answer wire server data, ih _⟩

end Answers

/-! ## The server of a session -/

namespace WireFormat

variable (wire : WireFormat)

/-- The server after some messages. -/
def serverAfter (server : MCPServer) : List Json → MCPServer
  | [] => server
  | data :: messages => serverAfter (wire.answer server data).server messages

theorem serverAfter_concat (server : MCPServer) (messages : List Json) (data : Json) :
    wire.serverAfter server (messages ++ [data]) =
      (wire.answer (wire.serverAfter server messages) data).server := by
  induction messages generalizing server with
  | nil => rfl
  | cons first messages ih => exact ih _

theorem responses_concat (server : MCPServer) (messages : List Json) (data : Json) :
    wire.responses server ((messages ++ [data]).map .ok) =
      wire.responses server (messages.map .ok) ++
        [(wire.answer (wire.serverAfter server messages) data).response.dump] := by
  induction messages generalizing server with
  | nil => rfl
  | cons first messages ih =>
    exact congrArg ((wire.answer server first).response.dump :: ·) (ih _)

end WireFormat

/-! ## What happens in a session -/

/-- A session is opened with the context of its caller, a message for it is accepted, or its stream
sends a piece. -/
inductive SessionEntry where
  | opened (ctx : AuthContext)
  | accepted (body : Json)
  | sent (piece : List Char)

namespace SessionEntry

def openings (log : List SessionEntry) : List AuthContext :=
  log.filterMap fun entry => match entry with
    | .opened ctx => some ctx
    | _ => none

def bodies (log : List SessionEntry) : List Json :=
  log.filterMap fun entry => match entry with
    | .accepted body => some body
    | _ => none

def pieces (log : List SessionEntry) : List (List Char) :=
  log.filterMap fun entry => match entry with
    | .sent piece => some piece
    | _ => none

end SessionEntry

/-- What a message adds to the log of a session; it is accepted by the status of its reply. -/
def McpPost.entries (wire : WireFormat) (mcpSessions : OrderedDict String SSETransport)
    (post : McpPost) (sid : String) : List SessionEntry :=
  match post.sid, (mcpMessages wire mcpSessions post).reply with
  | .ok (.str s), .ok (202, _) => if s = sid then [.accepted post.body] else []
  | _, _ => []

/-- What the stream of a session sends when it is resumed. -/
def McpApp.nextPieces (app : McpApp) (fmt : NumberFormat) (sid : String) : List (List Char) :=
  match app.streams.get? sid, (app.mcpSessions.get? sid).bind (·.connections.get? sid) with
  | some .created, some _ => [greeting sid]
  | some (.looping _), some (response :: _) => [responseFrame fmt response]
  | _, _ => []

namespace McpDeployment

variable (dep : McpDeployment) (fmt : NumberFormat) (sid : String)

/-- What an event adds to the log of a session. -/
def sessionLog (app : McpApp) (event : McpEvent) (_ : McpApp) : List SessionEntry :=
  match event with
  | .sse headers now s =>
    match dep.mw.resolve dep.lib headers now with
    | .error _ => []
    | .ok ctx => if s = sid then [.opened ctx] else []
  | .messages headers now post =>
    match dep.mw.resolve dep.lib headers now with
    | .error _ => []
    | .ok _ => post.entries dep.wire app.mcpSessions sid
  | .resume s _ => if s = sid then (app.nextPieces fmt sid).map .sent else []
  | .disconnect _ => []

/-- What an event does in a session, with what it adds to the log. -/
inductive SessionMove (app app' : McpApp) : List SessionEntry → Prop
  | untouched (hs : app'.streams.get? sid = app.streams.get? sid)
      (hm : app'.mcpSessions.get? sid = app.mcpSessions.get? sid) : SessionMove app app' []
  | opened {ctx : AuthContext} (hs : app.streams.get? sid = none)
      (hs' : app'.streams.get? sid = some .created)
      (hm' : app'.mcpSessions.get? sid =
        some (({ server := ctx.mcpServer dep.backend } : SSETransport).newSession sid)) :
      SessionMove app app' [.opened ctx]
  | accepted {body : Json} {transport : SSETransport} {queue : List Json}
      (hs : app'.streams.get? sid = app.streams.get? sid)
      (hm : app.mcpSessions.get? sid = some transport)
      (hq : transport.connections.get? sid = some queue)
      (hm' : app'.mcpSessions.get? sid = some {
        server := (dep.wire.answer transport.server body).server
        connections := transport.connections.insert sid
          (queue ++ [(dep.wire.answer transport.server body).response.dump]) }) :
      SessionMove app app' [.accepted body]
  | greeted (hs : app.streams.get? sid = some .created)
      (hs' : app'.streams.get? sid = some .greeted)
      (hm : app'.mcpSessions.get? sid = app.mcpSessions.get? sid) :
      SessionMove app app' [.sent (greeting sid)]
  | responded (now : ℚ) {transport : SSETransport} {response : Json} {queue : List Json}
      {before : ℚ} (hs : app.streams.get? sid = some (.looping before))
      (hm : app.mcpSessions.get? sid = some transport)
      (hq : transport.connections.get? sid = some (response :: queue))
      (hs' : app'.streams.get? sid = some (.looping now))
      (hm' : app'.mcpSessions.get? sid =
        some { transport with connections := transport.connections.insert sid queue }) :
      SessionMove app app' [.sent (responseFrame fmt response)]
  | wentOn {phase phase' : StreamPhase} (hs : app.streams.get? sid = some phase)
      (hlive : phase ≠ .ended) (hs' : app'.streams.get? sid = some phase')
      (hcreated : phase' ≠ .created)
      (hunread : phase = .created → phase' = .ended)
      (hm : app'.mcpSessions.get? sid = app.mcpSessions.get? sid ∨
        ∃ transport, app.mcpSessions.get? sid = some transport ∧
          app'.mcpSessions.get? sid = some (transport.closeSession sid)) :
      SessionMove app app' []

variable {dep fmt sid} {app app' : McpApp}

/-- Opening a session is all that a stream's request does to it. -/
theorem sessionMove_sse {headers : AuthHeaders} {now : ℚ} {s : String}
    (h : dep.step app (.sse headers now s) = some app') :
    dep.SessionMove fmt sid app app' (dep.sessionLog fmt sid app (.sse headers now s) app') := by
  simp only [step] at h
  simp only [sessionLog]
  cases hctx : dep.mw.resolve dep.lib headers now with
  | error e =>
    rw [hctx] at h
    cases h
    exact .untouched rfl rfl
  | ok ctx =>
    rw [hctx] at h
    dsimp only at h
    cases hnew : app.streams.get? s with
    | some phase =>
      rw [hnew] at h
      cases h
    | none =>
      rw [hnew] at h
      cases h
      simp only [McpApp.mcpSse]
      split_ifs with hs
      · subst hs
        refine .opened hnew ?_ ?_
        · rw [OrderedDict.get?_insert, if_pos rfl]
        · rw [OrderedDict.get?_insert, if_pos rfl]
      · refine .untouched ?_ ?_
        · rw [OrderedDict.get?_insert, if_neg hs]
        · rw [OrderedDict.get?_insert, if_neg hs]

/-- A message is accepted if its session has an open connection, and then only its session
changes. -/
theorem entries_cases (wire : WireFormat) (mcpSessions : OrderedDict String SSETransport)
    (post : McpPost) (sid : String) :
    (post.entries wire mcpSessions sid = [] ∧
      (mcpMessages wire mcpSessions post).mcpSessions.get? sid = mcpSessions.get? sid) ∨
    ∃ transport queue, post.entries wire mcpSessions sid = [.accepted post.body] ∧
      mcpSessions.get? sid = some transport ∧ transport.connections.get? sid = some queue ∧
      (mcpMessages wire mcpSessions post).mcpSessions.get? sid = some {
        server := (wire.answer transport.server post.body).server
        connections := transport.connections.insert sid
          (queue ++ [(wire.answer transport.server post.body).response.dump]) } := by
  unfold McpPost.entries mcpMessages
  cases post.sid with
  | error e => exact .inl ⟨rfl, rfl⟩
  | ok named =>
    cases named with
    | str s =>
      cases ht : mcpSessions.get? s with
      | none =>
        simp only [ht]
        exact .inl ⟨rfl, trivial⟩
      | some transport =>
        simp only [ht, SSETransport.deliverMessage]
        cases hq : transport.connections.get? s with
        | none => exact .inl ⟨rfl, rfl⟩
        | some queue =>
          by_cases hs : s = sid
          · subst hs
            refine .inr ⟨transport, queue, if_pos rfl, ht, hq, ?_⟩
            rw [OrderedDict.get?_insert, if_pos rfl]
          · refine .inl ⟨if_neg hs, ?_⟩
            rw [OrderedDict.get?_insert, if_neg hs]
    | null | bool _ | num _ | arr _ | obj _ => exact .inl ⟨rfl, rfl⟩

theorem sessionMove_messages {headers : AuthHeaders} {now : ℚ} {post : McpPost}
    (h : dep.step app (.messages headers now post) = some app') :
    dep.SessionMove fmt sid app app'
      (dep.sessionLog fmt sid app (.messages headers now post) app') := by
  simp only [step] at h
  simp only [sessionLog]
  cases hctx : dep.mw.resolve dep.lib headers now with
  | error e =>
    rw [hctx] at h
    cases h
    exact .untouched rfl rfl
  | ok ctx =>
    rw [hctx] at h
    cases h
    obtain ⟨hentries, hm⟩ | ⟨transport, queue, hentries, hm, hq, hm'⟩ :=
      entries_cases dep.wire app.mcpSessions post sid
    · simp only [hentries]
      exact .untouched rfl hm
    · simp only [hentries]
      exact .accepted rfl hm hq hm'

/-- The end of a stream that is live, wherever it stands. -/
theorem sessionMove_endStream {s : String} {phase : StreamPhase}
    (hs : app.streams.get? s = some phase) (hlive : phase ≠ .ended) :
    dep.SessionMove fmt sid app (app.endStream s phase) [] := by
  have hended (mcpSessions : OrderedDict String SSETransport) :
      (McpApp.mk mcpSessions (app.streams.insert s .ended)).streams.get? s = some .ended := by
    rw [OrderedDict.get?_insert, if_pos rfl]
  by_cases hsid : s = sid
  · subst hsid
    unfold McpApp.endStream
    split
    · rename_i transport ht
      refine .wentOn hs hlive (hended _) (by simp) (by simp) (.inr ⟨transport, ht, ?_⟩)
      rw [OrderedDict.get?_insert, if_pos rfl]
    · exact .wentOn hs hlive (hended _) (by simp) (fun _ => rfl) (.inl rfl)
  · unfold McpApp.endStream
    split
    · refine .untouched ?_ ?_
      · rw [OrderedDict.get?_insert, if_neg hsid]
      · rw [OrderedDict.get?_insert, if_neg hsid]
    · refine .untouched ?_ rfl
      rw [McpApp.setPhase, OrderedDict.get?_insert, if_neg hsid]

/-- A stream that is resumed changes nothing of another session. -/
theorem untouched_resume {idleTimeout : Option ℚ} {s : String} {now : ℚ}
    (h : app.resume idleTimeout s now = some app') (hs : s ≠ sid) :
    app'.streams.get? sid = app.streams.get? sid ∧
      app'.mcpSessions.get? sid = app.mcpSessions.get? sid := by
  have hphase (phase : StreamPhase) : (app.setPhase s phase).streams.get? sid =
      app.streams.get? sid := by
    rw [McpApp.setPhase, OrderedDict.get?_insert, if_neg hs]
  unfold McpApp.resume at h
  split at h
  · split at h
    · cases h
      exact ⟨hphase _, rfl⟩
    · cases h
      exact ⟨hphase _, rfl⟩
  · cases h
    exact ⟨hphase _, rfl⟩
  · split at h
    · cases h
    · cases h
      refine ⟨?_, ?_⟩
      · rw [OrderedDict.get?_insert, if_neg hs]
      · rw [OrderedDict.get?_insert, if_neg hs]
    · split_ifs at h
      · cases h
        unfold McpApp.endStream
        split
        · refine ⟨?_, ?_⟩
          · rw [OrderedDict.get?_insert, if_neg hs]
          · rw [OrderedDict.get?_insert, if_neg hs]
        · exact ⟨hphase _, rfl⟩
      · cases h
        exact ⟨rfl, rfl⟩
  · cases h

theorem sessionMove_resume {s : String} {now : ℚ}
    (h : dep.step app (.resume s now) = some app') :
    dep.SessionMove fmt sid app app' (dep.sessionLog fmt sid app (.resume s now) app') := by
  simp only [sessionLog]
  by_cases hs : s = sid
  · subst hs
    rw [if_pos rfl]
    have hset (phase : StreamPhase) : (app.setPhase s phase).streams.get? s = some phase := by
      rw [McpApp.setPhase, OrderedDict.get?_insert, if_pos rfl]
    simp only [step, McpApp.resume] at h
    unfold McpApp.nextPieces
    split at h
    · rename_i transport hphase ht
      cases hq : transport.connections.get? s with
      | none =>
        simp only [hq] at h
        cases h
        simp only [hphase, ht, Option.bind_some, hq]
        exact .wentOn hphase (by simp) (hset .ended) (by simp) (fun _ => rfl) (.inl rfl)
      | some queue =>
        simp only [hq] at h
        cases h
        simp only [hphase, ht, Option.bind_some, hq]
        exact .greeted hphase (hset .greeted) rfl
    · rename_i transport hphase ht
      cases h
      simp only [hphase]
      exact .wentOn hphase (by simp) (hset (.looping now)) (by simp) (by simp) (.inl rfl)
    · rename_i lastActivity transport hphase ht
      cases hq : transport.connections.get? s with
      | none =>
        rw [hq] at h
        cases h
      | some queue =>
        cases queue with
        | cons response queue =>
          simp only [hq] at h
          cases h
          simp only [hphase, ht, Option.bind_some, hq]
          refine .responded now hphase ht hq ?_ ?_
          · rw [OrderedDict.get?_insert, if_pos rfl]
          · rw [OrderedDict.get?_insert, if_pos rfl]
        | nil =>
          simp only [hq] at h
          simp only [hphase, ht, Option.bind_some, hq]
          split_ifs at h
          · cases h
            exact sessionMove_endStream hphase (by simp)
          · cases h
            exact .untouched rfl rfl
    · cases h
  · rw [if_neg hs]
    obtain ⟨hstreams, hm⟩ := untouched_resume (show app.resume _ s now = some app' from h) hs
    exact .untouched hstreams hm

/-- Every event does one of these things in a session. -/
theorem sessionMove_of_step {e : McpEvent} (h : dep.step app e = some app') :
    dep.SessionMove fmt sid app app' (dep.sessionLog fmt sid app e app') := by
  cases e with
  | sse headers now s => exact sessionMove_sse h
  | messages headers now post => exact sessionMove_messages h
  | resume s now => exact sessionMove_resume h
  | disconnect s =>
    simp only [step] at h
    split at h
    · cases h
    · cases h
    · rename_i phase hlive hphase
      cases h
      exact sessionMove_endStream hphase hlive

variable (dep fmt sid) in
/-- A session that has been opened: the responses to what was accepted for it are those that its
stream has sent, and behind them those in its queue, as long as its connection is open. -/
structure Opened (app : McpApp) (log : List SessionEntry) (ctx : AuthContext)
    (phase : StreamPhase) (transport : SSETransport) (done rest : List Json) : Prop where
  phase_eq : app.streams.get? sid = some phase
  transport_eq : app.mcpSessions.get? sid = some transport
  openings : SessionEntry.openings log = [ctx]
  server_eq : transport.server =
    dep.wire.serverAfter (ctx.mcpServer dep.backend) (SessionEntry.bodies log)
  pieces : (SessionEntry.pieces log = [] ∧ done = [] ∧ (phase = .created ∨ phase = .ended)) ∨
    (SessionEntry.pieces log = greeting sid :: done.map (responseFrame fmt) ∧ phase ≠ .created)
  responses : dep.wire.responses (ctx.mcpServer dep.backend)
    ((SessionEntry.bodies log).map .ok) = done ++ rest
  queue : ∀ queue, transport.connections.get? sid = some queue → queue = rest

variable (dep fmt sid) in
/-- Before it is opened nothing is known of a session. -/
def SessionKept (app : McpApp) (log : List SessionEntry) : Prop :=
  (app.streams.get? sid = none ∧ app.mcpSessions.get? sid = none ∧ log = []) ∨
    ∃ ctx phase transport done rest, dep.Opened fmt sid app log ctx phase transport done rest

theorem sessionKept_move {log entries : List SessionEntry} (h : dep.SessionKept fmt sid app log)
    (hmove : dep.SessionMove fmt sid app app' entries) :
    dep.SessionKept fmt sid app' (log ++ entries) := by
  have hopenings (entries' : List SessionEntry) : SessionEntry.openings (log ++ entries') =
      SessionEntry.openings log ++ SessionEntry.openings entries' := List.filterMap_append
  have hbodies (entries' : List SessionEntry) : SessionEntry.bodies (log ++ entries') =
      SessionEntry.bodies log ++ SessionEntry.bodies entries' := List.filterMap_append
  have hpieces (entries' : List SessionEntry) : SessionEntry.pieces (log ++ entries') =
      SessionEntry.pieces log ++ SessionEntry.pieces entries' := List.filterMap_append
  cases hmove with
  | untouched hs hm =>
    rw [List.append_nil]
    obtain ⟨hphase, ht, hlog⟩ | ⟨ctx, phase, transport, done, rest, ho⟩ := h
    · exact .inl ⟨hs.trans hphase, hm.trans ht, hlog⟩
    · exact .inr ⟨ctx, phase, transport, done, rest,
        { ho with phase_eq := hs.trans ho.phase_eq, transport_eq := hm.trans ho.transport_eq }⟩
  | @opened ctx hs hs' hm' =>
    obtain ⟨-, -, rfl⟩ | ⟨_, phase, _, _, _, ho⟩ := h
    · refine .inr ⟨ctx, .created, _, [], [], hs', hm', rfl, rfl, .inl ⟨rfl, rfl, .inl rfl⟩, rfl, ?_⟩
      intro queue hq
      rw [SSETransport.newSession, OrderedDict.get?_insert, if_pos rfl] at hq
      exact (Option.some.inj hq).symm
    · rw [ho.phase_eq] at hs
      cases hs
  | @accepted body transport queue hs hm hq hm' =>
    obtain ⟨-, ht, -⟩ | ⟨ctx, phase, transport', done, rest, ho⟩ := h
    · rw [ht] at hm
      cases hm
    · obtain rfl : transport' = transport := Option.some.inj (ho.transport_eq.symm.trans hm)
      obtain rfl : queue = rest := ho.queue queue hq
      refine .inr ⟨ctx, phase, _, done,
        queue ++ [(dep.wire.answer transport'.server body).response.dump],
        hs.trans ho.phase_eq, hm', ?_, ?_, ?_, ?_, ?_⟩
      · rw [hopenings, ho.openings]
        rfl
      · rw [hbodies]
        exact (congrArg (fun server => (dep.wire.answer server body).server) ho.server_eq).trans
          (dep.wire.serverAfter_concat _ _ _).symm
      · rw [hpieces]
        simpa [SessionEntry.pieces] using ho.pieces
      · rw [hbodies]
        refine (dep.wire.responses_concat _ _ _).trans ?_
        rw [ho.responses, ho.server_eq, List.append_assoc]
      · intro queue' hq'
        rw [OrderedDict.get?_insert, if_pos rfl] at hq'
        exact (Option.some.inj hq').symm
  | greeted hs hs' hm =>
    obtain ⟨hphase, -, -⟩ | ⟨ctx, phase, transport, done, rest, ho⟩ := h
    · rw [hphase] at hs
      cases hs
    · obtain rfl : phase = .created := Option.some.inj (ho.phase_eq.symm.trans hs)
      obtain ⟨hnone, hdone, -⟩ | ⟨-, hnot⟩ := ho.pieces
      · refine .inr ⟨ctx, .greeted, transport, done, rest, hs', hm.trans ho.transport_eq, ?_, ?_,
          .inr ⟨?_, by simp⟩, ?_, ho.queue⟩
        · rw [hopenings, ho.openings]
          rfl
        · rw [hbodies]
          simpa [SessionEntry.bodies] using ho.server_eq
        · rw [hpieces, hnone, hdone]
          rfl
        · rw [hbodies]
          simpa [SessionEntry.bodies] using ho.responses
      · exact absurd rfl hnot
  | @responded now transport response queue before hs hm hq hs' hm' =>
    obtain ⟨hphase, -, -⟩ | ⟨ctx, phase, transport', done, rest, ho⟩ := h
    · rw [hphase] at hs
      cases hs
    · obtain rfl : transport' = transport := Option.some.inj (ho.transport_eq.symm.trans hm)
      obtain rfl : phase = .looping before := Option.some.inj (ho.phase_eq.symm.trans hs)
      have hrest : response :: queue = rest := ho.queue _ hq
      obtain ⟨-, -, hphase | hphase⟩ | ⟨hsent, -⟩ := ho.pieces
      · cases hphase
      · cases hphase
      · refine .inr ⟨ctx, .looping now, _, done ++ [response], queue, hs', hm', ?_, ?_,
          .inr ⟨?_, by simp⟩, ?_, ?_⟩
        · rw [hopenings, ho.openings]
          rfl
        · rw [hbodies]
          simpa [SessionEntry.bodies] using ho.server_eq
        · rw [hpieces, hsent, List.map_append]
          rfl
        · rw [hbodies]
          simpa [SessionEntry.bodies, hrest] using ho.responses
        · intro queue' hq'
          rw [OrderedDict.get?_insert, if_pos rfl] at hq'
          exact (Option.some.inj hq').symm
  | @wentOn phase phase' hs hlive hs' hcreated hunread hm =>
    rw [List.append_nil]
    obtain ⟨hphase, -, -⟩ | ⟨ctx, phase₀, transport, done, rest, ho⟩ := h
    · rw [hphase] at hs
      cases hs
    · obtain rfl : phase₀ = phase := Option.some.inj (ho.phase_eq.symm.trans hs)
      have hpieces' : (SessionEntry.pieces log = [] ∧ done = [] ∧
          (phase' = .created ∨ phase' = .ended)) ∨
          (SessionEntry.pieces log = greeting sid :: done.map (responseFrame fmt) ∧
            phase' ≠ .created) := by
        obtain ⟨hnone, hdone, rfl | rfl⟩ | ⟨hsent, -⟩ := ho.pieces
        · exact .inl ⟨hnone, hdone, .inr (hunread rfl)⟩
        · exact absurd rfl hlive
        · exact .inr ⟨hsent, hcreated⟩
      obtain hm | ⟨transport', ht, hm⟩ := hm
      · exact .inr ⟨ctx, phase', transport, done, rest, { ho with
          phase_eq := hs', transport_eq := hm.trans ho.transport_eq, pieces := hpieces' }⟩
      · obtain rfl : transport = transport' := Option.some.inj (ho.transport_eq.symm.trans ht)
        refine .inr ⟨ctx, phase', _, done, rest, { ho with
          phase_eq := hs', transport_eq := hm, pieces := hpieces', queue := ?_ }⟩
        intro queue hq
        rw [SSETransport.closeSession, OrderedDict.erase, OrderedDict.get?_filterKeys] at hq
        simp at hq

variable (dep fmt sid) in
theorem sessionKept_run {es : List McpEvent} (hrun : run dep.step {} es = some app) :
    dep.SessionKept fmt sid app (outputs dep.step (dep.sessionLog fmt sid) {} es) := by
  have hstart : dep.SessionKept fmt sid {} [] := .inl ⟨rfl, rfl, rfl⟩
  have hstep : ∀ s e s' log, dep.SessionKept fmt sid s log → dep.step s e = some s' →
      dep.SessionKept fmt sid s' (log ++ dep.sessionLog fmt sid s e s') :=
    fun _ _ _ _ hlog hs => sessionKept_move hlog (sessionMove_of_step hs)
  have h := run_outputs hstep hstart hrun
  rwa [List.nil_append] at h

end McpDeployment

/-! ## What the client reads -/

theorem events_responses {fmt : NumberFormat} {responses : List Json}
    (h : ∀ response ∈ responses, Valid fmt response) :
    events (responses.map (responseFrame fmt)).flatten = responses.map (responseEvent fmt) := by
  induction responses with
  | nil => rfl
  | cons response responses ih =>
    obtain ⟨hvalid, h⟩ := List.forall_mem_cons.mp h
    rw [List.map_cons, List.flatten_cons, responseFrame,
      events_dataFrame (oneLine_encode _ hvalid), ih h]
    rfl

theorem events_greeting {sid : String} (hsid : OneLine sid.toList) (rest : List Char) :
    events (greeting sid ++ rest) = greetingEvent sid :: events rest :=
  events_frame (by decide) (by decide) hsid rest

open SessionEntry in
/-- The client of a session reads the id of the session and then responses to the messages that
were accepted for it, the first ones in their order, and every one of them as the server has made
it. What has not been sent yet stands in the queue, as long as the connection is open. -/
def McpDeployment.ReceivesInOrder (dep : McpDeployment) (fmt : NumberFormat) (sid : String)
    (es : List McpEvent) (app : McpApp) : Prop :=
  let log := outputs dep.step (dep.sessionLog fmt sid) {} es
  let received := events (pieces log).flatten
  log = [] ∨ ∃ ctx, openings log = [ctx] ∧ ∃ responses,
    responses = dep.wire.responses (ctx.mcpServer dep.backend) ((bodies log).map .ok) ∧
    (∀ response ∈ responses, loads fmt (responseEvent fmt response).data = some response) ∧
    received <+: greetingEvent sid :: responses.map (responseEvent fmt) ∧
    ∀ transport queue, app.mcpSessions.get? sid = some transport →
      transport.connections.get? sid = some queue → received ≠ [] →
      received ++ queue.map (responseEvent fmt) =
        greetingEvent sid :: responses.map (responseEvent fmt)

open SessionEntry in
/-- The clients receive their responses in order, however the requests, the streams and the
disconnects of all sessions interleave. -/
theorem McpDeployment.session_received (dep : McpDeployment) (fmt : NumberFormat) {sid : String}
    (hsid : OneLine sid.toList) {es : List McpEvent} {app : McpApp}
    (hrun : run dep.step {} es = some app) : dep.ReceivesInOrder fmt sid es app := by
  unfold McpDeployment.ReceivesInOrder
  intro log received
  have hvalid : ∀ server messages, ∀ response ∈ dep.wire.responses server messages,
      Valid fmt response := valid_responses dep.wire
  obtain ⟨-, -, hlog⟩ | ⟨ctx, phase, transport, done, rest, ho⟩ :=
    dep.sessionKept_run fmt sid hrun
  · exact .inl hlog
  · have hall := hvalid (ctx.mcpServer dep.backend) ((bodies log).map .ok)
    have hdone : ∀ response ∈ done, Valid fmt response := fun response hmem =>
      hall response (ho.responses ▸ List.mem_append_left rest hmem)
    refine .inr ⟨ctx, ho.openings, _, rfl, fun response hmem => loads_encode _ (hall _ hmem), ?_⟩
    obtain ⟨hnone, -, -⟩ | ⟨hsent, -⟩ := ho.pieces
    · have hreceived : received = [] := by
        change events (pieces log).flatten = []
        rw [hnone]
        rfl
      rw [hreceived]
      exact ⟨List.nil_prefix, fun _ _ _ _ hne => absurd rfl hne⟩
    · have hreceived : received = greetingEvent sid :: done.map (responseEvent fmt) := by
        change events (pieces log).flatten = _
        rw [hsent, List.flatten_cons, events_greeting hsid, events_responses hdone]
      rw [hreceived, ho.responses, List.map_append]
      refine ⟨List.prefix_append (greetingEvent sid :: done.map (responseEvent fmt)) _, ?_⟩
      intro transport' queue ht hq _
      obtain rfl : transport = transport' := Option.some.inj (ho.transport_eq.symm.trans ht)
      rw [ho.queue queue hq]
      rfl

/-- A client opens a session, initializes it and reads the response. -/
theorem session_received_initialize :
    ∃ app, run McpDeployment.sampleDeployment.step {} [
        .sse {} 0 "session-1", .resume "session-1" 0, .resume "session-1" 0,
        .messages {} 1 { sessionIdParam := some "session-1", body := initializeRequest },
        .resume "session-1" 1] = some app ∧
      McpDeployment.sampleDeployment.ReceivesInOrder integerFormat "session-1" [
        .sse {} 0 "session-1", .resume "session-1" 0, .resume "session-1" 0,
        .messages {} 1 { sessionIdParam := some "session-1", body := initializeRequest },
        .resume "session-1" 1] app :=
  ⟨_, rfl, McpDeployment.session_received _ integerFormat (by decide) rfl⟩

end Ragx
