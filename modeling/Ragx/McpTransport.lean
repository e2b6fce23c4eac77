import Ragx.Chunker
import Ragx.McpServer

/-!
# The MCP transports

A server reads messages from the lines of its input, or gets them posted for a session
whose responses go into a queue. Either way every message gets a response. The main result
says which sessions conform to JSON-RPC.
-/
namespace Ragx

/-! ## One message -/

/-- How a text is decoded, or why it cannot be, and how a validation error is reported. -/
structure WireFormat where
  loads : String → Except String Json
  report : Json → String

/-- The server after a message, what the message has read, and the response to it. -/
structure Answered where
  server : MCPServer
  reads : List Json := []
  response : JSONRPCResponse

def parseFailure (text : String) : JSONRPCResponse :=
  .failure none ErrorCodes.parseError ("Parse error: " ++ text)

/-- What both transports do with a decoded message. -/
def WireFormat.answer (wire : WireFormat) (server : MCPServer) (data : Json) : Answered :=
  match JSONRPCRequest.modelValidate data with
  | none => { server, response := parseFailure (wire.report data) }
  | some req =>
    let handled := server.handleRequest req
    { server := handled.server
      reads := handled.reads
      response := match handled.result with
        | .ok resp => resp
        | .error e => .failure req.id ErrorCodes.internalError ("Internal error: " ++ e.message) }

/-! ## The transports -/

/-- `StdioTransport.run` on the lines of the input: what is written, line by line. -/
def WireFormat.runStdio (wire : WireFormat) (server : MCPServer) : List String → List Json
  | [] => []
  | line :: lines =>
    let line := String.ofList (strip line.toList)
    if line = "" then wire.runStdio server lines
    else match wire.loads line with
      | .error text => (parseFailure text).dump :: wire.runStdio server lines
      | .ok data =>
        let answered := wire.answer server data
        answered.response.dump :: wire.runStdio answered.server lines

structure SSETransport where
  server : MCPServer
  connections : OrderedDict String (List Json) := .empty

namespace SSETransport

def newSession (t : SSETransport) (sid : String) : SSETransport :=
  { t with connections := t.connections.insert sid [] }

def closeSession (t : SSETransport) (sid : String) : SSETransport :=
  { t with connections := t.connections.erase sid }

def unknownSession (sid : String) : Exc := .foreign ("Unknown session: " ++ sid)

/-- The transport after a message for the session, with what the message has read. -/
def deliverMessage (wire : WireFormat) (t : SSETransport) (sid : String) (data : Json) :
    Except Exc (SSETransport × List Json) :=
  match t.connections.get? sid with
  | none => .error (unknownSession sid)
  | some queue =>
    let answered := wire.answer t.server data
    .ok ({ server := answered.server
           connections := t.connections.insert sid (queue ++ [answered.response.dump]) },
      answered.reads)

/-- Messages for one session, one after the other. -/
def deliverMessages (wire : WireFormat) (t : SSETransport) (sid : String) :
    List Json → Except Exc SSETransport
  | [] => .ok t
  | data :: rest => do
    let (t, _) ← t.deliverMessage wire sid data
    t.deliverMessages wire sid rest

end SSETransport

/-- The lines of the input that are messages, decoded. -/
def WireFormat.messages (wire : WireFormat) (lines : List String) : List (Except String Json) :=
  ((lines.map fun line => String.ofList (strip line.toList)).filter (· ≠ "")).map wire.loads

/-! ## Conformance -/

/-- What a message is to JSON-RPC: a valid one without an id is a notification. -/
inductive MessageKind where
  | request (id : Json) (method : String)
  | notification
  | malformed

def messageKind : Except String Json → MessageKind
  | .error _ => .malformed
  | .ok data =>
    match JSONRPCRequest.modelValidate data with
    | none => .malformed
    | some req =>
      match data.member? "id" with
      | none | some .null => .notification
      | some id => .request id req.method

/-- The responses answer the messages in order: one with the same id for each request, none
for a notification, and one error with the id `null` for a malformed message. Until a
request has initialized the session, the responses to other requests are errors. -/
def ConformsToRpc (initialized : Bool) : List (Except String Json) → List Json → Prop
  | [], responses => responses = []
  | message :: messages, responses =>
    match messageKind message with
    | .request id method => ∃ response rest, responses = response :: rest ∧
        response.member? "id" = some id ∧
        (initialized = false → method ≠ "initialize" → (response.member? "error").isSome) ∧
        ConformsToRpc (initialized || method = "initialize") messages rest
    | .notification => ConformsToRpc initialized messages responses
    | .malformed => ∃ response rest, responses = response :: rest ∧
        response.member? "id" = some .null ∧ (response.member? "error").isSome ∧
        ConformsToRpc initialized messages rest

/-- A valid request with a text or a number as its id. -/
def IsPlainRequest : Except String Json → Prop
  | .error _ => False
  | .ok data => (JSONRPCRequest.modelValidate data).isSome ∧
      ((∃ q, data.member? "id" = some (.num q)) ∨ ∃ s, data.member? "id" = some (.str s))

/-- The responses to a sequence of messages. -/
def WireFormat.responses (wire : WireFormat) (server : MCPServer) :
    List (Except String Json) → List Json
  | [] => []
  | .error text :: messages => (parseFailure text).dump :: wire.responses server messages
  | .ok data :: messages =>
    (wire.answer server data).response.dump ::
      wire.responses (wire.answer server data).server messages

theorem WireFormat.runStdio_eq (wire : WireFormat) (server : MCPServer) (lines : List String) :
    wire.runStdio server lines = wire.responses server (wire.messages lines) := by
  induction lines generalizing server with
  | nil => rfl
  | cons line lines ih =>
    unfold runStdio messages
    rw [List.map_cons]
    dsimp only
    split_ifs with hblank
    · rw [hblank, List.filter_cons_of_neg (by simp)]
      exact ih server
    · rw [List.filter_cons_of_pos (by simpa using hblank), List.map_cons]
      cases wire.loads (String.ofList (strip line.toList)) with
      | error text => exact congrArg _ (ih server)
      | ok data => exact congrArg _ (ih _)

namespace SSETransport

/-- An open session's messages are all delivered, and their responses stand in its queue. -/
theorem deliverMessages_eq (wire : WireFormat) {t : SSETransport} {sid : String}
    {queue : List Json} (h : t.connections.get? sid = some queue) (bodies : List Json) :
    ∃ t', t.deliverMessages wire sid bodies = .ok t' ∧
      t'.connections.get? sid = some (queue ++ wire.responses t.server (bodies.map .ok)) := by
  induction bodies generalizing t queue with
  | nil => exact ⟨t, rfl, by rw [h]; simp [WireFormat.responses]⟩
  | cons data bodies ih =>
    obtain ⟨t', hdelivered, hqueue⟩ := ih (t := {
        server := (wire.answer t.server data).server
        connections := t.connections.insert sid
          (queue ++ [(wire.answer t.server data).response.dump]) })
      (by rw [OrderedDict.get?_insert, if_pos rfl])
    refine ⟨t', ?_, ?_⟩
    · rw [deliverMessages, deliverMessage, h]
      exact hdelivered
    · rw [hqueue, List.append_assoc]
      rfl

end SSETransport

/-! ## What an answer is to its message -/

section Answers

variable (wire : WireFormat) (server : MCPServer) {data : Json} {req : JSONRPCRequest}

theorem id_dump_parseFailure (text : String) : (parseFailure text).dump.member? "id" = none := by
  rw [JSONRPCResponse.member?_id_dump]
  rfl

theorem messageKind_of_none (h : JSONRPCRequest.modelValidate data = none) :
    messageKind (.ok data) = .malformed := by
  simp only [messageKind, h]

/-- A valid message is a request whose id is read as it was sent exactly if it is a text or a
number, or else a notification. -/
theorem messageKind_of_some (h : JSONRPCRequest.modelValidate data = some req) :
    (∃ id, messageKind (.ok data) = .request id req.method ∧
        (req.id.map RpcId.json = some id ↔ IsPlainRequest (.ok data))) ∨
      (messageKind (.ok data) = .notification ∧ ¬ IsPlainRequest (.ok data)) := by
  simp only [messageKind, IsPlainRequest, h]
  obtain ⟨hid, -⟩ | ⟨sent, hid, hv⟩ := JSONRPCRequest.id_of_modelValidate h
  · exact .inr (by simp [hid])
  · rw [hid]
    cases sent with
    | null => exact .inr (by simp)
    | bool b =>
      rw [← Option.some.inj hv]
      exact .inl ⟨_, rfl, by simp [RpcId.json]⟩
    | num q =>
      cases hreq : req.id with
      | none =>
        rw [hreq, RpcId.validate] at hv
        split_ifs at hv
        cases hv
      | some id =>
        rw [hreq] at hv
        exact .inl ⟨_, rfl, by simp [RpcId.json_of_validate hv]⟩
    | str s =>
      rw [← Option.some.inj hv]
      exact .inl ⟨_, rfl, by simp [RpcId.json]⟩
    | arr _ | obj _ => cases hv

/-- The answer to a valid request carries its id, also if the request has failed. -/
theorem WireFormat.id_answer (h : JSONRPCRequest.modelValidate data = some req) :
    (wire.answer server data).response.dump.member? "id" = req.id.map RpcId.json := by
  rw [JSONRPCResponse.member?_id_dump]
  simp only [answer, h]
  cases hresult : (server.handleRequest req).result with
  | ok resp =>
    dsimp only
    rw [server.id_handleRequest hresult]
  | error e => rfl

theorem WireFormat.initialized_answer (h : JSONRPCRequest.modelValidate data = some req) :
    (wire.answer server data).server.initialized =
      (server.initialized || req.method = "initialize") := by
  simp only [answer, h]
  by_cases hmethod : req.method = "initialize"
  · rw [server.server_handleRequest_of_initialize hmethod]
    simp [hmethod]
  · rw [server.server_handleRequest_of_ne hmethod]
    simp [hmethod]

theorem WireFormat.error_answer_of_not_initialized
    (h : JSONRPCRequest.modelValidate data = some req) (hnot : server.initialized = false)
    (hmethod : req.method ≠ "initialize") :
    ((wire.answer server data).response.dump.member? "error").isSome := by
  rw [JSONRPCResponse.member?_error_dump]
  obtain ⟨message, hresult⟩ := server.handleRequest_of_not_initialized hmethod hnot
  simp only [answer, h, hresult]
  rfl

end Answers

/-! ## Which sessions conform -/

theorem WireFormat.length_responses (wire : WireFormat) (server : MCPServer)
    (messages : List (Except String Json)) :
    (wire.responses server messages).length = messages.length := by
  induction messages generalizing server with
  | nil => rfl
  | cons message messages ih =>
    cases message with
    | error text => exact congrArg (· + 1) (ih server)
    | ok data => exact congrArg (· + 1) (ih _)

theorem ConformsToRpc.length_le {initialized : Bool} {messages : List (Except String Json)}
    {responses : List Json} (h : ConformsToRpc initialized messages responses) :
    responses.length ≤ messages.length := by
  induction messages generalizing initialized responses with
  | nil =>
    rw [show responses = [] from h]
    rfl
  | cons message messages ih =>
    unfold ConformsToRpc at h
    cases hkind : messageKind message with
    | request id method =>
      rw [hkind] at h
      obtain ⟨response, rest, rfl, -, -, hrest⟩ := h
      exact Nat.succ_le_succ (ih hrest)
    | notification =>
      rw [hkind] at h
      exact (ih h).trans (Nat.le_succ _)
    | malformed =>
      rw [hkind] at h
      obtain ⟨response, rest, rfl, -, -, hrest⟩ := h
      exact Nat.succ_le_succ (ih hrest)

/-- An error response without an id leaves the member out. -/
theorem not_conforms_of_malformed {message : Except String Json}
    (h : messageKind message = .malformed) (initialized : Bool) (text : String)
    (messages : List (Except String Json)) (rest : List Json) :
    ¬ ConformsToRpc initialized (message :: messages) ((parseFailure text).dump :: rest) := by
  simp only [ConformsToRpc, h]
  rintro ⟨response, _, heq, hid, -⟩
  obtain ⟨rfl, -⟩ := List.cons.inj heq
  rw [id_dump_parseFailure] at hid
  cases hid

section Responses

variable (wire : WireFormat) (server : MCPServer) {data : Json}
  (messages : List (Except String Json))

/-- Every message gets a response, so there is one too many for a notification. -/
theorem WireFormat.not_conforms_of_notification (h : messageKind (.ok data) = .notification) :
    ¬ ConformsToRpc server.initialized (.ok data :: messages)
      (wire.responses server (.ok data :: messages)) := by
  intro hc
  simp only [ConformsToRpc, h] at hc
  have hle := hc.length_le
  rw [wire.length_responses] at hle
  exact absurd hle (by simp)

/-- A request is answered as the protocol wants it if its id is read as it was sent. -/
theorem WireFormat.conforms_cons_iff {req : JSONRPCRequest}
    (h : JSONRPCRequest.modelValidate data = some req) {id : Json}
    (hkind : messageKind (.ok data) = .request id req.method) :
    ConformsToRpc server.initialized (.ok data :: messages)
        (wire.responses server (.ok data :: messages)) ↔
      req.id.map RpcId.json = some id ∧
        ConformsToRpc (wire.answer server data).server.initialized messages
          (wire.responses (wire.answer server data).server messages) := by
  simp only [ConformsToRpc, hkind, responses]
  rw [wire.initialized_answer server h]
  constructor
  · rintro ⟨response, rest, heq, hid, -, hrest⟩
    obtain ⟨rfl, rfl⟩ := List.cons.inj heq
    exact ⟨wire.id_answer server h ▸ hid, hrest⟩
  · rintro ⟨hid, hrest⟩
    exact ⟨_, _, rfl, (wire.id_answer server h).trans hid,
      wire.error_answer_of_not_initialized server h, hrest⟩

/-- The responses conform exactly if every message is a valid request with a text or a
number as its id. -/
theorem WireFormat.conforms_responses_iff :
    ConformsToRpc server.initialized messages (wire.responses server messages) ↔
      ∀ message ∈ messages, IsPlainRequest message := by
  induction messages generalizing server with
  | nil => simp [ConformsToRpc, responses]
  | cons message messages ih =>
    rw [List.forall_mem_cons]
    cases message with
    | error text =>
      exact iff_of_false (not_conforms_of_malformed rfl _ text messages _) fun h => h.1
    | ok data =>
      cases h : JSONRPCRequest.modelValidate data with
      | none =>
        refine iff_of_false ?_ fun hplain => ?_
        · rw [responses, answer, h]
          exact not_conforms_of_malformed (messageKind_of_none h) _ _ messages _
        · have hvalid := hplain.1.1
          rw [h] at hvalid
          cases hvalid
      | some req =>
        obtain ⟨id, hkind, hplain⟩ | ⟨hkind, hplain⟩ := messageKind_of_some h
        · rw [wire.conforms_cons_iff server messages h hkind, hplain, ih]
        · exact iff_of_false (wire.not_conforms_of_notification server messages hkind)
            fun hall => hplain hall.1

end Responses

/-- Over either transport a session conforms exactly if every message in it is a valid request
with a text or a number as its id. -/
theorem WireFormat.sessions_conform_iff (wire : WireFormat) (server : MCPServer) :
    (∀ lines, ConformsToRpc server.initialized (wire.messages lines)
        (wire.runStdio server lines) ↔ ∀ message ∈ wire.messages lines, IsPlainRequest message) ∧
    ∀ sid bodies, ∃ t responses,
      (({ server } : SSETransport).newSession sid).deliverMessages wire sid bodies = .ok t ∧
        t.connections.get? sid = some responses ∧
        (ConformsToRpc server.initialized (bodies.map .ok) responses ↔
          ∀ body ∈ bodies, IsPlainRequest (.ok body)) := by
  constructor
  · intro lines
    rw [wire.runStdio_eq]
    exact wire.conforms_responses_iff server _
  · intro sid bodies
    have hopen : (({ server } : SSETransport).newSession sid).connections.get? sid = some [] := by
      rw [SSETransport.newSession, OrderedDict.get?_insert, if_pos rfl]
    obtain ⟨t, hdelivered, hqueue⟩ := SSETransport.deliverMessages_eq wire hopen bodies
    refine ⟨t, _, hdelivered, hqueue, ?_⟩
    rw [List.nil_append]
    exact (wire.conforms_responses_iff server _).trans List.forall_mem_map

def initializeRequest : Json :=
  .obj [("jsonrpc", .str "2.0"), ("id", .num 1), ("method", .str "initialize")]

/-- The handshake of a client: the request to initialize, then the notification of it. -/
def handshake : List Json := [
  initializeRequest,
  .obj [("jsonrpc", .str "2.0"), ("method", .str "notifications/initialized")]]

/-- The notification is answered, with an error that has no id. -/
theorem handshake_not_conforms :
    let wire : WireFormat := { loads := fun text => .error text, report := fun _ => "" }
    let backend := McpBackend.stub (fun _ => "") (fun _ => "")
    let t := ({ server := { backend } } : SSETransport).newSession "session-1"
    ∃ t' responses, t.deliverMessages wire "session-1" handshake = .ok t' ∧
      t'.connections.get? "session-1" = some responses ∧
      ¬ ConformsToRpc false (handshake.map .ok) responses := by
  refine ⟨_, _, rfl, rfl, ?_⟩
  rintro ⟨response, rest, heq, -, -, hrest⟩
  obtain ⟨-, rfl⟩ := List.cons.inj heq
  cases hrest

end Ragx
