import Ragx.Models
import Ragx.PyJson

/-!
# The MCP server

JSON-RPC requests as the protocol model validates them, and responses as they are written to the
wire, where a member without a value is left out. A server dispatches the requests to three tools:
a search and an answer in one knowledge base, and the list of the knowledge bases. It is built for
one session with the allow-list of the credential that opened it.
-/
namespace Ragx

inductive RpcId where
  | num (n : ℤ)
  | str (s : String)
deriving DecidableEq, Repr

namespace RpcId

def json : RpcId → Json
  | .num n => .num n
  | .str s => .str s

/-- A field of type `int | str | None`; a truth value is taken for its number. -/
def validate : Json → Option (Option RpcId)
  | .null => some none
  | .bool b => some (some (.num (if b then 1 else 0)))
  | .num q => if q.den = 1 then some (some (.num q.num)) else none
  | .str s => some (some (.str s))
  | .arr _ | .obj _ => none

end RpcId

structure JSONRPCRequest where
  jsonrpc : String := "2.0"
  id : Option RpcId := none
  method : String
  params : List (String × Json) := []

/-- `None` stands for a validation error. -/
def JSONRPCRequest.modelValidate : Json → Option JSONRPCRequest
  | .obj members => do
    let jsonrpc ← (match OrderedDict.lookupIn "jsonrpc" members with
      | none => some "2.0"
      | some (.str s) => some s
      | some _ => none)
    let id ← (match OrderedDict.lookupIn "id" members with
      | none => some none
      | some x => RpcId.validate x)
    let method ← (match OrderedDict.lookupIn "method" members with
      | some (.str s) => some s
      | _ => none)
    let params ← (match OrderedDict.lookupIn "params" members with
      | none => some []
      | some (.obj params) => some params
      | some _ => none)
    return { jsonrpc, id, method, params }
  | _ => none

structure JSONRPCError where
  code : ℤ
  message : String
  data : Option Json := none

structure JSONRPCResponse where
  jsonrpc : String := "2.0"
  id : Option RpcId := none
  result : Option Json := none
  error : Option JSONRPCError := none

namespace ErrorCodes

def parseError : ℤ := -32700
def invalidRequest : ℤ := -32600
def methodNotFound : ℤ := -32601
def invalidParams : ℤ := -32602
def internalError : ℤ := -32603

end ErrorCodes

/-- A member that is left out if it has no value. -/
def optionalMember (key : String) (value : Option Json) : List (String × Json) :=
  match value with
  | some x => [(key, x)]
  | none => []

def JSONRPCError.dump (e : JSONRPCError) : Json :=
  .obj ([("code", .num e.code), ("message", .str e.message)] ++ optionalMember "data" e.data)

namespace JSONRPCResponse

def ok (id : Option RpcId) (result : Json) : JSONRPCResponse := { id, result := some result }

def failure (id : Option RpcId) (code : ℤ) (message : String) : JSONRPCResponse :=
  { id, error := some { code, message } }

/-- `model_dump_json(exclude_none=True)`. -/
def dump (resp : JSONRPCResponse) : Json :=
  .obj ([("jsonrpc", .str resp.jsonrpc)] ++ optionalMember "id" (resp.id.map RpcId.json) ++
    optionalMember "result" resp.result ++
    optionalMember "error" (resp.error.map JSONRPCError.dump))

theorem member?_id_dump (resp : JSONRPCResponse) :
    resp.dump.member? "id" = resp.id.map RpcId.json := by
  obtain ⟨jsonrpc, id, result, error⟩ := resp
  cases id <;> cases result <;> cases error <;> rfl

theorem member?_error_dump (resp : JSONRPCResponse) :
    resp.dump.member? "error" = resp.error.map JSONRPCError.dump := by
  obtain ⟨jsonrpc, id, result, error⟩ := resp
  cases id <;> cases result <;> cases error <;> rfl

end JSONRPCResponse

/-! ## What a valid request carries -/

/-- The id of a valid request is the one that was sent, unless a truth value was sent. -/
theorem RpcId.json_of_validate {sent : Json} {id : RpcId}
    (h : RpcId.validate sent = some (some id)) (hbool : ∀ b, sent ≠ .bool b) : id.json = sent := by
  cases sent with
  | null => cases h
  | bool b => exact absurd rfl (hbool b)
  | num q =>
    simp only [RpcId.validate] at h
    split_ifs at h with hden
    cases h
    exact congrArg Json.num (Rat.den_eq_one_iff q |>.mp hden)
  | str s =>
    cases h
    rfl
  | arr xs => cases h
  | obj ms => cases h

/-- A valid request has the id that was sent with it, if one was sent. -/
theorem JSONRPCRequest.id_of_modelValidate {data : Json} {req : JSONRPCRequest}
    (h : modelValidate data = some req) :
    (data.member? "id" = none ∧ req.id = none) ∨
      ∃ sent, data.member? "id" = some sent ∧ RpcId.validate sent = some req.id := by
  cases data with
  | obj members =>
    simp only [modelValidate, Option.bind_eq_bind, Option.bind_eq_some_iff] at h
    obtain ⟨jsonrpc, -, id, hid, method, -, params, -, h⟩ := h
    cases h
    unfold Json.member?
    dsimp only
    cases hsent : OrderedDict.lookupIn "id" members with
    | none =>
      rw [hsent] at hid
      cases hid
      exact .inl ⟨rfl, rfl⟩
    | some sent =>
      rw [hsent] at hid
      exact .inr ⟨sent, rfl, hid⟩
  | null | bool _ | num _ | str _ | arr _ => cases h

/-! ## The server -/

/-! ## Tools -/

structure MCPTool where
  name : String
  description : String
  inputSchema : Json

def MCPTool.dump (tool : MCPTool) : Json :=
  .obj [("name", .str tool.name), ("description", .str tool.description),
    ("input_schema", tool.inputSchema)]

/-- A property of an input schema. -/
def schemaProperty (type description : String) (default : Option Json) : Json :=
  .obj ([("type", .str type), ("description", .str description)] ++
    optionalMember "default" default)

def toolDefs : List MCPTool := [
  { name := "ragx_search"
    description := "Search the knowledge base. Returns relevant chunks with scores " ++
      "and sources (dense/bm25/graph_low/graph_high)."
    inputSchema := .obj [
      ("type", .str "object"),
      ("properties", .obj [
        ("kb_id", schemaProperty "string" "Knowledge base ID" none),
        ("query", schemaProperty "string" "Search query" none),
        ("top_k", schemaProperty "integer" "Max results" (some (.num 8))),
        ("filter", schemaProperty "object" "Optional metadata filter" none),
        ("mode", schemaProperty "string" "Retrieval mode" (some (.str "standard")))]),
      ("required", .arr [.str "kb_id", .str "query"])] },
  { name := "ragx_generate"
    description := "Generate an answer from the knowledge base using RAG. " ++
      "Returns the answer, citations, and metadata."
    inputSchema := .obj [
      ("type", .str "object"),
      ("properties", .obj [
        ("kb_id", schemaProperty "string" "Knowledge base ID" none),
        ("query", schemaProperty "string" "User question" none),
        ("mode", schemaProperty "string" "Mode: auto/fast/standard/agentic" (some (.str "auto"))),
        ("overrides", schemaProperty "object" "Optional overrides" none)]),
      ("required", .arr [.str "kb_id", .str "query"])] },
  { name := "ragx_list_kbs"
    description := "List all available knowledge bases."
    inputSchema := .obj [("type", .str "object"), ("properties", .obj [])] }]

structure ToolCallResult where
  content : List Json := []
  isError : Bool := false

namespace ToolCallResult

def fromText (text : String) (isError : Bool) : ToolCallResult where
  content := [.obj [("type", .str "text"), ("text", .str text)]]
  isError := isError

def dump (result : ToolCallResult) : Json :=
  .obj [("content", .arr result.content), ("is_error", .bool result.isError)]

end ToolCallResult

structure KbRow where
  kbId : String
  name : Json

def KbRow.json (row : KbRow) : Json := .obj [("kb_id", .str row.kbId), ("name", row.name)]

/-- What the server is wired to: the search, the answer, the rows of the table of knowledge
bases, and how Python writes a value as JSON and in a message. -/
structure McpBackend where
  searchFn : (kbId query topK filterExpr mode : Json) → Except Exc Json
  generateFn : (kbId query mode overrides : Json) → Except Exc Json
  listKbs : Except Exc (List KbRow)
  dumps : Json → String
  repr : Json → String

/-- A value in an f-string. -/
def McpBackend.format (backend : McpBackend) : Json → String
  | .str s => s
  | x => backend.repr x

/-- The stubs of a server without a backend. -/
def McpBackend.stub (dumps repr : Json → String) : McpBackend where
  searchFn _ _ _ _ _ := .ok (.obj [
    ("results", .arr []),
    ("message", .str "ragx_search stub — wire a real search_fn to MCPServer")])
  generateFn _ _ _ _ := .ok (.obj [
    ("answer", .str "ragx_generate stub — wire a real generate_fn to MCPServer"),
    ("mode", .str "standard")])
  listKbs := .ok []
  dumps := dumps
  repr := repr

structure MCPServer where
  backend : McpBackend
  kbAcl : Json := .null
  initialized : Bool := false

/-- A tool call with the knowledge bases that it has read. -/
structure ToolRun where
  reads : List Json := []
  result : Except Exc ToolCallResult

/-- `args.get(key, default)` where the arguments are known to be a dict. -/
def argGetD (args : Json) (key : String) (default : Json) : Json :=
  (args.member? key).getD default

namespace MCPServer

variable (server : MCPServer)

/-- The check in front of a search or an answer. -/
def admits (args : Json) : Except Exc Bool :=
  match server.kbAcl with
  | .null => .ok true
  | acl => do
    let kbId ← args.get "kb_id" .null
    kbId.pyIn acl

def notAuthorised (args : Json) : ToolCallResult :=
  .fromText ("kb_id '" ++ server.backend.format (argGetD args "kb_id" .null) ++
    "' is not authorised for this MCP session") true

/-- The common body of `_exec_search` and `_exec_generate`. -/
def execOnKb (failed : String) (call : (kbId query args : Json) → Except Exc Json) (args : Json) :
    ToolRun :=
  match server.admits args with
  | .error e => { result := .error e }
  | .ok false => { result := .ok (server.notAuthorised args) }
  | .ok true =>
    match args.item "kb_id", args.item "query" with
    | .ok kbId, .ok query =>
      { reads := [kbId]
        result := match call kbId query args with
          | .ok result => .ok (.fromText (server.backend.dumps result) false)
          | .error e => .ok (.fromText (failed ++ e.message) true) }
    | .error e, _ => { result := .ok (.fromText (failed ++ e.message) true) }
    | _, .error e => { result := .ok (.fromText (failed ++ e.message) true) }

def execSearch : Json → ToolRun :=
  server.execOnKb "Search failed: " fun kbId query args =>
    server.backend.searchFn kbId query (argGetD args "top_k" (.num 8))
      (argGetD args "filter" .null) (argGetD args "mode" (.str "standard"))

def execGenerate : Json → ToolRun :=
  server.execOnKb "Generation failed: " fun kbId query args =>
    server.backend.generateFn kbId query (argGetD args "mode" (.str "auto"))
      (argGetD args "overrides" .null)

/-- `list_kbs_fn`: an allow-list that counts as true selects the rows. -/
def listKbsFn : Except Exc (List KbRow) := do
  let kbs ← server.backend.listKbs
  if server.kbAcl.truthy then
    let allowed ← server.kbAcl.toSet
    return kbs.filter fun row => allowed.any fun item => item.pyEq (.str row.kbId)
  else return kbs

def execListKbs : ToolRun :=
  match server.listKbsFn with
  | .ok kbs =>
    { reads := kbs.map fun row => .str row.kbId
      result := .ok (.fromText (server.backend.dumps (.arr (kbs.map KbRow.json))) false) }
  | .error e => { result := .ok (.fromText ("List KBs failed: " ++ e.message) true) }

/-- The tool of that name. -/
def tool? (name : Json) (arguments : Json) : Option ToolRun :=
  match name with
  | .str "ragx_search" => some (server.execSearch arguments)
  | .str "ragx_generate" => some (server.execGenerate arguments)
  | .str "ragx_list_kbs" => some server.execListKbs
  | _ => none

end MCPServer

/-! ## Requests -/

/-- The server after a request, what the request has read, and its response. -/
structure Handled where
  server : MCPServer
  reads : List Json := []
  result : Except Exc JSONRPCResponse

namespace MCPServer

variable (server : MCPServer)

def protocolVersion : String := "2024-11-05"

def initializeResult : Json :=
  .obj [
    ("protocolVersion", .str protocolVersion),
    ("capabilities", .obj [("tools", .obj [("listChanged", .bool false)])]),
    ("serverInfo", .obj [("name", .str "ragx-mcp"), ("version", .str "0.1.0")])]

def handleToolsCall (req : JSONRPCRequest) : Handled :=
  let params := Json.obj req.params
  let name := argGetD params "name" (.str "")
  match server.tool? name (argGetD params "arguments" (.obj [])) with
  | none => { server, result := .ok (.failure req.id ErrorCodes.invalidParams
      ("Unknown tool: " ++ server.backend.format name)) }
  | some tool => { server, reads := tool.reads
                   result := tool.result.map fun result => .ok req.id result.dump }

def handleRequest (req : JSONRPCRequest) : Handled :=
  if req.method = "initialize" then
    { server := { server with initialized := true }
      result := .ok (.ok req.id initializeResult) }
  else if !server.initialized then
    { server, result := .ok (.failure req.id ErrorCodes.invalidRequest
        "Server not initialized — send 'initialize' first") }
  else if req.method = "tools/list" then
    { server, result := .ok (.ok req.id (.obj [("tools", .arr (toolDefs.map MCPTool.dump))])) }
  else if req.method = "tools/call" then server.handleToolsCall req
  else { server, result := .ok (.failure req.id ErrorCodes.methodNotFound
    ("Unknown method: " ++ req.method)) }

/-- A response carries the id of its request. -/
theorem id_handleRequest {req : JSONRPCRequest} {resp : JSONRPCResponse}
    (h : (server.handleRequest req).result = .ok resp) : resp.id = req.id := by
  unfold handleRequest at h
  split_ifs at h
  · cases h
    rfl
  · cases h
    rfl
  · cases h
    rfl
  · unfold handleToolsCall at h
    dsimp only at h
    split at h
    · cases h
      rfl
    · rename_i tool _
      dsimp only at h
      cases hr : tool.result with
      | error e =>
        rw [hr] at h
        cases h
      | ok result =>
        rw [hr] at h
        cases h
        rfl
  · cases h
    rfl

theorem server_handleToolsCall (req : JSONRPCRequest) :
    (server.handleToolsCall req).server = server := by
  unfold handleToolsCall
  dsimp only
  split <;> rfl

theorem server_handleRequest_of_initialize {req : JSONRPCRequest} (h : req.method = "initialize") :
    (server.handleRequest req).server = { server with initialized := true } := by
  rw [handleRequest, if_pos h]

/-- Any other request leaves the server as it is. -/
theorem server_handleRequest_of_ne {req : JSONRPCRequest} (h : req.method ≠ "initialize") :
    (server.handleRequest req).server = server := by
  rw [handleRequest, if_neg h]
  split_ifs
  · rfl
  · rfl
  · exact server.server_handleToolsCall req
  · rfl

/-- Before the first `initialize` every other request fails. -/
theorem handleRequest_of_not_initialized {req : JSONRPCRequest} (h : req.method ≠ "initialize")
    (hnot : server.initialized = false) :
    ∃ message, (server.handleRequest req).result =
      .ok (.failure req.id ErrorCodes.invalidRequest message) := by
  rw [handleRequest, if_neg h, hnot]
  exact ⟨_, rfl⟩

end MCPServer

end Ragx
