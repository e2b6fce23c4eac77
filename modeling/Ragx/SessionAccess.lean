import Ragx.McpSessions

/-!
# Messages for someone else's session

A message runs with the allow-list of the credential that opened its session, and whoever posts
it needs only some valid credential. The main result says what must hold of the two
allow-lists for no message to read more than its caller may.
-/
namespace Ragx

/-- What a caller may reach by the rules of the REST routes. -/
def AuthContext.Permits (ctx : AuthContext) (kbId : Json) : Prop :=
  ctx.authenticated = false ∨ ctx.kbAcl.RestGrants kbId

theorem AuthContext.permits_str (ctx : AuthContext) (kbId : String) :
    ctx.Permits (.str kbId) ↔ ctx.requireKbAccess kbId = .ok () :=
  (ctx.requireKbAccess_iff kbId).symm

/-- The caller may reach all that the tools and the list of the server let a session reach. -/
structure AuthContext.Covers (ctx : AuthContext) (server : MCPServer) : Prop where
  tools : ∀ kbId, server.kbAcl.ToolGrants kbId → ctx.Permits kbId
  list : ∀ rows, server.backend.listKbs = .ok rows →
    ∀ row ∈ rows, server.kbAcl.ListGrants row.kbId → ctx.Permits (.str row.kbId)

/-! ## What a message reads -/

section Reads

variable {server : MCPServer} {ctx : AuthContext} {kbId : Json}

theorem permits_of_mem_execListKbs (hcovers : ctx.Covers server)
    (h : kbId ∈ server.execListKbs.reads) : ctx.Permits kbId := by
  cases hrows : server.backend.listKbs with
  | error e =>
    simp [MCPServer.execListKbs, MCPServer.listKbsFn, hrows, bind, Except.bind] at h
  | ok rows =>
    have hread : ∃ s, kbId = .str s := by
      unfold MCPServer.execListKbs at h
      split at h
      · obtain ⟨row, -, rfl⟩ := List.mem_map.mp h
        exact ⟨_, rfl⟩
      · cases h
    obtain ⟨s, rfl⟩ := hread
    obtain ⟨hs, hgrants⟩ := (server.mem_reads_execListKbs hrows).mp h
    obtain ⟨row, hrow, rfl⟩ := List.mem_map.mp hs
    exact hcovers.list rows hrows row hrow hgrants

theorem permits_of_mem_handleRequest (hcovers : ctx.Covers server) {req : JSONRPCRequest}
    (h : kbId ∈ (server.handleRequest req).reads) : ctx.Permits kbId := by
  unfold MCPServer.handleRequest at h
  split_ifs at h
  · cases h
  · cases h
  · cases h
  · unfold MCPServer.handleToolsCall at h
    dsimp only at h
    split at h
    · cases h
    · rename_i tool htool
      unfold MCPServer.tool? at htool
      split at htool
      · cases htool
        exact hcovers.tools kbId (MCPServer.mem_reads_execOnKb_iff.mp h).2.2
      · cases htool
        exact hcovers.tools kbId (MCPServer.mem_reads_execOnKb_iff.mp h).2.2
      · cases htool
        exact permits_of_mem_execListKbs hcovers h
      · cases htool
  · cases h

theorem permits_of_mem_answer (hcovers : ctx.Covers server) (wire : WireFormat) {data : Json}
    (h : kbId ∈ (wire.answer server data).reads) : ctx.Permits kbId := by
  unfold WireFormat.answer at h
  split at h
  · cases h
  · exact permits_of_mem_handleRequest hcovers h

/-- A tool call. -/
def toolCall (name : String) (arguments : List (String × Json)) : Json :=
  .obj [("method", .str "tools/call"),
    ("params", .obj [("name", .str name), ("arguments", .obj arguments)])]

theorem reads_answer_toolCall (wire : WireFormat) (hinit : server.initialized) (name : String)
    (arguments : List (String × Json)) {tool : ToolRun}
    (h : server.tool? (.str name) (.obj arguments) = some tool) :
    (wire.answer server (toolCall name arguments)).reads = tool.reads := by
  have hvalid : JSONRPCRequest.modelValidate (toolCall name arguments) = some {
      method := "tools/call"
      params := [("name", .str name), ("arguments", .obj arguments)] } := rfl
  have hname : argGetD (.obj [("name", .str name), ("arguments", .obj arguments)]) "name"
      (.str "") = .str name := rfl
  have harguments : argGetD (.obj [("name", .str name), ("arguments", .obj arguments)])
      "arguments" (.obj []) = .obj arguments := rfl
  simp only [WireFormat.answer, hvalid, MCPServer.handleRequest, hinit, MCPServer.handleToolsCall,
    hname, harguments, h]
  rfl

/-- A session that is initialized is safe in a caller's hands, whatever message is sent, exactly
if the caller may reach what the session lets it reach. -/
theorem answer_permitted_iff_covers (wire : WireFormat) (hinit : server.initialized) :
    (∀ data, ∀ kbId ∈ (wire.answer server data).reads, ctx.Permits kbId) ↔
      ctx.Covers server := by
  refine ⟨fun h => ⟨fun kbId hgrants => ?_, fun rows hrows row hrow hgrants => ?_⟩,
    fun hcovers data kbId hkb => permits_of_mem_answer hcovers wire hkb⟩
  · refine h (toolCall "ragx_search" [("kb_id", kbId), ("query", .str "")]) kbId ?_
    rw [reads_answer_toolCall wire hinit _ _ rfl]
    exact MCPServer.mem_reads_execOnKb_iff.mpr ⟨rfl, rfl, hgrants⟩
  · refine h (toolCall "ragx_list_kbs" []) _ ?_
    rw [reads_answer_toolCall wire hinit _ _ rfl]
    exact (server.mem_reads_execListKbs hrows).mpr ⟨List.mem_map_of_mem hrow, hgrants⟩

end Reads

/-! ## A caller's own sessions -/

namespace Json

theorem containsText_of_mem {c : Char} {text : String} (h : c ∈ text.toList) :
    containsText c.toString text = true := by
  obtain ⟨front, back, hsplit⟩ := List.append_of_mem h
  refine List.any_eq_true.mpr ⟨c :: back, (List.mem_tails _ _).mpr ⟨front, hsplit.symm⟩, ?_⟩
  simp [Char.toString, List.isPrefixOf]

theorem iter_of_toSet {acl : Json} {items : List Json} (h : acl.toSet = .ok items) :
    acl.iter = .ok items := by
  obtain ⟨found, hiter, h⟩ := bind_eq_ok_iff.mp h
  split at h
  · cases h
  · cases h
    exact hiter

/-- What can be listed can be searched. -/
theorem pyIn_of_mem_toSet {acl : Json} {items : List Json} {kbId : String}
    (h : acl.toSet = .ok items) (hmem : .str kbId ∈ items) : (str kbId).pyIn acl = .ok true := by
  have hiter := iter_of_toSet h
  cases acl with
  | arr xs =>
    cases hiter
    exact congrArg Except.ok (any_pyEq_str.mpr hmem)
  | str text =>
    cases hiter
    obtain ⟨c, hc, hkb⟩ := List.mem_map.mp hmem
    cases hkb
    exact congrArg Except.ok (containsText_of_mem hc)
  | obj members =>
    cases hiter
    obtain ⟨m, hm, hkb⟩ := List.mem_map.mp hmem
    cases hkb
    refine congrArg Except.ok (List.any_eq_true.mpr ⟨m, hm, pyEq_str.mpr rfl⟩)
  | null | bool _ | num _ => cases hiter

theorem sessionAcl_eq (acl : Json) :
    acl.sessionAcl = acl ∨ (acl.sessionAcl = .null ∧ acl.truthy = false) := by
  unfold sessionAcl
  split
  · exact .inl rfl
  · exact .inr ⟨rfl, rfl⟩
  · exact .inl rfl

end Json

/-- A session with the caller's own allow-list grants nothing that the routes do not grant. -/
theorem AuthContext.covers_of_kbAcl {ctx : AuthContext} {server : MCPServer}
    (h : server.kbAcl = ctx.kbAcl.sessionAcl) : ctx.Covers server := by
  have htool : ∀ kbId, ctx.kbAcl.sessionAcl.ToolGrants kbId → ctx.kbAcl.RestGrants kbId := by
    rintro kbId (hnull | hin)
    · obtain heq | ⟨-, hfalse⟩ := ctx.kbAcl.sessionAcl_eq
      · rw [heq] at hnull
        rw [hnull]
        exact .inl rfl
      · exact .inl hfalse
    · obtain heq | ⟨heq, -⟩ := ctx.kbAcl.sessionAcl_eq
      · rw [heq] at hin
        exact .inr hin
      · rw [heq] at hin
        cases hin
  refine ⟨fun kbId hgrants => .inr (htool kbId (h ▸ hgrants)), fun rows _ row _ hgrants => ?_⟩
  rw [h] at hgrants
  obtain hfalse | ⟨items, hset, hmem⟩ := hgrants
  · obtain heq | ⟨-, hfalse'⟩ := ctx.kbAcl.sessionAcl_eq
    · exact .inr (.inl (heq ▸ hfalse))
    · exact .inr (.inl hfalse')
  · exact .inr (htool _ (.inr (Json.pyIn_of_mem_toSet hset hmem)))

/-! ## Runs -/

namespace McpDeployment

variable (dep : McpDeployment)

/-- A message reads nothing that its caller may not reach. -/
def ReadsPermitted (app : McpApp) : McpEvent → Prop
  | .messages headers now post => ∀ ctx, dep.mw.resolve dep.lib headers now = .ok ctx →
      ∀ kbId ∈ (mcpMessages dep.wire app.mcpSessions post).reads, ctx.Permits kbId
  | _ => True

/-- The caller of a message may reach all that the session lets it reach that the message names. -/
def CallerCovers (app : McpApp) : McpEvent → Prop
  | .messages headers now post => ∀ ctx sid transport,
      dep.mw.resolve dep.lib headers now = .ok ctx → post.sid = .ok (.str sid) →
      app.mcpSessions.get? sid = some transport → ctx.Covers transport.server
  | _ => True

variable {dep} {app app' : McpApp}

/-- A message reads what its session's server reads for it. -/
theorem exists_of_mem_reads {wire : WireFormat} {mcpSessions : OrderedDict String SSETransport}
    {post : McpPost} {kbId : Json} (h : kbId ∈ (mcpMessages wire mcpSessions post).reads) :
    ∃ sid transport, post.sid = .ok (.str sid) ∧ mcpSessions.get? sid = some transport ∧
      kbId ∈ (wire.answer transport.server post.body).reads := by
  unfold mcpMessages at h
  cases hsid : post.sid with
  | error e => simp [hsid] at h
  | ok sid =>
    cases sid with
    | str sid =>
      cases ht : mcpSessions.get? sid with
      | none => simp [hsid, ht] at h
      | some transport =>
        refine ⟨sid, transport, rfl, ht, ?_⟩
        simp only [hsid, ht, SSETransport.deliverMessage] at h
        cases hq : transport.connections.get? sid with
        | none => simp [hq] at h
        | some queue =>
          rw [hq] at h
          exact h
    | null | bool _ | num _ | arr _ | obj _ => simp [hsid] at h

theorem readsPermitted_of_covers {e : McpEvent} (h : dep.CallerCovers app e) :
    dep.ReadsPermitted app e := by
  cases e with
  | messages headers now post =>
    intro ctx hctx kbId hkb
    obtain ⟨sid, transport, hsid, ht, hread⟩ := exists_of_mem_reads hkb
    exact permits_of_mem_answer (h ctx sid transport hctx hsid ht) dep.wire hread
  | sse _ _ _ | resume _ _ | disconnect _ => trivial

theorem kbAcl_handleRequest (server : MCPServer) (req : JSONRPCRequest) :
    (server.handleRequest req).server.kbAcl = server.kbAcl := by
  by_cases h : req.method = "initialize"
  · rw [server.server_handleRequest_of_initialize h]
  · rw [server.server_handleRequest_of_ne h]

theorem kbAcl_answer (wire : WireFormat) (server : MCPServer) (data : Json) :
    (wire.answer server data).server.kbAcl = server.kbAcl := by
  unfold WireFormat.answer
  split
  · rfl
  · exact kbAcl_handleRequest server _

/-- The sessions of the one registry have the allow-lists that they have in the other. -/
def SameAcls (mcpSessions mcpSessions' : OrderedDict String SSETransport) : Prop :=
  ∀ sid, (mcpSessions'.get? sid).map (·.server.kbAcl) = (mcpSessions.get? sid).map (·.server.kbAcl)

theorem sameAcls_insert {mcpSessions : OrderedDict String SSETransport} {sid : String}
    {transport transport' : SSETransport} (h : mcpSessions.get? sid = some transport)
    (hacl : transport'.server.kbAcl = transport.server.kbAcl) :
    SameAcls mcpSessions (mcpSessions.insert sid transport') := by
  intro s
  rw [OrderedDict.get?_insert]
  split_ifs with hs
  · rw [← hs, h, Option.map_some, Option.map_some, hacl]
  · rfl

theorem sameAcls_mcpMessages (wire : WireFormat) (mcpSessions : OrderedDict String SSETransport)
    (post : McpPost) : SameAcls mcpSessions (mcpMessages wire mcpSessions post).mcpSessions := by
  unfold mcpMessages
  cases post.sid with
  | error e => exact fun _ => rfl
  | ok sid =>
    cases sid with
    | str sid =>
      cases ht : mcpSessions.get? sid with
      | none =>
        simp only [ht]
        exact fun _ => rfl
      | some transport =>
        simp only [ht, SSETransport.deliverMessage]
        cases transport.connections.get? sid with
        | none => exact fun _ => rfl
        | some queue => exact sameAcls_insert ht (kbAcl_answer wire _ _)
    | null | bool _ | num _ | arr _ | obj _ => exact fun _ => rfl

theorem sameAcls_endStream (app : McpApp) (sid : String) (phase : StreamPhase) :
    SameAcls app.mcpSessions (app.endStream sid phase).mcpSessions := by
  unfold McpApp.endStream
  split
  · rename_i ht
    exact sameAcls_insert ht rfl
  · exact fun _ => rfl

theorem sameAcls_resume {idleTimeout : Option ℚ} {sid : String} {now : ℚ}
    (h : app.resume idleTimeout sid now = some app') :
    SameAcls app.mcpSessions app'.mcpSessions := by
  unfold McpApp.resume at h
  split at h
  · split at h <;> cases h <;> exact fun _ => rfl
  · cases h
    exact fun _ => rfl
  · rename_i lastActivity transport hphase ht
    split at h
    · cases h
    · cases h
      exact sameAcls_insert ht rfl
    · split_ifs at h
      · cases h
        exact sameAcls_endStream app sid _
      · cases h
        exact fun _ => rfl
  · cases h

/-- The credential of the request, if it is one, has this allow-list. -/
def CarriesAcl (dep : McpDeployment) (acl : Json) : McpEvent → Prop
  | .sse headers now _ | .messages headers now _ =>
    ∀ ctx, dep.mw.resolve dep.lib headers now = .ok ctx → ctx.kbAcl = acl
  | _ => True

/-- Callers who all have one allow-list cover each other's sessions. -/
theorem callerCovers_of_carriesAcl (acl : Json) {events : List McpEvent}
    (h : ∀ e ∈ events, dep.CarriesAcl acl e) :
    EveryStep dep.step (fun app e _ => dep.CallerCovers app e) {} events := by
  let AllSessions (app : McpApp) : Prop := ∀ sid acl',
    (app.mcpSessions.get? sid).map (·.server.kbAcl) = some acl' → acl' = acl.sessionAcl
  have hkeep : ∀ {app app' : McpApp}, AllSessions app → SameAcls app.mcpSessions app'.mcpSessions →
      AllSessions app' := fun hall hsame sid acl' hacl => hall sid acl' (hsame sid ▸ hacl)
  refine EveryStep.of_invariant (I := AllSessions) (G := fun _ e _ => dep.CarriesAcl acl e)
    (fun app e app' hall hs hcarries => ⟨?_, ?_⟩) (fun sid acl' hacl => by cases hacl)
    (everyStep_of_forall (fun e he _ _ => h e he) _)
  · cases e with
    | messages headers now post =>
      intro ctx sid transport hctx hsid ht
      refine AuthContext.covers_of_kbAcl ((hall sid _ (by rw [ht]; rfl)).trans ?_)
      rw [hcarries ctx hctx]
    | sse _ _ _ | resume _ _ | disconnect _ => trivial
  · cases moves_of_step hs with
    | refusedSse _ _ _ | refusedMessages _ _ _ => exact hall
    | opened sid hctx =>
      intro s acl' hacl
      simp only [McpApp.mcpSse, OrderedDict.get?_insert] at hacl
      split_ifs at hacl
      · cases hacl
        exact congrArg Json.sessionAcl (hcarries _ hctx)
      · exact hall s acl' hacl
    | delivered _ _ post => exact hkeep hall (sameAcls_mcpMessages dep.wire app.mcpSessions post)
    | resumed hs => exact hkeep hall (sameAcls_resume hs)
    | disconnected _ _ => exact hkeep hall (sameAcls_endStream app _ _)

/-- A deployment with two keys, for `kb_a` and for `kb_b`. -/
def keyedDeployment : McpDeployment := { sampleDeployment with mw := sampleMiddleware }

theorem resolve_keyedA : keyedDeployment.mw.resolve keyedDeployment.lib headersA 0 =
    .ok { authenticated := true, keyId := "key-1", kbAcl := .arr [.str "kb_a"] } :=
  resolve_headersA

theorem resolve_keyedB : keyedDeployment.mw.resolve keyedDeployment.lib headersB 0 =
    .ok { authenticated := true, keyId := "key-2", kbAcl := .arr [.str "kb_b"] } :=
  resolve_headersB

def searchKbA : Json := toolCall "ragx_search" [("kb_id", .str "kb_a"), ("query", .str "salaries")]

/-- The holder of one key opens a session and searches with it. -/
def oneKeyRun : List McpEvent := [
  .sse headersA 0 "session-1",
  .messages headersA 0 { sessionIdParam := some "session-1", body := initializeRequest },
  .messages headersA 0 { sessionIdParam := some "session-1", body := searchKbA }]

end McpDeployment

end Ragx
