import Ragx.EventRuns
import Ragx.KbAccess
import Ragx.McpTransport

/-!
# The registry of MCP sessions

The route that opens a stream registers the session's transport, and the generator of the stream
closes the session in a `finally`. The main result says in which runs the registry holds
exactly the sessions whose streams are live.
-/
namespace Ragx

/-! ## Streams and messages -/

/-- Where the generator of a stream stands: not read yet, behind its first event, which is sent
in front of the `try`, in the loop since its last activity, or at its end. -/
inductive StreamPhase where
  | created
  | greeted
  | looping (lastActivity : ℚ)
  | ended

structure McpDeployment where
  mw : AuthMiddleware
  lib : AuthLib
  backend : McpBackend
  wire : WireFormat
  idleTimeout : Option ℚ

/-- `app.state.mcp_sessions`, and the streams that have been opened. -/
structure McpApp where
  mcpSessions : OrderedDict String SSETransport := .empty
  streams : OrderedDict String StreamPhase := .empty

/-- A message with the two query parameters that may name its session. A body that is no JSON
counts as an empty dict. -/
structure McpPost where
  sessionIdParam : Option String := none
  session_idParam : Option String := none
  body : Json

/-- The id of the session: from the query, or else from the body. -/
def McpPost.sid (post : McpPost) : Except Exc Json :=
  let named := match post.sessionIdParam with
    | none | some "" => post.session_idParam
    | some sid => some sid
  match named with
  | none | some "" => do
    let sid ← post.body.get "sessionId" .null
    if sid.truthy then return sid else post.body.get "session_id" .null
  | some sid => .ok (.str sid)

/-- The sessions after a message, what the message has read, and the status and the content of
the reply. -/
structure Posted where
  mcpSessions : OrderedDict String SSETransport
  reads : List Json := []
  reply : Except Exc (ℕ × Json)

def expiredSession : ℕ × Json := (404, .obj [("error", .str "unknown or expired session")])

def mcpMessages (wire : WireFormat) (mcpSessions : OrderedDict String SSETransport)
    (post : McpPost) : Posted :=
  match post.sid with
  | .error e => { mcpSessions, reply := .error e }
  | .ok (.str sid) =>
    match mcpSessions.get? sid with
    | none => { mcpSessions, reply := .ok expiredSession }
    | some transport =>
      match transport.deliverMessage wire sid post.body with
      | .error e => { mcpSessions, reply := .ok (400, .obj [("error", .str e.message)]) }
      | .ok (transport, reads) =>
        { mcpSessions := mcpSessions.insert sid transport, reads
          reply := .ok (202, .obj [("status", .str "accepted")]) }
  | .ok sid =>
    { mcpSessions, reply := if sid.hashable then .ok expiredSession else .error sid.unhashable }

namespace McpApp

variable (app : McpApp)

/-- `mcp_sse`: the session's server is built with the allow-list of the caller. -/
def mcpSse (backend : McpBackend) (ctx : AuthContext) (sid : String) : McpApp where
  mcpSessions := app.mcpSessions.insert sid
    (({ server := ctx.mcpServer backend } : SSETransport).newSession sid)
  streams := app.streams.insert sid .created

def setPhase (sid : String) (phase : StreamPhase) : McpApp :=
  { app with streams := app.streams.insert sid phase }

/-- The generator is closed where it stands; only its loop is inside the `try`. -/
def endStream (sid : String) (phase : StreamPhase) : McpApp :=
  match phase, app.mcpSessions.get? sid with
  | .looping _, some transport =>
    { mcpSessions := app.mcpSessions.insert sid (transport.closeSession sid)
      streams := app.streams.insert sid .ended }
  | _, _ => app.setPhase sid .ended

/-- The stream has been idle for too long. -/
def isIdle (idleTimeout : Option ℚ) (lastActivity now : ℚ) : Bool :=
  match idleTimeout with
  | none => false
  | some timeout => 0 < timeout && timeout ≤ now - lastActivity

/-- The generator of a stream is resumed: it sends its first event, enters its loop, sends what
has been put into the queue, or finds after a second that nothing has. -/
def resume (idleTimeout : Option ℚ) (sid : String) (now : ℚ) : Option McpApp :=
  match app.streams.get? sid, (app.mcpSessions.get? sid) with
  | some .created, some transport =>
    match transport.connections.get? sid with
    | none => some (app.setPhase sid .ended)
    | some _ => some (app.setPhase sid .greeted)
  | some .greeted, some _ => some (app.setPhase sid (.looping now))
  | some (.looping lastActivity), some transport =>
    match transport.connections.get? sid with
    | none => none
    | some (_ :: queue) => some {
        mcpSessions := app.mcpSessions.insert sid
          { transport with connections := transport.connections.insert sid queue }
        streams := app.streams.insert sid (.looping now) }
    | some [] =>
      if isIdle idleTimeout lastActivity now then
        some (app.endStream sid (.looping lastActivity))
      else some app
  | _, _ => none

end McpApp

/-! ## Runs -/

inductive McpEvent where
  | sse (headers : AuthHeaders) (now : ℚ) (sid : String)
  | messages (headers : AuthHeaders) (now : ℚ) (post : McpPost)
  | resume (sid : String) (now : ℚ)
  | disconnect (sid : String)

namespace McpDeployment

variable (dep : McpDeployment)

/-- A request without a valid credential changes nothing, a session's id is a new one, and a
client can disconnect as long as its stream has not ended. -/
def step (app : McpApp) : McpEvent → Option McpApp
  | .sse headers now sid =>
    match dep.mw.resolve dep.lib headers now with
    | .error _ => some app
    | .ok ctx =>
      match app.streams.get? sid with
      | some _ => none
      | none => some (app.mcpSse dep.backend ctx sid)
  | .messages headers now post =>
    match dep.mw.resolve dep.lib headers now with
    | .error _ => some app
    | .ok _ =>
      some { app with mcpSessions := (mcpMessages dep.wire app.mcpSessions post).mcpSessions }
  | .resume sid now => app.resume dep.idleTimeout sid now
  | .disconnect sid =>
    match app.streams.get? sid with
    | none | some .ended => none
    | some phase => some (app.endStream sid phase)

variable {dep}

/-- What an event does: a request is refused, a session is opened, a message is delivered, or a
stream is resumed or ended. -/
inductive Moves (dep : McpDeployment) (app : McpApp) : McpEvent → McpApp → Prop
  | refusedSse (headers : AuthHeaders) (now : ℚ) (sid : String) :
      Moves dep app (.sse headers now sid) app
  | refusedMessages (headers : AuthHeaders) (now : ℚ) (post : McpPost) :
      Moves dep app (.messages headers now post) app
  | opened {headers : AuthHeaders} {now : ℚ} {ctx : AuthContext} (sid : String)
      (hctx : dep.mw.resolve dep.lib headers now = .ok ctx) :
      Moves dep app (.sse headers now sid) (app.mcpSse dep.backend ctx sid)
  | delivered (headers : AuthHeaders) (now : ℚ) (post : McpPost) :
      Moves dep app (.messages headers now post)
        { app with mcpSessions := (mcpMessages dep.wire app.mcpSessions post).mcpSessions }
  | resumed {sid : String} {now : ℚ} {app' : McpApp}
      (h : app.resume dep.idleTimeout sid now = some app') : Moves dep app (.resume sid now) app'
  | disconnected {sid : String} {phase : StreamPhase}
      (hphase : app.streams.get? sid = some phase) (hlive : phase ≠ .ended) :
      Moves dep app (.disconnect sid) (app.endStream sid phase)

theorem moves_of_step {app app' : McpApp} {e : McpEvent} (h : dep.step app e = some app') :
    dep.Moves app e app' := by
  cases e with
  | sse headers now sid =>
    simp only [step] at h
    split at h
    · cases h
      exact .refusedSse headers now sid
    · split at h
      · cases h
      · cases h
        exact .opened sid ‹_›
  | messages headers now post =>
    simp only [step] at h
    split at h
    · cases h
      exact .refusedMessages headers now post
    · cases h
      exact .delivered headers now post
  | resume sid now => exact .resumed h
  | disconnect sid =>
    simp only [step] at h
    split at h
    · cases h
    · cases h
    · rename_i phase hended hphase
      cases h
      exact .disconnected hphase hended

theorem step_sse_of_ok {app : McpApp} {headers : AuthHeaders} {now : ℚ} {sid : String}
    {ctx : AuthContext} (h : dep.mw.resolve dep.lib headers now = .ok ctx)
    (hnew : app.streams.get? sid = none) :
    dep.step app (.sse headers now sid) = some (app.mcpSse dep.backend ctx sid) := by
  simp only [step, h, hnew]

theorem step_messages_of_ok {app : McpApp} {headers : AuthHeaders} {now : ℚ} {ctx : AuthContext}
    (h : dep.mw.resolve dep.lib headers now = .ok ctx) (post : McpPost) :
    dep.step app (.messages headers now post) =
      some { app with mcpSessions := (mcpMessages dep.wire app.mcpSessions post).mcpSessions } := by
  simp only [step, h]

end McpDeployment

/-- A stream that has been opened and has not ended. -/
def McpApp.Live (app : McpApp) (sid : String) : Prop :=
  ∃ phase, app.streams.get? sid = some phase ∧ phase ≠ .ended

/-- The registry holds the live sessions and no others, each with its connection open. -/
def McpApp.RegistryExact (app : McpApp) : Prop :=
  ∀ sid, ((app.mcpSessions.get? sid).isSome ↔ app.Live sid) ∧
    ∀ transport, app.mcpSessions.get? sid = some transport →
      (transport.connections.get? sid).isSome

namespace McpDeployment

variable (dep : McpDeployment)

/-- A message to a session that is not live is answered with the error for it. -/
def RefusesExpired (app : McpApp) : McpEvent → Prop
  | .messages headers now post => ∀ ctx sid, dep.mw.resolve dep.lib headers now = .ok ctx →
      post.sid = .ok (.str sid) → ¬ app.Live sid →
      (mcpMessages dep.wire app.mcpSessions post).reply = .ok expiredSession
  | _ => True

/-- The event is the end of a stream: its client disconnects, or it has been idle for too long
with nothing in its queue. -/
def EndsStream (app : McpApp) : McpEvent → Prop
  | .disconnect _ => True
  | .resume sid now => ∃ lastActivity transport,
      app.streams.get? sid = some (.looping lastActivity) ∧
      app.mcpSessions.get? sid = some transport ∧ transport.connections.get? sid = some [] ∧
      McpApp.isIdle dep.idleTimeout lastActivity now
  | _ => False

end McpDeployment

/-! ## What a step does to the registry -/

/-- Whether a session is registered, and whether its connection is open. -/
def connectionOf (mcpSessions : OrderedDict String SSETransport) (sid : String) : Option Bool :=
  (mcpSessions.get? sid).map fun transport => (transport.connections.get? sid).isSome

theorem connectionOf_insert (mcpSessions : OrderedDict String SSETransport) (sid s : String)
    (transport : SSETransport) :
    connectionOf (mcpSessions.insert sid transport) s =
      if sid = s then some (transport.connections.get? sid).isSome
      else connectionOf mcpSessions s := by
  unfold connectionOf
  rw [OrderedDict.get?_insert]
  split_ifs with h
  · rw [← h]
    rfl
  · rfl

/-- A message leaves all registrations and connections as they are. -/
theorem connectionOf_mcpMessages (wire : WireFormat)
    (mcpSessions : OrderedDict String SSETransport) (post : McpPost) (s : String) :
    connectionOf (mcpMessages wire mcpSessions post).mcpSessions s =
      connectionOf mcpSessions s := by
  unfold mcpMessages
  cases post.sid with
  | error e => rfl
  | ok sid =>
    cases sid with
    | str sid =>
      cases ht : mcpSessions.get? sid with
      | none => simp only [ht]
      | some transport =>
        simp only [ht, SSETransport.deliverMessage]
        cases hq : transport.connections.get? sid with
        | none => rfl
        | some queue =>
          dsimp only
          rw [connectionOf_insert, OrderedDict.get?_insert, if_pos rfl]
          split_ifs with hs
          · rw [← hs, connectionOf, ht, Option.map_some, hq]
            rfl
          · rfl
    | null | bool _ | num _ | arr _ | obj _ => rfl

namespace McpApp

variable {app : McpApp} {sid : String}

theorem registryExact_iff_connectionOf : app.RegistryExact ↔ ∀ s,
    (connectionOf app.mcpSessions s = some true ∧ app.Live s) ∨
      (connectionOf app.mcpSessions s = none ∧ ¬ app.Live s) := by
  refine forall_congr' fun s => ?_
  unfold connectionOf
  cases app.mcpSessions.get? s with
  | none => simp
  | some transport => simp [and_comm]

theorem live_insert {mcpSessions : OrderedDict String SSETransport} {phase : StreamPhase}
    {s : String} : McpApp.Live ⟨mcpSessions, app.streams.insert sid phase⟩ s ↔
      if sid = s then phase ≠ .ended else app.Live s := by
  unfold Live
  simp only [OrderedDict.get?_insert]
  split_ifs <;> simp

/-- A stream that goes on keeps the registry exact, if its connection is kept open. -/
theorem registryExact_goOn (h : app.RegistryExact)
    {mcpSessions : OrderedDict String SSETransport} {phase : StreamPhase}
    (hphase : phase ≠ .ended) (hsid : connectionOf mcpSessions sid = some true)
    (hother : ∀ s, sid ≠ s → connectionOf mcpSessions s = connectionOf app.mcpSessions s) :
    McpApp.RegistryExact ⟨mcpSessions, app.streams.insert sid phase⟩ := by
  refine registryExact_iff_connectionOf.mpr fun s => ?_
  rw [live_insert]
  by_cases hs : sid = s
  · rw [if_pos hs, ← hs]
    exact .inl ⟨hsid, hphase⟩
  · rw [if_neg hs, hother s hs]
    exact registryExact_iff_connectionOf.mp h s

/-- Nothing is ever taken from the registry, so it still has a session whose stream has ended. -/
theorem not_registryExact_endStream (hreg : (app.mcpSessions.get? sid).isSome)
    (phase : StreamPhase) : ¬ (app.endStream sid phase).RegistryExact := by
  intro h
  have hended : ¬ (app.endStream sid phase).Live sid := by
    unfold endStream setPhase
    split <;> simp [live_insert]
  refine hended ((h sid).1.mp ?_)
  unfold endStream setPhase
  split
  · rw [OrderedDict.get?_insert, if_pos rfl]
    rfl
  · exact hreg

end McpApp

namespace McpDeployment

variable {dep : McpDeployment} {app app' : McpApp} {sid : String}

theorem registryExact_sse (h : app.RegistryExact) (ctx : AuthContext) (sid : String) :
    (app.mcpSse dep.backend ctx sid).RegistryExact := by
  refine McpApp.registryExact_goOn h (by simp) ?_ fun s hs => ?_
  · rw [connectionOf_insert, if_pos rfl, SSETransport.newSession, OrderedDict.get?_insert,
      if_pos rfl]
    rfl
  · rw [connectionOf_insert, if_neg hs]

theorem registryExact_messages (h : app.RegistryExact) (post : McpPost) :
    McpApp.RegistryExact
      { app with mcpSessions := (mcpMessages dep.wire app.mcpSessions post).mcpSessions } := by
  refine McpApp.registryExact_iff_connectionOf.mpr fun s => ?_
  rw [connectionOf_mcpMessages]
  exact McpApp.registryExact_iff_connectionOf.mp h s

/-- A stream that is resumed keeps the registry exact, unless it has been idle for too long. -/
theorem registryExact_resume_iff (h : app.RegistryExact) {now : ℚ}
    (hs : app.resume dep.idleTimeout sid now = some app') :
    app'.RegistryExact ↔ ¬ dep.EndsStream app (.resume sid now) := by
  have hopen : ∀ transport, app.mcpSessions.get? sid = some transport →
      connectionOf app.mcpSessions sid = some true := by
    intro transport ht
    rw [connectionOf, ht, Option.map_some, (h sid).2 transport ht]
  unfold McpApp.resume at hs
  cases hphase : app.streams.get? sid with
  | none => simp [hphase] at hs
  | some phase =>
    cases ht : app.mcpSessions.get? sid with
    | none => cases phase <;> simp [hphase, ht] at hs
    | some transport =>
      obtain ⟨queue, hqueue⟩ := Option.isSome_iff_exists.mp ((h sid).2 transport ht)
      cases phase with
      | created =>
        simp only [hphase, ht, hqueue, Option.some.injEq] at hs
        subst hs
        exact iff_of_true
          (McpApp.registryExact_goOn h (by simp) (hopen _ ht) fun _ _ => rfl)
          (by simp [EndsStream, hphase])
      | greeted =>
        simp only [hphase, ht, Option.some.injEq] at hs
        subst hs
        exact iff_of_true
          (McpApp.registryExact_goOn h (by simp) (hopen _ ht) fun _ _ => rfl)
          (by simp [EndsStream, hphase])
      | looping lastActivity =>
        simp only [hphase, ht, hqueue] at hs
        cases queue with
        | cons message queue =>
          simp only [Option.some.injEq] at hs
          subst hs
          refine iff_of_true (McpApp.registryExact_goOn h (by simp) ?_ fun s hs => ?_)
            (by simp [EndsStream, hphase, ht, hqueue])
          · rw [connectionOf_insert, if_pos rfl, OrderedDict.get?_insert, if_pos rfl]
            rfl
          · rw [connectionOf_insert, if_neg hs]
        | nil =>
          dsimp only at hs
          split_ifs at hs with hidle
          · cases hs
            refine iff_of_false (McpApp.not_registryExact_endStream (by rw [ht]; rfl) _)
              (not_not_intro ⟨lastActivity, transport, hphase, ht, hqueue, hidle⟩)
          · cases hs
            refine iff_of_true h ?_
            rintro ⟨last, _, hlast, -, -, hidle'⟩
            rw [hphase] at hlast
            cases hlast
            exact hidle hidle'
      | ended => simp [hphase, ht] at hs

/-- A step keeps the registry exact exactly if it does not end a stream. -/
theorem registryExact_step_iff {e : McpEvent} (h : app.RegistryExact)
    (hs : dep.step app e = some app') : app'.RegistryExact ↔ ¬ dep.EndsStream app e := by
  cases moves_of_step hs with
  | refusedSse _ _ _ | refusedMessages _ _ _ => exact iff_of_true h id
  | opened sid _ => exact iff_of_true (registryExact_sse h _ sid) id
  | delivered _ _ post => exact iff_of_true (registryExact_messages h post) id
  | resumed hs => exact registryExact_resume_iff h hs
  | @disconnected sid phase hphase hlive =>
    have hreg : (app.mcpSessions.get? sid).isSome := (h sid).1.mpr ⟨phase, hphase, hlive⟩
    exact iff_of_false (McpApp.not_registryExact_endStream hreg phase) (not_not_intro trivial)

/-- An exact registry has no session that is not live. -/
theorem refusesExpired_of_registryExact (h : app.RegistryExact) (e : McpEvent) :
    dep.RefusesExpired app e := by
  cases e with
  | messages headers now post =>
    intro ctx sid _ hsid hlive
    have hnone : app.mcpSessions.get? sid = none := by
      rw [← Option.not_isSome_iff_eq_none, (h sid).1]
      exact hlive
    simp only [mcpMessages, hsid, hnone]
  | sse _ _ _ | resume _ _ | disconnect _ => trivial

/-- The registry is exact in every state of a run, and messages to closed sessions are refused,
exactly if the run ends no stream. -/
theorem registryExact_iff_endsNoStream (dep : McpDeployment) (events : List McpEvent) :
    EveryStep dep.step (fun app e app' => app'.RegistryExact ∧ dep.RefusesExpired app e)
        {} events ↔
      EveryStep dep.step (fun app e _ => ¬ dep.EndsStream app e) {} events := by
  refine everyStep_congr (I := McpApp.RegistryExact) (fun app e app' h hs => ?_) ?_
  · have hstep := registryExact_step_iff h hs
    exact ⟨(and_iff_left (refusesExpired_of_registryExact h e)).trans hstep, hstep.mpr⟩
  · intro sid
    simp [McpApp.Live]

/-- A deployment without keys and without a backend. -/
def sampleDeployment : McpDeployment where
  mw := { security := {} }
  lib := sampleLib
  backend := McpBackend.stub (fun _ => "") (fun _ => "")
  wire := { loads := fun text => .error text, report := fun _ => "" }
  idleTimeout := some 300

/-- After a client has read its session's id and has left, the session is still registered, and
a message for it gets another error. -/
theorem disconnected_not_registryExact :
    ∃ app, run sampleDeployment.step {} [.sse {} 0 "session-1", .resume "session-1" 0,
        .resume "session-1" 0, .disconnect "session-1"] = some app ∧
      ¬ app.RegistryExact ∧
      (mcpMessages sampleDeployment.wire app.mcpSessions
          { sessionIdParam := some "session-1", body := .obj [] }).reply =
        .ok (400, .obj [("error", .str "Unknown session: session-1")]) := by
  refine ⟨_, rfl, fun h => ?_, rfl⟩
  obtain ⟨phase, hphase, hended⟩ := (h "session-1").1.mp rfl
  cases hphase
  exact hended rfl

end McpDeployment

end Ragx
