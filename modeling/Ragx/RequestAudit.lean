import Ragx.MiddlewareStack

/-!
# One audit entry for each answer

The log holds the last entries of the requests that were answered, in the order of their answers,
whatever the order in which the requests move through the layers. An entry says what the client
was told and whom the authentication took the caller for, and a caller reads the entries
of its own tenant only.
-/
namespace Ragx

/-! ## The trail -/

/-- The entry that the log was given for a request. -/
def Stage.logEntry : Stage → Option AuditEntry
  | .answered _ _ entry true => some entry
  | _ => none

def Stage.isAnswered : Stage → Bool
  | .answered .. => true
  | _ => false

theorem Stage.logEntry_of_not_answered {stage : Stage} (h : stage.isAnswered = false) :
    stage.logEntry = none := by
  cases stage with
  | answered => cases h
  | _ => rfl

namespace Gateway

def logEntry (w : Gateway) (id : ℕ) : Option AuditEntry :=
  (w.flights.get? id).bind fun flight => flight.stage.logEntry

/-- The request of the event, if the step gave its entry to the log. -/
def loggedBy (_ : Gateway) (e : GatewayEvent) (w' : Gateway) : List ℕ :=
  if (w'.logEntry e.id).isSome then [e.id] else []

end Gateway

/-- What is left of all entries that the store was given. -/
def AuditStore.retained (all : List AuditEntry) : AuditStore → List AuditEntry
  | inMemory _ maxEntries => lastEntries all maxEntries
  | metadata _ => all

/-- Whom an entry names: the context if the authentication let the request through. -/
def StackConfig.Names (cfg : StackConfig) (req : WebRequest) (entry : AuditEntry) :
    Option AuthContext → Prop
  | none => entry.tenantId = "default" ∧ entry.keyId = "anonymous"
  | some ctx => (∃ now, cfg.auth.resolve cfg.lib req.headers now = .ok ctx) ∧
      entry.tenantId = ctx.ownTenant ∧ entry.keyId = ctx.rateKey

/-- The entry repeats the request and the answer that its client got. -/
structure StackConfig.Tells (cfg : StackConfig) (req : WebRequest) (ctx : Option AuthContext)
    (response : WebResponse) (entry : AuditEntry) : Prop where
  names : cfg.Names req entry ctx
  method_eq : entry.method = req.method
  path_eq : entry.path = req.path
  statusCode_eq : entry.statusCode = response.statusCode
  traceId_eq : response.xTraceId = some entry.traceId

/-- The requests in the order in which their entries were given to the log. -/
structure Gateway.AuditTrail (cfg : StackConfig) (w : Gateway) (order : List ℕ) : Prop where
  nodup : order.Nodup
  mem_iff : ∀ id, id ∈ order ↔ (w.logEntry id).isSome
  entries_eq : w.shared.auditStore.entries =
    w.shared.auditStore.retained (order.filterMap w.logEntry)
  tells : ∀ id req ctx response entry logged,
    w.flights.get? id = some ⟨req, .answered ctx response entry logged⟩ →
      cfg.Tells req ctx response entry
  complete : ∀ entries maxEntries, w.shared.auditStore = .inMemory entries maxEntries →
    ∀ id req ctx response entry logged,
      w.flights.get? id = some ⟨req, .answered ctx response entry logged⟩ → logged = true

/-! ## What the stages carry -/

/-- What is known of a request at its stage. -/
def Stage.Sound (cfg : StackConfig) (req : WebRequest) : Stage → Prop
  | .atIpRing | .atAuth | .raised => True
  | .atQuota ctx | .atRateLimit ctx | .atRoute ctx _ =>
    ∃ now, cfg.auth.resolve cfg.lib req.headers now = .ok ctx
  | .leavingQuota ctx traceId response =>
    (∃ now, cfg.auth.resolve cfg.lib req.headers now = .ok ctx) ∧
      response.xTraceId = some (traceId.getD "")
  | .atAudit ctx traceId response =>
    (∀ c, ctx = some c → ∃ now, cfg.auth.resolve cfg.lib req.headers now = .ok c) ∧
      response.xTraceId = some (traceId.getD "")
  | .answered ctx response entry _ => cfg.Tells req ctx response entry

theorem buildEntry_tells {cfg : StackConfig} {req : WebRequest} {ctx : Option AuthContext}
    {traceId : Option String} {response : WebResponse} (stamp : AuditStamp)
    (h : Stage.Sound cfg req (.atAudit ctx traceId response)) :
    cfg.Tells req ctx response (buildEntry req ctx traceId response.statusCode stamp) where
  names := by
    cases ctx with
    | none => exact ⟨rfl, rfl⟩
    | some ctx => exact ⟨h.1 ctx rfl, rfl, rfl⟩
  method_eq := rfl
  path_eq := rfl
  statusCode_eq := rfl
  traceId_eq := h.2

namespace StackConfig

variable {cfg : StackConfig} {req : WebRequest} {tick : Tick} {s s' : SharedStores}
  {stage stage' : Stage}

/-- A layer hands on what is known of the request. -/
theorem sound_advance (hsound : stage.Sound cfg req)
    (h : cfg.advance req tick s stage = some (s', stage')) : stage'.Sound cfg req := by
  cases stage with
  | atIpRing =>
    simp only [advance] at h
    split at h
    · cases h
      trivial
    · split_ifs at h
      split at h
      · cases h
        trivial
      · cases h
        exact ⟨(fun _ hc => by cases hc), rfl⟩
  | atAuth =>
    simp only [advance] at h
    split at h
    · rename_i ctx hctx
      cases h
      exact ⟨_, hctx⟩
    · cases h
      split_ifs
      · trivial
      · exact ⟨(fun _ hc => by cases hc), rfl⟩
  | atQuota ctx =>
    simp only [advance] at h
    split at h
    · cases h
      exact hsound
    · cases h
      exact ⟨fun _ hc => by cases hc; exact hsound, rfl⟩
  | atRateLimit ctx =>
    simp only [advance] at h
    split_ifs at h
    split at h
    · cases h
      exact hsound
    · cases h
      exact ⟨hsound, rfl⟩
  | atRoute ctx traceId =>
    simp only [advance] at h
    split at h
    · cases h
      exact ⟨hsound, rfl⟩
    · cases h
      split_ifs
      · trivial
      · exact ⟨hsound, rfl⟩
  | leavingQuota ctx traceId response =>
    cases h
    exact ⟨fun _ hc => by cases hc; exact hsound.1, hsound.2⟩
  | atAudit ctx traceId response =>
    simp only [advance] at h
    split at h <;>
    · cases h
      exact buildEntry_tells tick.stamp hsound
  | answered => cases h
  | raised => cases h

/-- Only the audit answers and writes to the log: it gives it the entry, or the log refuses it. -/
theorem audit_advance (h : cfg.advance req tick s stage = some (s', stage')) :
    (s'.auditStore = s.auditStore ∧ stage'.isAnswered = false) ∨
    ∃ ctx response entry logged, stage' = .answered ctx response entry logged ∧
      ((logged = true ∧ s.auditStore.append tick.dbError entry = .ok s'.auditStore) ∨
        (logged = false ∧ s' = s ∧ ∃ e, s.auditStore.append tick.dbError entry = .error e)) := by
  cases stage with
  | atIpRing =>
    simp only [advance] at h
    split at h
    · cases h
      exact .inl ⟨rfl, rfl⟩
    · split_ifs at h
      split at h <;>
      · cases h
        exact .inl ⟨rfl, rfl⟩
  | atAuth =>
    simp only [advance] at h
    split at h
    · cases h
      exact .inl ⟨rfl, rfl⟩
    · cases h
      split_ifs <;> exact .inl ⟨rfl, rfl⟩
  | atQuota ctx =>
    simp only [advance] at h
    split at h <;>
    · cases h
      exact .inl ⟨rfl, rfl⟩
  | atRateLimit ctx =>
    simp only [advance] at h
    split_ifs at h
    split at h <;>
    · cases h
      exact .inl ⟨rfl, rfl⟩
  | atRoute ctx traceId =>
    simp only [advance] at h
    split at h
    · cases h
      exact .inl ⟨rfl, rfl⟩
    · cases h
      split_ifs <;> exact .inl ⟨rfl, rfl⟩
  | leavingQuota ctx traceId response =>
    cases h
    exact .inl ⟨rfl, rfl⟩
  | atAudit ctx traceId response =>
    simp only [advance] at h
    split at h
    · rename_i store hstore
      cases h
      exact .inr ⟨ctx, response, _, true, rfl, .inl ⟨rfl, hstore⟩⟩
    · rename_i e herror
      cases h
      exact .inr ⟨ctx, response, _, false, rfl, .inr ⟨rfl, rfl, e, herror⟩⟩
  | answered => cases h
  | raised => cases h

end StackConfig

/-! ## The log over a run -/

theorem lastEntries_concat {α : Type*} (all : List α) (x : α) (k : ℕ) :
    (if k < (lastEntries all k ++ [x]).length then lastEntries (lastEntries all k ++ [x]) k
      else lastEntries all k ++ [x]) = lastEntries (all ++ [x]) k := by
  by_cases hk : k = 0
  · simp [lastEntries, hk]
  · have hlast (ys : List α) : lastEntries ys k = ys.drop (ys.length - k) := if_neg hk
    simp only [hlast, List.length_append, List.length_drop, List.length_singleton]
    have hdrop : (all ++ [x]).drop (all.length - k) = all.drop (all.length - k) ++ [x] :=
      List.drop_append_of_le_length (Nat.sub_le _ _)
    split_ifs with hlong
    · rw [← hdrop, List.drop_drop]
      congr 1
      omega
    · rw [← hdrop]
      congr 1
      omega

namespace AuditStore

variable {store store' : AuditStore} {dbError : Option Exc} {entry : AuditEntry}
  {all : List AuditEntry}

/-- The log keeps what it should of all that it is given. -/
theorem entries_append (h : store.append dbError entry = .ok store')
    (hall : store.entries = store.retained all) :
    store'.entries = store'.retained (all ++ [entry]) := by
  cases store with
  | inMemory entries maxEntries =>
    cases h
    have hentries : entries = lastEntries all maxEntries := hall
    subst hentries
    exact lastEntries_concat all entry maxEntries
  | metadata rows =>
    have hrows : rows = all := hall
    subst hrows
    simp only [append] at h
    split at h
    · cases h
    · split_ifs at h
      cases h
      rfl

theorem append_inMemory_isOk {entries : List AuditEntry} {maxEntries : ℕ} {e : Exc} :
    (inMemory entries maxEntries).append dbError entry ≠ .error e := by
  intro h
  cases h

/-- A store in memory stays one. -/
theorem inMemory_append {entries : List AuditEntry} {maxEntries : ℕ}
    (h : store.append dbError entry = .ok (.inMemory entries maxEntries)) :
    ∃ before, store = .inMemory before maxEntries := by
  cases store with
  | inMemory before k =>
    cases h
    exact ⟨before, rfl⟩
  | metadata rows =>
    simp only [append] at h
    split at h
    · cases h
    · split_ifs at h
      cases h

end AuditStore

namespace Gateway

variable {cfg : StackConfig} {w w' : Gateway} {order : List ℕ}

/-- Every request carries what is known at its stage. -/
def Sound (cfg : StackConfig) (w : Gateway) : Prop :=
  ∀ id flight, w.flights.get? id = some flight → flight.stage.Sound cfg flight.request

theorem sound_step {e : GatewayEvent} (hw : w.Sound cfg) (h : step cfg w e = some w') :
    w'.Sound cfg := by
  intro id flight hflight
  obtain ⟨id', req, rfl, _, rfl⟩ | ⟨id', tick, found, shared, stage, rfl, hfound, hadvance, rfl⟩ :=
    step_cases h
  · rw [OrderedDict.get?_insert] at hflight
    split_ifs at hflight
    · cases hflight
      trivial
    · exact hw id flight hflight
  · rw [OrderedDict.get?_insert] at hflight
    split_ifs at hflight
    · cases hflight
      exact StackConfig.sound_advance (hw id' found hfound) hadvance
    · exact hw id flight hflight

/-- The entry of the one request that a step moves changes, and no other one. -/
theorem logEntry_insert {shared : SharedStores} {id : ℕ} (flight : Flight) (j : ℕ) :
    logEntry ⟨shared, w.flights.insert id flight⟩ j =
      if id = j then flight.stage.logEntry else w.logEntry j := by
  unfold logEntry
  rw [OrderedDict.get?_insert]
  split_ifs <;> rfl

/-- A request that can still move has no entry. -/
theorem logEntry_of_advance {id : ℕ} {flight : Flight} {tick : Tick} {next : SharedStores × Stage}
    (hflight : w.flights.get? id = some flight)
    (h : cfg.advance flight.request tick w.shared flight.stage = some next) :
    w.logEntry id = none := by
  unfold logEntry
  rw [hflight, Option.bind_some]
  cases hstage : flight.stage with
  | answered =>
    rw [hstage] at h
    cases h
  | _ => rfl

/-- A step that logs nothing keeps the trail as it is. -/
theorem AuditTrail.keep (hw : w.AuditTrail cfg order) (hsound : w'.Sound cfg) {id : ℕ}
    (flight : Flight) (hflights : w'.flights = w.flights.insert id flight)
    (hentry : w.logEntry id = none) (hnone : flight.stage.logEntry = none)
    (hstore : w'.shared.auditStore = w.shared.auditStore)
    (hlogged : flight.stage.isAnswered = true →
      ∀ entries maxEntries, w.shared.auditStore ≠ .inMemory entries maxEntries) :
    w'.AuditTrail cfg order ∧ w'.logEntry id = none := by
  obtain ⟨shared', flights'⟩ := w'
  obtain rfl : flights' = w.flights.insert id flight := hflights
  have hsame : logEntry ⟨shared', w.flights.insert id flight⟩ = w.logEntry := by
    funext j
    rw [logEntry_insert]
    split_ifs with hj
    · rw [hnone, ← hj, hentry]
    · rfl
  refine ⟨⟨hw.nodup, ?_, ?_, fun id' req ctx response entry logged hf => hsound id' _ hf, ?_⟩, ?_⟩
  · rw [hsame]
    exact hw.mem_iff
  · rw [hsame, hstore]
    exact hw.entries_eq
  · intro entries maxEntries hmemory id' req ctx response entry logged hf
    rw [hstore] at hmemory
    rw [OrderedDict.get?_insert] at hf
    split_ifs at hf
    · cases hf
      exact absurd hmemory (hlogged rfl entries maxEntries)
    · exact hw.complete entries maxEntries hmemory id' req ctx response entry logged hf
  · rw [hsame, hentry]

/-- A step that logs an entry puts its request behind the others. -/
theorem AuditTrail.log (hw : w.AuditTrail cfg order) (hsound : w'.Sound cfg) {id : ℕ}
    {req : WebRequest} {ctx : Option AuthContext} {response : WebResponse} {entry : AuditEntry}
    {dbError : Option Exc}
    (hflights : w'.flights = w.flights.insert id ⟨req, .answered ctx response entry true⟩)
    (hentry : w.logEntry id = none)
    (hstore : w.shared.auditStore.append dbError entry = .ok w'.shared.auditStore) :
    w'.AuditTrail cfg (order ++ [id]) ∧ w'.logEntry id = some entry := by
  obtain ⟨shared', flights'⟩ := w'
  obtain rfl : flights' = w.flights.insert id _ := hflights
  have hlogged :
      logEntry ⟨shared', w.flights.insert id ⟨req, .answered ctx response entry true⟩⟩ id =
        some entry := by
    rw [logEntry_insert, if_pos rfl]
    rfl
  have hnew : id ∉ order := fun hid => by
    rw [hw.mem_iff, hentry] at hid
    cases hid
  have hothers : order.filterMap
      (logEntry ⟨shared', w.flights.insert id ⟨req, .answered ctx response entry true⟩⟩) =
      order.filterMap w.logEntry := by
    refine List.filterMap_congr fun j hj => ?_
    have hne : id ≠ j := fun hid => hnew (hid.symm ▸ hj)
    rw [logEntry_insert, if_neg hne]
  refine ⟨⟨?_, fun j => ?_, ?_, fun id' req ctx response entry logged hf => hsound id' _ hf, ?_⟩,
    hlogged⟩
  · rw [← List.concat_eq_append]
    exact hw.nodup.concat hnew
  · rw [List.mem_append, List.mem_singleton, logEntry_insert]
    split_ifs with hj
    · exact iff_of_true (.inr hj.symm) rfl
    · rw [hw.mem_iff, or_iff_left fun h => hj h.symm]
  · rw [List.filterMap_append, hothers, List.filterMap_cons_some hlogged]
    exact AuditStore.entries_append hstore hw.entries_eq
  · intro entries maxEntries hmemory id' req' ctx' response' entry' logged hf
    have hbefore : w.shared.auditStore.append dbError entry = .ok (.inMemory entries maxEntries) :=
      hstore.trans (congrArg Except.ok hmemory)
    obtain ⟨before, hbefore⟩ := AuditStore.inMemory_append hbefore
    rw [OrderedDict.get?_insert] at hf
    split_ifs at hf
    · cases hf
      rfl
    · exact hw.complete before maxEntries hbefore id' req' ctx' response' entry' logged hf

/-- What one step does to the trail. -/
theorem auditTrail_step {e : GatewayEvent} (hw : w.AuditTrail cfg order) (hsound : w.Sound cfg)
    (h : step cfg w e = some w') : w'.AuditTrail cfg (order ++ loggedBy w e w') := by
  have hsound' := sound_step hsound h
  obtain ⟨id, req, rfl, hnew, rfl⟩ |
    ⟨id, tick, flight, shared, stage, rfl, hflight, hadvance, rfl⟩ := step_cases h
  · have hentry : w.logEntry id = none := by
      unfold logEntry
      rw [hnew]
      rfl
    obtain ⟨htrail, hnone⟩ := hw.keep hsound' _ rfl hentry rfl rfl fun h => by cases h
    simpa [loggedBy, GatewayEvent.id, hnone] using htrail
  · have hentry := logEntry_of_advance hflight hadvance
    obtain ⟨hstore, hunanswered⟩ | ⟨ctx, response, entry, logged, rfl,
      ⟨rfl, hstore⟩ | ⟨rfl, rfl, error, herror⟩⟩ := StackConfig.audit_advance hadvance
    · obtain ⟨htrail, hnone⟩ := hw.keep hsound' { flight with stage } rfl hentry
        (Stage.logEntry_of_not_answered hunanswered) hstore
        fun hanswered => by rw [hunanswered] at hanswered; cases hanswered
      simpa [loggedBy, GatewayEvent.id, hnone] using htrail
    · obtain ⟨htrail, hsome⟩ := hw.log hsound' rfl hentry hstore
      simpa [loggedBy, GatewayEvent.id, hsome] using htrail
    · obtain ⟨htrail, hnone⟩ := hw.keep hsound'
        { flight with stage := .answered ctx response entry false } rfl hentry rfl rfl
        fun _ entries maxEntries hmemory => by
          rw [hmemory] at herror
          exact AuditStore.append_inMemory_isOk herror
      simpa [loggedBy, GatewayEvent.id, hnone] using htrail

/-- A gateway that has seen no request. -/
def IsFresh (w : Gateway) : Prop := w.flights = .empty ∧ w.shared.auditStore.entries = []

theorem auditTrail_of_run (cfg : StackConfig) {w₀ w : Gateway} (hfresh : w₀.IsFresh)
    {events : List GatewayEvent} (hrun : run (step cfg) w₀ events = some w) :
    w.AuditTrail cfg (outputs (step cfg) loggedBy w₀ events) := by
  obtain ⟨hflights, hentries⟩ := hfresh
  have hnone (id : ℕ) : w₀.flights.get? id = none := by
    rw [hflights]
    rfl
  have hsound : w₀.Sound cfg := fun id flight hflight => by
    rw [hnone] at hflight
    cases hflight
  have hstart : w₀.AuditTrail cfg [] := by
    refine ⟨List.nodup_nil, fun id => ?_, ?_, fun id req ctx response entry logged hf => ?_,
      fun entries maxEntries _ id req ctx response entry logged hf => ?_⟩
    · rw [logEntry, hnone]
      simp
    · rw [hentries]
      cases w₀.shared.auditStore <;> simp [AuditStore.retained, lastEntries]
    · rw [hnone] at hf
      cases hf
    · rw [hnone] at hf
      cases hf
  have hall := run_outputs (I := fun w order => w.Sound cfg ∧ w.AuditTrail cfg order)
    (fun s e s' os hs h => ⟨sound_step hs.1 h, auditTrail_step hs.2 hs.1 h⟩) ⟨hsound, hstart⟩ hrun
  rw [List.nil_append] at hall
  exact hall.2

/-- However the requests of a run get through the layers, those that are answered are logged once
each, in the order of the answers, and those that raise are not. -/
theorem answers_logged_once (cfg : StackConfig) {w₀ w : Gateway} (hfresh : w₀.IsFresh)
    {events : List GatewayEvent} (hrun : run (step cfg) w₀ events = some w) :
    w.AuditTrail cfg (outputs (step cfg) loggedBy w₀ events) ∧
      (outputs (step cfg) loggedBy w₀ events).Sublist (events.map GatewayEvent.id) ∧
      ∀ id req, w.flights.get? id = some ⟨req, .raised⟩ →
        id ∉ outputs (step cfg) loggedBy w₀ events := by
  have htrail := auditTrail_of_run cfg hfresh hrun
  refine ⟨htrail, outputs_sublist (fun _ e _ => ?_) w₀ events, fun id req hraised hid => ?_⟩
  · unfold loggedBy
    split_ifs
    · exact List.Sublist.refl _
    · exact List.nil_sublist _
  · rw [htrail.mem_iff, logEntry, hraised] at hid
    cases hid

/-- A request without a credential is refused by the authentication. -/
def refusedEvents : List GatewayEvent :=
  [.enter 0 (chatRequest {}), .advance 0 oneTick, .advance 0 oneTick, .advance 0 oneTick]

theorem answers_logged_once_refused : ∃ w,
    run (step twoTenants) emptyGateway refusedEvents = some w ∧
    w.AuditTrail twoTenants (outputs (step twoTenants) loggedBy emptyGateway refusedEvents) :=
  ⟨_, rfl, (answers_logged_once twoTenants ⟨rfl, rfl⟩ rfl).1⟩

end Gateway

/-! ## Reading the log -/

def tenantAccessError (tenantId : String) : Exc where
  cls := .auth
  code := 1003
  message := "tenant not authorised for this key"
  details := [("tenant_id", .str tenantId)]

namespace AuthContext

def requireTenantAccess (ctx : AuthContext) (tenantId : String) : Except Exc Unit :=
  if ctx.authenticated && tenantId != ctx.tenantId then .error (tenantAccessError tenantId)
  else .ok ()

def effectiveTenant (ctx : AuthContext) (tenantId : Option String) : String :=
  match tenantId with
  | none | some "" => ctx.ownTenant
  | some tenantId => tenantId

theorem effectiveTenant_of_own {ctx : AuthContext} {tenantId : Option String}
    (h : ∀ t, tenantId = some t → t = ctx.tenantId) :
    ctx.effectiveTenant tenantId = ctx.ownTenant := by
  unfold effectiveTenant
  split
  · rfl
  · rfl
  · rename_i t hne
    have ht := h t rfl
    subst ht
    exact (if_neg hne).symm

end AuthContext

/-- `list_audit_entries` of the route. The database orders its rows by their time, the latest
first, and has no limit below zero. -/
def listAuditEntries (byTime : List AuditEntry → List AuditEntry) (ctx : AuthContext)
    (tenantId : Option String) (limit : ℤ) (store : AuditStore) : Except Exc (List AuditEntry) := do
  let access := match tenantId with
    | none => .ok ()
    | some tenantId => ctx.requireTenantAccess tenantId
  access
  return match store with
    | .inMemory entries _ =>
      sliceTo (entries.filter (·.tenantId = ctx.effectiveTenant tenantId)).reverse limit
    | .metadata rows =>
      let rows := byTime (rows.filter (·.tenantId = ctx.effectiveTenant tenantId))
      if limit < 0 then rows else rows.take limit.toNat

/-- Who is authenticated reads entries of its own tenant, whatever it asks for. -/
theorem mem_of_listAuditEntries {byTime : List AuditEntry → List AuditEntry}
    (hperm : ∀ rows, (byTime rows).Perm rows) {ctx : AuthContext} (hauth : ctx.authenticated = true)
    {tenantId : Option String} {limit : ℤ} {store : AuditStore} {rows : List AuditEntry}
    (h : listAuditEntries byTime ctx tenantId limit store = .ok rows) :
    (∀ t, tenantId = some t → t = ctx.tenantId) ∧
      ∀ entry ∈ rows, entry ∈ store.entries ∧ entry.tenantId = ctx.ownTenant := by
  unfold listAuditEntries at h
  obtain ⟨_, haccess, h⟩ := bind_eq_ok_iff.mp h
  have hown : ∀ t, tenantId = some t → t = ctx.tenantId := by
    rintro t rfl
    by_contra hne
    simp [AuthContext.requireTenantAccess, hauth, hne] at haccess
  rw [AuthContext.effectiveTenant_of_own hown] at h
  refine ⟨hown, fun entry hentry => ?_⟩
  cases store with
  | inMemory entries maxEntries =>
    cases h
    have hmem := List.mem_filter.mp (List.mem_reverse.mp (mem_of_mem_sliceTo hentry))
    exact ⟨hmem.1, of_decide_eq_true hmem.2⟩
  | metadata all =>
    cases h
    have hmem : entry ∈ byTime (all.filter (·.tenantId = ctx.ownTenant)) := by
      split_ifs at hentry
      · exact hentry
      · exact List.mem_of_mem_take hentry
    have hmem := List.mem_filter.mp ((hperm _).subset hmem)
    exact ⟨hmem.1, of_decide_eq_true hmem.2⟩

theorem mem_of_mem_lastEntries {α : Type*} {all : List α} {k : ℕ} {x : α}
    (h : x ∈ lastEntries all k) : x ∈ all := by
  unfold lastEntries at h
  split_ifs at h
  · exact h
  · exact List.mem_of_mem_drop h

namespace Gateway

/-- After any run, what an authenticated caller reads in the log was written for requests whose
callers were taken for its own tenant, or for no tenant if its own is the default one. -/
theorem listed_own_tenant (cfg : StackConfig) {w₀ w : Gateway} (hfresh : w₀.IsFresh)
    {events : List GatewayEvent} (hrun : run (step cfg) w₀ events = some w)
    {byTime : List AuditEntry → List AuditEntry} (hperm : ∀ rows, (byTime rows).Perm rows)
    {ctx : AuthContext} (hauth : ctx.authenticated = true) {tenantId : Option String} {limit : ℤ}
    {rows : List AuditEntry}
    (hlist : listAuditEntries byTime ctx tenantId limit w.shared.auditStore = .ok rows) :
    ∀ entry ∈ rows, ∃ id req caller response,
      w.flights.get? id = some ⟨req, .answered caller response entry true⟩ ∧
        cfg.Tells req caller response entry ∧
        match caller with
        | none => ctx.ownTenant = "default"
        | some c => c.ownTenant = ctx.ownTenant := by
  intro entry hentry
  have htrail := auditTrail_of_run cfg hfresh hrun
  obtain ⟨hmem, htenant⟩ := (mem_of_listAuditEntries hperm hauth hlist).2 entry hentry
  have hall : entry ∈ (outputs (step cfg) loggedBy w₀ events).filterMap w.logEntry := by
    rw [htrail.entries_eq] at hmem
    cases hstore : w.shared.auditStore <;> rw [hstore] at hmem
    · exact mem_of_mem_lastEntries hmem
    · exact hmem
  obtain ⟨id, -, hid⟩ := List.mem_filterMap.mp hall
  obtain ⟨⟨req, stage⟩, hflight, hstage⟩ := Option.bind_eq_some_iff.mp hid
  cases stage with
  | answered caller response found logged =>
    cases logged with
    | false => cases hstage
    | true =>
      cases hstage
      have htells := htrail.tells id req caller response entry true hflight
      refine ⟨id, req, caller, response, hflight, htells, ?_⟩
      cases caller with
      | none => exact htenant.symm.trans htells.names.1
      | some c => exact htells.names.2.1.symm.trans htenant
  | _ => cases hstage

def defaultCaller : AuthContext := { authenticated := true }

/-- A caller of the default tenant reads of the refused request. -/
theorem listed_own_tenant_refused :
    ∃ w, run (step twoTenants) emptyGateway refusedEvents = some w ∧
      ∀ entry ∈ [buildEntry (chatRequest {}) none none 401 oneTick.stamp],
        ∃ id req caller response,
          w.flights.get? id = some ⟨req, .answered caller response entry true⟩ ∧
            twoTenants.Tells req caller response entry ∧
            match caller with
            | none => defaultCaller.ownTenant = "default"
            | some c => c.ownTenant = defaultCaller.ownTenant := by
  refine ⟨_, rfl, ?_⟩
  have hlist : listAuditEntries id defaultCaller none 100
      (.inMemory [buildEntry (chatRequest {}) none none 401 oneTick.stamp] 1000) =
        .ok [buildEntry (chatRequest {}) none none 401 oneTick.stamp] := rfl
  exact @listed_own_tenant twoTenants emptyGateway _ ⟨rfl, rfl⟩ refusedEvents rfl id
    (fun rows => List.Perm.refl rows) defaultCaller rfl none 100 _ hlist

end Gateway

end Ragx
