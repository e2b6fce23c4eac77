import Mathlib.Algebra.Order.Floor.Semiring
import Mathlib.Data.Rat.Floor
import Ragx.AuthMiddleware
import Ragx.ChatCompletions
import Ragx.KbAccess
import Ragx.RateLimiter
import Ragx.Simulations
import Ragx.TraceStore

/-!
# The middleware stack

On its way to a route a request passes the audit, the ring for addresses if there is one, the
authentication, the quota, the limiter for keys and the trace, and its response goes back through
them. Many requests are on their way at a time, and each step moves one of them one layer further.
-/
namespace Ragx

/-! ## Errors as responses -/

/-- `_HTTP_MAP` with its default. -/
def httpStatusFor : ℕ → ℕ
  | 1001 => 400 | 1002 => 401 | 1003 => 403 | 1004 => 429
  | 2001 => 422 | 2002 => 415 | 2003 => 404 | 2004 => 200
  | 3001 => 404 | 3002 => 409
  | 4001 => 404 | 4002 => 200 | 4003 => 400
  | 5001 => 503 | 5002 => 503 | 5003 => 422
  | 6001 => 502 | 6002 => 503 | 6003 => 400 | 6004 => 503
  | 7001 => 500 | 7002 => 502 | 7003 => 200
  | 9001 => 503 | 9002 => 503 | 9003 => 500
  | _ => 500

/-- A response with the headers that the middlewares set. -/
structure WebResponse extends HttpResponse where
  statusCode : ℕ := 200
  xTraceId : Option String := none
  retryAfter : Option Json := none

/-- `error_response`: the errors of the tree that the stack handles carry no trace id of their
own. -/
def errorResponse (e : Exc) (traceId : Option String) : WebResponse where
  statusCode := httpStatusFor e.code
  xTraceId := some (traceId.getD "")
  retryAfter := match OrderedDict.lookupIn "retry_after" e.details with
    | none | some .null => none
    | some x => some x
  payload := some (errorBody e (traceId.getD ""))

/-! ## Requests -/

/-- What the layers read of a request. -/
structure WebRequest where
  method : String
  path : String
  clientHost : Option String := none
  headers : AuthHeaders := {}
  xTraceId : Option String := none
  contentLength : Option String := none
  kbIdParam : Option String := none

/-- The key of the ring for addresses. -/
def WebRequest.ipKey (req : WebRequest) : String := "ip:" ++ req.clientHost.getD "unknown"

/-- The request as the quota sees it behind the authentication. -/
def WebRequest.authorized (req : WebRequest) (ctx : AuthContext) : HttpRequest where
  method := req.method
  path := req.path
  tenantId := some ctx.tenantId
  contentLength := req.contentLength

/-- `tenant_id or "default"`. -/
def AuthContext.ownTenant (ctx : AuthContext) : String :=
  if ctx.tenantId = "" then "default" else ctx.tenantId

@[simp] theorem WebRequest.tenant_authorized (req : WebRequest) (ctx : AuthContext) :
    (req.authorized ctx).tenant = ctx.ownTenant := rfl

/-- `key_id or "anonymous"`. -/
def AuthContext.rateKey (ctx : AuthContext) : String :=
  if ctx.keyId = "" then "anonymous" else ctx.keyId

/-- `round` to an integer: a tie goes to the even one. -/
def roundHalfEven (q : ℚ) : ℤ :=
  if q - ⌊q⌋ < 1 / 2 then ⌊q⌋
  else if 1 / 2 < q - ⌊q⌋ then ⌊q⌋ + 1
  else if ⌊q⌋ % 2 = 0 then ⌊q⌋ else ⌊q⌋ + 1

def rateLimitExceeded (key : String) (wait tokens : ℚ) : Exc where
  cls := .rateLimit
  code := 1004
  message := "rate limit exceeded"
  details := [("key", .str key), ("retry_after", .num (roundHalfEven (wait * 1000) / 1000)),
    ("tokens_requested", .num tokens)]

/-- `check_or_raise` for one request. -/
def InProcessRateLimiter.checkOrRaise (rl : InProcessRateLimiter) (now : ℚ) (key : String) :
    InProcessRateLimiter × Except Exc Unit :=
  match rl.acquire now key 1 with
  | (rl, none) => (rl, .ok ())
  | (rl, some wait) => (rl, .error (rateLimitExceeded key wait 1))

/-! ## The audit log -/

structure AuditEntry where
  timestamp : String
  tenantId : String
  keyId : String
  method : String
  path : String
  statusCode : ℕ
  traceId : String
  action : String
  resource : String
  details : List (String × Json)
  auditId : String

/-- `_classify`. -/
def classify (method path : String) : String × String :=
  let action := match method.toUpper with
    | "GET" => "read"
    | "POST" | "PUT" | "PATCH" => "write"
    | "DELETE" => "delete"
    | _ => "admin"
  let parts := ((path.toList.splitOn '/').map String.ofList).filter (· ≠ "")
  let resource :=
    if "documents" ∈ parts then "document"
    else if "chunks" ∈ parts then "chunk"
    else if "search" ∈ parts then "query"
    else if "chat" ∈ parts then "chat"
    else if "tasks" ∈ parts then "task"
    else if "health" ∈ parts ∨ "metrics" ∈ parts ∨ "traces" ∈ parts ∨ "audit" ∈ parts then "ops"
    else if "kb" ∈ parts ∨ "knowledge-base" ∈ parts then "kb"
    else "settings"
  (action, resource)

/-- The time, the duration and the id that an entry is made with. -/
structure AuditStamp where
  timestamp : String
  durationMs : ℚ
  auditId : String

/-- `_build_entry`: the context is there if the authentication let the request through, the
trace id if the trace has seen it. -/
def buildEntry (req : WebRequest) (ctx : Option AuthContext) (traceId : Option String)
    (statusCode : ℕ) (stamp : AuditStamp) : AuditEntry where
  timestamp := stamp.timestamp
  tenantId := match ctx with
    | none => "default"
    | some ctx => ctx.ownTenant
  keyId := match ctx with
    | none => "anonymous"
    | some ctx => ctx.rateKey
  method := req.method
  path := req.path
  statusCode
  traceId := traceId.getD ""
  action := (classify req.method req.path).1
  resource := (classify req.method req.path).2
  details := ("duration_ms", .num stamp.durationMs) ::
    match req.kbIdParam with
    | none | some "" => []
    | some kbId => [("kb_id", .str kbId)]
  auditId := stamp.auditId

/-- `entries[-k:]`, which is everything if `k` is zero. -/
def lastEntries {α : Type*} (xs : List α) (k : ℕ) : List α :=
  if k = 0 then xs else xs.drop (xs.length - k)

/-- The two stores: the last entries in memory, or the table of the database. -/
inductive AuditStore where
  | inMemory (entries : List AuditEntry) (maxEntries : ℕ)
  | metadata (rows : List AuditEntry)

namespace AuditStore

def entries : AuditStore → List AuditEntry
  | inMemory entries _ => entries
  | metadata rows => rows

/-- The database may fail, and its ids are unique. -/
def append (dbError : Option Exc) (entry : AuditEntry) : AuditStore → Except Exc AuditStore
  | inMemory entries maxEntries =>
    let entries := entries ++ [entry]
    .ok (.inMemory (if maxEntries < entries.length then lastEntries entries maxEntries else entries)
      maxEntries)
  | metadata rows =>
    match dbError with
    | some e => .error e
    | none =>
      if entry.auditId ∈ rows.map (·.auditId) then
        .error (.foreign "UNIQUE constraint failed: audit_log.audit_id")
      else .ok (.metadata (rows ++ [entry]))

end AuditStore

/-! ## One layer further -/

/-- Where a request is, with what is known of it there. -/
inductive Stage where
  | atIpRing
  | atAuth
  | atQuota (ctx : AuthContext)
  | atRateLimit (ctx : AuthContext)
  | atRoute (ctx : AuthContext) (traceId : String)
  | leavingQuota (ctx : AuthContext) (traceId : Option String) (response : WebResponse)
  | atAudit (ctx : Option AuthContext) (traceId : Option String) (response : WebResponse)
  | answered (ctx : Option AuthContext) (response : WebResponse) (entry : AuditEntry)
      (logged : Bool)
  | raised

/-- What a request has read of the clocks and of the world when it moves on. -/
structure Tick where
  monotonic : ℚ
  time : ℚ
  quotaClock : QuotaClock
  ulid : String
  stamp : AuditStamp
  /-- What the route's handler returns or raises. -/
  outcome : Except Exc WebResponse
  dbError : Option Exc := none

/-- What all requests share. -/
structure SharedStores where
  ipLimiter : Option InProcessRateLimiter
  limiter : InProcessRateLimiter
  quotaStore : QuotaStore
  auditStore : AuditStore
  /-- The monotonic clock at the last look at it. -/
  clock : ℚ

structure StackConfig where
  auth : AuthMiddleware
  lib : AuthLib
  security : SecurityConfig

/-- The layers, one at a time. An error that is not of the tree leaves the stack at the top. -/
def StackConfig.advance (cfg : StackConfig) (req : WebRequest) (tick : Tick) (s : SharedStores) :
    Stage → Option (SharedStores × Stage)
  | .atIpRing =>
    match s.ipLimiter with
    | none => some (s, .atAuth)
    | some rl =>
      if tick.monotonic < s.clock then none
      else match rl.checkOrRaise tick.monotonic req.ipKey with
        | (rl, .ok ()) => some ({ s with ipLimiter := some rl, clock := tick.monotonic }, .atAuth)
        | (rl, .error e) => some ({ s with ipLimiter := some rl, clock := tick.monotonic },
            .atAudit none none (errorResponse e none))
  | .atAuth =>
    match cfg.auth.resolve cfg.lib req.headers tick.time with
    | .ok ctx => some (s, .atQuota ctx)
    | .error e =>
      some (s, if e.cls = .foreign then .raised else .atAudit none none (errorResponse e none))
  | .atQuota ctx =>
    match cfg.security.gateUpload tick.quotaClock s.quotaStore (req.authorized ctx) with
    | (store, .ok ()) => some ({ s with quotaStore := store }, .atRateLimit ctx)
    | (store, .error e) =>
      some ({ s with quotaStore := store }, .atAudit (some ctx) none (errorResponse e none))
  | .atRateLimit ctx =>
    if tick.monotonic < s.clock then none
    else match s.limiter.checkOrRaise tick.monotonic ctx.rateKey with
      | (rl, .ok ()) => some ({ s with limiter := rl, clock := tick.monotonic },
          .atRoute ctx (requestTraceId req.xTraceId tick.ulid))
      | (rl, .error e) => some ({ s with limiter := rl, clock := tick.monotonic },
          .leavingQuota ctx none (errorResponse e none))
  | .atRoute ctx traceId =>
    match tick.outcome with
    | .ok response => some (s, .leavingQuota ctx (some traceId)
        { response with xTraceId := some traceId })
    | .error e => some (s,
        if e.cls = .foreign then .raised
        else .leavingQuota ctx (some traceId) (errorResponse e (some traceId)))
  | .leavingQuota ctx traceId response =>
    let store := cfg.security.countTokens tick.quotaClock ctx.ownTenant response.toHttpResponse
      s.quotaStore
    some ({ s with quotaStore := store }, .atAudit (some ctx) traceId response)
  | .atAudit ctx traceId response =>
    let entry := buildEntry req ctx traceId response.statusCode tick.stamp
    match s.auditStore.append tick.dbError entry with
    | .ok store => some ({ s with auditStore := store }, .answered ctx response entry true)
    | .error _ => some (s, .answered ctx response entry false)
  | .answered .. | .raised => none

/-! ## Many requests -/

structure Flight where
  request : WebRequest
  stage : Stage

structure Gateway where
  shared : SharedStores
  flights : OrderedDict ℕ Flight

/-- A request comes in under a number of its own, or moves on. -/
inductive GatewayEvent where
  | enter (id : ℕ) (req : WebRequest)
  | advance (id : ℕ) (tick : Tick)

def GatewayEvent.id : GatewayEvent → ℕ
  | enter id _ | advance id _ => id

namespace Gateway

def step (cfg : StackConfig) (w : Gateway) : GatewayEvent → Option Gateway
  | .enter id req =>
    if (w.flights.get? id).isSome then none
    else some { w with flights := w.flights.insert id ⟨req, .atIpRing⟩ }
  | .advance id tick =>
    match w.flights.get? id with
    | none => none
    | some flight =>
      match cfg.advance flight.request tick w.shared flight.stage with
      | none => none
      | some (shared, stage) =>
        some { shared, flights := w.flights.insert id { flight with stage } }

variable {cfg : StackConfig} {w w' : Gateway}

/-- A step lets a new request in, or moves one on. -/
theorem step_cases {e : GatewayEvent} (h : step cfg w e = some w') :
    (∃ id req, e = .enter id req ∧ w.flights.get? id = none ∧
      w' = { w with flights := w.flights.insert id ⟨req, .atIpRing⟩ }) ∨
    ∃ id tick flight shared stage, e = .advance id tick ∧ w.flights.get? id = some flight ∧
      cfg.advance flight.request tick w.shared flight.stage = some (shared, stage) ∧
      w' = { shared, flights := w.flights.insert id { flight with stage } } := by
  cases e with
  | enter id req =>
    simp only [step] at h
    split_ifs at h with hid
    cases h
    exact .inl ⟨id, req, rfl, Option.not_isSome_iff_eq_none.mp hid, rfl⟩
  | advance id tick =>
    simp only [step] at h
    cases hf : w.flights.get? id with
    | none => simp [hf] at h
    | some flight =>
      cases ha : cfg.advance flight.request tick w.shared flight.stage with
      | none => simp [hf, ha] at h
      | some next =>
        simp only [hf, ha, Option.some.injEq] at h
        exact .inr ⟨id, tick, flight, next.1, next.2, rfl, hf, ha, h.symm⟩

end Gateway

/-! ## A stack for two tenants -/

section Sample

/-- Two keys of two tenants, and no ring for addresses. -/
def twoTenants : StackConfig where
  auth := { security := { apiKeys := [
    ("a", [("key", .str "secret"), ("tenant_id", .str "t_a")]),
    ("b", [("key", .str "secret-b"), ("tenant_id", .str "t_b")])] } }
  lib := sampleLib
  security := {}

def emptyGateway : Gateway where
  shared := {
    ipLimiter := none
    limiter := { rate := 5, burst := 5 }
    quotaStore := .inMemory .empty
    auditStore := .inMemory [] 1000
    clock := 0 }
  flights := .empty

def oneTick : Tick where
  monotonic := 1
  time := 1
  quotaClock := { periodStart := "2026-05-01T00:00:00+00:00" }
  ulid := "01JTVB0000000000000000000A"
  stamp := { timestamp := "2026-05-11T00:00:00Z", durationMs := 3, auditId := "audit_1" }
  outcome := .ok {}

def chatRequest (headers : AuthHeaders) : WebRequest where
  method := "POST"
  path := "/v1/chat/completions"
  headers := headers

set_option maxRecDepth 8000 in
theorem resolve_twoTenants_a (now : ℚ) : twoTenants.auth.resolve twoTenants.lib headersA now =
    .ok { authenticated := true, keyId := "a", tenantId := "t_a" } := by rfl

set_option maxRecDepth 8000 in
theorem resolve_twoTenants_b (now : ℚ) : twoTenants.auth.resolve twoTenants.lib headersB now =
    .ok { authenticated := true, keyId := "b", tenantId := "t_b" } := by rfl

end Sample

end Ragx
