import Ragx.Chunker
import Ragx.CircuitBreaker
import Ragx.Models

/-!
# The quota middleware

Two monthly counters for each tenant, in memory or in the metadata database. What an upload
counts is its Content-Length, and it is added before the counter is compared with the cap.
Tokens are added from the usage block of a JSON response.
-/
namespace Ragx

/-! ## Counters -/

structure QuotaUsage where
  tokens : ℤ := 0
  uploadBytes : ℤ := 0
  periodStart : String
deriving DecidableEq, Repr

/-- The columns of the `quotas` table that are counted up. -/
inductive QuotaField where
  | tokens
  | uploadBytes
deriving DecidableEq, Repr

def QuotaUsage.bump (u : QuotaUsage) (count : ℤ) : QuotaField → QuotaUsage
  | .tokens => { u with tokens := u.tokens + count }
  | .uploadBytes => { u with uploadBytes := u.uploadBytes + count }

/-- `_ensure`: the tenant's counters of the period, and the store with an entry for them. -/
def ensureQuota (period tenantId : String) (usage : OrderedDict String QuotaUsage) :
    OrderedDict String QuotaUsage × QuotaUsage :=
  let fresh : QuotaUsage := { periodStart := period }
  match usage.get? tenantId with
  | none => (usage.insert tenantId fresh, fresh)
  | some u =>
    if u.periodStart ≠ period then (usage.insert tenantId fresh, fresh) else (usage, u)

/-- `get_quota`: the row of the period, or zeros. -/
def getQuota (period tenantId : String) (quotas : OrderedDict (String × String) QuotaUsage) :
    QuotaUsage :=
  (quotas.get? (tenantId, period)).getD { periodStart := period }

/-- The two backends. -/
inductive QuotaStore where
  | inMemory (usage : OrderedDict String QuotaUsage)
  | metadata (quotas : OrderedDict (String × String) QuotaUsage)

namespace QuotaStore

def usage (period tenantId : String) : QuotaStore → QuotaUsage
  | .inMemory usage => (ensureQuota period tenantId usage).2
  | .metadata quotas => getQuota period tenantId quotas

/-- `add_tokens` and `add_upload`: the store and the counters afterwards. -/
def add (field : QuotaField) (period tenantId : String) (count : ℤ) :
    QuotaStore → QuotaStore × QuotaUsage
  | .inMemory usage =>
    let ensured := ensureQuota period tenantId usage
    let canonical := ensured.2.bump count field
    (.inMemory (ensured.1.insert tenantId canonical), canonical)
  | .metadata quotas =>
    let row := (getQuota period tenantId quotas).bump count field
    (.metadata (quotas.insert (tenantId, period) row), row)

def addUpload := add .uploadBytes

def addTokens := add .tokens

end QuotaStore

@[simp] theorem QuotaUsage.periodStart_bump (u : QuotaUsage) (count : ℤ) (field : QuotaField) :
    (u.bump count field).periodStart = u.periodStart := by
  cases field <;> rfl

theorem periodStart_ensureQuota (period tenantId : String) (usage : OrderedDict String QuotaUsage) :
    (ensureQuota period tenantId usage).2.periodStart = period := by
  unfold ensureQuota
  dsimp only
  split
  · rfl
  · split_ifs with hperiod
    · rfl
    · exact not_not.mp hperiod

/-- Looking at one tenant leaves the others alone. -/
theorem get?_ensureQuota_of_ne {period tenantId other : String} (h : tenantId ≠ other)
    (usage : OrderedDict String QuotaUsage) :
    (ensureQuota period tenantId usage).1.get? other = usage.get? other := by
  unfold ensureQuota
  dsimp only
  split
  · rw [OrderedDict.get?_insert, if_neg h]
  · split_ifs
    · rw [OrderedDict.get?_insert, if_neg h]
    · rfl

theorem ensureQuota_congr {period tenantId : String} {usage usage' : OrderedDict String QuotaUsage}
    (h : usage.get? tenantId = usage'.get? tenantId) :
    (ensureQuota period tenantId usage).2 = (ensureQuota period tenantId usage').2 := by
  unfold ensureQuota
  rw [h]
  dsimp only
  split
  · rfl
  · split_ifs <;> rfl

namespace QuotaStore

/-- The counters that are handed back. -/
theorem add_snd (field : QuotaField) (period tenantId : String) (count : ℤ) (store : QuotaStore) :
    (store.add field period tenantId count).2 = (store.usage period tenantId).bump count field := by
  cases store <;> rfl

/-- Both backends count alike. -/
theorem usage_add (field : QuotaField) (period tenantId other : String) (count : ℤ)
    (store : QuotaStore) :
    (store.add field period tenantId count).1.usage period other =
      if tenantId = other then (store.usage period other).bump count field
      else store.usage period other := by
  cases store with
  | inMemory usage =>
    have hperiod := periodStart_ensureQuota period tenantId usage
    split_ifs with h
    · subst h
      simp only [add, QuotaStore.usage]
      rw [ensureQuota, OrderedDict.get?_insert, if_pos rfl]
      dsimp only
      rw [if_neg (not_not.mpr (by rw [QuotaUsage.periodStart_bump, hperiod]))]
    · refine ensureQuota_congr ?_
      rw [OrderedDict.get?_insert, if_neg h, get?_ensureQuota_of_ne h]
  | metadata quotas =>
    simp only [add, QuotaStore.usage, getQuota, OrderedDict.get?_insert, Prod.mk.injEq, and_true]
    split_ifs with h
    · subst h
      rfl
    · rfl

end QuotaStore

/-! ## Requests -/

/-- The value of a run of digits, with single underscores between them. -/
def digitsValue (cs : List Char) : Option ℕ :=
  if (cs.splitOn '_').all fun group => !group.isEmpty && group.all Char.isDigit then
    some ((cs.filter (· ≠ '_')).foldl (fun n c => 10 * n + (c.toNat - '0'.toNat)) 0)
  else none

/-- `int(s)` of a text; `none` stands for the ValueError. -/
def pyInt (s : String) : Option ℤ :=
  match strip s.toList with
  | '+' :: cs => (digitsValue cs).map fun n => (n : ℤ)
  | '-' :: cs => (digitsValue cs).map fun n => -(n : ℤ)
  | cs => (digitsValue cs).map fun n => (n : ℤ)

/-- `int(x)` of a JSON value. -/
def Json.toInt : Json → Option ℤ
  | .num q => some (truncate q)
  | .bool b => some (if b then 1 else 0)
  | .str s => pyInt s
  | _ => none

structure SecurityConfig where
  monthlyTokenQuota : ℕ := 0
  monthlyUploadQuotaBytes : ℕ := 0

structure HttpRequest where
  method : String
  path : String
  /-- Set by the authentication in front. -/
  tenantId : Option String := none
  contentLength : Option String := none

/-- `payload` is the body, if it can be read as JSON. -/
structure HttpResponse where
  contentType : String := "application/json"
  payload : Option Json := none

/-- The period of the request, and what is left of it. -/
structure QuotaClock where
  periodStart : String
  nextPeriodSeconds : ℤ := 1

def HttpRequest.tenant (req : HttpRequest) : String :=
  match req.tenantId with
  | none => "default"
  | some tenantId => if tenantId = "" then "default" else tenantId

def HttpRequest.isUpload (req : HttpRequest) : Bool :=
  req.method = "POST" && "/v1/documents".toList.isSuffixOf req.path.toList

/-- The size that an upload is counted with. -/
def HttpRequest.declaredSize (req : HttpRequest) : ℤ :=
  match req.contentLength with
  | none => 0
  | some cl => if cl = "" then 0 else (pyInt cl).getD 0

namespace SecurityConfig

variable (config : SecurityConfig) (clock : QuotaClock)

def uploadQuotaError (tenantId : String) (used : ℤ) : Exc where
  cls := .rateLimit
  code := 1004
  message := "monthly upload quota exceeded"
  details := [("tenant_id", .str tenantId), ("used", .num used),
    ("cap", .num config.monthlyUploadQuotaBytes), ("retry_after", .num clock.nextPeriodSeconds)]

/-- The upload quota: counts, then compares. -/
def gateUpload (store : QuotaStore) (req : HttpRequest) : QuotaStore × Except Exc Unit :=
  if req.isUpload && 0 < config.monthlyUploadQuotaBytes then
    let (store, usage) := store.addUpload clock.periodStart req.tenant req.declaredSize
    if config.monthlyUploadQuotaBytes < usage.uploadBytes then
      (store, .error (config.uploadQuotaError clock req.tenant usage.uploadBytes))
    else (store, .ok ())
  else (store, .ok ())

/-- `usage.total_tokens` of a response's body. -/
def reportedTokens (payload : Json) : ℤ :=
  match payload with
  | .obj members =>
    match OrderedDict.lookupIn "usage" members with
    | some (.obj usage) =>
      (((OrderedDict.lookupIn "total_tokens" usage).getD (.num 0)).toInt).getD 0
    | _ => 0
  | _ => 0

/-- The token quota: counted from JSON responses, and never refused. -/
def countTokens (tenantId : String) (response : HttpResponse) (store : QuotaStore) : QuotaStore :=
  if 0 < config.monthlyTokenQuota &&
      "application/json".toList.isPrefixOf response.contentType.toList then
    let total := reportedTokens (response.payload.getD (.obj []))
    if 0 < total then (store.addTokens clock.periodStart tenantId total).1 else store
  else store

def dispatch (callNext : HttpRequest → HttpResponse) (store : QuotaStore) (req : HttpRequest) :
    QuotaStore × Except Exc HttpResponse :=
  match config.gateUpload clock store req with
  | (store, .error e) => (store, .error e)
  | (store, .ok ()) =>
    let response := callNext req
    (config.countTokens clock req.tenant response store, .ok response)

/-- What the gate does with an upload, if there is a cap. -/
theorem gateUpload_eq {config : SecurityConfig} {req : HttpRequest} (clock : QuotaClock)
    (store : QuotaStore) (hcap : 0 < config.monthlyUploadQuotaBytes)
    (hupload : req.isUpload = true) :
    config.gateUpload clock store req =
      ((store.addUpload clock.periodStart req.tenant req.declaredSize).1,
        if config.monthlyUploadQuotaBytes <
            (store.usage clock.periodStart req.tenant).uploadBytes + req.declaredSize then
          .error (config.uploadQuotaError clock req.tenant
            ((store.usage clock.periodStart req.tenant).uploadBytes + req.declaredSize))
        else .ok ()) := by
  have hused : (store.addUpload clock.periodStart req.tenant req.declaredSize).2.uploadBytes =
      (store.usage clock.periodStart req.tenant).uploadBytes + req.declaredSize := by
    rw [QuotaStore.addUpload, QuotaStore.add_snd]
    rfl
  unfold gateUpload
  rw [if_pos (by simp [hupload, hcap])]
  dsimp only
  rw [hused]
  split_ifs <;> rfl

/-- Counting tokens leaves the uploads as they are. -/
theorem uploadBytes_countTokens (tenantId other : String) (response : HttpResponse)
    (store : QuotaStore) :
    ((config.countTokens clock tenantId response store).usage clock.periodStart other).uploadBytes =
      (store.usage clock.periodStart other).uploadBytes := by
  unfold countTokens
  dsimp only
  split_ifs
  · rw [QuotaStore.addTokens, QuotaStore.usage_add]
    split_ifs <;> rfl
  · rfl
  · rfl

end SecurityConfig

end Ragx
