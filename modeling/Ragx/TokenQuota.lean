import Ragx.EventRuns
import Ragx.QuotaMiddleware

/-!
# The token quota over a month

The tokens of a tenant's replies are counted, and nothing looks at the counter before a request
goes through. So the quota holds only in months in which no request that calls a model comes
after it is used up.
-/
namespace Ragx

/-- A chat request, and what the application does with it if it is let through: the provider
calls that it makes and the reply. -/
structure ChatExchange where
  tenantId : Option String := none
  providerCalls : ℕ
  response : HttpResponse

namespace ChatExchange

def request (x : ChatExchange) : HttpRequest where
  method := "POST"
  path := "/v1/chat/completions"
  tenantId := x.tenantId

abbrev tenant (x : ChatExchange) : String := x.request.tenant

/-- The tokens that a reply puts on the counter. -/
def countedTokens (x : ChatExchange) : ℤ :=
  if "application/json".toList.isPrefixOf x.response.contentType.toList then
    max 0 (SecurityConfig.reportedTokens (x.response.payload.getD (.obj [])))
  else 0

/-- The tokens that a tenant's replies put on the counter. -/
def spent (tenant : String) (xs : List ChatExchange) : ℤ :=
  ((xs.filter fun x => x.tenant = tenant).map countedTokens).sum

theorem spent_cons (tenant : String) (x : ChatExchange) (xs : List ChatExchange) :
    spent tenant (x :: xs) =
      (if x.tenant = tenant then x.countedTokens else 0) + spent tenant xs := by
  by_cases h : x.tenant = tenant <;> simp [spent, h]

theorem isUpload_request (x : ChatExchange) : x.request.isUpload = false := by
  have hpath : "/v1/documents".toList.isSuffixOf "/v1/chat/completions".toList = false := by decide
  simp only [HttpRequest.isUpload, request, hpath, Bool.and_false]

end ChatExchange

/-- The configuration, and the month. -/
structure TokenQuotaEnv where
  config : SecurityConfig
  clock : QuotaClock

namespace TokenQuotaEnv

variable (env : TokenQuotaEnv)

/-- What the caller is told, and the counters afterwards. -/
def answer (store : QuotaStore) (x : ChatExchange) : QuotaStore × Except Exc HttpResponse :=
  env.config.dispatch env.clock (fun _ => x.response) store x.request

/-- A request that is rejected does not reach the application. -/
def providerCallsMade (store : QuotaStore) (x : ChatExchange) : ℕ :=
  match (env.answer store x).2 with
  | .ok _ => x.providerCalls
  | .error _ => 0

def step (store : QuotaStore) (x : ChatExchange) : Option QuotaStore := some (env.answer store x).1

/-- The tenant's tokens of the month. -/
def counter (store : QuotaStore) (tenant : String) : ℤ :=
  (store.usage env.clock.periodStart tenant).tokens

/-- A request that would call a model is rejected if its tenant's tokens are used up, and no
request is if they are not. -/
def Gated (store : QuotaStore) (x : ChatExchange) (_ : QuotaStore) : Prop :=
  (env.config.monthlyTokenQuota < env.counter store x.tenant → 0 < x.providerCalls →
      (∃ e, (env.answer store x).2 = .error e ∧ e.cls = .rateLimit ∧ e.code = 1004) ∧
        env.providerCallsMade store x = 0) ∧
    (env.counter store x.tenant ≤ env.config.monthlyTokenQuota →
      ∃ response, (env.answer store x).2 = .ok response)

/-- Whenever a request calls a model, its tenant's tokens are not used up by the requests before
it. -/
def NeverExceeded (store : QuotaStore) (xs : List ChatExchange) : Prop :=
  ∀ front x back, xs = front ++ x :: back → 0 < x.providerCalls →
    env.counter store x.tenant + ChatExchange.spent x.tenant front ≤ env.config.monthlyTokenQuota

variable {env}

/-- Every chat request is let through. -/
theorem answer_eq (store : QuotaStore) (x : ChatExchange) :
    env.answer store x =
      (env.config.countTokens env.clock x.tenant x.response store, .ok x.response) := by
  have hgate : env.config.gateUpload env.clock store x.request = (store, .ok ()) := by
    unfold SecurityConfig.gateUpload
    rw [x.isUpload_request]
    rfl
  unfold answer SecurityConfig.dispatch
  rw [hgate]

/-- A reply moves its tenant's counter, and no other one. -/
theorem counter_answer (hquota : 0 < env.config.monthlyTokenQuota) (store : QuotaStore)
    (x : ChatExchange) (tenant : String) :
    env.counter (env.answer store x).1 tenant =
      env.counter store tenant + if x.tenant = tenant then x.countedTokens else 0 := by
  rw [answer_eq]
  unfold SecurityConfig.countTokens counter ChatExchange.countedTokens
  rw [decide_eq_true hquota, Bool.true_and]
  by_cases hjson : "application/json".toList.isPrefixOf x.response.contentType.toList = true
  · rw [if_pos hjson, if_pos hjson]
    dsimp only
    split_ifs with hpos htenant htenant
    · subst htenant
      rw [QuotaStore.addTokens, QuotaStore.usage_add, if_pos rfl, max_eq_right hpos.le]
      rfl
    · rw [QuotaStore.addTokens, QuotaStore.usage_add, if_neg htenant, add_zero]
    · rw [max_eq_left (not_lt.mp hpos), add_zero]
    · rw [add_zero]
  · rw [if_neg hjson, if_neg hjson, ite_self, add_zero]

/-- The gate does what it should with one request exactly if there is nothing to reject. -/
theorem gated_iff {store store' : QuotaStore} {x : ChatExchange} :
    env.Gated store x store' ↔
      (0 < x.providerCalls → env.counter store x.tenant ≤ env.config.monthlyTokenQuota) := by
  rw [Gated, answer_eq]
  constructor
  · rintro ⟨hreject, _⟩ hcalls
    by_contra hover
    obtain ⟨⟨e, he, _⟩, _⟩ := hreject (not_le.mp hover) hcalls
    cases he
  · intro h
    exact ⟨fun hover hcalls => absurd (h hcalls) (not_le.mpr hover), fun _ => ⟨x.response, rfl⟩⟩

theorem neverExceeded_cons (hquota : 0 < env.config.monthlyTokenQuota) {store : QuotaStore}
    {x : ChatExchange} {xs : List ChatExchange} :
    env.NeverExceeded store (x :: xs) ↔
      (0 < x.providerCalls → env.counter store x.tenant ≤ env.config.monthlyTokenQuota) ∧
        env.NeverExceeded (env.answer store x).1 xs := by
  constructor
  · intro h
    refine ⟨fun hcalls => ?_, fun front y back hxs hcalls => ?_⟩
    · have hfirst := h [] x xs rfl hcalls
      rwa [show ChatExchange.spent x.tenant [] = 0 from rfl, add_zero] at hfirst
    · have hlater := h (x :: front) y back (congrArg (x :: ·) hxs) hcalls
      rwa [ChatExchange.spent_cons, ← add_assoc, ← counter_answer hquota] at hlater
  · rintro ⟨hfirst, hrest⟩ front y back hxs hcalls
    cases front with
    | nil =>
      obtain ⟨rfl, rfl⟩ := List.cons.inj hxs
      rw [show ChatExchange.spent x.tenant [] = 0 from rfl, add_zero]
      exact hfirst hcalls
    | cons z front =>
      obtain ⟨rfl, rfl⟩ := List.cons.inj hxs
      rw [ChatExchange.spent_cons, ← add_assoc, ← counter_answer hquota]
      exact hrest front y back rfl hcalls

/-- In a month of chat requests, the quota holds exactly if no request that calls a model comes
after its tenant's replies have used it up. -/
theorem tokenQuota_iff (env : TokenQuotaEnv) (store : QuotaStore) (xs : List ChatExchange)
    (hquota : 0 < env.config.monthlyTokenQuota) :
    EveryStep env.step env.Gated store xs ↔ env.NeverExceeded store xs := by
  induction xs generalizing store with
  | nil => exact iff_of_true trivial fun front _ _ h _ => by cases front <;> cases h
  | cons x xs ih =>
    have hstep : env.step store x = some (env.answer store x).1 := rfl
    rw [everyStep_cons hstep, gated_iff, ih, neverExceeded_cons hquota]

section Sample

/-- A quota of ten tokens in the month of May. -/
def tenTokens : TokenQuotaEnv where
  config := { monthlyTokenQuota := 10 }
  clock := { periodStart := "2026-05-01T00:00:00+00:00" }

/-- A request that calls a provider once and reports these tokens. -/
def reporting (tokens : ℕ) : ChatExchange where
  providerCalls := 1
  response := { payload := some (.obj [("usage", .obj [("total_tokens", .num tokens)])]) }

theorem tokenQuota_iff_tenTokens :
    EveryStep tenTokens.step tenTokens.Gated (.inMemory .empty) [reporting 8, reporting 8] ↔
      tenTokens.NeverExceeded (.inMemory .empty) [reporting 8, reporting 8] :=
  tokenQuota_iff tenTokens (.inMemory .empty) _ (by decide)

/-- Eleven tokens are used, and the next request calls its provider all the same. -/
theorem not_gated_exceeded :
    ¬ EveryStep tenTokens.step tenTokens.Gated (.inMemory .empty) [reporting 11, reporting 1] := by
  intro h
  have hsecond := ((everyStep_cons rfl).mp h).2
  have hgated := ((everyStep_cons rfl).mp hsecond).1
  rw [gated_iff] at hgated
  exact absurd (hgated Nat.one_pos) (by decide +kernel)

end Sample

end TokenQuotaEnv

end Ragx
