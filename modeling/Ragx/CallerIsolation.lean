import Ragx.MiddlewareStack
import Ragx.RequestAudit

/-!
# Callers do not get into each other's way

Every layer keeps its counts under the key, the tenant or the address of a caller. So whether a
request is let through does not depend on requests of other callers, in any interleaving: take
these out of the run, and the rest is answered as before.
-/
namespace Ragx

/-! ## Stores that agree on some callers -/

/-- The buckets of these keys are the same. -/
structure InProcessRateLimiter.AgreesOn (keys : String → Prop) (rl rl' : InProcessRateLimiter) :
    Prop where
  rate_eq : rl.rate = rl'.rate
  burst_eq : rl.burst = rl'.burst
  buckets : ∀ key, keys key → rl.buckets.get? key = rl'.buckets.get? key

namespace InProcessRateLimiter.AgreesOn

variable {keys : String → Prop} {rl rl' : InProcessRateLimiter}

/-- The keys of these callers get the same verdict, and their buckets stay the same. -/
theorem checkOrRaise (h : rl.AgreesOn keys rl') (now : ℚ) {key : String} (hkey : keys key) :
    (rl.checkOrRaise now key).2 = (rl'.checkOrRaise now key).2 ∧
      (rl.checkOrRaise now key).1.AgreesOn keys (rl'.checkOrRaise now key).1 := by
  have hbucket : rl.bucket now key = rl'.bucket now key := by
    unfold bucket OrderedDict.getD
    rw [h.buckets key hkey, h.rate_eq, h.burst_eq]
  have hinsert (b : TokenBucket) :
      AgreesOn keys { rl with buckets := rl.buckets.insert key b }
        { rl' with buckets := rl'.buckets.insert key b } :=
    ⟨h.rate_eq, h.burst_eq, fun k hk => by simp only [OrderedDict.get?_insert, h.buckets k hk]⟩
  unfold InProcessRateLimiter.checkOrRaise acquire
  rw [hbucket]
  generalize (rl'.bucket now key).acquire now 1 = out
  obtain ⟨b, _ | wait⟩ := out
  · exact ⟨rfl, hinsert b⟩
  · exact ⟨rfl, hinsert b⟩

/-- Other keys leave the buckets alone. -/
theorem checkOrRaise_other (h : rl.AgreesOn keys rl') (now : ℚ) (key : String)
    (hkey : ¬ keys key) : (rl.checkOrRaise now key).1.AgreesOn keys rl' := by
  have hinsert (b : TokenBucket) :
      AgreesOn keys { rl with buckets := rl.buckets.insert key b } rl' := by
    refine ⟨h.rate_eq, h.burst_eq, fun k hk => ?_⟩
    have hne : key ≠ k := fun heq => hkey (heq ▸ hk)
    simp only [OrderedDict.get?_insert, if_neg hne, h.buckets k hk]
  unfold InProcessRateLimiter.checkOrRaise acquire
  generalize (rl.bucket now key).acquire now 1 = out
  obtain ⟨b, _ | wait⟩ := out
  · exact hinsert b
  · exact hinsert b

end InProcessRateLimiter.AgreesOn

/-- The counters of these tenants are the same. -/
def QuotaStore.AgreesOn (tenants : String → Prop) : QuotaStore → QuotaStore → Prop
  | .inMemory usage, .inMemory usage' =>
    ∀ tenant, tenants tenant → usage.get? tenant = usage'.get? tenant
  | .metadata quotas, .metadata quotas' =>
    ∀ tenant, tenants tenant → ∀ period,
      quotas.get? (tenant, period) = quotas'.get? (tenant, period)
  | _, _ => False

namespace QuotaStore.AgreesOn

variable {tenants : String → Prop} {store store' : QuotaStore} {tenant : String}

theorem usage_eq (h : store.AgreesOn tenants store') (htenant : tenants tenant) (period : String) :
    store.usage period tenant = store'.usage period tenant := by
  cases store <;> cases store'
  · exact ensureQuota_congr (h tenant htenant)
  · exact h.elim
  · exact h.elim
  · exact congrArg (fun row : Option QuotaUsage => row.getD { periodStart := period })
      (h tenant htenant period)

/-- Counting for one of these tenants keeps them in agreement. -/
theorem add (h : store.AgreesOn tenants store') (field : QuotaField) (period : String)
    (htenant : tenants tenant) (count : ℤ) :
    (store.add field period tenant count).1.AgreesOn tenants
      (store'.add field period tenant count).1 := by
  have husage := h.usage_eq htenant period
  cases store <;> cases store'
  · rename_i usage usage'
    intro other hother
    simp only [OrderedDict.get?_insert]
    split_ifs with heq
    · exact congrArg (fun u => some (QuotaUsage.bump u count field)) husage
    · rw [get?_ensureQuota_of_ne heq, get?_ensureQuota_of_ne heq]
      exact h other hother
  · exact h.elim
  · exact h.elim
  · intro other hother p
    simp only [OrderedDict.get?_insert]
    split_ifs
    · exact congrArg (fun u => some (QuotaUsage.bump u count field)) husage
    · exact h other hother p

/-- Counting for another tenant leaves these alone. -/
theorem add_other (h : store.AgreesOn tenants store') (field : QuotaField) (period : String)
    (htenant : ¬ tenants tenant) (count : ℤ) :
    (store.add field period tenant count).1.AgreesOn tenants store' := by
  cases store <;> cases store'
  · intro other hother
    have hne : tenant ≠ other := fun heq => htenant (heq ▸ hother)
    simp only [OrderedDict.get?_insert, if_neg hne]
    rw [get?_ensureQuota_of_ne hne]
    exact h other hother
  · exact h.elim
  · exact h.elim
  · intro other hother p
    have hne : (tenant, period) ≠ (other, p) := fun heq =>
      htenant ((Prod.mk.inj heq).1 ▸ hother)
    simp only [OrderedDict.get?_insert, if_neg hne]
    exact h other hother p

end QuotaStore.AgreesOn

namespace SecurityConfig

variable (config : SecurityConfig) (clock : QuotaClock) {tenants : String → Prop}
  {store store' : QuotaStore}

theorem gateUpload_agrees (req : HttpRequest) (h : store.AgreesOn tenants store')
    (htenant : tenants req.tenant) :
    (config.gateUpload clock store req).2 = (config.gateUpload clock store' req).2 ∧
      (config.gateUpload clock store req).1.AgreesOn tenants
        (config.gateUpload clock store' req).1 := by
  have hadd : (store.addUpload clock.periodStart req.tenant req.declaredSize).1.AgreesOn tenants
      (store'.addUpload clock.periodStart req.tenant req.declaredSize).1 :=
    h.add .uploadBytes clock.periodStart htenant req.declaredSize
  have husage : (store.addUpload clock.periodStart req.tenant req.declaredSize).2 =
      (store'.addUpload clock.periodStart req.tenant req.declaredSize).2 := by
    rw [QuotaStore.addUpload, QuotaStore.add_snd, QuotaStore.add_snd, h.usage_eq htenant]
  unfold gateUpload
  dsimp only
  rw [husage]
  split_ifs
  · exact ⟨rfl, hadd⟩
  · exact ⟨rfl, hadd⟩
  · exact ⟨rfl, h⟩

theorem gateUpload_other (req : HttpRequest) (h : store.AgreesOn tenants store')
    (htenant : ¬ tenants req.tenant) :
    (config.gateUpload clock store req).1.AgreesOn tenants store' := by
  have hadd : (store.addUpload clock.periodStart req.tenant req.declaredSize).1.AgreesOn tenants
      store' := h.add_other .uploadBytes clock.periodStart htenant req.declaredSize
  unfold gateUpload
  dsimp only
  split_ifs
  · exact hadd
  · exact hadd
  · exact h

theorem countTokens_agrees (h : store.AgreesOn tenants store') {tenant : String}
    (htenant : tenants tenant) (response : HttpResponse) :
    (config.countTokens clock tenant response store).AgreesOn tenants
      (config.countTokens clock tenant response store') := by
  unfold countTokens
  dsimp only
  split_ifs
  · exact h.add .tokens clock.periodStart htenant _
  · exact h
  · exact h

theorem countTokens_other (h : store.AgreesOn tenants store') {tenant : String}
    (htenant : ¬ tenants tenant) (response : HttpResponse) :
    (config.countTokens clock tenant response store).AgreesOn tenants store' := by
  unfold countTokens
  dsimp only
  split_ifs
  · exact h.add_other .tokens clock.periodStart htenant _
  · exact h
  · exact h

end SecurityConfig

/-! ## Requests of different callers -/

/-- Whom the authentication may take the caller of one of these requests for. -/
def StackConfig.IsCaller (cfg : StackConfig) (mine : WebRequest → Prop) (ctx : AuthContext) :
    Prop :=
  ∃ req now, mine req ∧ cfg.auth.resolve cfg.lib req.headers now = .ok ctx

/-- The two requests share no counter: no address, if addresses are limited, and no tenant and no
key. -/
structure StackConfig.Apart (cfg : StackConfig) (ring : Bool) (req other : WebRequest) : Prop where
  addresses : ring = true → req.ipKey ≠ other.ipKey
  callers : ∀ now now' ctx ctx', cfg.auth.resolve cfg.lib req.headers now = .ok ctx →
    cfg.auth.resolve cfg.lib other.headers now' = .ok ctx' →
      ctx.ownTenant ≠ ctx'.ownTenant ∧ ctx.rateKey ≠ ctx'.rateKey

/-- What two worlds have in common for these requests. -/
structure SharedStores.AgreesOn (cfg : StackConfig) (ring : Bool) (mine : WebRequest → Prop)
    (s s' : SharedStores) : Prop where
  ring_eq : s.ipLimiter.isSome = ring
  ipLimiter : Option.Rel
    (InProcessRateLimiter.AgreesOn fun key => ∃ req, mine req ∧ req.ipKey = key)
    s.ipLimiter s'.ipLimiter
  limiter : s.limiter.AgreesOn (fun key => ∃ ctx, cfg.IsCaller mine ctx ∧ ctx.rateKey = key)
    s'.limiter
  quotaStore : s.quotaStore.AgreesOn
    (fun tenant => ∃ ctx, cfg.IsCaller mine ctx ∧ ctx.ownTenant = tenant) s'.quotaStore
  clock_le : s'.clock ≤ s.clock

/-- The stage without what the log made of the entry, whose ids are shared by all. -/
def Stage.unlogged : Stage → Stage
  | .answered ctx response entry _ => .answered ctx response entry false
  | stage => stage

namespace StackConfig

variable {cfg : StackConfig} {ring : Bool} {mine : WebRequest → Prop} {req : WebRequest}
  {tick : Tick} {s s' t : SharedStores} {stage stage' : Stage}

/-- One of these requests moves on in both worlds in the same way. -/
theorem advance_agrees (h : s.AgreesOn cfg ring mine s') (hmine : mine req)
    (hsound : stage.Sound cfg req) (hadvance : cfg.advance req tick s stage = some (t, stage')) :
    ∃ t' stage'', cfg.advance req tick s' stage = some (t', stage'') ∧
      t.AgreesOn cfg ring mine t' ∧ stage''.unlogged = stage'.unlogged := by
  obtain ⟨ipLimiter, limiter, quotaStore, auditStore, clock⟩ := s
  obtain ⟨ipLimiter', limiter', quotaStore', auditStore', clock'⟩ := s'
  obtain ⟨hring, hip, hlimiter, hquota, hclock⟩ := h
  cases stage with
  | atIpRing =>
    simp only [advance] at hadvance ⊢
    cases hip with
    | none =>
      cases hadvance
      exact ⟨_, _, rfl, ⟨hring, .none, hlimiter, hquota, hclock⟩, rfl⟩
    | some hrl =>
      rename_i rl rl'
      simp only at hadvance ⊢ hclock
      split_ifs at hadvance with hlate
      rw [if_neg (not_lt.mpr (hclock.trans (not_lt.mp hlate)))]
      obtain ⟨hverdict, hbuckets⟩ := hrl.checkOrRaise tick.monotonic ⟨req, hmine, rfl⟩
      generalize rl.checkOrRaise tick.monotonic req.ipKey = out at *
      generalize rl'.checkOrRaise tick.monotonic req.ipKey = out' at *
      obtain ⟨rl, _ | _⟩ := out <;> obtain ⟨rl', verdict'⟩ := out' <;> cases hverdict <;>
      · cases hadvance
        exact ⟨_, _, rfl, ⟨hring, .some hbuckets, hlimiter, hquota, le_rfl⟩, rfl⟩
  | atAuth =>
    simp only [advance] at hadvance ⊢
    split at hadvance <;>
    · cases hadvance
      exact ⟨_, _, rfl, ⟨hring, hip, hlimiter, hquota, hclock⟩, rfl⟩
  | atQuota ctx =>
    obtain ⟨now, hnow⟩ := hsound
    simp only [advance] at hadvance ⊢
    obtain ⟨hverdict, hstores⟩ := cfg.security.gateUpload_agrees tick.quotaClock
      (req.authorized ctx) hquota ⟨ctx, ⟨req, now, hmine, hnow⟩, rfl⟩
    generalize cfg.security.gateUpload tick.quotaClock quotaStore (req.authorized ctx) = out at *
    generalize cfg.security.gateUpload tick.quotaClock quotaStore' (req.authorized ctx) = out' at *
    obtain ⟨store, _ | _⟩ := out <;> obtain ⟨store', verdict'⟩ := out' <;> cases hverdict <;>
    · cases hadvance
      exact ⟨_, _, rfl, ⟨hring, hip, hlimiter, hstores, hclock⟩, rfl⟩
  | atRateLimit ctx =>
    obtain ⟨now, hnow⟩ := hsound
    simp only [advance] at hadvance hclock ⊢
    split_ifs at hadvance with hlate
    rw [if_neg (not_lt.mpr (hclock.trans (not_lt.mp hlate)))]
    obtain ⟨hverdict, hbuckets⟩ := hlimiter.checkOrRaise tick.monotonic
      ⟨ctx, ⟨req, now, hmine, hnow⟩, rfl⟩
    generalize limiter.checkOrRaise tick.monotonic ctx.rateKey = out at *
    generalize limiter'.checkOrRaise tick.monotonic ctx.rateKey = out' at *
    obtain ⟨rl, _ | _⟩ := out <;> obtain ⟨rl', verdict'⟩ := out' <;> cases hverdict <;>
    · cases hadvance
      exact ⟨_, _, rfl, ⟨hring, hip, hbuckets, hquota, le_rfl⟩, rfl⟩
  | atRoute ctx traceId =>
    simp only [advance] at hadvance ⊢
    split at hadvance <;>
    · cases hadvance
      exact ⟨_, _, rfl, ⟨hring, hip, hlimiter, hquota, hclock⟩, rfl⟩
  | leavingQuota ctx traceId response =>
    obtain ⟨⟨now, hnow⟩, _⟩ := hsound
    cases hadvance
    refine ⟨_, _, rfl, ⟨hring, hip, hlimiter, ?_, hclock⟩, rfl⟩
    exact SecurityConfig.countTokens_agrees _ _ hquota ⟨ctx, ⟨req, now, hmine, hnow⟩, rfl⟩ _
  | atAudit ctx traceId response =>
    simp only [advance] at hadvance ⊢
    split at hadvance <;>
    · cases hadvance
      split <;> exact ⟨_, _, rfl, ⟨hring, hip, hlimiter, hquota, hclock⟩, rfl⟩
  | answered => cases hadvance
  | raised => cases hadvance

/-- A request of another caller changes nothing that these requests have in common. -/
theorem advance_other (h : s.AgreesOn cfg ring mine s')
    (hapart : ∀ mineReq, mine mineReq → cfg.Apart ring mineReq req) (hsound : stage.Sound cfg req)
    (hadvance : cfg.advance req tick s stage = some (t, stage')) :
    t.AgreesOn cfg ring mine s' := by
  have htenant {ctx : AuthContext} {now : ℚ}
      (hctx : cfg.auth.resolve cfg.lib req.headers now = .ok ctx) :
      ¬ ∃ c, cfg.IsCaller mine c ∧ c.ownTenant = ctx.ownTenant := by
    rintro ⟨c, ⟨mineReq, now', hmine, hc⟩, heq⟩
    exact ((hapart mineReq hmine).callers now' now c ctx hc hctx).1 heq
  have hkey {ctx : AuthContext} {now : ℚ}
      (hctx : cfg.auth.resolve cfg.lib req.headers now = .ok ctx) :
      ¬ ∃ c, cfg.IsCaller mine c ∧ c.rateKey = ctx.rateKey := by
    rintro ⟨c, ⟨mineReq, now', hmine, hc⟩, heq⟩
    exact ((hapart mineReq hmine).callers now' now c ctx hc hctx).2 heq
  obtain ⟨ipLimiter, limiter, quotaStore, auditStore, clock⟩ := s
  obtain ⟨ipLimiter', limiter', quotaStore', auditStore', clock'⟩ := s'
  obtain ⟨hring, hip, hlimiter, hquota, hclock⟩ := h
  cases stage with
  | atIpRing =>
    simp only [advance] at hadvance
    cases hip with
    | none =>
      cases hadvance
      exact ⟨hring, .none, hlimiter, hquota, hclock⟩
    | some hrl =>
      rename_i rl rl'
      simp only at hadvance hclock
      split_ifs at hadvance with hlate
      have hlater : clock' ≤ tick.monotonic := hclock.trans (not_lt.mp hlate)
      have hbuckets := hrl.checkOrRaise_other tick.monotonic req.ipKey (by
        rintro ⟨mineReq, hmine, heq⟩
        exact (hapart mineReq hmine).addresses hring.symm heq)
      generalize rl.checkOrRaise tick.monotonic req.ipKey = out at *
      obtain ⟨rl, _ | _⟩ := out <;>
      · cases hadvance
        exact ⟨hring, .some hbuckets, hlimiter, hquota, hlater⟩
  | atAuth =>
    simp only [advance] at hadvance
    split at hadvance <;>
    · cases hadvance
      exact ⟨hring, hip, hlimiter, hquota, hclock⟩
  | atQuota ctx =>
    obtain ⟨now, hnow⟩ := hsound
    simp only [advance] at hadvance
    have hstores := cfg.security.gateUpload_other tick.quotaClock (req.authorized ctx) hquota
      (htenant hnow)
    generalize cfg.security.gateUpload tick.quotaClock quotaStore (req.authorized ctx) = out at *
    obtain ⟨store, _ | _⟩ := out <;>
    · cases hadvance
      exact ⟨hring, hip, hlimiter, hstores, hclock⟩
  | atRateLimit ctx =>
    obtain ⟨now, hnow⟩ := hsound
    simp only [advance] at hadvance hclock
    split_ifs at hadvance with hlate
    have hlater : clock' ≤ tick.monotonic := hclock.trans (not_lt.mp hlate)
    have hbuckets := hlimiter.checkOrRaise_other tick.monotonic ctx.rateKey (hkey hnow)
    generalize limiter.checkOrRaise tick.monotonic ctx.rateKey = out at *
    obtain ⟨rl, _ | _⟩ := out <;>
    · cases hadvance
      exact ⟨hring, hip, hbuckets, hquota, hlater⟩
  | atRoute ctx traceId =>
    simp only [advance] at hadvance
    split at hadvance <;>
    · cases hadvance
      exact ⟨hring, hip, hlimiter, hquota, hclock⟩
  | leavingQuota ctx traceId response =>
    obtain ⟨⟨now, hnow⟩, _⟩ := hsound
    cases hadvance
    refine ⟨hring, hip, hlimiter, ?_, hclock⟩
    exact SecurityConfig.countTokens_other _ _ hquota (htenant hnow) _
  | atAudit ctx traceId response =>
    simp only [advance] at hadvance
    split at hadvance <;>
    · cases hadvance
      exact ⟨hring, hip, hlimiter, hquota, hclock⟩
  | answered => cases hadvance
  | raised => cases hadvance

end StackConfig

/-! ## Whole runs -/

namespace Gateway

variable {cfg : StackConfig} {ring : Bool} {mine others : WebRequest → Prop} {keep : ℕ → Bool}
  {w w' v : Gateway}

def stage? (w : Gateway) (id : ℕ) : Option (WebRequest × Stage) :=
  (w.flights.get? id).map fun flight => (flight.request, flight.stage.unlogged)

/-- The second gateway knows the requests that are kept, and they are as far. -/
structure AgreesOn (cfg : StackConfig) (ring : Bool) (mine others : WebRequest → Prop)
    (keep : ℕ → Bool) (w v : Gateway) : Prop where
  shared : w.shared.AgreesOn cfg ring mine v.shared
  kept : ∀ id, keep id = true → v.stage? id = w.stage? id
  left : ∀ id, keep id = false → v.flights.get? id = none
  sound : w.Sound cfg
  mine_of_keep : ∀ id flight, w.flights.get? id = some flight → keep id = true →
    mine flight.request
  others_of_left : ∀ id flight, w.flights.get? id = some flight → keep id = false →
    others flight.request

theorem stage?_insert (shared : SharedStores) (id : ℕ) (flight : Flight) (j : ℕ) :
    stage? ⟨shared, w.flights.insert id flight⟩ j =
      if id = j then some (flight.request, flight.stage.unlogged) else w.stage? j := by
  unfold stage?
  rw [OrderedDict.get?_insert]
  split_ifs <;> rfl

/-- A request that can still move is known in full from its stage. -/
theorem flight_of_stage? {id : ℕ} {flight : Flight} {tick : Tick} {next : SharedStores × Stage}
    (h : v.stage? id = w.stage? id) (hflight : w.flights.get? id = some flight)
    (hadvance : cfg.advance flight.request tick w.shared flight.stage = some next) :
    v.flights.get? id = some flight := by
  unfold stage? at h
  rw [hflight] at h
  obtain ⟨⟨req, stage⟩, hfound, heq⟩ := Option.map_eq_some_iff.mp h
  obtain ⟨rfl, hstage⟩ := Prod.mk.inj heq
  rw [hfound]
  congr 2
  cases hflightStage : flight.stage with
  | answered =>
    rw [hflightStage] at hadvance
    cases hadvance
  | _ =>
    rw [hflightStage] at hstage
    cases stage <;> cases hstage
    rfl

theorem AgreesOn.insert_kept (h : w.AgreesOn cfg ring mine others keep v) {s s' : SharedStores}
    (hshared : s.AgreesOn cfg ring mine s') {id : ℕ} (hkeep : keep id = true) {req : WebRequest}
    (hreq : mine req) {stage stage' : Stage} (hstage : stage'.unlogged = stage.unlogged)
    (hsound : Sound cfg ⟨s, w.flights.insert id ⟨req, stage⟩⟩) :
    AgreesOn cfg ring mine others keep ⟨s, w.flights.insert id ⟨req, stage⟩⟩
      ⟨s', v.flights.insert id ⟨req, stage'⟩⟩ where
  shared := hshared
  kept j hj := by
    rw [stage?_insert, stage?_insert, hstage, h.kept j hj]
  left j hj := by
    have hne : id ≠ j := fun heq => by
      rw [← heq, hkeep] at hj
      cases hj
    rw [OrderedDict.get?_insert, if_neg hne]
    exact h.left j hj
  sound := hsound
  mine_of_keep j flight hflight hj := by
    rw [OrderedDict.get?_insert] at hflight
    split_ifs at hflight
    · cases hflight
      exact hreq
    · exact h.mine_of_keep j flight hflight hj
  others_of_left j flight hflight hj := by
    rw [OrderedDict.get?_insert] at hflight
    split_ifs at hflight with heq
    · rw [← heq, hkeep] at hj
      cases hj
    · exact h.others_of_left j flight hflight hj

theorem AgreesOn.insert_left (h : w.AgreesOn cfg ring mine others keep v) {s : SharedStores}
    (hshared : s.AgreesOn cfg ring mine v.shared) {id : ℕ} (hkeep : keep id = false)
    {req : WebRequest} (hreq : others req) {stage : Stage}
    (hsound : Sound cfg ⟨s, w.flights.insert id ⟨req, stage⟩⟩) :
    AgreesOn cfg ring mine others keep ⟨s, w.flights.insert id ⟨req, stage⟩⟩ v where
  shared := hshared
  kept j hj := by
    have hne : id ≠ j := fun heq => by
      rw [← heq, hkeep] at hj
      cases hj
    rw [stage?_insert, if_neg hne]
    exact h.kept j hj
  left := h.left
  sound := hsound
  mine_of_keep j flight hflight hj := by
    rw [OrderedDict.get?_insert] at hflight
    split_ifs at hflight with heq
    · rw [← heq, hkeep] at hj
      cases hj
    · exact h.mine_of_keep j flight hflight hj
  others_of_left j flight hflight hj := by
    rw [OrderedDict.get?_insert] at hflight
    split_ifs at hflight
    · cases hflight
      exact hreq
    · exact h.others_of_left j flight hflight hj

/-- A kept request comes in or moves on in both gateways. -/
theorem agrees_step_kept {e : GatewayEvent} (h : w.AgreesOn cfg ring mine others keep v)
    (hmine : ∀ id req, e = .enter id req → mine req) (hkeep : keep e.id = true)
    (hstep : step cfg w e = some w') :
    ∃ v', step cfg v e = some v' ∧ w'.AgreesOn cfg ring mine others keep v' := by
  have hsound := sound_step h.sound hstep
  obtain ⟨id, req, rfl, hnew, rfl⟩ |
    ⟨id, tick, flight, shared, stage, rfl, hflight, hadvance, rfl⟩ := step_cases hstep
  · have hnone : v.flights.get? id = none := by
      have hstage := h.kept id hkeep
      unfold stage? at hstage
      rwa [hnew, Option.map_none, Option.map_eq_none_iff] at hstage
    refine ⟨⟨v.shared, v.flights.insert id ⟨req, .atIpRing⟩⟩, ?_, ?_⟩
    · simp only [step, hnone, Option.isSome_none, Bool.false_eq_true, if_false]
    · exact h.insert_kept h.shared hkeep (hmine id req rfl) rfl hsound
  · have hfound := flight_of_stage? (h.kept id hkeep) hflight hadvance
    obtain ⟨shared', stage', hadvance', hshared, hstage⟩ := StackConfig.advance_agrees h.shared
      (h.mine_of_keep id flight hflight hkeep) (h.sound id flight hflight) hadvance
    refine ⟨⟨shared', v.flights.insert id { flight with stage := stage' }⟩, ?_, ?_⟩
    · simp only [step, hfound, hadvance']
    · exact h.insert_kept hshared hkeep (h.mine_of_keep id flight hflight hkeep) hstage hsound

/-- A request that is left out comes in or moves on in the first gateway only. -/
theorem agrees_step_left {e : GatewayEvent} (h : w.AgreesOn cfg ring mine others keep v)
    (hapart : ∀ req other, mine req → others other → cfg.Apart ring req other)
    (hothers : ∀ id req, e = .enter id req → others req) (hkeep : keep e.id = false)
    (hstep : step cfg w e = some w') : w'.AgreesOn cfg ring mine others keep v := by
  have hsound := sound_step h.sound hstep
  obtain ⟨id, req, rfl, hnew, rfl⟩ |
    ⟨id, tick, flight, shared, stage, rfl, hflight, hadvance, rfl⟩ := step_cases hstep
  · exact h.insert_left h.shared hkeep (hothers id req rfl) hsound
  · have hother := h.others_of_left id flight hflight hkeep
    have hshared := StackConfig.advance_other h.shared
      (fun req hreq => hapart req flight.request hreq hother) (h.sound id flight hflight) hadvance
    exact h.insert_left hshared hkeep hother hsound

theorem agreesOn_refl {w₀ : Gateway} (hnew : w₀.flights = .empty) :
    w₀.AgreesOn cfg w₀.shared.ipLimiter.isSome mine others keep w₀ := by
  have hnone (id : ℕ) : w₀.flights.get? id = none := by
    rw [hnew]
    rfl
  have hnoflight {id : ℕ} {flight : Flight} {P : Prop} (h : w₀.flights.get? id = some flight) :
      P := by
    rw [hnone] at h
    cases h
  refine ⟨⟨rfl, ?_, ⟨rfl, rfl, fun _ _ => rfl⟩, ?_, le_rfl⟩, fun _ _ => rfl, fun id _ => hnone id,
    fun id flight h => hnoflight h, fun id flight h => hnoflight h, fun id flight h => hnoflight h⟩
  · cases w₀.shared.ipLimiter with
    | none => exact .none
    | some rl => exact .some ⟨rfl, rfl, fun _ _ => rfl⟩
  · cases w₀.shared.quotaStore
    · exact fun _ _ => rfl
    · exact fun _ _ _ => rfl

/-- Two requests of two tenants, taken in turns. -/
def turns : List GatewayEvent :=
  [.enter 0 (chatRequest headersA), .enter 1 (chatRequest headersB), .advance 0 oneTick,
    .advance 1 oneTick]

end Gateway

end Ragx
