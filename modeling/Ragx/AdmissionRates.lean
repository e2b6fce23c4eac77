import Ragx.MiddlewareStack

/-!
# How many requests of a key reach the routes

The limiter inside the stack sees the requests in the order in which they come to it, whatever
happens to them in the other layers. So a run of the stack is a run of the limiter, and
what the limiter promises about its windows holds for the routes behind it.
-/
namespace Ragx

/-- The call that a step makes of the limiter for keys. -/
def Gateway.limiterCall (w : Gateway) (e : GatewayEvent) (_ : Gateway) : List LimiterCall :=
  match e with
  | .enter .. => []
  | .advance id tick =>
    match w.flights.get? id with
    | some ⟨_, .atRateLimit ctx⟩ => [.acquire tick.monotonic ctx.rateKey]
    | _ => []

/-- The request of the event, if it is one of the key and comes to its route. -/
def Gateway.routedBy (key : String) (w : Gateway) (e : GatewayEvent) (w' : Gateway) : List ℕ :=
  match w.flights.get? e.id, w'.flights.get? e.id with
  | some ⟨_, .atRateLimit ctx⟩, some ⟨_, .atRoute ..⟩ => if ctx.rateKey = key then [e.id] else []
  | _, _ => []

/-- The limiter of the stack, seen on its own. -/
structure Gateway.Limits (w : Gateway) (v : LimiterRun) : Prop where
  limiter_eq : v.limiter = w.shared.limiter
  clock_le : v.clock ≤ w.shared.clock

def Stage.atLimiter? : Stage → Option AuthContext
  | .atRateLimit ctx => some ctx
  | _ => none

def Stage.isAtRoute : Stage → Bool
  | .atRoute .. => true
  | _ => false

namespace StackConfig

variable {cfg : StackConfig} {req : WebRequest} {tick : Tick} {s t : SharedStores}
  {stage stage' : Stage}

/-- Only the layer of the limiter asks it, and who gets a token goes on to the route. -/
theorem limiter_advance (h : cfg.advance req tick s stage = some (t, stage')) :
    (stage.atLimiter? = none ∧ t.limiter = s.limiter ∧ s.clock ≤ t.clock) ∨
    ∃ ctx, stage = .atRateLimit ctx ∧ s.clock ≤ tick.monotonic ∧ t.clock = tick.monotonic ∧
      t.limiter = (s.limiter.acquire tick.monotonic ctx.rateKey 1).1 ∧
      (stage'.isAtRoute = true ↔ (s.limiter.acquire tick.monotonic ctx.rateKey 1).2 = none) := by
  cases stage with
  | atIpRing =>
    refine .inl ⟨rfl, ?_⟩
    simp only [advance] at h
    split at h
    · cases h
      exact ⟨rfl, le_rfl⟩
    · split_ifs at h with hlate
      split at h <;>
      · cases h
        exact ⟨rfl, not_lt.mp hlate⟩
  | atAuth =>
    refine .inl ⟨rfl, ?_⟩
    simp only [advance] at h
    split at h <;>
    · cases h
      exact ⟨rfl, le_rfl⟩
  | atQuota ctx =>
    refine .inl ⟨rfl, ?_⟩
    simp only [advance] at h
    split at h <;>
    · cases h
      exact ⟨rfl, le_rfl⟩
  | atRateLimit ctx =>
    refine .inr ⟨ctx, rfl, ?_⟩
    simp only [advance] at h
    split_ifs at h with hlate
    unfold InProcessRateLimiter.checkOrRaise at h
    generalize s.limiter.acquire tick.monotonic ctx.rateKey 1 = out at *
    obtain ⟨rl, _ | wait⟩ := out
    · cases h
      exact ⟨not_lt.mp hlate, rfl, rfl, iff_of_true rfl rfl⟩
    · cases h
      exact ⟨not_lt.mp hlate, rfl, rfl, iff_of_false (fun h => by cases h) fun h => by cases h⟩
  | atRoute ctx traceId =>
    refine .inl ⟨rfl, ?_⟩
    simp only [advance] at h
    split at h <;>
    · cases h
      exact ⟨rfl, le_rfl⟩
  | leavingQuota ctx traceId response =>
    cases h
    exact .inl ⟨rfl, rfl, le_rfl⟩
  | atAudit ctx traceId response =>
    refine .inl ⟨rfl, ?_⟩
    simp only [advance] at h
    split at h <;>
    · cases h
      exact ⟨rfl, le_rfl⟩
  | answered => cases h
  | raised => cases h

end StackConfig

namespace Gateway

variable {cfg : StackConfig} {w w' : Gateway} {v : LimiterRun} {key : String}

/-- A step makes no call of the limiter, or one that the limiter answers, and the request comes to
its route if it is admitted. -/
theorem limits_step (key : String) {e : GatewayEvent} (h : w.Limits v)
    (hstep : step cfg w e = some w') :
    (w.limiterCall e w' = [] ∧ w.routedBy key e w' = [] ∧ w'.Limits v) ∨
    ∃ call v', w.limiterCall e w' = [call] ∧ LimiterRun.step v call = some v' ∧ w'.Limits v' ∧
      (w.routedBy key e w').length = (v.admits key call).toNat := by
  obtain ⟨hlimiter, hclock⟩ := h
  obtain ⟨id, req, rfl, hnew, rfl⟩ |
    ⟨id, tick, flight, shared, stage, rfl, hflight, hadvance, rfl⟩ := step_cases hstep
  · refine .inl ⟨rfl, ?_, hlimiter, hclock⟩
    simp only [routedBy, GatewayEvent.id, hnew]
  · obtain ⟨request, found⟩ := flight
    obtain ⟨hstage, hsame, hle⟩ | ⟨ctx, rfl, hnow, hmono, hacquire, hroute⟩ :=
      StackConfig.limiter_advance hadvance
    · refine .inl ⟨?_, ?_, hlimiter.trans hsame.symm, hclock.trans hle⟩
      · simp only [limiterCall, hflight]
        cases found <;> first | rfl | cases hstage
      · simp only [routedBy, GatewayEvent.id, hflight]
        cases found <;> first | rfl | cases hstage
    · have hcall : limiterCall w (.advance id tick)
          ⟨shared, w.flights.insert id ⟨request, stage⟩⟩ =
            [.acquire tick.monotonic ctx.rateKey] := by
        simp only [limiterCall, hflight]
      have hlate : ¬ (LimiterCall.acquire tick.monotonic ctx.rateKey).now < v.clock :=
        not_lt.mpr (hclock.trans hnow)
      refine .inr ⟨_, _, hcall, if_neg hlate, ⟨?_, hmono.ge⟩, ?_⟩
      · rw [hacquire, hlimiter]
      · have hadmits : decide ((w.shared.limiter.acquire tick.monotonic ctx.rateKey 1).2 = none) =
            stage.isAtRoute := by
          rw [Bool.eq_iff_iff, decide_eq_true_iff, hroute]
        simp only [routedBy, GatewayEvent.id, hflight, OrderedDict.get?_insert, if_pos,
          LimiterRun.admits, hlimiter, hadmits]
        cases stage <;> by_cases hkey : ctx.rateKey = key <;> simp [hkey, Stage.isAtRoute]

/-- A run of the stack is a run of its limiter. -/
theorem limits_run {events : List GatewayEvent} (h : w.Limits v)
    (hrun : run (step cfg) w events = some w') :
    ∃ v', run LimiterRun.step v (outputs (step cfg) limiterCall w events) = some v' ∧
      w'.Limits v' := by
  refine run_simulates (fun e _ s s' a hR hs => ?_) h hrun
  obtain ⟨hcall, _, hlimits⟩ | ⟨call, a', hcall, ha', hlimits, _⟩ := limits_step "" hR hs
  · rw [hcall]
    exact ⟨a, rfl, hlimits⟩
  · rw [hcall, run_cons ha']
    exact ⟨a', rfl, hlimits⟩

/-- The requests of a key that come to their routes are those that the limiter admits. -/
theorem length_routed {events : List GatewayEvent} (h : w.Limits v)
    (hrun : run (step cfg) w events = some w') :
    (outputs (step cfg) (routedBy key) w events).length =
      v.admitted key (outputs (step cfg) limiterCall w events) := by
  induction events generalizing w v with
  | nil => rfl
  | cons e events ih =>
    obtain ⟨u, hs, hrest⟩ := run_cons_eq_some hrun
    rw [outputs_cons hs, outputs_cons hs, List.length_append]
    obtain ⟨hcall, hrouted, hlimits⟩ | ⟨call, v', hcall, hv', hlimits, hrouted⟩ :=
      limits_step key h hs
    · rw [hcall, hrouted, List.nil_append, List.length_nil, zero_add]
      exact ih hlimits hrest
    · rw [hcall, hrouted, List.singleton_append, LimiterRun.admitted, hv']
      exact congrArg _ (ih hlimits hrest)

end Gateway

end Ragx
