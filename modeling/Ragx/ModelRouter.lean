import Mathlib.Algebra.Order.Monoid.WithTop
import Mathlib.Data.List.Sort
import Ragx.CircuitBreaker
import Ragx.Models

/-!
# The model router

Every language model call: the cache, the daily budget gate, the ordered targets of
the role's strategy, and for each target its circuit and its retries. What a
call meets on the way (times, cache answers, the random draw and the providers'
behaviour) is an `Encounter`. The main result says for which sequences of
targets the loop really falls back as far as it could.
-/
namespace Ragx

/-! ## Configuration -/

structure ProviderTarget where
  provider : String
  model : String
deriving DecidableEq, Repr

def ProviderTarget.key (target : ProviderTarget) : String :=
  target.provider ++ "/" ++ target.model

def ProviderTarget.circuitKey (target : ProviderTarget) : String × String :=
  (target.provider, target.model)

inductive RoutingStrategy where
  | priority
  | weighted
  | leastCost
deriving DecidableEq, Repr

structure RoleConfig where
  primary : ProviderTarget
  fallbacks : List ProviderTarget := []
  maxRetries : ℕ := 3
  strategy : RoutingStrategy := .priority
  candidates : List ProviderTarget := []
  weights : OrderedDict String ℚ := .empty

abbrev UnitPrice := OrderedDict String ℚ

structure LLMRouterConfig where
  roles : LLMRole → Option RoleConfig
  circuit : CircuitConfig := default
  cacheEnabled : Bool := true
  pricing : OrderedDict String UnitPrice := .empty

def LLMRouterConfig.unitPrice (config : LLMRouterConfig) (target : ProviderTarget) :
    Option UnitPrice :=
  config.pricing.get? target.key

/-! ## Strategies -/

/-- The candidates whose circuit lets a call through; asking may half-open a circuit. -/
def askAll (cfg : CircuitConfig) (now : ℚ) :
    List ProviderTarget → CircuitBreaker → List ProviderTarget × CircuitBreaker
  | [], breaker => ([], breaker)
  | target :: targets, breaker =>
    let asked := breaker.isOpen cfg now target.circuitKey
    let rest := askAll cfg now targets asked.2
    (if asked.1 then rest.1 else target :: rest.1, rest.2)

namespace RoleConfig

def candidateList (role : RoleConfig) : List ProviderTarget :=
  if role.candidates.isEmpty then [role.primary] else role.candidates

/-- The position at which the running sum of the weights first reaches the draw. -/
def pickIndex (draw : ℚ) : ℚ → List ℚ → Option ℕ
  | _, [] => none
  | acc, w :: ws => if draw ≤ acc + w then some 0 else (pickIndex draw (acc + w) ws).map (· + 1)

def weightedOrder (role : RoleConfig) (uniform : ℚ → ℚ) (pool : List ProviderTarget) :
    List ProviderTarget :=
  let weights := pool.map fun cand => max 0 ((role.weights.get? cand.key).getD 1)
  if weights.sum ≤ 0 then pool
  else match pickIndex (uniform weights.sum) 0 weights with
    | some i => (pool[i]?).toList ++ pool.eraseIdx i
    | none => pool

/-- Cheapest first; a candidate without a price comes last. -/
def leastCostOrder (config : LLMRouterConfig) (pool : List ProviderTarget) :
    List ProviderTarget :=
  let cost (cand : ProviderTarget) : WithTop ℚ :=
    match config.unitPrice cand with
    | some price =>
      if price.entries.isEmpty then ⊤
      else ((price.get? "prompt_per_1k").getD 0 + (price.get? "completion_per_1k").getD 0 : ℚ)
    | none => ⊤
  pool.insertionSort fun a b => cost a ≤ cost b

/-- The ordered targets of a role, and the breaker after asking for them. -/
def targets (config : LLMRouterConfig) (role : RoleConfig) (now : ℚ) (uniform : ℚ → ℚ)
    (breaker : CircuitBreaker) : List ProviderTarget × CircuitBreaker :=
  match role.strategy with
  | .priority => (role.primary :: role.fallbacks, breaker)
  | .weighted =>
    let pool := askAll config.circuit now role.candidateList breaker
    (role.weightedOrder uniform pool.1, pool.2)
  | .leastCost =>
    let pool := askAll config.circuit now role.candidateList breaker
    (leastCostOrder config pool.1, pool.2)

end RoleConfig

/-! ## One target -/

section Targets

variable {α : Type}

/-- What a call meets at one target: the times at which its circuit is asked and its
outcome recorded, and the provider with the outcome of each attempt. -/
structure Trial (α : Type) where
  askedAt : ℚ := 0
  endedAt : ℚ := 0
  provider : Except Exc (ℕ → Except Exc α)

inductive CallResult (α : Type) where
  | answered (a : α)
  | exhausted
  | raised (e : Exc)

/-- `TimeoutError`, `RateLimitError` and `LLMError` are the failures a retry is made for. -/
def Exc.isProviderFailure (e : Exc) : Bool :=
  e.cls = .timeout || e.cls = .rateLimit || e.isLLMError

/-- Attempts `attempt`, `attempt + 1`, …, of which `left` are left. -/
def attemptsFrom (maxRetries : ℕ) (attempts : ℕ → Except Exc α) (attempt : ℕ) :
    ℕ → CallResult α
  | 0 => .exhausted
  | left + 1 =>
    match attempts attempt with
    | .ok a => .answered a
    | .error e =>
      if e.cls = .structuredParse then
        if 1 ≤ attempt then .raised e else attemptsFrom maxRetries attempts (attempt + 1) left
      else if e.isProviderFailure then
        if e.isLLMError && !e.retryable then .raised e
        else if attempt = maxRetries then .exhausted
        else attemptsFrom maxRetries attempts (attempt + 1) left
      else .raised e

def callWithRetry (maxRetries : ℕ) (attempts : ℕ → Except Exc α) : CallResult α :=
  attemptsFrom maxRetries attempts 0 (maxRetries + 1)

/-- After this failure of this attempt there is another attempt. -/
def Retried (maxRetries attempt : ℕ) (e : Exc) : Prop :=
  attempt < maxRetries ∧
    if e.cls = .structuredParse then attempt = 0
    else e.isProviderFailure = true ∧ (e.isLLMError && !e.retryable) = false

theorem attemptsFrom_of_retried {maxRetries attempt left : ℕ} {attempts : ℕ → Except Exc α}
    {e : Exc} (he : attempts attempt = .error e) (hr : Retried maxRetries attempt e) :
    attemptsFrom maxRetries attempts attempt (left + 1) =
      attemptsFrom maxRetries attempts (attempt + 1) left := by
  obtain ⟨hlt, hkind⟩ := hr
  rw [attemptsFrom, he]
  dsimp only
  by_cases hparse : e.cls = .structuredParse
  · rw [if_pos hparse] at hkind ⊢
    rw [if_neg (by omega)]
  · rw [if_neg hparse] at hkind ⊢
    rw [if_pos hkind.1, if_neg (Bool.eq_false_iff.mp hkind.2), if_neg hlt.ne]

theorem attemptsFrom_of_not_retried {maxRetries attempt left : ℕ}
    {attempts : ℕ → Except Exc α} {e : Exc} (hl : attempt + (left + 1) = maxRetries + 1)
    (he : attempts attempt = .error e) (hr : ¬ Retried maxRetries attempt e) (a : α) :
    attemptsFrom maxRetries attempts attempt (left + 1) ≠ .answered a := by
  rw [attemptsFrom, he]
  dsimp only
  unfold Retried at hr
  split_ifs at hr ⊢ with hparse hone hfail hfinal hmax
  · simp
  · -- the only attempt there was
    obtain rfl : left = 0 := by omega
    simp [attemptsFrom]
  · simp
  · simp
  · exact absurd ⟨by omega, hfail, Bool.eq_false_iff.mpr hfinal⟩ hr
  · simp

/-- The retry loop answers with the first success that only retried failures precede. -/
theorem attemptsFrom_answered_iff {maxRetries attempt left : ℕ} (attempts : ℕ → Except Exc α)
    (a : α) (hl : attempt + left = maxRetries + 1) :
    attemptsFrom maxRetries attempts attempt left = .answered a ↔
      ∃ k, attempt ≤ k ∧ k ≤ maxRetries ∧ attempts k = .ok a ∧
        ∀ j, attempt ≤ j → j < k → ∃ e, attempts j = .error e ∧ Retried maxRetries j e := by
  induction left generalizing attempt with
  | zero =>
    constructor
    · intro h
      cases h
    · rintro ⟨k, hle, hmax, _⟩
      omega
  | succ left ih =>
    cases hout : attempts attempt with
    | ok b =>
      constructor
      · intro h
        rw [attemptsFrom, hout] at h
        cases h
        exact ⟨attempt, le_rfl, by omega, hout, fun j hj hlt => by omega⟩
      · rintro ⟨k, hle, _, hk, hbefore⟩
        rcases hle.eq_or_lt with rfl | hlt
        · rw [attemptsFrom, hk]
        · obtain ⟨e, he, _⟩ := hbefore attempt le_rfl hlt
          rw [hout] at he
          cases he
    | error e =>
      by_cases hr : Retried maxRetries attempt e
      · rw [attemptsFrom_of_retried hout hr, ih (by omega)]
        constructor
        · rintro ⟨k, hle, hmax, hk, hbefore⟩
          refine ⟨k, by omega, hmax, hk, fun j hj hlt => ?_⟩
          rcases hj.eq_or_lt with rfl | hj
          · exact ⟨e, hout, hr⟩
          · exact hbefore j hj hlt
        · rintro ⟨k, hle, hmax, hk, hbefore⟩
          rcases hle.eq_or_lt with rfl | hlt
          · rw [hout] at hk
            cases hk
          · exact ⟨k, hlt, hmax, hk, fun j hj => hbefore j (by omega)⟩
      · constructor
        · intro h
          exact absurd h (attemptsFrom_of_not_retried hl hout hr a)
        · rintro ⟨k, hle, _, hk, hbefore⟩
          rcases hle.eq_or_lt with rfl | hlt
          · rw [hout] at hk
            cases hk
          · obtain ⟨e', he', hr'⟩ := hbefore attempt le_rfl hlt
            rw [hout] at he'
            cases he'
            exact absurd hr' hr

/-- A target produces a response within its allowed retries. -/
theorem callWithRetry_answered_iff {maxRetries : ℕ} {attempts : ℕ → Except Exc α} {a : α} :
    callWithRetry maxRetries attempts = .answered a ↔
      ∃ k ≤ maxRetries, attempts k = .ok a ∧
        ∀ j < k, ∃ e, attempts j = .error e ∧ Retried maxRetries j e := by
  simpa [callWithRetry] using
    attemptsFrom_answered_iff attempts a (Nat.zero_add (maxRetries + 1))

/-! ## The target loop -/

inductive Verdict (α : Type) where
  | fastFail
  | answered (a : α)
  | failed
  | escaped (e : Exc)

def Verdict.answers : Verdict α → Bool
  | .answered _ => true
  | _ => false

/-- Open circuits and exceptions that no handler of the loop names. -/
def Verdict.blocks : Verdict α → Bool
  | .fastFail => true
  | .escaped _ => true
  | _ => false

def Verdict.isFastFail : Verdict α → Bool
  | .fastFail => true
  | _ => false

/-- `except (RateLimitError, LLMError)` around one target. -/
def Exc.isCaught (e : Exc) : Bool := e.cls = .rateLimit || e.isLLMError

/-- One target: its circuit, its provider, its retries, and the recorded outcome. -/
def visit (cfg : CircuitConfig) (maxRetries : ℕ) (target : ProviderTarget) (trial : Trial α)
    (breaker : CircuitBreaker) : Verdict α × CircuitBreaker :=
  let asked := breaker.isOpen cfg trial.askedAt target.circuitKey
  let failure := asked.2.recordFailure cfg trial.endedAt target.circuitKey
  let raised (e : Exc) : Verdict α × CircuitBreaker :=
    if e.isCaught then (.failed, failure) else (.escaped e, asked.2)
  if asked.1 then (.fastFail, asked.2)
  else match trial.provider with
    | .error e => raised e
    | .ok attempts =>
      match callWithRetry maxRetries attempts with
      | .answered a => (.answered a, asked.2.recordSuccess cfg trial.endedAt target.circuitKey)
      | .exhausted => (.failed, failure)
      | .raised e => raised e

/-- A target responds iff its circuit lets the call through and one of the allowed attempts
succeeds behind failures that are retried. -/
theorem visit_answers_iff {cfg : CircuitConfig} {maxRetries : ℕ} {target : ProviderTarget}
    {trial : Trial α} {breaker : CircuitBreaker} :
    (visit cfg maxRetries target trial breaker).1.answers = true ↔
      (breaker.isOpen cfg trial.askedAt target.circuitKey).1 = false ∧
        ∃ attempts, trial.provider = .ok attempts ∧
          ∃ k ≤ maxRetries, (∃ a, attempts k = .ok a) ∧
            ∀ j < k, ∃ e, attempts j = .error e ∧ Retried maxRetries j e := by
  unfold visit
  dsimp only
  by_cases hopen : (breaker.isOpen cfg trial.askedAt target.circuitKey).1 = true
  · rw [if_pos hopen]
    simp [Verdict.answers, hopen]
  · rw [if_neg hopen]
    cases hprovider : trial.provider with
    | error e =>
      dsimp only
      split_ifs <;> simp [Verdict.answers]
    | ok attempts =>
      have hresponds : (∃ a, callWithRetry maxRetries attempts = .answered a) ↔
          ∃ k ≤ maxRetries, (∃ a, attempts k = .ok a) ∧
            ∀ j < k, ∃ e, attempts j = .error e ∧ Retried maxRetries j e := by
        simp only [callWithRetry_answered_iff]
        constructor
        · rintro ⟨a, k, hk, ha, hbefore⟩
          exact ⟨k, hk, ⟨a, ha⟩, hbefore⟩
        · rintro ⟨k, hk, ⟨a, ha⟩, hbefore⟩
          exact ⟨a, k, hk, ha, hbefore⟩
      simp only [Bool.eq_false_iff.mpr hopen, Except.ok.injEq, exists_eq_left', true_and]
      rw [← hresponds]
      cases hcall : callWithRetry maxRetries attempts with
      | answered a => simp [Verdict.answers]
      | exhausted => simp [Verdict.answers]
      | raised e =>
        dsimp only
        split_ifs <;> simp [Verdict.answers]

/-- What escapes from a target is not among the caught exceptions. -/
theorem not_caught_of_escaped {cfg : CircuitConfig} {maxRetries : ℕ} {target : ProviderTarget}
    {trial : Trial α} {breaker breaker' : CircuitBreaker} {e : Exc}
    (h : visit cfg maxRetries target trial breaker = (.escaped e, breaker')) :
    ¬ e.isCaught = true := by
  unfold visit at h
  dsimp only at h
  split_ifs at h
  · cases h
  · split at h
    · split_ifs at h with hc
      · cases h
      · cases h
        exact hc
    · split at h
      · cases h
      · cases h
      · split_ifs at h with hc
        · cases h
        · cases h
          exact hc

/-- What the loop over the targets returns; `tried` are the positions of the targets
whose circuit let the call through. -/
structure Routed (α : Type) where
  result : Except Exc (ProviderTarget × α)
  breaker : CircuitBreaker
  tried : List ℕ := []

def circuitOpenError (target : ProviderTarget) : Exc where
  cls := .circuitOpen
  code := 6002
  message := "circuit open"
  details := [("provider", .str target.provider), ("model", .str target.model)]

/-- The loop from position `i` on; `failure` is the error raised behind the last target. -/
def tryTargets (cfg : CircuitConfig) (maxRetries : ℕ) (trials : ℕ → Trial α) (failure : Exc) :
    ℕ → CircuitBreaker → List ProviderTarget → Routed α
  | _, breaker, [] => { result := .error failure, breaker }
  | i, breaker, target :: targets =>
    match visit cfg maxRetries target (trials i) breaker with
    | (.fastFail, breaker) => { result := .error (circuitOpenError target), breaker }
    | (.answered a, breaker) => { result := .ok (target, a), breaker, tried := [i] }
    | (.failed, breaker) =>
      let rest := tryTargets cfg maxRetries trials failure (i + 1) breaker targets
      { rest with tried := i :: rest.tried }
    | (.escaped e, breaker) => { result := .error e, breaker, tried := [i] }

/-- What each target would do in its turn, each with the circuits as the targets before
it leave them. -/
def verdicts (cfg : CircuitConfig) (maxRetries : ℕ) (trials : ℕ → Trial α) :
    ℕ → CircuitBreaker → List ProviderTarget → List (Verdict α)
  | _, _, [] => []
  | i, breaker, target :: targets =>
    let visited := visit cfg maxRetries target (trials i) breaker
    visited.1 :: verdicts cfg maxRetries trials (i + 1) visited.2 targets

/-- The positions a fallback tries: those not failing fast, up to the first answer. -/
def fallbackTries : ℕ → List (Verdict α) → List ℕ
  | _, [] => []
  | i, .fastFail :: vs => fallbackTries (i + 1) vs
  | i, .answered _ :: _ => [i]
  | i, _ :: vs => i :: fallbackTries (i + 1) vs

/-- No target keeps a later one from being tried. -/
def FallsThrough (vs : List (Verdict α)) : Prop :=
  ∀ before v after, vs = before ++ v :: after → (∀ u ∈ before, u.answers = false) →
    v.blocks = true → ∀ u ∈ after, u.isFastFail = true

/-- The loop answers exactly if some target would, and tries all it should. -/
def RoutesAround (i : ℕ) (routed : Routed α) (vs : List (Verdict α)) : Prop :=
  ((∃ answer, routed.result = .ok answer) ↔ ∃ v ∈ vs, v.answers = true) ∧
    routed.tried = fallbackTries i vs

theorem fallsThrough_cons {v : Verdict α} {vs : List (Verdict α)} :
    FallsThrough (v :: vs) ↔
      (v.blocks = true → ∀ u ∈ vs, u.isFastFail = true) ∧
        (v.answers = false → FallsThrough vs) := by
  constructor
  · intro h
    refine ⟨h [] v vs rfl (by simp), fun hv before u after hvs hbefore => ?_⟩
    refine h (v :: before) u after (by rw [hvs, List.cons_append]) ?_
    simpa [hv] using hbefore
  · rintro ⟨hhead, htail⟩ before u after hvs hbefore hu
    cases before with
    | nil =>
      cases hvs
      exact hhead hu
    | cons w before =>
      obtain ⟨rfl, rfl⟩ := List.cons.inj hvs
      have hrest := htail (hbefore v List.mem_cons_self)
      exact hrest before u after rfl (fun x hx => hbefore x (List.mem_cons_of_mem v hx)) hu

theorem fallbackTries_eq_nil_iff {i : ℕ} {vs : List (Verdict α)} :
    fallbackTries i vs = [] ↔ ∀ v ∈ vs, v.isFastFail = true := by
  induction vs generalizing i with
  | nil => simp [fallbackTries]
  | cons v vs ih => cases v <;> simp [fallbackTries, Verdict.isFastFail, ih]

theorem not_answers_of_isFastFail {v : Verdict α} (h : v.isFastFail = true) :
    v.answers = false := by
  cases v <;> first | rfl | cases h

theorem not_answers_of_blocks {v : Verdict α} (h : v.blocks = true) : v.answers = false := by
  cases v <;> first | rfl | cases h

theorem fallsThrough_of_all_fastFail {vs : List (Verdict α)}
    (h : ∀ v ∈ vs, v.isFastFail = true) : FallsThrough vs := by
  rintro before v after rfl _ _ u hu
  exact h u (List.mem_append_right before (List.mem_cons_of_mem v hu))

theorem fallsThrough_cons_of_blocks {v : Verdict α} {vs : List (Verdict α)}
    (hv : v.blocks = true) : FallsThrough (v :: vs) ↔ ∀ u ∈ vs, u.isFastFail = true := by
  rw [fallsThrough_cons]
  exact ⟨fun h => h.1 hv, fun h => ⟨fun _ => h, fun _ => fallsThrough_of_all_fastFail h⟩⟩

/-- A loop that stops at a blocking target should have had nothing left to try. -/
theorem routesAround_blocked_iff {i : ℕ} {routed : Routed α} {e : Exc} {v : Verdict α}
    {vs : List (Verdict α)} (hresult : routed.result = .error e) (hv : v.blocks = true)
    (htried : routed.tried = fallbackTries i (v :: vs) ↔ fallbackTries (i + 1) vs = []) :
    RoutesAround i routed (v :: vs) ↔ FallsThrough (v :: vs) := by
  rw [fallsThrough_cons_of_blocks hv]
  constructor
  · rintro ⟨_, ht⟩
    exact fallbackTries_eq_nil_iff.mp (htried.mp ht)
  · intro hall
    refine ⟨?_, htried.mpr (fallbackTries_eq_nil_iff.mpr hall)⟩
    constructor
    · rintro ⟨a, ha⟩
      rw [hresult] at ha
      cases ha
    · rintro ⟨u, hu, hans⟩
      rcases List.mem_cons.mp hu with rfl | hu
      · rw [not_answers_of_blocks hv] at hans
        cases hans
      · rw [not_answers_of_isFastFail (hall u hu)] at hans
        cases hans

/-- The loop falls back as far as it could exactly if blocking targets, met before any
answer, are followed by open circuits only. -/
theorem routesAround_tryTargets_iff (cfg : CircuitConfig) (maxRetries : ℕ)
    (trials : ℕ → Trial α) (failure : Exc) (i : ℕ) (breaker : CircuitBreaker)
    (targets : List ProviderTarget) :
    RoutesAround i (tryTargets cfg maxRetries trials failure i breaker targets)
        (verdicts cfg maxRetries trials i breaker targets) ↔
      FallsThrough (verdicts cfg maxRetries trials i breaker targets) := by
  induction targets generalizing i breaker with
  | nil => simp [RoutesAround, FallsThrough, tryTargets, verdicts, fallbackTries]
  | cons target targets ih =>
    obtain ⟨v, breaker', hv⟩ : ∃ v breaker', visit cfg maxRetries target (trials i) breaker =
        (v, breaker') := ⟨_, _, rfl⟩
    rw [verdicts, tryTargets, hv]
    cases v with
    | fastFail => exact routesAround_blocked_iff rfl rfl eq_comm
    | escaped e =>
      refine routesAround_blocked_iff rfl rfl ?_
      simp only [fallbackTries, List.cons.injEq, true_and]
      exact eq_comm
    | answered a =>
      refine iff_of_true ⟨?_, rfl⟩ (fallsThrough_cons.mpr ⟨nofun, nofun⟩)
      exact iff_of_true ⟨_, rfl⟩ ⟨_, List.mem_cons_self, rfl⟩
    | failed =>
      have hfalls : FallsThrough
          (.failed :: verdicts cfg maxRetries trials (i + 1) breaker' targets) ↔
          FallsThrough (verdicts cfg maxRetries trials (i + 1) breaker' targets) := by
        simp [fallsThrough_cons, Verdict.blocks, Verdict.answers]
      rw [hfalls, ← ih]
      simp [RoutesAround, fallbackTries, Verdict.answers]

end Targets

/-! ## The router -/

/-- One metered call. The time is kept as the instant; the source writes it out. -/
structure CostRecord where
  traceId : String
  ts : ℚ
  kbId : String
  tenantId : String
  role : String
  provider : String
  model : String
  promptTokens : ℕ
  completionTokens : ℕ
  unitPrice : UnitPrice
  costUsd : ℚ
  cached : Bool

/-- The wiring of a router. `countTokens` estimates a usage that was not reported. -/
structure ResilientRouter where
  config : LLMRouterConfig
  tenantId : String := "default"
  cacheWired : Bool := false
  budgetCaps : String → Option ℚ := fun _ => none
  countTokens : String → ℕ

/-- What a router process keeps in memory between calls. -/
structure RouterState where
  circuit : CircuitBreaker := fun _ => {}
  costRecords : List CostRecord := []

/-- What one call meets: the time, the answers of the semantic cache (it reports its
failures as misses), the random draw and the targets' trials. -/
structure Encounter (α : Type) where
  now : ℚ
  lookup : Option String := none
  gateLookup : Option String := none
  uniform : ℚ → ℚ := id
  trials : ℕ → Trial α

/-- The result of a call, with the positions of the targets tried, the target that
answered and the answer written through to the cache. -/
structure CallOutcome (α : Type) where
  result : Except Exc α
  state : RouterState
  tried : List ℕ := []
  answeredBy : Option ProviderTarget := none
  written : Option String := none

def collectUsage (countTokens : String → ℕ) (resp : ChatResponse) (promptText : String) :
    TokenUsage :=
  if resp.usage.total = 0 then
    { promptTokens := countTokens promptText
      completionTokens := countTokens resp.text
      total := countTokens promptText + countTokens resp.text
      estimated := true }
  else resp.usage

/-- The cost in USD and the price it was computed with; no price means no cost. -/
def computeCost (config : LLMRouterConfig) (usage : TokenUsage) (target : ProviderTarget) :
    ℚ × UnitPrice :=
  match config.unitPrice target with
  | none => (0, .empty)
  | some price =>
    if price.entries.isEmpty then (0, .empty)
    else (usage.promptTokens / 1000 * (price.get? "prompt_per_1k").getD 0 +
      usage.completionTokens / 1000 * (price.get? "completion_per_1k").getD 0, price)

def noRoleError (config : LLMRouterConfig) (role : LLMRole) : Exc where
  cls := .config
  code := 9003
  message := "no LLM role configured"
  details :=
    [("role", .str role.value),
      ("configured", .arr ((LLMRole.alphabetical.filter fun r => (config.roles r).isSome).map
        fun r => .str r.value))]

def allFailedError (role : LLMRole) (targets : List ProviderTarget) : Exc where
  cls := .allProvidersFailed
  code := 6001
  message := "all providers failed"
  details :=
    [("role", .str role.value),
      ("tried", .arr (targets.map fun t => .arr [.str t.provider, .str t.model]))]

namespace ResilientRouter

/-- The cache is asked only for final answers that the caller allows it for. -/
def usesCache (router : ResilientRouter) (req : ChatRequest) : Bool :=
  decide (req.role = .generate) && router.cacheWired && router.config.cacheEnabled && req.cacheable

def cachedAnswer {α : Type} (router : ResilientRouter) (enc : Encounter α) (req : ChatRequest) :
    Option String :=
  if router.usesCache req then enc.lookup else none

def sumDailyCost (st : RouterState) (kbId : String) : ℚ :=
  ((st.costRecords.filter (·.kbId = kbId)).map (·.costUsd)).sum

/-- Over the cap, a cacheable request whose answer is cached still passes. -/
def gateBypass {α : Type} (router : ResilientRouter) (enc : Encounter α) (req : ChatRequest) :
    Bool :=
  req.cacheable && router.cacheWired && enc.gateLookup.isSome

def capReachedError (kbId : String) (used cap : ℚ) : Exc where
  cls := .rateLimit
  code := 1004
  message := "daily budget cap reached, only cache-hit queries allowed"
  details := [("kb_id", .str kbId), ("used", .num used), ("cap", .num cap)]

def checkBudget {α : Type} (router : ResilientRouter) (st : RouterState) (enc : Encounter α)
    (req : ChatRequest) : Except Exc Unit :=
  match router.budgetCaps req.kbId with
  | none => .ok ()
  | some cap =>
    if sumDailyCost st req.kbId < cap then .ok ()
    else if router.gateBypass enc req then .ok ()
    else .error (capReachedError req.kbId (sumDailyCost st req.kbId) cap)

def account (router : ResilientRouter) (now : ℚ) (req : ChatRequest) (target : ProviderTarget)
    (resp : ChatResponse) : CostRecord :=
  let usage := collectUsage router.countTokens resp req.messagesText
  let cost := computeCost router.config usage target
  { traceId := req.traceId.getD ""
    ts := now
    kbId := req.kbId
    tenantId := router.tenantId
    role := req.role.value
    provider := target.provider
    model := target.model
    promptTokens := usage.promptTokens
    completionTokens := usage.completionTokens
    unitPrice := cost.2
    costUsd := cost.1
    cached := resp.cached }

/-- The loop over the targets of the role's strategy. -/
def route {α : Type} (router : ResilientRouter) (st : RouterState) (enc : Encounter α)
    (req : ChatRequest) (role : RoleConfig) : Routed α :=
  let offered := role.targets router.config enc.now enc.uniform st.circuit
  tryTargets router.config.circuit role.maxRetries enc.trials
    (allFailedError req.role offered.1) 0 offered.2 offered.1

/-- What the role's targets would do, each in its turn. -/
def offers {α : Type} (router : ResilientRouter) (st : RouterState) (enc : Encounter α)
    (role : RoleConfig) : List (Verdict α) :=
  let offered := role.targets router.config enc.now enc.uniform st.circuit
  verdicts router.config.circuit role.maxRetries enc.trials 0 offered.2 offered.1

def chat (router : ResilientRouter) (st : RouterState) (enc : Encounter ChatResponse)
    (req : ChatRequest) : CallOutcome ChatResponse :=
  match router.config.roles req.role with
  | none => { result := .error (noRoleError router.config req.role), state := st }
  | some role =>
    match router.cachedAnswer enc req with
    | some text => { result := .ok { text, cached := true }, state := st }
    | none =>
      match router.checkBudget st enc req with
      | .error e => { result := .error e, state := st }
      | .ok () =>
        let routed := router.route st enc req role
        match routed.result with
        | .error e =>
          { result := .error e, state := { st with circuit := routed.breaker }
            tried := routed.tried }
        | .ok (target, resp) =>
          { result := .ok resp
            state :=
              { circuit := routed.breaker
                costRecords := st.costRecords ++ [router.account enc.now req target resp] }
            tried := routed.tried
            answeredBy := some target
            written := if router.usesCache req then some resp.text else none }

/-- Structured output: no cache before it, and no record of its cost. -/
def structured {α : Type} (router : ResilientRouter) (st : RouterState) (enc : Encounter α)
    (req : ChatRequest) : CallOutcome α :=
  match router.config.roles req.role with
  | none => { result := .error (noRoleError router.config req.role), state := st }
  | some role =>
    match router.checkBudget st enc req with
    | .error e => { result := .error e, state := st }
    | .ok () =>
      let routed := router.route st enc req role
      { result := routed.result.map Prod.snd
        state := { st with circuit := routed.breaker }
        tried := routed.tried
        answeredBy := (routed.result.map Prod.fst).toOption }

/-- The call gets past the cache and the budget gate to the targets of `role`. -/
structure ReachesTargets {α : Type} (router : ResilientRouter) (st : RouterState)
    (enc : Encounter α) (req : ChatRequest) (role : RoleConfig) : Prop where
  configured : router.config.roles req.role = some role
  uncached : router.cachedAnswer enc req = none
  affordable : router.checkBudget st enc req = .ok ()

/-- `chat` answers exactly if some target of the role answers in its turn, and tries every
target up to that one whose circuit is not open. -/
def ChatRoutesAround (router : ResilientRouter) (st : RouterState)
    (enc : Encounter ChatResponse) (req : ChatRequest) (role : RoleConfig) : Prop :=
  ((∃ resp, (router.chat st enc req).result = .ok resp) ↔
      ∃ v ∈ router.offers st enc role, v.answers = true) ∧
    (router.chat st enc req).tried = fallbackTries 0 (router.offers st enc role)

theorem chat_of_reaches {router : ResilientRouter} {st : RouterState}
    {enc : Encounter ChatResponse} {req : ChatRequest} {role : RoleConfig}
    (h : router.ReachesTargets st enc req role) :
    (router.chat st enc req).result = (router.route st enc req role).result.map Prod.snd ∧
      (router.chat st enc req).tried = (router.route st enc req role).tried := by
  rw [chat, h.configured]
  dsimp only
  rw [h.uncached]
  dsimp only
  rw [h.affordable]
  dsimp only
  cases (router.route st enc req role).result with
  | error e => exact ⟨rfl, rfl⟩
  | ok answer => exact ⟨rfl, rfl⟩

/-- A call that reaches its targets is routed around failures exactly if every target
that fails fast, or raises what the loop does not catch, and that no answering target
precedes, is followed by open circuits only. -/
theorem chatRoutesAround_iff {router : ResilientRouter} {st : RouterState}
    {enc : Encounter ChatResponse} {req : ChatRequest} {role : RoleConfig}
    (h : router.ReachesTargets st enc req role) :
    router.ChatRoutesAround st enc req role ↔ FallsThrough (router.offers st enc role) := by
  obtain ⟨hresult, htried⟩ := chat_of_reaches h
  have hloop := routesAround_tryTargets_iff router.config.circuit role.maxRetries enc.trials
    (allFailedError req.role (role.targets router.config enc.now enc.uniform st.circuit).1) 0
    (role.targets router.config enc.now enc.uniform st.circuit).2
    (role.targets router.config enc.now enc.uniform st.circuit).1
  have hanswer : (∃ resp, (router.chat st enc req).result = .ok resp) ↔
      ∃ answer, (router.route st enc req role).result = .ok answer := by
    rw [hresult]
    cases (router.route st enc req role).result with
    | error e => simp [Except.map]
    | ok answer => exact iff_of_true ⟨answer.2, rfl⟩ ⟨answer, rfl⟩
  unfold ChatRoutesAround
  rw [hanswer, htried]
  exact hloop

def twoTargets : RoleConfig where
  primary := ⟨"openai", "large"⟩
  fallbacks := [⟨"openai", "small"⟩]

def twoTargetRouter : ResilientRouter where
  config := { roles := fun _ => some twoTargets }
  countTokens := String.length

/-- The circuit of the primary target has just opened. -/
def primaryOpen : RouterState where
  circuit := fun key => if key = ("openai", "large") then { state := .opened } else {}

/-- Every provider answers at once. -/
def everyoneAnswers : Encounter ChatResponse where
  now := 0
  trials := fun _ => { provider := .ok fun _ => .ok { text := "answer" } }

theorem chatRoutesAround_iff_primaryOpen :
    twoTargetRouter.ChatRoutesAround primaryOpen everyoneAnswers {} twoTargets ↔
      FallsThrough (twoTargetRouter.offers primaryOpen everyoneAnswers twoTargets) :=
  chatRoutesAround_iff ⟨rfl, rfl, rfl⟩

/-- The open circuit of the primary target keeps the fallback from being tried. -/
theorem primaryOpen_not_routedAround :
    ¬ twoTargetRouter.ChatRoutesAround primaryOpen everyoneAnswers {} twoTargets :=
  fun h => absurd h.2 (by decide +kernel)

end ResilientRouter

end Ragx
