import Ragx.ModelRouter

/-!
# The models that the providers are asked for

The router picks targets, each a provider with a model, and keys its circuits, its prices and its
cost records by them. The request goes to the provider as it came, and the provider fills in a
model of its own where the request names none.
-/
namespace Ragx

structure OpenAICompatibleLLM where
  defaultModel : String

namespace OpenAICompatibleLLM

/-- The entries of a provider's configuration, shown as text. -/
def ofConfig (cfg : OrderedDict String String) : OpenAICompatibleLLM where
  defaultModel := (cfg.get? "model").getD "gpt-4o-mini"

/-- `req.model or self._default_model` -/
def payloadModel (llm : OpenAICompatibleLLM) (req : ChatRequest) : String :=
  let model := req.model.getD ""
  if model = "" then llm.defaultModel else model

end OpenAICompatibleLLM

/-- The `providers` of a router's configuration. -/
abbrev ProviderConfigs := OrderedDict String (OrderedDict String String)

/-- The provider that the registry resolves for a target, each time the same. -/
def ProviderConfigs.provider (providers : ProviderConfigs) (target : ProviderTarget) :
    OpenAICompatibleLLM :=
  .ofConfig ((providers.get? target.provider).getD .empty)

/-- A call that the router makes on behalf of a target: the provider that it goes to and the
model that it asks for. -/
structure RoutedCall where
  target : ProviderTarget
  provider : String
  model : String
deriving DecidableEq, Repr

/-! ## The calls of a request -/

instance (maxRetries attempt : ℕ) (e : Exc) : Decidable (Retried maxRetries attempt e) :=
  inferInstanceAs (Decidable (attempt < maxRetries ∧
    if e.cls = .structuredParse then attempt = 0
    else e.isProviderFailure = true ∧ (e.isLLMError && !e.retryable) = false))

section Calls

variable {α : Type}

/-- How many of the attempts `attempt`, `attempt + 1`, …, of which `left` are left, are made. -/
def attemptsMade (maxRetries : ℕ) (attempts : ℕ → Except Exc α) (attempt : ℕ) : ℕ → ℕ
  | 0 => 0
  | left + 1 =>
    match attempts attempt with
    | .ok _ => 1
    | .error e =>
      if Retried maxRetries attempt e then
        attemptsMade maxRetries attempts (attempt + 1) left + 1
      else 1

variable (providers : ProviderConfigs) (cfg : CircuitConfig) (maxRetries : ℕ) (req : ChatRequest)

def visitCalls (target : ProviderTarget) (trial : Trial α) (breaker : CircuitBreaker) :
    List RoutedCall :=
  if (breaker.isOpen cfg trial.askedAt target.circuitKey).1 then []
  else match trial.provider with
    | .error _ => []
    | .ok attempts =>
      List.replicate (attemptsMade maxRetries attempts 0 (maxRetries + 1))
        { target
          provider := target.provider
          model := (providers.provider target).payloadModel req }

/-- The calls of the loop over the targets. -/
def targetCalls (trials : ℕ → Trial α) :
    ℕ → CircuitBreaker → List ProviderTarget → List RoutedCall
  | _, _, [] => []
  | i, breaker, target :: targets =>
    let visited := visit cfg maxRetries target (trials i) breaker
    visitCalls providers cfg maxRetries req target (trials i) breaker ++
      match visited.1 with
      | .failed => targetCalls trials (i + 1) visited.2 targets
      | _ => []

end Calls

/-- What the role's strategy chooses from. -/
def RoleConfig.offered (role : RoleConfig) : List ProviderTarget :=
  match role.strategy with
  | .priority => role.primary :: role.fallbacks
  | .weighted | .leastCost => role.candidateList

namespace ResilientRouter

variable {α : Type} (providers : ProviderConfigs) (router : ResilientRouter) (st : RouterState)

def routeCalls (enc : Encounter α) (req : ChatRequest) (role : RoleConfig) : List RoutedCall :=
  let offered := role.targets router.config enc.now enc.uniform st.circuit
  targetCalls providers router.config.circuit role.maxRetries req enc.trials 0 offered.2 offered.1

def chatCalls (enc : Encounter ChatResponse) (req : ChatRequest) : List RoutedCall :=
  match router.config.roles req.role with
  | none => []
  | some role =>
    match router.cachedAnswer enc req, router.checkBudget st enc req with
    | none, .ok () => router.routeCalls providers st enc req role
    | _, _ => []

def structuredCalls (enc : Encounter α) (req : ChatRequest) : List RoutedCall :=
  match router.config.roles req.role with
  | none => []
  | some role =>
    match router.checkBudget st enc req with
    | .ok () => router.routeCalls providers st enc req role
    | .error _ => []

/-- The provider is asked for the target's model, so that the key of the circuit names it. -/
def AsksTarget (call : RoutedCall) : Prop :=
  call.target.circuitKey = (call.provider, call.model)

/-- Each call asks for its target's model, and what is recorded is recorded and priced under a
model that was called. -/
def ChatAsksTargets (enc : Encounter ChatResponse) (req : ChatRequest) : Prop :=
  (∀ call ∈ router.chatCalls providers st enc req, AsksTarget call) ∧
    ∀ record ∈ (router.chat st enc req).state.costRecords.drop st.costRecords.length,
      ∃ call ∈ router.chatCalls providers st enc req,
        record.provider = call.provider ∧ record.model = call.model ∧
          record.unitPrice = (computeCost router.config {} ⟨call.provider, call.model⟩).2

def StructuredAsksTargets (enc : Encounter α) (req : ChatRequest) : Prop :=
  ∀ call ∈ router.structuredCalls providers st enc req, AsksTarget call

end ResilientRouter

/-! ## What is called, and when -/

section Calls

variable {α : Type} {providers : ProviderConfigs} {cfg : CircuitConfig} {maxRetries : ℕ}
  {req : ChatRequest} {trials : ℕ → Trial α}

theorem attemptsMade_pos (maxRetries : ℕ) (attempts : ℕ → Except Exc α) (attempt left : ℕ) :
    0 < attemptsMade maxRetries attempts attempt (left + 1) := by
  rw [attemptsMade]
  split
  · exact Nat.one_pos
  · split_ifs
    · exact Nat.succ_pos _
    · exact Nat.one_pos

theorem mem_visitCalls {target : ProviderTarget} {trial : Trial α} {breaker : CircuitBreaker}
    {call : RoutedCall} :
    call ∈ visitCalls providers cfg maxRetries req target trial breaker ↔
      (breaker.isOpen cfg trial.askedAt target.circuitKey).1 = false ∧
        (∃ attempts, trial.provider = .ok attempts) ∧
        call = ⟨target, target.provider, (providers.provider target).payloadModel req⟩ := by
  unfold visitCalls
  split_ifs with hopen
  · simp [hopen]
  · rw [Bool.not_eq_true] at hopen
    cases hprovider : trial.provider with
    | error e => simp
    | ok attempts =>
      have hpos := attemptsMade_pos maxRetries attempts 0 maxRetries
      simp [List.mem_replicate, hopen, hpos.ne']

/-- Every call is made for one of the targets, as the request and the configuration say. -/
theorem mem_targetCalls {i : ℕ} {breaker : CircuitBreaker} {targets : List ProviderTarget}
    {call : RoutedCall}
    (h : call ∈ targetCalls providers cfg maxRetries req trials i breaker targets) :
    ∃ target ∈ targets,
      call = ⟨target, target.provider, (providers.provider target).payloadModel req⟩ := by
  induction targets generalizing i breaker with
  | nil => cases h
  | cons target targets ih =>
    rw [targetCalls] at h
    rcases List.mem_append.mp h with h | h
    · exact ⟨target, List.mem_cons_self, (mem_visitCalls.mp h).2.2⟩
    · split at h
      · obtain ⟨t, ht, hcall⟩ := ih h
        exact ⟨t, List.mem_cons_of_mem target ht, hcall⟩
      · cases h

/-- The target that answers has been called. -/
theorem exists_call_of_answered (providers : ProviderConfigs) (req : ChatRequest) {failure : Exc}
    {i : ℕ} {breaker : CircuitBreaker} {targets : List ProviderTarget} {target : ProviderTarget}
    {a : α}
    (h : (tryTargets cfg maxRetries trials failure i breaker targets).result = .ok (target, a)) :
    ∃ call ∈ targetCalls providers cfg maxRetries req trials i breaker targets,
      call.target = target := by
  induction targets generalizing i breaker with
  | nil => cases h
  | cons first targets ih =>
    rw [tryTargets] at h
    rw [targetCalls]
    split at h
    · cases h
    · rename_i b breaker' hvisit
      cases h
      have hanswers : (visit cfg maxRetries target (trials i) breaker).1.answers = true := by
        rw [hvisit]
        rfl
      obtain ⟨hclosed, attempts, hprovider, _⟩ := visit_answers_iff.mp hanswers
      exact ⟨_, List.mem_append_left _ (mem_visitCalls.mpr ⟨hclosed, ⟨attempts, hprovider⟩, rfl⟩),
        rfl⟩
    · rename_i breaker' hvisit
      obtain ⟨call, hcall, htarget⟩ := ih h
      rw [hvisit]
      exact ⟨call, List.mem_append_right _ hcall, htarget⟩
    · cases h

end Calls

/-! ## Every target can be called -/

section Failing

variable {α : Type} {cfg : CircuitConfig} {maxRetries : ℕ}

def rateLimited : Exc where
  cls := .rateLimit
  code := 1004
  message := "provider rate limited"

/-- Every attempt fails, and the targets are tried so far apart in time that no circuit that the
failures have opened lets a later one fail fast. -/
def failingTrials (cfg : CircuitConfig) (i : ℕ) : Trial α where
  askedAt := i * cfg.openS
  endedAt := i * cfg.openS
  provider := .ok fun _ => .error rateLimited

theorem attemptsFrom_rateLimited (attempt left : ℕ) :
    attemptsFrom (α := α) maxRetries (fun _ => .error rateLimited) attempt left = .exhausted := by
  induction left generalizing attempt with
  | zero => rfl
  | succ left ih =>
    have hkind : rateLimited.cls ≠ .structuredParse ∧ rateLimited.isProviderFailure = true ∧
        (rateLimited.isLLMError && !rateLimited.retryable) = false := by decide
    simp only [attemptsFrom, if_neg hkind.1, hkind.2.1, if_true, hkind.2.2, Bool.false_eq_true,
      if_false, ih, ite_self]

/-- Every open circuit has been open long enough at `now`. -/
def Rested (cfg : CircuitConfig) (now : ℚ) (breaker : CircuitBreaker) : Prop :=
  ∀ key, (breaker key).state = .opened → (breaker key).openedAt + cfg.openS ≤ now

theorem isOpen_of_rested {now : ℚ} {breaker : CircuitBreaker} (h : Rested cfg now breaker)
    (key : String × String) :
    (breaker.isOpen cfg now key).1 = false ∧ ((breaker key).isOpen cfg now).2.state ≠ .opened := by
  unfold CircuitBreaker.isOpen KeyCircuit.isOpen
  dsimp only
  cases hstate : (breaker key).state with
  | opened =>
    have hlong := h key hstate
    rw [if_pos (by linarith)]
    exact ⟨rfl, by simp⟩
  | closed | halfOpen => exact ⟨rfl, by simp [hstate]⟩

theorem visit_failingTrials (maxRetries : ℕ) (target : ProviderTarget) {i : ℕ}
    {breaker : CircuitBreaker}
    (h : Rested cfg (i * cfg.openS) breaker) :
    ∃ breaker', visit cfg maxRetries target (failingTrials (α := α) cfg i) breaker =
        (.failed, breaker') ∧ Rested cfg ((i + 1 : ℕ) * cfg.openS) breaker' := by
  obtain ⟨hpass, hstate⟩ := isOpen_of_rested h target.circuitKey
  refine ⟨(breaker.isOpen cfg (i * cfg.openS) target.circuitKey).2.recordFailure cfg
    (i * cfg.openS) target.circuitKey, ?_, fun key hopened => ?_⟩
  · simp only [visit, failingTrials, hpass, callWithRetry, attemptsFrom_rateLimited]
    rfl
  · have hpos := cfg.open_pos
    push_cast
    unfold CircuitBreaker.recordFailure at hopened ⊢
    rw [Function.update_apply] at hopened ⊢
    split_ifs at hopened ⊢ with hkey
    · subst hkey
      unfold CircuitBreaker.isOpen at hopened ⊢
      dsimp only at hopened ⊢
      rw [Function.update_self] at hopened ⊢
      cases htrips : KeyCircuit.windowTrips cfg
          (((breaker target.circuitKey).isOpen cfg (i * cfg.openS)).2.failureWindow cfg
            (i * cfg.openS)) with
      | true =>
        rw [(KeyCircuit.recordFailure_of_trips htrips).2]
        linarith
      | false =>
        rw [(KeyCircuit.recordFailure_of_not_trips htrips).1] at hopened
        exact absurd hopened hstate
    · unfold CircuitBreaker.isOpen at hopened ⊢
      dsimp only at hopened ⊢
      rw [Function.update_of_ne hkey] at hopened ⊢
      have hlong := h key hopened
      linarith

/-- Where every target fails, every target is called. -/
theorem exists_call_of_failing {providers : ProviderConfigs} {req : ChatRequest} {i : ℕ}
    {breaker : CircuitBreaker} {targets : List ProviderTarget}
    (h : Rested cfg (i * cfg.openS) breaker) {target : ProviderTarget} (ht : target ∈ targets) :
    (⟨target, target.provider, (providers.provider target).payloadModel req⟩ : RoutedCall) ∈
      targetCalls providers cfg maxRetries req (failingTrials (α := α) cfg) i breaker targets := by
  induction targets generalizing i breaker with
  | nil => cases ht
  | cons first targets ih =>
    obtain ⟨breaker', hvisit, hrested⟩ := visit_failingTrials (α := α) maxRetries first h
    rw [targetCalls, hvisit]
    rcases List.mem_cons.mp ht with rfl | ht
    · exact List.mem_append_left _ (mem_visitCalls.mpr
        ⟨(isOpen_of_rested h target.circuitKey).1, ⟨_, rfl⟩, rfl⟩)
    · exact List.mem_append_right _ (ih hrested ht)

end Failing

/-! ## What a strategy offers -/

namespace RoleConfig

variable {config : LLMRouterConfig} {role : RoleConfig} {now : ℚ} {uniform : ℚ → ℚ}

theorem weightedOrder_perm {pool : List ProviderTarget} :
    (role.weightedOrder uniform pool).Perm pool := by
  unfold weightedOrder
  dsimp only
  split_ifs
  · exact List.Perm.refl pool
  · split
    · rename_i i _
      by_cases hi : i < pool.length
      · rw [List.getElem?_eq_getElem hi, Option.toList_some, List.singleton_append]
        exact List.getElem_cons_eraseIdx_perm hi
      · rw [List.getElem?_eq_none (not_lt.mp hi), Option.toList_none, List.nil_append,
          List.eraseIdx_of_length_le (not_lt.mp hi)]
    · exact List.Perm.refl pool

theorem mem_weightedOrder {pool : List ProviderTarget} {target : ProviderTarget} :
    target ∈ role.weightedOrder uniform pool ↔ target ∈ pool :=
  weightedOrder_perm.mem_iff

theorem mem_leastCostOrder {pool : List ProviderTarget} {target : ProviderTarget} :
    target ∈ leastCostOrder config pool ↔ target ∈ pool :=
  List.mem_insertionSort _

theorem askAll_subset (cfg : CircuitConfig) {breaker : CircuitBreaker}
    {targets : List ProviderTarget} {target : ProviderTarget}
    (h : target ∈ (askAll cfg now targets breaker).1) : target ∈ targets := by
  induction targets generalizing breaker with
  | nil => exact h
  | cons first targets ih =>
    rw [askAll] at h
    dsimp only at h
    split_ifs at h
    · exact List.mem_cons_of_mem first (ih h)
    · rcases List.mem_cons.mp h with rfl | h
      · exact List.mem_cons_self
      · exact List.mem_cons_of_mem first (ih h)

/-- Circuits that have never been used let every candidate through. -/
theorem askAll_unused (cfg : CircuitConfig) (targets : List ProviderTarget) :
    askAll cfg now targets (fun _ => {}) = (targets, fun _ => {}) := by
  have hask (key : String × String) :
      CircuitBreaker.isOpen cfg now key (fun _ => {}) = (false, fun _ => {}) :=
    Prod.ext rfl (Function.update_eq_self key _)
  induction targets with
  | nil => rfl
  | cons target targets ih =>
    rw [askAll, hask]
    dsimp only
    rw [ih]
    rfl

theorem mem_offered_of_mem_targets {breaker : CircuitBreaker} {target : ProviderTarget}
    (h : target ∈ (role.targets config now uniform breaker).1) : target ∈ role.offered := by
  unfold targets at h
  unfold offered
  cases hstrategy : role.strategy with
  | priority =>
    rw [hstrategy] at h
    exact h
  | weighted =>
    rw [hstrategy] at h
    exact askAll_subset config.circuit (mem_weightedOrder.mp h)
  | leastCost =>
    rw [hstrategy] at h
    exact askAll_subset config.circuit (mem_leastCostOrder.mp h)

theorem targets_unused (config : LLMRouterConfig) (now : ℚ) (uniform : ℚ → ℚ)
    {target : ProviderTarget} (h : target ∈ role.offered) :
    target ∈ (role.targets config now uniform fun _ => {}).1 ∧
      (role.targets config now uniform fun _ => {}).2 = fun _ => {} := by
  unfold offered at h
  unfold targets
  cases hstrategy : role.strategy with
  | priority =>
    rw [hstrategy] at h
    exact ⟨h, rfl⟩
  | weighted =>
    rw [hstrategy] at h
    dsimp only
    rw [askAll_unused]
    exact ⟨mem_weightedOrder.mpr h, rfl⟩
  | leastCost =>
    rw [hstrategy] at h
    dsimp only
    rw [askAll_unused]
    exact ⟨mem_leastCostOrder.mpr h, rfl⟩

end RoleConfig

/-! ## The main result -/

namespace ResilientRouter

variable {α : Type} {providers : ProviderConfigs} {router : ResilientRouter} {st : RouterState}
  {req : ChatRequest} {role : RoleConfig}

theorem mem_routeCalls {enc : Encounter α} {call : RoutedCall}
    (h : call ∈ router.routeCalls providers st enc req role) :
    ∃ target ∈ role.offered,
      call = ⟨target, target.provider, (providers.provider target).payloadModel req⟩ := by
  obtain ⟨target, htarget, hcall⟩ := mem_targetCalls h
  exact ⟨target, RoleConfig.mem_offered_of_mem_targets htarget, hcall⟩

/-- Where the providers' own models are those of the targets, each call asks for its target's. -/
theorem asksTarget_of_mem_routeCalls (hmodel : req.model.getD "" = "")
    (hown : ∀ target ∈ role.offered, target.model = (providers.provider target).defaultModel)
    {enc : Encounter α} {call : RoutedCall}
    (h : call ∈ router.routeCalls providers st enc req role) : AsksTarget call := by
  obtain ⟨target, htarget, rfl⟩ := mem_routeCalls h
  have hpayload : (providers.provider target).payloadModel req = target.model := by
    rw [OpenAICompatibleLLM.payloadModel, hmodel, hown target htarget]
    rfl
  exact congrArg (Prod.mk target.provider) hpayload.symm

theorem computeCost_snd (config : LLMRouterConfig) (usage usage' : TokenUsage)
    (target : ProviderTarget) :
    (computeCost config usage target).2 = (computeCost config usage' target).2 := by
  unfold computeCost
  split
  · rfl
  · split_ifs <;> rfl

theorem chatAsksTargets_of_own (hrole : router.config.roles req.role = some role)
    (hmodel : req.model.getD "" = "")
    (hown : ∀ target ∈ role.offered, target.model = (providers.provider target).defaultModel)
    (enc : Encounter ChatResponse) : router.ChatAsksTargets providers st enc req := by
  have hcalls (call : RoutedCall) (h : call ∈ router.routeCalls providers st enc req role) :
      AsksTarget call := asksTarget_of_mem_routeCalls hmodel hown h
  unfold ChatAsksTargets chatCalls chat
  rw [hrole]
  dsimp only
  cases router.cachedAnswer enc req with
  | some text => exact ⟨fun _ h => absurd h List.not_mem_nil, by simp⟩
  | none =>
    cases router.checkBudget st enc req with
    | error e => exact ⟨fun _ h => absurd h List.not_mem_nil, by simp⟩
    | ok _ =>
      refine ⟨hcalls, fun record hrecord => ?_⟩
      dsimp only at hrecord ⊢
      cases hresult : (router.route st enc req role).result with
      | error e =>
        rw [hresult] at hrecord
        simp at hrecord
      | ok answer =>
        obtain ⟨target, resp⟩ := answer
        rw [hresult] at hrecord
        dsimp only at hrecord
        rw [List.drop_left] at hrecord
        obtain rfl := List.mem_singleton.mp hrecord
        obtain ⟨call, hcall, htarget⟩ := exists_call_of_answered providers req hresult
        have hasks : (target.provider, target.model) = (call.provider, call.model) :=
          htarget ▸ hcalls call hcall
        obtain ⟨hprovider, hcalled⟩ := Prod.mk.inj hasks
        refine ⟨call, hcall, hprovider, hcalled, ?_⟩
        rw [← hprovider, ← hcalled]
        exact computeCost_snd router.config _ _ target

theorem structuredAsksTargets_of_own (hrole : router.config.roles req.role = some role)
    (hmodel : req.model.getD "" = "")
    (hown : ∀ target ∈ role.offered, target.model = (providers.provider target).defaultModel)
    (enc : Encounter α) : router.StructuredAsksTargets providers st enc req := by
  unfold StructuredAsksTargets structuredCalls
  rw [hrole]
  dsimp only
  cases router.checkBudget st enc req with
  | error e => exact fun _ h => absurd h List.not_mem_nil
  | ok _ => exact fun call h => asksTarget_of_mem_routeCalls hmodel hown h

/-- A fresh router calls every target of a role that its strategy offers, if all of them fail. -/
theorem exists_chatCall (router : ResilientRouter) (providers : ProviderConfigs)
    (req : ChatRequest) (hrole : router.config.roles req.role = some role)
    (hcache : router.cacheWired = false) (hcaps : router.budgetCaps req.kbId = none)
    {target : ProviderTarget} (ht : target ∈ role.offered) :
    (⟨target, target.provider, (providers.provider target).payloadModel req⟩ : RoutedCall) ∈
      router.chatCalls providers {} { now := 0, trials := failingTrials router.config.circuit }
        req := by
  obtain ⟨hmem, hunused⟩ := RoleConfig.targets_unused router.config 0 id ht
  have hcached : router.cachedAnswer
      { now := 0, trials := failingTrials (α := ChatResponse) router.config.circuit } req =
      none := by
    simp [cachedAnswer, usesCache, hcache]
  have hbudget : router.checkBudget {}
      { now := 0, trials := failingTrials (α := ChatResponse) router.config.circuit } req =
      .ok () := by
    rw [checkBudget, hcaps]
  unfold chatCalls
  rw [hrole]
  dsimp only
  rw [hcached, hbudget]
  refine exists_call_of_failing (fun key hopened => ?_) hmem
  dsimp only at hopened
  rw [hunused] at hopened
  cases hopened

/-- A provider that by itself has the model of the only target. -/
def oneModel : RoleConfig where
  primary := ⟨"openai", "gpt-4o-mini"⟩

example : ∀ target ∈ oneModel.offered,
    target.model = (ProviderConfigs.provider .empty target).defaultModel := by
  decide

end ResilientRouter

end Ragx
