import Ragx.ModelRouter

/-!
# The daily budget over a run

Chat and structured calls and restarts of the process, with the bill that the
providers keep: every answered call with its cost, and whether the running process has
a record of it. The gate is right for as long as the cost on record and
the cost of the day lie on the same side of the cap.
-/
namespace Ragx

/-- A provider call on the bill; `recorded` while the process that made it keeps a
record of its cost. -/
structure ProviderCall where
  kbId : String
  time : ℚ
  costUsd : ℚ
  recorded : Bool

/-- The UTC day of an instant given in seconds. -/
def utcDay (time : ℚ) : ℤ := ⌊time / 86400⌋

def spentOn (kbId : String) (day : ℤ) (bill : List ProviderCall) : ℚ :=
  ((bill.filter fun call => call.kbId = kbId && utcDay call.time = day).map (·.costUsd)).sum

def carried (kbId : String) (bill : List ProviderCall) : ℚ :=
  ((bill.filter fun call => call.kbId = kbId && call.recorded).map (·.costUsd)).sum

/-- A structured answer with the usage that the provider metered for it. -/
structure StructuredAnswer where
  value : Json
  usage : TokenUsage

inductive RouterEvent where
  | chat (enc : Encounter ChatResponse) (req : ChatRequest)
  | structured (enc : Encounter StructuredAnswer) (req : ChatRequest)
  | restart

structure RouterRun where
  clock : ℚ := 0
  state : RouterState := {}
  bill : List ProviderCall := []

namespace RouterRun

/-- The bill for an answered call. -/
def billed {α : Type} (out : CallOutcome α) (call : ProviderTarget → α → ProviderCall) :
    List ProviderCall :=
  match out.result, out.answeredBy with
  | .ok a, some target => [call target a]
  | _, _ => []

/-- Time never goes back; a restart forgets what the process had in memory. -/
def step (router : ResilientRouter) (w : RouterRun) : RouterEvent → Option RouterRun
  | .chat enc req =>
    if enc.now < w.clock then none
    else
      let out := router.chat w.state enc req
      some {
        clock := enc.now
        state := out.state
        bill := w.bill ++ billed out fun target resp =>
          let usage := collectUsage router.countTokens resp req.messagesText
          ⟨req.kbId, enc.now, (computeCost router.config usage target).1, true⟩ }
  | .structured enc req =>
    if enc.now < w.clock then none
    else
      let out := router.structured w.state enc req
      some {
        clock := enc.now
        state := out.state
        bill := w.bill ++ billed out fun target answer =>
          ⟨req.kbId, enc.now, (computeCost router.config answer.usage target).1, false⟩ }
  | .restart =>
    some { w with
      state := {}
      bill := w.bill.map fun call => { call with recorded := false } }

def refused {α : Type} (out : CallOutcome α) : Bool :=
  match out.result with
  | .error e => e.cls = .rateLimit && e.code = 1004
  | .ok _ => false

/-- At the cap no target is tried, and below it nothing is refused. -/
def CapKept {α : Type} (router : ResilientRouter) (w : RouterRun) (req : ChatRequest) (now : ℚ)
    (out : CallOutcome α) : Prop :=
  ∀ cap ∈ router.budgetCaps req.kbId,
    (cap ≤ spentOn req.kbId (utcDay now) w.bill → out.tried = []) ∧
      (refused out = true → cap ≤ spentOn req.kbId (utcDay now) w.bill)

def DailyCapKept (router : ResilientRouter) (w : RouterRun) (e : RouterEvent) (_ : RouterRun) :
    Prop :=
  match e with
  | .chat enc req => CapKept router w req enc.now (router.chat w.state enc req)
  | .structured enc req => CapKept router w req enc.now (router.structured w.state enc req)
  | .restart => True

/-- What this process has recorded for the knowledge base and what it cost today lie on
the same side of the cap, up to the cache answers that pass the gate. -/
def MeterAgrees {α : Type} (router : ResilientRouter) (w : RouterRun) (enc : Encounter α)
    (req : ChatRequest) : Prop :=
  ∀ cap ∈ router.budgetCaps req.kbId,
    if cap ≤ spentOn req.kbId (utcDay enc.now) w.bill then
      cap ≤ carried req.kbId w.bill ∧ router.gateBypass enc req = false
    else carried req.kbId w.bill < cap ∨ router.gateBypass enc req = true

def DailyMeterAgrees (router : ResilientRouter) (w : RouterRun) (e : RouterEvent)
    (_ : RouterRun) : Prop :=
  match e with
  | .chat enc req => router.cachedAnswer enc req = none → MeterAgrees router w enc req
  | .structured enc req => MeterAgrees router w enc req
  | .restart => True

/-- The records of the process are the recorded part of the bill. -/
def Metered (w : RouterRun) : Prop :=
  ∀ kbId, ResilientRouter.sumDailyCost w.state kbId = carried kbId w.bill

/-! ## What one call can do -/

theorem not_rateLimit_of_tryTargets {α : Type} {cfg : CircuitConfig} {maxRetries : ℕ}
    {trials : ℕ → Trial α} {failure : Exc} {i : ℕ} {breaker : CircuitBreaker}
    {targets : List ProviderTarget} {e : Exc} (hf : failure.cls ≠ .rateLimit)
    (h : (tryTargets cfg maxRetries trials failure i breaker targets).result = .error e) :
    e.cls ≠ .rateLimit := by
  induction targets generalizing i breaker with
  | nil =>
    cases h
    exact hf
  | cons target targets ih =>
    obtain ⟨v, breaker', hv⟩ : ∃ v breaker', visit cfg maxRetries target (trials i) breaker =
        (v, breaker') := ⟨_, _, rfl⟩
    rw [tryTargets, hv] at h
    cases v with
    | fastFail =>
      cases h
      intro hcls
      cases hcls
    | answered a => cases h
    | failed => exact ih h
    | escaped e' =>
      cases h
      exact fun hcls => not_caught_of_escaped hv (by simp [Exc.isCaught, hcls])

/-- Nothing refuses a call but the budget gate. -/
theorem not_rateLimit_of_route {α : Type} {router : ResilientRouter} {st : RouterState}
    {enc : Encounter α} {req : ChatRequest} {role : RoleConfig} {e : Exc}
    (h : (router.route st enc req role).result = .error e) : e.cls ≠ .rateLimit :=
  not_rateLimit_of_tryTargets (fun hcls => by cases hcls) h

/-- A call that stays in front of the targets, or is turned away at the gate. -/
structure Kept {α : Type} (st : RouterState) (out : CallOutcome α) : Prop where
  tried : out.tried = []
  records : out.state.costRecords = st.costRecords
  unanswered : out.answeredBy = none

/-- What a call can do: it is settled before the gate, refused by the gate, or passes the
gate and then adds the record of its answer if `recordOf` has one. -/
def CallCases {α : Type} (router : ResilientRouter) (st : RouterState) (enc : Encounter α)
    (req : ChatRequest) (recordOf : ProviderTarget → α → List CostRecord)
    (out : CallOutcome α) : Prop :=
  (Kept st out ∧ ¬ refused out = true) ∨
    ((∃ e, router.checkBudget st enc req = .error e) ∧ Kept st out) ∨
    (router.checkBudget st enc req = .ok () ∧ ¬ refused out = true ∧
      ((out.state.costRecords = st.costRecords ∧ out.answeredBy = none) ∨
        ∃ target a, out.result = .ok a ∧ out.answeredBy = some target ∧
          out.state.costRecords = st.costRecords ++ recordOf target a))

theorem not_refused_of_cls {α : Type} {out : CallOutcome α} {e : Exc}
    (he : out.result = .error e) (hcls : e.cls ≠ .rateLimit) : ¬ refused out = true := by
  unfold refused
  rw [he]
  simp [hcls]

theorem not_refused_of_ok {α : Type} {out : CallOutcome α} {a : α} (ha : out.result = .ok a) :
    ¬ refused out = true := by
  unfold refused
  rw [ha]
  exact Bool.false_ne_true

theorem chat_cases (router : ResilientRouter) (st : RouterState) (enc : Encounter ChatResponse)
    (req : ChatRequest) :
    CallCases router st enc req (fun target resp => [router.account enc.now req target resp])
      (router.chat st enc req) := by
  unfold ResilientRouter.chat
  split
  · exact Or.inl ⟨⟨rfl, rfl, rfl⟩, not_refused_of_cls rfl (by simp [noRoleError])⟩
  · split
    · exact Or.inl ⟨⟨rfl, rfl, rfl⟩, not_refused_of_ok rfl⟩
    · split
      · exact Or.inr (Or.inl ⟨⟨_, by assumption⟩, rfl, rfl, rfl⟩)
      · refine Or.inr (Or.inr ⟨by assumption, ?_⟩)
        dsimp only
        split
        · rename_i e herror
          exact ⟨not_refused_of_cls rfl (not_rateLimit_of_route herror), Or.inl ⟨rfl, rfl⟩⟩
        · exact ⟨not_refused_of_ok rfl, Or.inr ⟨_, _, rfl, rfl, rfl⟩⟩

theorem chat_of_cached {router : ResilientRouter} (st : RouterState)
    {enc : Encounter ChatResponse} {req : ChatRequest} {text : String}
    (h : router.cachedAnswer enc req = some text) :
    (router.chat st enc req).tried = [] ∧ ¬ refused (router.chat st enc req) = true := by
  rw [ResilientRouter.chat]
  split
  · exact ⟨rfl, not_refused_of_cls rfl (by simp [noRoleError])⟩
  · rw [h]
    exact ⟨rfl, not_refused_of_ok rfl⟩

theorem structured_cases (router : ResilientRouter) (st : RouterState)
    (enc : Encounter StructuredAnswer) (req : ChatRequest) :
    CallCases router st enc req (fun _ _ => []) (router.structured st enc req) := by
  unfold ResilientRouter.structured
  split
  · exact Or.inl ⟨⟨rfl, rfl, rfl⟩, not_refused_of_cls rfl (by simp [noRoleError])⟩
  · rename_i role _
    split
    · exact Or.inr (Or.inl ⟨⟨_, by assumption⟩, rfl, rfl, rfl⟩)
    · refine Or.inr (Or.inr ⟨by assumption, ?_⟩)
      dsimp only
      cases hr : (router.route st enc req role).result with
      | error e =>
        exact ⟨not_refused_of_cls rfl (not_rateLimit_of_route hr), Or.inl ⟨rfl, rfl⟩⟩
      | ok answer =>
        exact ⟨not_refused_of_ok rfl,
          Or.inr ⟨answer.1, answer.2, rfl, rfl, (List.append_nil _).symm⟩⟩

/-! ## The gate -/

/-- The gate passes a capped call below the cap on record, or on a cached answer. -/
theorem checkBudget_eq_ok_iff {α : Type} {router : ResilientRouter} (st : RouterState)
    (enc : Encounter α) {req : ChatRequest} {cap : ℚ}
    (hc : router.budgetCaps req.kbId = some cap) :
    router.checkBudget st enc req = .ok () ↔
      ResilientRouter.sumDailyCost st req.kbId < cap ∨ router.gateBypass enc req = true := by
  simp only [ResilientRouter.checkBudget, hc]
  split_ifs with hsum hbypass <;> simp_all

theorem capKept_of_meterAgrees {α : Type} {router : ResilientRouter} {w : RouterRun}
    {enc : Encounter α} {req : ChatRequest} {out : CallOutcome α}
    {recordOf : ProviderTarget → α → List CostRecord} (hw : Metered w)
    (hout : CallCases router w.state enc req recordOf out)
    (hm : MeterAgrees router w enc req) : CapKept router w req enc.now out := by
  intro cap hcap
  have hgate := checkBudget_eq_ok_iff w.state enc hcap
  have hmeter := hm cap hcap
  rw [hw] at hgate
  rcases hout with ⟨hkept, hnot⟩ | ⟨⟨e, he⟩, hkept⟩ | ⟨hok, hnot, _⟩
  · exact ⟨fun _ => hkept.tried, fun h => absurd h hnot⟩
  · refine ⟨fun _ => hkept.tried, fun _ => ?_⟩
    by_contra hlt
    rw [if_neg hlt, ← hgate, he] at hmeter
    cases hmeter
  · refine ⟨fun hle => ?_, fun h => absurd h hnot⟩
    rw [if_pos hle] at hmeter
    rcases hgate.mp hok with hlt | hbypass
    · exact absurd hmeter.1 (not_le.mpr hlt)
    · rw [hmeter.2] at hbypass
      cases hbypass

/-! ## The run -/

theorem sumDailyCost_append (st : RouterState) (circuit : CircuitBreaker)
    (records : List CostRecord) (kbId : String) :
    ResilientRouter.sumDailyCost ⟨circuit, st.costRecords ++ records⟩ kbId =
      ResilientRouter.sumDailyCost st kbId +
        ((records.filter (·.kbId = kbId)).map (·.costUsd)).sum := by
  simp [ResilientRouter.sumDailyCost]

theorem carried_append (kbId : String) (bill calls : List ProviderCall) :
    carried kbId (bill ++ calls) = carried kbId bill + carried kbId calls := by
  simp [carried]

/-- A call keeps the records in step with the bill if the two take down the same cost. -/
theorem metered_call {α : Type} {router : ResilientRouter} {w w' : RouterRun}
    {enc : Encounter α} {req : ChatRequest} {out : CallOutcome α}
    {recordOf : ProviderTarget → α → List CostRecord} {call : ProviderTarget → α → ProviderCall}
    (hw : Metered w) (hout : CallCases router w.state enc req recordOf out)
    (hsame : ∀ target a kbId,
      (((recordOf target a).filter (·.kbId = kbId)).map (·.costUsd)).sum =
        carried kbId [call target a])
    (hstate : w'.state = out.state) (hbill : w'.bill = w.bill ++ billed out call) :
    Metered w' := by
  have hquiet (hrec : out.state.costRecords = w.state.costRecords)
      (hnone : out.answeredBy = none) : Metered w' := by
    intro kbId
    have hb : billed out call = [] := by
      unfold billed
      rw [hnone]
      cases out.result <;> rfl
    rw [hstate, hbill, hb, List.append_nil, ← hw kbId]
    simp [ResilientRouter.sumDailyCost, hrec]
  rcases hout with ⟨hkept, _⟩ | ⟨_, hkept⟩ | ⟨_, _, hrest⟩
  · exact hquiet hkept.records hkept.unanswered
  · exact hquiet hkept.records hkept.unanswered
  · rcases hrest with ⟨hrec, hnone⟩ | ⟨target, a, ha, hby, hrec⟩
    · exact hquiet hrec hnone
    · intro kbId
      have hb : billed out call = [call target a] := by simp [billed, ha, hby]
      have hadd := sumDailyCost_append w.state out.state.circuit (recordOf target a) kbId
      rw [hstate, hbill, hb, carried_append, ← hsame, ← hw kbId, ← hadd, ← hrec]

theorem metered_restart {w w' : RouterRun} (hstate : w'.state = {})
    (hbill : w'.bill = w.bill.map fun call => { call with recorded := false }) :
    Metered w' := by
  intro kbId
  have hnone : (w'.bill.filter fun call => call.kbId = kbId && call.recorded) = [] := by
    rw [hbill, List.filter_map]
    simp [Function.comp_def]
  rw [hstate, carried, hnone]
  rfl

theorem dailyCapKept_step {router : ResilientRouter} {w w' : RouterRun} {e : RouterEvent}
    (hw : Metered w) (hs : w.step router e = some w') (hm : DailyMeterAgrees router w e w') :
    DailyCapKept router w e w' ∧ Metered w' := by
  cases e with
  | chat enc req =>
    have hcases := chat_cases router w.state enc req
    simp only [step] at hs
    split_ifs at hs
    cases hs
    refine ⟨?_, metered_call hw hcases (fun target resp kbId => ?_) rfl rfl⟩
    · cases hcached : router.cachedAnswer enc req with
      | none => exact capKept_of_meterAgrees hw hcases (hm hcached)
      | some text =>
        obtain ⟨htried, hnot⟩ := chat_of_cached w.state hcached
        exact fun cap _ => ⟨fun _ => htried, fun h => absurd h hnot⟩
    · by_cases hkb : req.kbId = kbId <;> simp [carried, ResilientRouter.account, hkb]
  | structured enc req =>
    have hcases := structured_cases router w.state enc req
    simp only [step] at hs
    split_ifs at hs
    cases hs
    exact ⟨capKept_of_meterAgrees hw hcases hm,
      metered_call hw hcases (fun target resp kbId => by simp [carried]) rfl rfl⟩
  | restart =>
    cases hs
    exact ⟨trivial, metered_restart rfl rfl⟩

/-- In a run whose meter agrees before every call, no call is made past the daily cap
and none is refused below it. -/
theorem dailyCapKept_of_meterAgrees {router : ResilientRouter} {events : List RouterEvent}
    (h : EveryStep (step router) (DailyMeterAgrees router) {} events) :
    EveryStep (step router) (DailyCapKept router) {} events :=
  EveryStep.of_invariant (I := Metered) (fun _ _ _ => dailyCapKept_step) (fun _ => rfl) h

instance (router : ResilientRouter) (w : RouterRun) (e : RouterEvent) (w' : RouterRun) :
    Decidable (DailyCapKept router w e w') :=
  match e with
  | .chat _ req => inferInstanceAs (Decidable (∀ cap ∈ router.budgetCaps req.kbId, _ ∧ _))
  | .structured _ req => inferInstanceAs (Decidable (∀ cap ∈ router.budgetCaps req.kbId, _ ∧ _))
  | .restart => isTrue trivial

instance {α : Type} (router : ResilientRouter) (w : RouterRun) (enc : Encounter α)
    (req : ChatRequest) : Decidable (MeterAgrees router w enc req) :=
  inferInstanceAs (Decidable (∀ cap ∈ router.budgetCaps req.kbId, ite _ _ _))

instance (router : ResilientRouter) (w : RouterRun) (e : RouterEvent) (w' : RouterRun) :
    Decidable (DailyMeterAgrees router w e w') :=
  match e with
  | .chat enc req =>
    inferInstanceAs (Decidable (router.cachedAnswer enc req = none → MeterAgrees router w enc req))
  | .structured enc req => inferInstanceAs (Decidable (MeterAgrees router w enc req))
  | .restart => isTrue trivial

/-- One model at 60 USD for a thousand prompt tokens, under the default cap. -/
def cappedRouter : ResilientRouter where
  config := {
    roles := fun _ => some ResilientRouter.twoTargets
    pricing := .ofList [("openai/large", .ofList [("prompt_per_1k", 60)])] }
  budgetCaps := fun kbId => if kbId = "default" then some 50 else none
  countTokens := String.length

def thousandTokens (now : ℚ) : Encounter ChatResponse where
  now := now
  trials := fun _ => {
    provider := .ok fun _ =>
      .ok { text := "answer", usage := { promptTokens := 1000, total := 1000 } } }

theorem dailyCapKept_sameDay :
    EveryStep (step cappedRouter) (DailyCapKept cappedRouter) {}
      [.chat (thousandTokens 0) {}, .chat (thousandTokens 60) {}] :=
  dailyCapKept_of_meterAgrees (by decide +kernel)

/-- The cost of the first day still counts on the second. -/
theorem nextDay_not_capKept :
    ¬ EveryStep (step cappedRouter) (DailyCapKept cappedRouter) {}
      [.chat (thousandTokens 0) {}, .chat (thousandTokens 86400) {}] := by
  decide +kernel

end RouterRun

end Ragx
