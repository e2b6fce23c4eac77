import Ragx.QueryService

/-!
# Overrides of the budgets

A request may replace two of the three budgets of a knowledge base, and any other key should be
refused. Only the three budgets are looked for, so a key that is none of them is passed over and
the third budget can be replaced as well.
-/
namespace Ragx

/-- How the settings models read numbers: a number stands for itself. -/
structure NumberReader where
  int? : Json → Option ℤ
  float? : Json → Option ℚ
  int?_num : ∀ n : ℤ, int? (.num n) = some n
  float?_num : ∀ q : ℚ, float? (.num q) = some q

namespace BudgetConfig

def modelFields : List String :=
  ["context_token_budget", "agentic_token_budget", "daily_cost_limit_usd"]

def modelDump (b : BudgetConfig) : OrderedDict String Json :=
  .ofList [("context_token_budget", .num b.contextTokenBudget),
    ("agentic_token_budget", .num b.agenticTokenBudget),
    ("daily_cost_limit_usd", .num b.dailyCostLimitUsd)]

def validationError : Exc := .foreign "validation error for BudgetConfig"

def InBounds (context agentic : ℤ) (daily : ℚ) : Prop :=
  128 ≤ context ∧ 1024 ≤ agentic ∧ 0 ≤ daily

instance (context agentic : ℤ) (daily : ℚ) : Decidable (InBounds context agentic daily) :=
  inferInstanceAs (Decidable (_ ∧ _))

section InBounds

variable {context agentic : ℤ} {daily : ℚ}

theorem InBounds.context_ge (h : InBounds context agentic daily) : 128 ≤ context.toNat :=
  (Int.le_toNat (le_trans (by decide) h.1)).mpr h.1

theorem InBounds.agentic_ge (h : InBounds context agentic daily) : 1024 ≤ agentic.toNat :=
  (Int.le_toNat (le_trans (by decide) h.2.1)).mpr h.2.1

theorem InBounds.daily_nonneg (h : InBounds context agentic daily) : 0 ≤ daily := h.2.2

end InBounds

/-- The constructor: a missing field has its default, and every bound is checked. -/
def ofValues (reader : NumberReader) (values : OrderedDict String Json) :
    Except Exc BudgetConfig :=
  match reader.int? (values.getD "context_token_budget" (.num 4096)),
    reader.int? (values.getD "agentic_token_budget" (.num 100000)),
    reader.float? (values.getD "daily_cost_limit_usd" (.num 50)) with
  | some context, some agentic, some daily =>
    if h : InBounds context agentic daily then
      .ok
        { contextTokenBudget := context.toNat
          agenticTokenBudget := agentic.toNat
          dailyCostLimitUsd := daily
          context_ge := h.context_ge
          agentic_ge := h.agentic_ge
          daily_nonneg := h.daily_nonneg }
    else .error validationError
  | _, _, _ => .error validationError

end BudgetConfig

/-- The override of `base`, among the configurations that exist; a copy is a new one. -/
def effectiveKbConfig (reader : NumberReader) (heap : List KBConfig) (base : Fin heap.length)
    (override : Option (OrderedDict String Json)) : List KBConfig × Except Exc ℕ :=
  let given := override.getD .empty
  if given.entries.isEmpty then (heap ++ [heap.get base], .ok heap.length)
  else
    let budgets := given.filterKeys (· ∈ BudgetConfig.modelFields)
    if budgets.entries.isEmpty then (heap, .ok base)
    else
      let merged := (heap.get base).budgets.modelDump.update budgets.entries
      match BudgetConfig.ofValues reader merged with
      | .ok replaced =>
        (heap ++ [{ heap.get base with budgets := replaced }], .ok heap.length)
      | .error e => (heap ++ [heap.get base], .error e)

/-! ## What the override should do -/

/-- The budgets that a request may replace. -/
def overridable : List String := ["context_token_budget", "agentic_token_budget"]

/-- The configuration with exactly the given budgets replaced. -/
structure Replaces (reader : NumberReader) (base : KBConfig) (given : OrderedDict String Json)
    (replaced : KBConfig) : Prop where
  rest : replaced = { base with budgets := replaced.budgets }
  context : reader.int? (given.getD "context_token_budget" (.num base.budgets.contextTokenBudget)) =
    some (replaced.budgets.contextTokenBudget : ℤ)
  agentic : reader.int? (given.getD "agentic_token_budget" (.num base.budgets.agenticTokenBudget)) =
    some (replaced.budgets.agenticTokenBudget : ℤ)
  daily : replaced.budgets.dailyCostLimitUsd = base.budgets.dailyCostLimitUsd

/-- Other keys are refused, the replaced configuration is returned, and `base` stays. -/
structure OverridesBudgets (reader : NumberReader) (heap : List KBConfig) (base : Fin heap.length)
    (override : Option (OrderedDict String Json)) : Prop where
  refuses : (∃ key ∈ (override.getD .empty).keys, key ∉ overridable) →
    ∃ e, (effectiveKbConfig reader heap base override).2 = .error e ∧ e.cls = .config ∧
      e.code = 9003
  replaces : (∀ key ∈ (override.getD .empty).keys, key ∈ overridable) →
    ∀ replaced, Replaces reader (heap.get base) (override.getD .empty) replaced →
      ∃ ref, (effectiveKbConfig reader heap base override).2 = .ok ref ∧
        (effectiveKbConfig reader heap base override).1[ref]? = some replaced
  keeps : (effectiveKbConfig reader heap base override).1[base]? = some (heap.get base)

variable {reader : NumberReader} {heap : List KBConfig} {base : Fin heap.length}
  {override : Option (OrderedDict String Json)}

theorem BudgetConfig.ofValues_eq_ok {values : OrderedDict String Json} {b : BudgetConfig}
    (hcontext : reader.int? (values.getD "context_token_budget" (.num 4096)) =
      some (b.contextTokenBudget : ℤ))
    (hagentic : reader.int? (values.getD "agentic_token_budget" (.num 100000)) =
      some (b.agenticTokenBudget : ℤ))
    (hdaily : reader.float? (values.getD "daily_cost_limit_usd" (.num 50)) =
      some b.dailyCostLimitUsd) : BudgetConfig.ofValues reader values = .ok b := by
  have hbounds : InBounds b.contextTokenBudget b.agenticTokenBudget b.dailyCostLimitUsd :=
    ⟨Int.ofNat_le.mpr b.context_ge, Int.ofNat_le.mpr b.agentic_ge, b.daily_nonneg⟩
  simp only [ofValues, hcontext, hagentic, hdaily, dif_pos hbounds, Int.toNat_natCast]

/-- The values of the merged dictionary. -/
theorem BudgetConfig.getD_merged (b : BudgetConfig) (given : OrderedDict String Json)
    {key : String} {value default : Json} (hkey : key ∈ modelFields)
    (hdump : b.modelDump.get? key = some value) :
    (b.modelDump.update (given.filterKeys (· ∈ modelFields)).entries).getD key default =
      given.getD key value := by
  rw [OrderedDict.getD, OrderedDict.get?_update_entries, OrderedDict.get?_filterKeys,
    if_pos (decide_eq_true hkey), hdump, OrderedDict.getD]
  cases given.get? key <;> rfl

theorem getD_of_not_mem {given : OrderedDict String Json} {key : String} {value : Json}
    (h : key ∉ given.keys) : given.getD key value = value := by
  rw [OrderedDict.getD]
  cases hget : given.get? key with
  | none => rfl
  | some v => exact absurd (List.mem_map_of_mem (OrderedDict.mem_entries.mpr hget)) h

/-- What is allowed and can be done is done. -/
theorem ofValues_of_replaces {b : KBConfig} {given : OrderedDict String Json} {replaced : KBConfig}
    (hkeys : ∀ key ∈ given.keys, key ∈ overridable) (h : Replaces reader b given replaced) :
    BudgetConfig.ofValues reader (b.budgets.modelDump.update
      (given.filterKeys (· ∈ BudgetConfig.modelFields)).entries) = .ok replaced.budgets := by
  refine BudgetConfig.ofValues_eq_ok ?_ ?_ ?_
  · rw [b.budgets.getD_merged given (by decide) rfl]
    exact h.context
  · rw [b.budgets.getD_merged given (by decide) rfl]
    exact h.agentic
  · rw [b.budgets.getD_merged given (by decide) rfl, getD_of_not_mem, reader.float?_num, h.daily]
    exact fun hmem => absurd (hkeys _ hmem) (by decide)

theorem BudgetConfig.eq_of_fields {b b' : BudgetConfig}
    (hcontext : b.contextTokenBudget = b'.contextTokenBudget)
    (hagentic : b.agenticTokenBudget = b'.agenticTokenBudget)
    (hdaily : b.dailyCostLimitUsd = b'.dailyCostLimitUsd) : b = b' := by
  cases b
  cases b'
  cases hcontext
  cases hagentic
  cases hdaily
  rfl

theorem NumberReader.int?_natCast (reader : NumberReader) (n : ℕ) :
    reader.int? (.num n) = some (n : ℤ) := by
  rw [← Int.cast_natCast, reader.int?_num]

/-- Nothing is given, so nothing is replaced. -/
theorem replaces_empty {b replaced : KBConfig} {given : OrderedDict String Json}
    (hempty : given.entries = []) (h : Replaces reader b given replaced) : replaced = b := by
  have hnone (key : String) (value : Json) : given.getD key value = value :=
    getD_of_not_mem fun hmem => by simp [OrderedDict.keys, hempty] at hmem
  have hcontext := h.context
  have hagentic := h.agentic
  rw [hnone, reader.int?_natCast, Option.some_inj, Nat.cast_inj] at hcontext hagentic
  have hbudgets : replaced.budgets = b.budgets :=
    BudgetConfig.eq_of_fields hcontext.symm hagentic.symm h.daily
  rw [h.rest, hbudgets]

/-- A copy is added, or nothing is. -/
theorem heap_effectiveKbConfig (reader : NumberReader) (heap : List KBConfig)
    (base : Fin heap.length) (override : Option (OrderedDict String Json)) :
    ∃ added, (effectiveKbConfig reader heap base override).1 = heap ++ added := by
  simp only [effectiveKbConfig]
  split_ifs
  · exact ⟨_, rfl⟩
  · exact ⟨[], (List.append_nil heap).symm⟩
  · split
    · exact ⟨_, rfl⟩
    · exact ⟨_, rfl⟩

theorem getElem?_effectiveKbConfig :
    (effectiveKbConfig reader heap base override).1[base]? = some (heap.get base) := by
  obtain ⟨added, hadded⟩ := heap_effectiveKbConfig reader heap base override
  rw [hadded]
  exact (List.getElem?_append_left base.2).trans (List.getElem?_eq_getElem base.2)

/-- The function itself never refuses a key. -/
theorem not_configError_effectiveKbConfig {e : Exc}
    (h : (effectiveKbConfig reader heap base override).2 = .error e) : e.cls ≠ .config := by
  simp only [effectiveKbConfig] at h
  split_ifs at h
  split at h
  · cases h
  · rename_i hvalues
    cases h
    simp only [BudgetConfig.ofValues] at hvalues
    split at hvalues
    · split_ifs at hvalues
      cases hvalues
      nofun
    · cases hvalues
      nofun

theorem replaced_effectiveKbConfig {replaced : KBConfig}
    (hkeys : ∀ key ∈ (override.getD .empty).keys, key ∈ overridable)
    (h : Replaces reader (heap.get base) (override.getD .empty) replaced) :
    ∃ ref, (effectiveKbConfig reader heap base override).2 = .ok ref ∧
      (effectiveKbConfig reader heap base override).1[ref]? = some replaced := by
  refine ⟨heap.length, ?_⟩
  by_cases hempty : (override.getD .empty).entries = []
  · simp only [effectiveKbConfig, hempty, List.isEmpty_nil, if_true]
    exact ⟨trivial, by rw [replaces_empty hempty h]; simp⟩
  · have hsome : ¬ ((override.getD .empty).filterKeys
        (· ∈ BudgetConfig.modelFields)).entries.isEmpty = true := by
      obtain ⟨e, he⟩ := List.exists_mem_of_ne_nil _ hempty
      have hfield : ∀ key ∈ overridable, key ∈ BudgetConfig.modelFields := by decide
      have hkey := hfield e.1 (hkeys e.1 (List.mem_map_of_mem he))
      rw [List.isEmpty_iff]
      exact List.ne_nil_of_mem (List.mem_filter.mpr ⟨he, decide_eq_true hkey⟩)
    have hgiven : ¬ (override.getD .empty).entries.isEmpty = true :=
      fun hnil => hempty (List.isEmpty_iff.mp hnil)
    simp only [effectiveKbConfig, if_neg hgiven, if_neg hsome, ofValues_of_replaces hkeys h]
    refine ⟨trivial, ?_⟩
    rw [← h.rest]
    simp

/-- The override does what it should when it has no key but the two budgets. -/
theorem overridesBudgets_iff : OverridesBudgets reader heap base override ↔
    ∀ key ∈ (override.getD .empty).keys, key ∈ overridable := by
  constructor
  · intro h key hmem
    by_contra hother
    obtain ⟨e, herror, hcls, _⟩ := h.refuses ⟨key, hmem, hother⟩
    exact not_configError_effectiveKbConfig herror hcls
  · intro hkeys
    refine ⟨?_, fun _ replaced h => replaced_effectiveKbConfig hkeys h, getElem?_effectiveKbConfig⟩
    rintro ⟨key, hmem, hother⟩
    exact absurd (hkeys key hmem) hother

end Ragx
