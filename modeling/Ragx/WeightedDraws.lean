import Mathlib.Algebra.Order.BigOperators.Group.List
import Ragx.RoutedModels

/-!
# Weighted draws

The weighted strategy puts the candidate first in whose interval of running weights the draw
falls. The intervals are closed, and at zero the first one may be empty.
-/
namespace Ragx
namespace RoleConfig

/-- The weight of a candidate, clamped at zero; a missing one counts as one. -/
def weight (role : RoleConfig) (cand : ProviderTarget) : ℚ :=
  max 0 ((role.weights.get? cand.key).getD 1)

def totalWeight (role : RoleConfig) (pool : List ProviderTarget) : ℚ := (pool.map role.weight).sum

/-- The candidates whose circuit does not fail fast. -/
def callable (cfg : CircuitConfig) (now : ℚ) (breaker : CircuitBreaker)
    (targets : List ProviderTarget) : List ProviderTarget :=
  targets.filter fun target => !(breaker.isOpen cfg now target.circuitKey).1

/-- The order offers the pool, and if some weight is positive, the first one has a positive weight
and the draw in its interval. -/
structure WeightedDraw (role : RoleConfig) (draw : ℚ) (pool order : List ProviderTarget) :
    Prop where
  perm : order.Perm pool
  first : (∃ cand ∈ pool, 0 < role.weight cand) →
    ∃ earlier cand later, pool = earlier ++ cand :: later ∧ order.head? = some cand ∧
      0 < role.weight cand ∧ (earlier.map role.weight).sum ≤ draw ∧
      draw ≤ (earlier.map role.weight).sum + role.weight cand

/-- A draw of zero meets a first candidate with a positive weight, if any has one. -/
def FirstWeighted (role : RoleConfig) (draw : ℚ) (pool : List ProviderTarget) : Prop :=
  draw = 0 → 0 < role.totalWeight pool → ∀ cand ∈ pool.head?, 0 < role.weight cand

/-! ## The position drawn -/

section Draws

variable {draw acc : ℚ} {ws : List ℚ} {i : ℕ}

/-- The draw is reached at the position and not before it. -/
theorem pickIndex_eq_some (h : pickIndex draw acc ws = some i) :
    ∃ w, ws[i]? = some w ∧ draw ≤ acc + (ws.take i).sum + w ∧
      (0 < i → acc + (ws.take i).sum < draw) := by
  induction ws generalizing acc i with
  | nil => cases h
  | cons w ws ih =>
    rw [pickIndex] at h
    split_ifs at h with hle
    · cases h
      exact ⟨w, rfl, by simpa using hle, fun h => absurd h (lt_irrefl 0)⟩
    · obtain ⟨j, hj, rfl⟩ := Option.map_eq_some_iff.mp h
      obtain ⟨w', hw', hreached, hbefore⟩ := ih hj
      have hsum : acc + ((w :: ws).take (j + 1)).sum = acc + w + (ws.take j).sum := by
        rw [List.take_succ_cons, List.sum_cons, add_assoc]
      rw [List.getElem?_cons_succ, hsum]
      refine ⟨w', hw', hreached, fun _ => ?_⟩
      rcases Nat.eq_zero_or_pos j with rfl | hpos
      · simpa using hle
      · exact hbefore hpos

/-- A draw up to the total falls on some position. -/
theorem pickIndex_ne_none (hne : ws ≠ []) (h : draw ≤ acc + ws.sum) :
    pickIndex draw acc ws ≠ none := by
  induction ws generalizing acc with
  | nil => exact absurd rfl hne
  | cons w ws ih =>
    rw [pickIndex]
    split_ifs with hle
    · exact Option.some_ne_none 0
    · intro hnone
      rw [List.sum_cons, ← add_assoc] at h
      refine ih ?_ h (Option.map_eq_none_iff.mp hnone)
      rintro rfl
      exact hle (by simpa using h)

end Draws

/-! ## The order -/

variable {role : RoleConfig} {uniform : ℚ → ℚ} {pool : List ProviderTarget}

theorem weight_nonneg (cand : ProviderTarget) : 0 ≤ role.weight cand := le_max_left 0 _

theorem totalWeight_pos_iff : 0 < role.totalWeight pool ↔ ∃ cand ∈ pool, 0 < role.weight cand := by
  unfold totalWeight
  constructor
  · intro hpos
    by_contra hnone
    have hzero : (pool.map role.weight).sum = 0 := by
      refine List.sum_eq_zero fun x hx => ?_
      obtain ⟨cand, hcand, rfl⟩ := List.mem_map.mp hx
      exact le_antisymm (not_lt.mp fun h => hnone ⟨cand, hcand, h⟩) (weight_nonneg cand)
    exact hpos.ne' hzero
  · rintro ⟨cand, hcand, hpos⟩
    refine hpos.trans_le (List.single_le_sum (fun x hx => ?_) _ (List.mem_map_of_mem hcand))
    obtain ⟨other, -, rfl⟩ := List.mem_map.mp hx
    exact weight_nonneg other

theorem weightedOrder_of_pos (hpos : 0 < role.totalWeight pool) :
    role.weightedOrder uniform pool =
      match pickIndex (uniform (role.totalWeight pool)) 0 (pool.map role.weight) with
      | some i => (pool[i]?).toList ++ pool.eraseIdx i
      | none => pool :=
  if_neg (not_le.mpr hpos)

/-- The candidate drawn: the weights before it leave the draw to its own. -/
theorem exists_drawn (hpos : 0 < role.totalWeight pool)
    (hhigh : uniform (role.totalWeight pool) ≤ role.totalWeight pool) :
    ∃ earlier cand later, pool = earlier ++ cand :: later ∧
      (role.weightedOrder uniform pool).head? = some cand ∧
      uniform (role.totalWeight pool) ≤ (earlier.map role.weight).sum + role.weight cand ∧
      (earlier ≠ [] → (earlier.map role.weight).sum < uniform (role.totalWeight pool)) := by
  have hne : pool.map role.weight ≠ [] := by
    intro hnil
    rw [totalWeight, hnil] at hpos
    exact lt_irrefl 0 hpos
  have hsum : uniform (role.totalWeight pool) ≤ 0 + (pool.map role.weight).sum := by
    rw [zero_add]
    exact hhigh
  obtain ⟨i, hi⟩ := Option.ne_none_iff_exists'.mp (pickIndex_ne_none hne hsum)
  obtain ⟨w, hw, hreached, hbefore⟩ := pickIndex_eq_some hi
  rw [List.getElem?_map] at hw
  obtain ⟨cand, hcand, rfl⟩ := Option.map_eq_some_iff.mp hw
  obtain ⟨hlt, rfl⟩ := List.getElem?_eq_some_iff.mp hcand
  have hsplit : pool = pool.take i ++ pool[i] :: pool.drop (i + 1) := by
    rw [← List.drop_eq_getElem_cons hlt, List.take_append_drop]
  rw [zero_add, ← List.map_take] at hreached hbefore
  refine ⟨pool.take i, pool[i], pool.drop (i + 1), hsplit, ?_, hreached, fun hearlier => ?_⟩
  · rw [weightedOrder_of_pos hpos, hi]
    dsimp only
    rw [hcand]
    rfl
  · refine hbefore (Nat.pos_of_ne_zero ?_)
    rintro rfl
    exact hearlier rfl

/-- The draw puts a candidate first as it should unless it is zero and the first candidate has no
weight. -/
theorem weightedDraw_order_iff (hlow : 0 ≤ uniform (role.totalWeight pool))
    (hhigh : uniform (role.totalWeight pool) ≤ role.totalWeight pool) :
    WeightedDraw role (uniform (role.totalWeight pool)) pool (role.weightedOrder uniform pool) ↔
      FirstWeighted role (uniform (role.totalWeight pool)) pool := by
  constructor
  · intro hdraw hzero hpos cand hcand
    obtain ⟨earlier, drawn, later, rfl, hhead, hreached, hbefore⟩ := exists_drawn hpos hhigh
    obtain ⟨-, drawn', -, -, hhead', hweight, -⟩ := hdraw.first (totalWeight_pos_iff.mp hpos)
    obtain rfl := Option.some.inj (hhead.symm.trans hhead')
    have hnil : earlier = [] := by
      by_contra hne
      have hneg := hbefore hne
      rw [hzero] at hneg
      have hsum : 0 ≤ (earlier.map role.weight).sum := by
        refine List.sum_nonneg fun x hx => ?_
        obtain ⟨other, -, rfl⟩ := List.mem_map.mp hx
        exact weight_nonneg other
      exact absurd hneg (not_lt.mpr hsum)
    subst hnil
    cases hcand
    exact hweight
  · refine fun hfirst => ⟨weightedOrder_perm, fun hsome => ?_⟩
    have hpos := totalWeight_pos_iff.mpr hsome
    obtain ⟨earlier, drawn, later, hpool, hhead, hreached, hbefore⟩ := exists_drawn hpos hhigh
    refine ⟨earlier, drawn, later, hpool, hhead, ?_, ?_, hreached⟩
    · by_cases hne : earlier = []
      · subst hne
        rw [List.map_nil, List.sum_nil, zero_add] at hreached
        rcases hlow.eq_or_lt with hzero | hdraw
        · exact hfirst hzero.symm hpos drawn (by rw [hpool]; rfl)
        · exact hdraw.trans_le hreached
      · linarith [hbefore hne]
    · by_cases hne : earlier = []
      · subst hne
        exact hlow
      · exact (hbefore hne).le

/-! ## The targets -/

theorem circuitKey_injective : Function.Injective ProviderTarget.circuitKey := by
  rintro ⟨provider, model⟩ ⟨provider', model'⟩ h
  obtain ⟨rfl, rfl⟩ := Prod.mk.inj h
  rfl

/-- Asking for one candidate changes the circuit of no other. -/
theorem askAll_eq_callable (cfg : CircuitConfig) (now : ℚ) {targets : List ProviderTarget}
    (hn : targets.Nodup) (breaker : CircuitBreaker) :
    (askAll cfg now targets breaker).1 = callable cfg now breaker targets := by
  induction targets generalizing breaker with
  | nil => rfl
  | cons target targets ih =>
    obtain ⟨hnew, hn⟩ := List.nodup_cons.mp hn
    have hrest : callable cfg now (breaker.isOpen cfg now target.circuitKey).2 targets =
        callable cfg now breaker targets := by
      refine List.filter_congr fun other hmem => ?_
      have hkey : other.circuitKey ≠ target.circuitKey := fun h =>
        hnew (circuitKey_injective h ▸ hmem)
      simp only [CircuitBreaker.isOpen, Function.update_of_ne hkey]
    rw [askAll]
    dsimp only
    rw [ih hn, hrest, callable, callable, List.filter_cons]
    cases (breaker.isOpen cfg now target.circuitKey).1 <;> rfl

/-- The weighted strategy orders the callable candidates as it should exactly if a draw of zero
does not meet a first one without weight. -/
theorem weightedDraw_iff (config : LLMRouterConfig) (role : RoleConfig) (now : ℚ)
    (uniform : ℚ → ℚ) (breaker : CircuitBreaker) (pool : List ProviderTarget)
    (hstrategy : role.strategy = .weighted) (hn : role.candidateList.Nodup)
    (hpool : callable config.circuit now breaker role.candidateList = pool)
    (hlow : 0 ≤ uniform (role.totalWeight pool))
    (hhigh : uniform (role.totalWeight pool) ≤ role.totalWeight pool) :
    WeightedDraw role (uniform (role.totalWeight pool)) pool
        (role.targets config now uniform breaker).1 ↔
      FirstWeighted role (uniform (role.totalWeight pool)) pool := by
  have horder : (role.targets config now uniform breaker).1 =
      role.weightedOrder uniform pool := by
    rw [targets, hstrategy]
    dsimp only
    rw [askAll_eq_callable config.circuit now hn, hpool]
  rw [horder]
  exact weightedDraw_order_iff hlow hhigh

section Sample

/-- Two models, the first of which is to get no calls. -/
def drained : RoleConfig where
  primary := ⟨"openai", "large"⟩
  strategy := .weighted
  candidates := [⟨"openai", "large"⟩, ⟨"openai", "small"⟩]
  weights := OrderedDict.empty.insert "openai/large" 0

def drainedConfig : LLMRouterConfig where
  roles := fun _ => some drained

theorem weightedDraw_drained :
    WeightedDraw drained (1 / 2) drained.candidates
      (drained.targets drainedConfig 0 (fun _ => 1 / 2) fun _ => {}).1 :=
  (weightedDraw_iff drainedConfig drained 0 (fun _ => 1 / 2) (fun _ => {}) drained.candidates rfl
    (by decide) rfl (by norm_num) (by decide +kernel)).mpr fun hzero => by norm_num at hzero

/-- The draw of zero falls on the model without weight. -/
theorem not_weightedDraw_drained :
    ¬ WeightedDraw drained 0 drained.candidates
      (drained.targets drainedConfig 0 (fun _ => 0) fun _ => {}).1 := by
  intro h
  obtain ⟨-, cand, -, -, hhead, hweight, -⟩ :=
    h.first ⟨⟨"openai", "small"⟩, by decide, by decide +kernel⟩
  have hlarge : (drained.targets drainedConfig 0 (fun _ => 0) fun _ => {}).1.head? =
      some ⟨"openai", "large"⟩ := by decide +kernel
  obtain rfl := Option.some.inj (hlarge.symm.trans hhead)
  revert hweight
  decide +kernel

end Sample

end RoleConfig
end Ragx
