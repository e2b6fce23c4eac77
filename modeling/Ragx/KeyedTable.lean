import Mathlib.Order.Lattice
import Ragx.OrderedDict

/-!
# Tables of values that carry their own key

A dictionary in which every value stands under the key that it carries. Writing a value
needs no key, and reading under a key finds the value with this key. `sweep` goes once over
a snapshot of the values and drops or rewrites each; `newcomers` are the items of a batch
that are the first with their key.
-/
namespace Ragx

variable {κ α : Type*}

structure KeyedTable (key : α → κ) [DecidableEq κ] where
  dict : OrderedDict κ α
  keyed : ∀ k v, dict.get? k = some v → key v = k

namespace KeyedTable

variable [DecidableEq κ] {key : α → κ}

def empty : KeyedTable key where
  dict := .empty
  keyed := fun _ _ h => absurd h (by simp)

def get? (t : KeyedTable key) (k : κ) : Option α := t.dict.get? k

def values (t : KeyedTable key) : List α := t.dict.values

@[simp]
theorem get?_empty (k : κ) : (empty : KeyedTable key).get? k = none := rfl

theorem key_of_get? {t : KeyedTable key} {k : κ} {v : α} (h : t.get? k = some v) : key v = k :=
  t.keyed k v h

theorem mem_values {t : KeyedTable key} {v : α} : v ∈ t.values ↔ t.get? (key v) = some v := by
  rw [values, OrderedDict.values, List.mem_map]
  constructor
  · rintro ⟨⟨k, w⟩, hmem, rfl⟩
    have hget := OrderedDict.mem_entries.mp hmem
    have hkey := t.keyed k w hget
    subst hkey
    exact hget
  · intro h
    exact ⟨(key v, v), OrderedDict.mem_entries.mpr h, rfl⟩

theorem mem_values_of_get? {t : KeyedTable key} {k : κ} {v : α} (h : t.get? k = some v) :
    v ∈ t.values := by
  have hkey := key_of_get? h
  subst hkey
  exact mem_values.mpr h

def keys (t : KeyedTable key) : List κ := t.dict.keys

theorem isSome_get? {t : KeyedTable key} {k : κ} : (t.get? k).isSome = true ↔ k ∈ t.keys := by
  rw [Option.isSome_iff_exists, keys, OrderedDict.keys, List.mem_map]
  constructor
  · rintro ⟨v, h⟩
    exact ⟨(k, v), OrderedDict.mem_entries.mpr h, rfl⟩
  · rintro ⟨⟨k, v⟩, hmem, rfl⟩
    exact ⟨v, OrderedDict.mem_entries.mp hmem⟩

theorem get?_eq_none {t : KeyedTable key} {k : κ} : t.get? k = none ↔ k ∉ t.keys := by
  rw [← isSome_get?, Bool.not_eq_true, Option.isSome_eq_false_iff, Option.isNone_iff_eq_none]

theorem map_key_values (t : KeyedTable key) : t.values.map key = t.keys := by
  rw [values, OrderedDict.values, keys, OrderedDict.keys, List.map_map]
  refine List.map_congr_left fun e he => ?_
  exact t.keyed e.1 e.2 (OrderedDict.mem_entries.mp he)

theorem values_nodup (t : KeyedTable key) : (t.values.map key).Nodup := by
  rw [map_key_values]
  exact t.dict.nodup

theorem eq_of_mem_values {t : KeyedTable key} {v w : α} (hv : v ∈ t.values) (hw : w ∈ t.values)
    (h : key v = key w) : v = w := by
  rw [mem_values] at hv hw
  rw [h, hw] at hv
  exact (Option.some.inj hv).symm

theorem ext_dict {t t' : KeyedTable key} (h : t.dict = t'.dict) : t = t' := by
  obtain ⟨d, hd⟩ := t
  obtain ⟨d', hd'⟩ := t'
  cases h
  rfl

/-! ## Writing -/

def put (t : KeyedTable key) (v : α) : KeyedTable key where
  dict := t.dict.insert (key v) v
  keyed := by
    intro k w h
    rw [OrderedDict.get?_insert] at h
    split_ifs at h with hk
    · cases h
      exact hk
    · exact t.keyed k w h

theorem get?_put (t : KeyedTable key) (v : α) (k : κ) :
    (t.put v).get? k = if key v = k then some v else t.get? k :=
  OrderedDict.get?_insert t.dict (key v) k v

def pop (t : KeyedTable key) (k : κ) : KeyedTable key where
  dict := t.dict.erase k
  keyed := by
    intro k' w h
    rw [OrderedDict.erase, OrderedDict.get?_filterKeys] at h
    split_ifs at h
    exact t.keyed k' w h

theorem get?_pop (t : KeyedTable key) (k k' : κ) :
    (t.pop k).get? k' = if k' = k then none else t.get? k' := by
  refine (OrderedDict.get?_filterKeys _ t.dict k').trans ?_
  by_cases h : k' = k
  · simp [h]
  · simp [h, get?]

/-- Writing back a value that is there changes nothing. -/
theorem put_self {t : KeyedTable key} {v : α} (h : t.get? (key v) = some v) : t.put v = t := by
  refine ext_dict (OrderedDict.eq_of_keys_of_get? ?_ fun k => ?_)
  · refine (OrderedDict.keys_insert t.dict (key v) v).trans (if_pos ?_)
    exact List.mem_map_of_mem (f := Prod.fst) (OrderedDict.mem_entries.mpr h)
  · refine (OrderedDict.get?_insert t.dict (key v) k v).trans ?_
    split_ifs with hk
    · exact (hk ▸ h).symm
    · rfl

/-! ## Merging a batch -/

/-- Combines the item with the value that has its key, if there is one. -/
def merge (f : Option α → α → α) (t : KeyedTable key) (v : α) : KeyedTable key :=
  t.put (f (t.get? (key v)) v)

/-- A combination that keeps the key. -/
def KeepsKey (key : α → κ) (f : Option α → α → α) : Prop :=
  ∀ old v, (∀ w ∈ old, key w = key v) → key (f old v) = key v

variable {f : Option α → α → α}

theorem get?_merge (hf : KeepsKey key f) (t : KeyedTable key) (v : α) (k : κ) :
    (t.merge f v).get? k = if key v = k then some (f (t.get? k) v) else t.get? k := by
  have hkey : key (f (t.get? (key v)) v) = key v := hf _ v fun w hw => key_of_get? hw
  rw [merge, get?_put, hkey]
  split_ifs with hk
  · rw [hk]
  · rfl

/-- What the values and the combination have, all values have afterwards. -/
theorem forall_values_merge {p : α → Prop} (hf : KeepsKey key f) {t : KeyedTable key} {v : α}
    (ht : ∀ w ∈ t.values, p w) (hv : p (f (t.get? (key v)) v)) :
    ∀ w ∈ (t.merge f v).values, p w := by
  intro w hw
  rw [mem_values, get?_merge hf] at hw
  split_ifs at hw with hk
  · rw [← Option.some.inj hw, ← hk]
    exact hv
  · exact ht w (mem_values.mpr hw)

/-- Only the items with a key contribute to the value under it. -/
theorem get?_foldl_merge (hf : KeepsKey key f) (t : KeyedTable key) (vs : List α) (k : κ) :
    (vs.foldl (merge f) t).get? k =
      (vs.filter fun v => decide (key v = k)).foldl (fun old v => some (f old v)) (t.get? k) := by
  induction vs generalizing t with
  | nil => rfl
  | cons v vs ih =>
    rw [List.foldl_cons, ih, get?_merge hf]
    by_cases h : key v = k
    · simp [h]
    · simp [h]

/-- A batch leaves the entries alone that none of its items has the key of. -/
theorem get?_foldl_merge_of_notMem (hf : KeepsKey key f) (t : KeyedTable key) {vs : List α} {k : κ}
    (h : k ∉ vs.map key) : (vs.foldl (merge f) t).get? k = t.get? k := by
  have hnone : (vs.filter fun v => decide (key v = k)) = [] :=
    List.filter_eq_nil_iff.mpr fun v hv hk => h (List.mem_map.mpr ⟨v, hv, of_decide_eq_true hk⟩)
  rw [get?_foldl_merge hf, hnone]
  rfl

theorem mem_keys_foldl_merge (hf : KeepsKey key f) {t : KeyedTable key} {vs : List α} {k : κ} :
    k ∈ (vs.foldl (merge f) t).keys ↔ k ∈ t.keys ∨ k ∈ vs.map key := by
  induction vs generalizing t with
  | nil => simp
  | cons v vs ih =>
    rw [List.foldl_cons, ih, ← isSome_get?, get?_merge hf, ← isSome_get?, List.map_cons,
      List.mem_cons]
    by_cases h : key v = k
    · simp [h]
    · simp [h, Ne.symm h]

/-! ## Newcomers -/

/-- The items whose key is not known before the batch and not earlier in it. -/
def newcomers (key : α → κ) (known : List κ) : List α → List α
  | [] => []
  | v :: vs =>
    if key v ∈ known then newcomers key known vs else v :: newcomers key (key v :: known) vs

theorem newcomers_concat (known : List κ) (vs : List α) (v : α) :
    newcomers key known (vs ++ [v]) =
      if key v ∈ known ∨ key v ∈ vs.map key then newcomers key known vs
      else newcomers key known vs ++ [v] := by
  induction vs generalizing known with
  | nil => simp [newcomers]
  | cons w vs ih =>
    rw [List.cons_append, newcomers, newcomers, ih, ih, List.map_cons]
    by_cases hw : key w ∈ known
    · have hiff : (key v ∈ known ∨ key v ∈ key w :: vs.map key) ↔
          (key v ∈ known ∨ key v ∈ vs.map key) := by
        rw [List.mem_cons]
        constructor
        · rintro (h | h | h)
          · exact Or.inl h
          · exact Or.inl (h ▸ hw)
          · exact Or.inr h
        · exact fun h => h.imp_right Or.inr
      rw [if_pos hw, if_pos hw]
      exact if_congr hiff.symm rfl rfl
    · rw [if_neg hw, if_neg hw]
      have hiff : (key v ∈ key w :: known ∨ key v ∈ vs.map key) ↔
          (key v ∈ known ∨ key v ∈ key w :: vs.map key) := by
        rw [List.mem_cons, List.mem_cons, or_assoc, or_left_comm]
      rw [if_congr hiff rfl rfl]
      split_ifs <;> rfl

theorem of_mem_newcomers {known : List κ} {vs : List α} {v : α}
    (h : v ∈ newcomers key known vs) : v ∈ vs ∧ key v ∉ known := by
  induction vs generalizing known with
  | nil => exact absurd h List.not_mem_nil
  | cons w vs ih =>
    rw [newcomers] at h
    split_ifs at h with hw
    · exact ⟨List.mem_cons_of_mem w (ih h).1, (ih h).2⟩
    · rcases List.mem_cons.mp h with rfl | h
      · exact ⟨List.mem_cons_self, hw⟩
      · exact ⟨List.mem_cons_of_mem w (ih h).1, fun hk => (ih h).2 (List.mem_cons_of_mem _ hk)⟩

/-- Every key of the batch that is not known has exactly one newcomer. -/
theorem mem_map_newcomers {known : List κ} {vs : List α} {k : κ} :
    k ∈ (newcomers key known vs).map key ↔ k ∉ known ∧ k ∈ vs.map key := by
  induction vs using List.reverseRecOn with
  | nil => simp [newcomers]
  | append_singleton vs v ih =>
    rw [newcomers_concat]
    split_ifs with hv
    · rw [ih, List.map_append, List.mem_append, List.map_singleton, List.mem_singleton]
      refine and_congr_right fun hk => ⟨Or.inl, fun h => h.elim id fun he => ?_⟩
      subst he
      exact hv.resolve_left hk
    · rw [not_or] at hv
      rw [List.map_append, List.map_append, List.mem_append, List.mem_append, ih,
        List.map_singleton, List.mem_singleton]
      constructor
      · rintro (⟨hk, hmem⟩ | rfl)
        · exact ⟨hk, Or.inl hmem⟩
        · exact ⟨hv.1, Or.inr rfl⟩
      · rintro ⟨hk, hmem | rfl⟩
        · exact Or.inl ⟨hk, hmem⟩
        · exact Or.inr rfl

/-- When no unknown key comes twice, all unknown items are newcomers. -/
theorem mem_newcomers_of_nodup {known : List κ} {vs : List α}
    (hn : ((vs.filter fun v => decide (key v ∉ known)).map key).Nodup) {v : α} (hv : v ∈ vs)
    (hk : key v ∉ known) : v ∈ newcomers key known vs := by
  have hkey : key v ∈ (newcomers key known vs).map key :=
    mem_map_newcomers.mpr ⟨hk, List.mem_map_of_mem hv⟩
  obtain ⟨w, hw, hwv⟩ := List.mem_map.mp hkey
  obtain ⟨hmem, hunknown⟩ := of_mem_newcomers hw
  have hsame : w = v := List.inj_on_of_nodup_map hn
    (List.mem_filter.mpr ⟨hmem, decide_eq_true hunknown⟩)
    (List.mem_filter.mpr ⟨hv, decide_eq_true hk⟩) hwv
  exact hsame ▸ hw

theorem newcomers_nodup (known : List κ) (vs : List α) :
    ((newcomers key known vs).map key).Nodup := by
  induction vs using List.reverseRecOn with
  | nil => exact List.nodup_nil
  | append_singleton vs v ih =>
    rw [newcomers_concat]
    split_ifs with hv
    · exact ih
    · rw [not_or] at hv
      rw [List.map_append, List.map_singleton]
      refine List.nodup_append.mpr ⟨ih, List.nodup_singleton _, fun k hk k' hk' he => ?_⟩
      rw [List.mem_singleton.mp hk'] at he
      exact hv.2 (he ▸ (mem_map_newcomers.mp hk).2)

theorem map_values_merge {φ : Type*} {p : α → φ} (hf : KeepsKey key f)
    (hnone : ∀ v, f none v = v) (hp : ∀ old v, p (f (some old) v) = p old)
    (t : KeyedTable key) (v : α) :
    (t.merge f v).values.map p =
      if key v ∈ t.keys then t.values.map p else t.values.map p ++ [p v] := by
  have hkey : key (f (t.get? (key v)) v) = key v := hf _ v fun w hw => key_of_get? hw
  have hentries : (t.merge f v).values.map p =
      (OrderedDict.writeIn (key v) (f (t.get? (key v)) v) t.dict.entries).map fun e => p e.2 := by
    rw [values, OrderedDict.values, List.map_map]
    show (OrderedDict.writeIn (key (f (t.get? (key v)) v)) _ t.dict.entries).map _ = _
    rw [hkey]
    rfl
  have hold : t.dict.entries.map (fun e => p e.2) = t.values.map p := by
    rw [values, OrderedDict.values, List.map_map]
    rfl
  rw [hentries]
  split_ifs with hk
  · obtain ⟨old, hget⟩ := Option.isSome_iff_exists.mp (isSome_get?.mpr hk)
    rw [hget, OrderedDict.map_snd_writeIn hget (hp old v), hold]
  · rw [get?_eq_none.mpr hk, hnone, OrderedDict.writeIn_of_notMem hk, List.map_append, hold]
    rfl

theorem values_put_of_notMem {t : KeyedTable key} {v : α} (h : key v ∉ t.keys) :
    (t.put v).values = t.values ++ [v] := by
  rcases t.dict.values_insert_cases (key v) v with ⟨_, hvalues⟩ | ⟨_, old, _, hget, _⟩
  · exact hvalues
  · exact absurd (isSome_get?.mp (by rw [get?, hget]; rfl)) h

/-- Merging into a value leaves those with other keys where they are. -/
theorem values_merge_of_mem (hf : KeepsKey key f) {t : KeyedTable key} {v : α}
    (h : key v ∈ t.keys) :
    (t.merge f v).values = t.values.map fun w => if key w = key v then f (some w) v else w := by
  obtain ⟨old, hold⟩ := Option.isSome_iff_exists.mp (isSome_get?.mpr h)
  have hkey : key (f (some old) v) = key v := hf _ v fun w hw => by
    cases hw
    exact key_of_get? hold
  have hmerge : t.merge f v = t.put (f (some old) v) := by rw [merge, hold]
  rcases t.dict.values_insert_cases (key (f (some old) v)) (f (some old) v) with
    ⟨hnone, _⟩ | ⟨front, w, back, hget, hvalues, hnew⟩
  · rw [hkey] at hnone
    exact absurd (hold.symm.trans hnone) (by simp)
  · rw [hkey] at hget
    have hw : w = old := Option.some.inj (hget.symm.trans hold)
    have hnodup := t.values_nodup
    rw [values, hvalues, List.map_append, List.map_cons, hw, key_of_get? hold,
      List.nodup_middle, List.nodup_cons, ← List.map_append] at hnodup
    have hother : ∀ x ∈ front ++ back, key x ≠ key v := by
      intro x hx hxv
      exact hnodup.1 (hxv ▸ List.mem_map_of_mem hx)
    have hkeep : ∀ xs : List α, (∀ x ∈ xs, key x ≠ key v) →
        (xs.map fun x => if key x = key v then f (some x) v else x) = xs := by
      intro xs hxs
      refine (List.map_congr_left fun x hx => if_neg (hxs x hx)).trans (List.map_id xs)
    rw [hmerge, values, values, hvalues, List.map_append, List.map_cons,
      hkeep front fun x hx => hother x (List.mem_append_left _ hx),
      hkeep back fun x hx => hother x (List.mem_append_right _ hx), hw,
      if_pos (key_of_get? hold)]
    exact hnew

theorem values_merge_of_notMem {t : KeyedTable key} {v : α} (hnone : f none v = v)
    (h : key v ∉ t.keys) : (t.merge f v).values = t.values ++ [v] := by
  rw [merge, get?_eq_none.mpr h, hnone, values_put_of_notMem h]

/-- Of a field that merging leaves alone, merging a batch keeps the stored values in their
order and appends those of the newcomers. -/
theorem map_values_foldl_merge {φ : Type*} {p : α → φ} (hf : KeepsKey key f)
    (hnone : ∀ v, f none v = v) (hp : ∀ old v, p (f (some old) v) = p old)
    (t : KeyedTable key) (vs : List α) :
    (vs.foldl (merge f) t).values.map p =
      t.values.map p ++ (newcomers key t.keys vs).map p := by
  induction vs using List.reverseRecOn with
  | nil => exact (List.append_nil _).symm
  | append_singleton vs v ih =>
    rw [List.foldl_append, List.foldl_cons, List.foldl_nil, map_values_merge hf hnone hp, ih,
      newcomers_concat]
    simp only [mem_keys_foldl_merge hf]
    split_ifs
    · rfl
    · rw [List.map_append, List.append_assoc]
      rfl

/-- A batch of new items is appended as it is. -/
theorem values_foldl_merge_of_new (hnone : ∀ v, f none v = v) {t : KeyedTable key} {vs : List α}
    (hn : (vs.map key).Nodup) (hnew : ∀ v ∈ vs, key v ∉ t.keys) :
    (vs.foldl (merge f) t).values = t.values ++ vs := by
  induction vs using List.reverseRecOn with
  | nil => exact (List.append_nil _).symm
  | append_singleton vs v ih =>
    rw [List.map_append, List.map_singleton, List.nodup_append] at hn
    have hbefore := ih hn.1 fun w hw => hnew w (List.mem_append_left _ hw)
    have hv : key v ∉ (vs.foldl (merge f) t).keys := by
      rw [← map_key_values, hbefore, List.map_append, List.mem_append, map_key_values]
      rintro (hold | hbatch)
      · exact hnew v (by simp) hold
      · exact hn.2.2 _ hbatch _ (List.mem_singleton.mpr rfl) rfl
    rw [List.foldl_append, List.foldl_cons, List.foldl_nil,
      values_merge_of_notMem (hnone v) hv, hbefore, List.append_assoc]

theorem newcomers_sublist (known : List κ) (vs : List α) :
    (newcomers key known vs).Sublist vs := by
  induction vs generalizing known with
  | nil => exact List.Sublist.slnil
  | cons v vs ih =>
    rw [newcomers]
    split_ifs
    · exact (ih known).cons v
    · exact (ih (key v :: known)).cons_cons v

theorem exists_mem_values_foldl_merge {φ : Type*} {p : α → φ} (hf : KeepsKey key f)
    (hnone : ∀ v, f none v = v) (hp : ∀ old v, p (f (some old) v) = p old)
    {t : KeyedTable key} {vs : List α} {x : φ} :
    (∃ w ∈ (vs.foldl (merge f) t).values, p w = x) ↔
      (∃ w ∈ t.values, p w = x) ∨ ∃ w ∈ newcomers key t.keys vs, p w = x := by
  simp only [← List.mem_map, map_values_foldl_merge hf hnone hp, List.mem_append]

/-! ## Merging as a join

Where merging is a join of what the values know, an entry only ever grows, and a batch
leaves the table alone exactly when each of its items is already known. -/

section Join

variable {φ ψ : Type*} [SemilatticeSup φ]

/-- What a value knows; merging unites it. -/
structure JoinsAt (knows : α → φ) (f : Option α → α → α) : Prop where
  first : ∀ v, knows (f none v) = knows v
  join : ∀ old v, knows (f (some old) v) = knows old ⊔ knows v

variable {knows : α → φ}

theorem JoinsAt.le (h : JoinsAt knows f) (old : Option α) (v : α) : knows v ≤ knows (f old v) := by
  cases old with
  | none => exact (h.first v).ge
  | some old => exact (h.join old v) ▸ le_sup_right

/-- After a batch, the entry of each of its items knows what the item knows. -/
theorem exists_le_foldl_merge (hf : KeepsKey key f) (h : JoinsAt knows f) (t : KeyedTable key)
    {vs : List α} {v : α} (hv : v ∈ vs) :
    ∃ w, (vs.foldl (merge f) t).get? (key v) = some w ∧ knows v ≤ knows w := by
  induction vs using List.reverseRecOn with
  | nil => exact absurd hv List.not_mem_nil
  | append_singleton vs x ih =>
    rw [List.foldl_append, List.foldl_cons, List.foldl_nil, get?_merge hf]
    rcases List.mem_append.mp hv with hmem | hlast
    · obtain ⟨w, hget, hle⟩ := ih hmem
      rw [hget]
      split_ifs
      · exact ⟨_, rfl, hle.trans ((h.join w x) ▸ le_sup_left)⟩
      · exact ⟨w, rfl, hle⟩
    · rw [List.mem_singleton.mp hlast, if_pos rfl]
      exact ⟨_, rfl, h.le _ x⟩

/-- A batch changes nothing in sight exactly when every item is known. The view shows at
least what the values know, and merging something known leaves it as it is. -/
theorem view_foldl_merge_iff (hf : KeepsKey key f) (h : JoinsAt knows f) (view : α → ψ)
    (shown : ψ → φ) (hshown : ∀ v, shown (view v) = knows v)
    (hkeep : ∀ old v, knows v ≤ knows old → view (f (some old) v) = view old)
    (t : KeyedTable key) (vs : List α) :
    (∀ k, ((vs.foldl (merge f) t).get? k).map view = (t.get? k).map view) ↔
      ∀ v ∈ vs, ∃ old, t.get? (key v) = some old ∧ knows v ≤ knows old := by
  constructor
  · intro hsame v hv
    obtain ⟨w, hget, hle⟩ := exists_le_foldl_merge hf h t hv
    have hview := hsame (key v)
    rw [hget] at hview
    obtain ⟨old, hold, heq⟩ := Option.map_eq_some_iff.mp hview.symm
    refine ⟨old, hold, ?_⟩
    rwa [← hshown old, heq, hshown w]
  · intro hknown
    induction vs using List.reverseRecOn with
    | nil => exact fun k => rfl
    | append_singleton vs x ih =>
      rw [List.forall_mem_append, List.forall_mem_singleton] at hknown
      obtain ⟨hvs, old, hold, hle⟩ := hknown
      intro k
      rw [List.foldl_append, List.foldl_cons, List.foldl_nil, get?_merge hf, ← ih hvs k]
      split_ifs with hk
      · subst hk
        have hview := ih hvs (key x)
        rw [hold] at hview
        obtain ⟨w, hget, heq⟩ := Option.map_eq_some_iff.mp hview
        have hw : knows x ≤ knows w := by
          rwa [← hshown w, heq, hshown old]
        rw [hget]
        exact congrArg some (hkeep w x hw)
      · rfl

end Join

/-! ## Sweeping -/

/-- Rewrites the value, or drops it. -/
def settle (t : KeyedTable key) (v : α) : Option α → KeyedTable key
  | some v' => t.put v'
  | none => t.pop (key v)

theorem get?_settle (t : KeyedTable key) {v : α} {new : Option α}
    (h : ∀ v' ∈ new, key v' = key v) (k : κ) :
    (t.settle v new).get? k = if key v = k then new else t.get? k := by
  cases new with
  | none => exact (get?_pop t (key v) k).trans (if_congr eq_comm rfl rfl)
  | some v' =>
    have hkey : key v' = key v := h v' rfl
    rw [settle, get?_put, hkey]

/-- One pass over a snapshot of the values: each is dropped or rewritten. -/
def sweep (f : α → Option α) (t : KeyedTable key) : KeyedTable key :=
  t.values.foldl (fun t v => t.settle v (f v)) t

theorem get?_foldl_settle {f : α → Option α} (hf : ∀ v, ∀ v' ∈ f v, key v' = key v)
    {vs : List α} (hn : (vs.map key).Nodup) (t : KeyedTable key) (k : κ) :
    (vs.foldl (fun t v => t.settle v (f v)) t).get? k =
      ((vs.find? fun v => decide (key v = k)).map f).getD (t.get? k) := by
  induction vs generalizing t with
  | nil => rfl
  | cons v vs ih =>
    obtain ⟨hnot, hrest⟩ := List.nodup_cons.mp hn
    rw [List.foldl_cons, ih hrest, get?_settle t (hf v), List.find?_cons]
    by_cases hk : key v = k
    · have hnone : vs.find? (fun v => decide (key v = k)) = none := by
        refine List.find?_eq_none.mpr fun w hw hwk => hnot ?_
        rw [hk, ← of_decide_eq_true hwk]
        exact List.mem_map_of_mem hw
      rw [hnone, decide_eq_true hk, if_pos hk]
      rfl
    · rw [decide_eq_false hk, if_neg hk]

/-- A sweep that keeps the keys acts on every value by itself. -/
theorem get?_sweep {f : α → Option α} (hf : ∀ v, ∀ v' ∈ f v, key v' = key v)
    (t : KeyedTable key) (k : κ) : (t.sweep f).get? k = (t.get? k).bind f := by
  rw [sweep, get?_foldl_settle hf t.values_nodup]
  cases hfind : t.values.find? (fun v => decide (key v = k)) with
  | some v =>
    have hkey : key v = k := by simpa using List.find?_some hfind
    have hget := mem_values.mp (List.mem_of_find?_eq_some hfind)
    rw [hkey] at hget
    rw [hget]
    rfl
  | none =>
    cases hget : t.get? k with
    | none => rfl
    | some v =>
      have habs := List.find?_eq_none.mp hfind v (mem_values_of_get? hget)
      exact absurd (decide_eq_true (key_of_get? hget)) habs

theorem mem_values_sweep {f : α → Option α} (hf : ∀ v, ∀ v' ∈ f v, key v' = key v)
    {t : KeyedTable key} {v' : α} :
    v' ∈ (t.sweep f).values ↔ ∃ v ∈ t.values, f v = some v' := by
  rw [mem_values, get?_sweep hf, Option.bind_eq_some_iff]
  constructor
  · rintro ⟨v, hget, hv⟩
    exact ⟨v, mem_values_of_get? hget, hv⟩
  · rintro ⟨v, hmem, hv⟩
    exact ⟨v, hf v v' hv ▸ mem_values.mp hmem, hv⟩

/-- A sweep that keeps the keys leaves what it makes of the values. -/
theorem values_sweep_perm {f : α → Option α} (hf : ∀ v, ∀ v' ∈ f v, key v' = key v)
    (t : KeyedTable key) : (t.sweep f).values.Perm (t.values.filterMap f) := by
  have hswept : (t.sweep f).values.Nodup := List.Nodup.of_map key (t.sweep f).values_nodup
  have hmapped : (t.values.filterMap f).Nodup := by
    refine List.Nodup.of_map key ?_
    have hkeys : ∀ vs : List α, ((vs.filterMap f).map key).Sublist (vs.map key) := by
      intro vs
      induction vs with
      | nil => exact List.Sublist.slnil
      | cons v vs ih =>
        cases hv : f v with
        | none =>
          rw [List.filterMap_cons_none hv]
          exact ih.cons _
        | some v' =>
          rw [List.filterMap_cons_some hv, List.map_cons, List.map_cons, hf v v' hv]
          exact ih.cons_cons _
    exact t.values_nodup.sublist (hkeys t.values)
  refine (List.perm_ext_iff_of_nodup hswept hmapped).mpr fun v' => ?_
  rw [mem_values_sweep hf, List.mem_filterMap]

theorem mem_keys_sweep {f : α → Option α} (hf : ∀ v, ∀ v' ∈ f v, key v' = key v)
    {t : KeyedTable key} {k : κ} :
    k ∈ (t.sweep f).keys ↔ ∃ v, t.get? k = some v ∧ (f v).isSome = true := by
  rw [← isSome_get?, get?_sweep hf]
  cases t.get? k with
  | none => simp
  | some v => simp

/-- A sweep that keeps every value changes nothing. -/
theorem sweep_eq_self {f : α → Option α} {t : KeyedTable key}
    (h : ∀ v ∈ t.values, f v = some v) : t.sweep f = t := by
  have hfold (vs : List α) (hvs : ∀ v ∈ vs, v ∈ t.values) :
      vs.foldl (fun t v => t.settle v (f v)) t = t := by
    induction vs with
    | nil => rfl
    | cons v vs ih =>
      have hv := hvs v List.mem_cons_self
      rw [List.foldl_cons, h v hv, settle, put_self (mem_values.mp hv)]
      exact ih fun w hw => hvs w (List.mem_cons_of_mem v hw)
  exact hfold t.values fun _ hv => hv

end KeyedTable

end Ragx
