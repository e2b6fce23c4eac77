import Mathlib.Data.List.Induction
import Mathlib.Data.List.Nodup
import Mathlib.Data.List.Perm.Basic
import Mathlib.Tactic.SplitIfs

/-!
# Insertion-ordered dictionaries

A dictionary iterates in the order in which its keys were first inserted, and
an overwrite keeps the position of the key. The association list carries the
proof that no key occurs twice. `accumulate` is the usual counting loop: it
reads the old value of a key, combines it with the next item and writes it back.
-/
namespace Ragx

/-- The distinct members of a list, each at the place of its first occurrence. -/
def firstSeen {κ : Type*} [DecidableEq κ] (xs : List κ) : List κ :=
  xs.foldl (fun seen k => if k ∈ seen then seen else seen ++ [k]) []

theorem firstSeen_concat {κ : Type*} [DecidableEq κ] (xs : List κ) (k : κ) :
    firstSeen (xs ++ [k]) =
      if k ∈ firstSeen xs then firstSeen xs else firstSeen xs ++ [k] := by
  rw [firstSeen, List.foldl_append]
  rfl

theorem mem_firstSeen {κ : Type*} [DecidableEq κ] {xs : List κ} {k : κ} :
    k ∈ firstSeen xs ↔ k ∈ xs := by
  induction xs using List.reverseRecOn with
  | nil => simp [firstSeen]
  | append_singleton xs x ih =>
    rw [firstSeen_concat, List.mem_append, List.mem_singleton, ← ih]
    split_ifs with hx
    · exact ⟨Or.inl, fun h => h.elim id fun he => he ▸ hx⟩
    · rw [List.mem_append, List.mem_singleton]

theorem firstSeen_nodup {κ : Type*} [DecidableEq κ] (xs : List κ) : (firstSeen xs).Nodup := by
  induction xs using List.reverseRecOn with
  | nil => exact List.nodup_nil
  | append_singleton xs x ih =>
    rw [firstSeen_concat]
    split_ifs with hx
    · exact ih
    · rw [← List.concat_eq_append]
      exact ih.concat hx

theorem firstSeen_of_all_eq {κ : Type*} [DecidableEq κ] {xs : List κ} {k : κ}
    (hne : xs ≠ []) (h : ∀ x ∈ xs, x = k) : firstSeen xs = [k] := by
  induction xs using List.reverseRecOn with
  | nil => exact absurd rfl hne
  | append_singleton xs x ih =>
    have hx : x = k := h x (by simp)
    subst hx
    rw [firstSeen_concat]
    by_cases hnil : xs = []
    · subst hnil
      rfl
    · rw [ih hnil fun y hy => h y (List.mem_append_left _ hy)]
      simp

structure OrderedDict (κ α : Type*) where
  entries : List (κ × α)
  nodup : (entries.map Prod.fst).Nodup

namespace OrderedDict

variable {κ α β : Type*}

def empty : OrderedDict κ α := ⟨[], List.nodup_nil⟩

def keys (d : OrderedDict κ α) : List κ := d.entries.map Prod.fst

def values (d : OrderedDict κ α) : List α := d.entries.map Prod.snd

theorem entries_nodup (d : OrderedDict κ α) : d.entries.Nodup := List.Nodup.of_map _ d.nodup

variable [DecidableEq κ]

/-- First value stored under the key; there is at most one. -/
def lookupIn (k : κ) : List (κ × α) → Option α
  | [] => none
  | e :: es => if e.1 = k then some e.2 else lookupIn k es

/-- Overwrite in place, or append a new last entry. -/
def writeIn (k : κ) (v : α) : List (κ × α) → List (κ × α)
  | [] => [(k, v)]
  | e :: es => if e.1 = k then (k, v) :: es else e :: writeIn k v es

theorem map_fst_writeIn (k : κ) (v : α) (es : List (κ × α)) :
    (writeIn k v es).map Prod.fst =
      if k ∈ es.map Prod.fst then es.map Prod.fst else es.map Prod.fst ++ [k] := by
  induction es with
  | nil => simp [writeIn]
  | cons e es ih =>
    by_cases h : e.1 = k
    · simp [writeIn, h]
    · have hk : ¬ k = e.1 := fun he => h he.symm
      simp only [writeIn, if_neg h, List.map_cons, ih, List.mem_cons, hk, false_or]
      split_ifs <;> simp

theorem lookupIn_writeIn (k k' : κ) (v : α) (es : List (κ × α)) :
    lookupIn k' (writeIn k v es) = if k = k' then some v else lookupIn k' es := by
  induction es with
  | nil => simp [writeIn, lookupIn]
  | cons e es ih =>
    by_cases h : e.1 = k
    · by_cases hk : k = k'
      · simp [writeIn, lookupIn, h, hk]
      · simp [writeIn, lookupIn, h, hk]
    · by_cases hk : k = k'
      · subst hk
        simp [writeIn, lookupIn, h, ih]
      · simp [writeIn, lookupIn, h, ih, hk]

theorem mem_of_mem_writeIn {k : κ} {v : α} {e : κ × α} {es : List (κ × α)}
    (h : e ∈ writeIn k v es) : e = (k, v) ∨ e ∈ es := by
  induction es with
  | nil => exact Or.inl (List.mem_singleton.mp h)
  | cons d es ih =>
    by_cases hd : d.1 = k
    · rw [writeIn, if_pos hd] at h
      exact (List.mem_cons.mp h).imp_right (List.mem_cons_of_mem d)
    · rw [writeIn, if_neg hd] at h
      rcases List.mem_cons.mp h with h | h
      · exact Or.inr (List.mem_cons.mpr (Or.inl h))
      · exact (ih h).imp_right (List.mem_cons_of_mem d)

theorem lookupIn_eq_some {k : κ} {v : α} {es : List (κ × α)}
    (hn : (es.map Prod.fst).Nodup) : lookupIn k es = some v ↔ (k, v) ∈ es := by
  induction es with
  | nil => simp [lookupIn]
  | cons e es ih =>
    obtain ⟨hnot, hrest⟩ := List.nodup_cons.mp hn
    by_cases h : e.1 = k
    · have habs : (k, v) ∉ es := fun hm => hnot (h ▸ List.mem_map_of_mem (f := Prod.fst) hm)
      constructor
      · intro he
        have hv : e.2 = v := by simpa [lookupIn, h] using he
        exact List.mem_cons.mpr (Or.inl (Prod.ext h.symm hv.symm))
      · intro hm
        have he : (k, v) = e := (List.mem_cons.mp hm).resolve_right habs
        simp [lookupIn, ← he]
    · have hne : (k, v) ≠ e := fun he => h (by rw [← he])
      simp [lookupIn, h, ih hrest, hne]

def get? (d : OrderedDict κ α) (k : κ) : Option α := lookupIn k d.entries

def getD (d : OrderedDict κ α) (k : κ) (v : α) : α := (d.get? k).getD v

def insert (d : OrderedDict κ α) (k : κ) (v : α) : OrderedDict κ α where
  entries := writeIn k v d.entries
  nodup := by
    rw [map_fst_writeIn]
    split_ifs with h
    · exact d.nodup
    · exact List.nodup_append.mpr ⟨d.nodup, List.nodup_singleton k, by
        intro a ha b hb hab
        rw [List.mem_singleton.mp hb] at hab
        exact h (hab ▸ ha)⟩

@[simp] theorem get?_empty (k : κ) : (empty : OrderedDict κ α).get? k = none := rfl

theorem get?_insert (d : OrderedDict κ α) (k k' : κ) (v : α) :
    (d.insert k v).get? k' = if k = k' then some v else d.get? k' :=
  lookupIn_writeIn k k' v d.entries

theorem keys_insert (d : OrderedDict κ α) (k : κ) (v : α) :
    (d.insert k v).keys = if k ∈ d.keys then d.keys else d.keys ++ [k] :=
  map_fst_writeIn k v d.entries

theorem mem_entries {d : OrderedDict κ α} {k : κ} {v : α} :
    (k, v) ∈ d.entries ↔ d.get? k = some v :=
  (lookupIn_eq_some d.nodup).symm

theorem lookupIn_filter (p : κ → Bool) (k : κ) (es : List (κ × α)) :
    lookupIn k (es.filter fun e => p e.1) = if p k then lookupIn k es else none := by
  induction es with
  | nil => simp [lookupIn]
  | cons e es ih =>
    by_cases h : e.1 = k
    · subst h
      cases hp : p e.1 <;> simp [lookupIn, hp, ih]
    · cases hp : p e.1 <;> simp [lookupIn, hp, h, ih]

/-- Keeps the entries whose key passes the test. -/
def filterKeys (p : κ → Bool) (d : OrderedDict κ α) : OrderedDict κ α where
  entries := d.entries.filter fun e => p e.1
  nodup := d.nodup.sublist (List.filter_sublist.map Prod.fst)

theorem get?_filterKeys (p : κ → Bool) (d : OrderedDict κ α) (k : κ) :
    (d.filterKeys p).get? k = if p k then d.get? k else none :=
  lookupIn_filter p k d.entries

def erase (d : OrderedDict κ α) (k : κ) : OrderedDict κ α := d.filterKeys (· ≠ k)

/-- Writes the pairs in turn, as a dict literal or `update` does. -/
def update (d : OrderedDict κ α) (pairs : List (κ × α)) : OrderedDict κ α :=
  pairs.foldl (fun d e => d.insert e.1 e.2) d

def ofList (pairs : List (κ × α)) : OrderedDict κ α := empty.update pairs

theorem update_append (d : OrderedDict κ α) (pairs pairs' : List (κ × α)) :
    d.update (pairs ++ pairs') = (d.update pairs).update pairs' :=
  List.foldl_append

theorem mem_entries_update {d : OrderedDict κ α} {pairs : List (κ × α)} {e : κ × α}
    (h : e ∈ (d.update pairs).entries) : e ∈ d.entries ∨ e ∈ pairs := by
  induction pairs generalizing d with
  | nil => exact Or.inl h
  | cons p pairs ih =>
    rcases ih (d := d.insert p.1 p.2) h with h | h
    · exact (mem_of_mem_writeIn h).elim (fun he => Or.inr (he ▸ List.mem_cons_self)) Or.inl
    · exact Or.inr (List.mem_cons_of_mem p h)

theorem mem_entries_ofList {pairs : List (κ × α)} {e : κ × α}
    (h : e ∈ (ofList pairs).entries) : e ∈ pairs :=
  (mem_entries_update h).resolve_left List.not_mem_nil

theorem get?_update_of_not_mem (d : OrderedDict κ α) {pairs : List (κ × α)} {k : κ}
    (h : k ∉ pairs.map Prod.fst) : (d.update pairs).get? k = d.get? k := by
  induction pairs generalizing d with
  | nil => rfl
  | cons p pairs ih =>
    have hk : ¬ p.1 = k := fun he => h (List.mem_cons.mpr (Or.inl he.symm))
    have hrest : k ∉ pairs.map Prod.fst := fun hm => h (List.mem_cons_of_mem _ hm)
    exact (ih (d.insert p.1 p.2) hrest).trans (by rw [get?_insert, if_neg hk])

/-- With distinct keys every pair of a dict literal is kept. -/
theorem get?_update_of_mem (d : OrderedDict κ α) {pairs : List (κ × α)}
    (hn : (pairs.map Prod.fst).Nodup) {k : κ} {v : α} (h : (k, v) ∈ pairs) :
    (d.update pairs).get? k = some v := by
  induction pairs generalizing d with
  | nil => exact absurd h List.not_mem_nil
  | cons p pairs ih =>
    obtain ⟨hnot, hrest⟩ := List.nodup_cons.mp hn
    rcases List.mem_cons.mp h with rfl | h
    · exact (get?_update_of_not_mem (d.insert k v) hnot).trans (by rw [get?_insert, if_pos rfl])
    · exact ih (d.insert p.1 p.2) hrest h

theorem get?_update_entries (d d' : OrderedDict κ α) (k : κ) :
    (d.update d'.entries).get? k = (d'.get? k).or (d.get? k) := by
  cases h : d'.get? k with
  | some v => exact get?_update_of_mem d d'.nodup (mem_entries.mpr h)
  | none =>
    refine get?_update_of_not_mem d fun hmem => ?_
    obtain ⟨e, he, rfl⟩ := List.mem_map.mp hmem
    exact absurd (h.symm.trans (mem_entries.mp he)) nofun

/-- Every key of a dict literal has an entry, which is one of its pairs. -/
theorem exists_get?_update_of_mem (d : OrderedDict κ α) {pairs : List (κ × α)} {k : κ}
    (h : k ∈ pairs.map Prod.fst) :
    ∃ v, (k, v) ∈ pairs ∧ (d.update pairs).get? k = some v := by
  induction pairs using List.reverseRecOn with
  | nil => exact absurd h List.not_mem_nil
  | append_singleton pairs p ih =>
    rw [update, List.foldl_append, List.foldl_cons, List.foldl_nil, get?_insert]
    split_ifs with hk
    · exact ⟨p.2, List.mem_append_right _ (List.mem_singleton.mpr (Prod.ext hk.symm rfl)), rfl⟩
    · rw [List.map_append, List.map_singleton, List.mem_append, List.mem_singleton] at h
      obtain ⟨v, hv, hget⟩ := ih (h.resolve_right fun he => hk he.symm)
      exact ⟨v, List.mem_append_left _ hv, hget⟩

theorem writeIn_of_notMem {k : κ} {v : α} {es : List (κ × α)} (h : k ∉ es.map Prod.fst) :
    writeIn k v es = es ++ [(k, v)] := by
  induction es with
  | nil => rfl
  | cons e es ih =>
    have hne : e.1 ≠ k := fun he => h (List.mem_cons.mpr (Or.inl he.symm))
    rw [writeIn, if_neg hne, ih fun hm => h (List.mem_cons_of_mem _ hm), List.cons_append]

theorem writeIn_of_lookupIn {k : κ} {v old : α} {es : List (κ × α)} (h : lookupIn k es = some old) :
    ∃ front back, es = front ++ (k, old) :: back ∧ writeIn k v es = front ++ (k, v) :: back := by
  induction es with
  | nil => cases h
  | cons e es ih =>
    by_cases hk : e.1 = k
    · have hold : e.2 = old := by simpa [lookupIn, hk] using h
      subst hk hold
      exact ⟨[], es, rfl, if_pos rfl⟩
    · have hrest : lookupIn k es = some old := by simpa [lookupIn, hk] using h
      obtain ⟨front, back, hes, hwrite⟩ := ih hrest
      refine ⟨e :: front, back, by rw [hes, List.cons_append], ?_⟩
      rw [writeIn, if_neg hk, hwrite, List.cons_append]

theorem not_mem_keys {d : OrderedDict κ α} {k : κ} (h : d.get? k = none) : k ∉ d.keys := by
  intro hmem
  obtain ⟨e, he, rfl⟩ := List.mem_map.mp hmem
  have hget := mem_entries.mp (show (e.1, e.2) ∈ d.entries from he)
  simp [h] at hget

/-- An insertion appends a value, or puts it in the place of the key's old one. -/
theorem values_insert_cases (d : OrderedDict κ α) (k : κ) (v : α) :
    (d.get? k = none ∧ (d.insert k v).values = d.values ++ [v]) ∨
      ∃ front old back, d.get? k = some old ∧ d.values = front ++ old :: back ∧
        (d.insert k v).values = front ++ v :: back := by
  cases h : d.get? k with
  | none =>
    have hwrite : (d.insert k v).entries = d.entries ++ [(k, v)] :=
      writeIn_of_notMem (not_mem_keys h)
    exact Or.inl ⟨rfl, by simp [values, hwrite]⟩
  | some old =>
    obtain ⟨front, back, hes, hwrite⟩ := writeIn_of_lookupIn (v := v) h
    refine Or.inr ⟨front.map Prod.snd, old, back.map Prod.snd, rfl, by simp [values, hes], ?_⟩
    have hentries : (d.insert k v).entries = front ++ (k, v) :: back := hwrite
    simp [values, hentries]

theorem erase_of_get?_eq_none {d : OrderedDict κ α} {k : κ} (h : d.get? k = none) :
    d.erase k = d := by
  obtain ⟨es, hn⟩ := d
  have hall : ∀ e ∈ es, decide (e.1 ≠ k) = true := by
    intro e he
    exact decide_eq_true fun hk => not_mem_keys h (hk ▸ List.mem_map_of_mem he)
  simp only [erase, filterKeys, List.filter_eq_self.mpr hall]

/-- What a removal leaves is the rest of the values. -/
theorem values_erase_of_get? {d : OrderedDict κ α} {k : κ} {old : α} (h : d.get? k = some old) :
    ∃ front back, d.values = front ++ old :: back ∧ (d.erase k).values = front ++ back := by
  obtain ⟨front, back, hes, _⟩ := writeIn_of_lookupIn (v := old) h
  have hn := d.nodup
  rw [hes, List.map_append, List.map_cons, List.nodup_middle, List.nodup_cons,
    List.mem_append, not_or] at hn
  have hkeep (es : List (κ × α)) (hnot : k ∉ es.map Prod.fst) :
      es.filter (fun e => decide (e.1 ≠ k)) = es := by
    refine List.filter_eq_self.mpr fun e he => decide_eq_true fun hk => hnot ?_
    exact hk ▸ List.mem_map_of_mem he
  have hentries : (d.erase k).entries = front ++ back := by
    have hfilter : (d.erase k).entries = d.entries.filter fun e => decide (e.1 ≠ k) := rfl
    rw [hfilter, hes, List.filter_append, List.filter_cons, hkeep front hn.1.1, hkeep back hn.1.2]
    simp
  exact ⟨front.map Prod.snd, back.map Prod.snd, by simp [values, hes], by simp [values, hentries]⟩

/-- Overwriting a value with one that agrees in a field leaves the list of this field. -/
theorem map_snd_writeIn {φ : Type*} {p : α → φ} {k : κ} {v old : α} {es : List (κ × α)}
    (h : lookupIn k es = some old) (hp : p v = p old) :
    (writeIn k v es).map (fun e => p e.2) = es.map fun e => p e.2 := by
  induction es with
  | nil => cases h
  | cons e es ih =>
    by_cases hk : e.1 = k
    · have hold : e.2 = old := by simpa [lookupIn, hk] using h
      rw [writeIn, if_pos hk, List.map_cons, List.map_cons, hp, hold]
    · have hrest : lookupIn k es = some old := by simpa [lookupIn, hk] using h
      rw [writeIn, if_neg hk, List.map_cons, List.map_cons, ih hrest]

theorem entries_eq_of_lookupIn {es es' : List (κ × α)} (hk : es.map Prod.fst = es'.map Prod.fst)
    (hn : (es.map Prod.fst).Nodup) (h : ∀ k, lookupIn k es = lookupIn k es') : es = es' := by
  induction es generalizing es' with
  | nil => exact (List.map_eq_nil_iff.mp hk.symm).symm
  | cons e es ih =>
    cases es' with
    | nil => cases hk
    | cons e' es' =>
      obtain ⟨hkey, hrest⟩ := List.cons.inj hk
      obtain ⟨hnot, hn⟩ := List.nodup_cons.mp hn
      have hval : e.2 = e'.2 := by simpa [lookupIn, hkey] using h e.1
      have hhead : e = e' := Prod.ext hkey hval
      subst hhead
      refine congrArg (e :: ·) (ih hrest hn fun k => ?_)
      by_cases hek : e.1 = k
      · have habsent (l : List (κ × α)) (hl : e.1 ∉ l.map Prod.fst) : lookupIn e.1 l = none := by
          induction l with
          | nil => rfl
          | cons x l ihl =>
            rw [List.map_cons, List.mem_cons, not_or] at hl
            rw [lookupIn, if_neg (Ne.symm hl.1)]
            exact ihl hl.2
        rw [← hek, habsent es hnot, habsent es' (hrest ▸ hnot)]
      · simpa [lookupIn, hek] using h k

/-- Two dictionaries with the same keys in the same order and the same values are equal. -/
theorem eq_of_keys_of_get? {d d' : OrderedDict κ α} (hk : d.keys = d'.keys)
    (h : ∀ k, d.get? k = d'.get? k) : d = d' := by
  obtain ⟨es, hn⟩ := d
  obtain ⟨es', hn'⟩ := d'
  obtain rfl : es = es' := entries_eq_of_lookupIn hk hn h
  rfl

/-- Two dictionaries with the same values have the same entries, up to their order. -/
theorem perm_entries_of_get? {d d' : OrderedDict κ α} (h : ∀ k, d.get? k = d'.get? k) :
    d.entries.Perm d'.entries := by
  refine (List.perm_ext_iff_of_nodup d.entries_nodup d'.entries_nodup).mpr fun e => ?_
  obtain ⟨k, v⟩ := e
  rw [mem_entries, mem_entries, h k]

theorem lookupIn_map (g : α → β) (k : κ) (es : List (κ × α)) :
    lookupIn k (es.map fun e => (e.1, g e.2)) = (lookupIn k es).map g := by
  induction es with
  | nil => rfl
  | cons e es ih =>
    by_cases h : e.1 = k
    · simp [lookupIn, h]
    · simp [lookupIn, h, ih]

def mapValues (g : α → β) (d : OrderedDict κ α) : OrderedDict κ β where
  entries := d.entries.map fun e => (e.1, g e.2)
  nodup := by
    rw [List.map_map]
    exact d.nodup

theorem get?_mapValues (g : α → β) (d : OrderedDict κ α) (k : κ) :
    (d.mapValues g).get? k = (d.get? k).map g :=
  lookupIn_map g k d.entries

/-- The counting loop: every item updates the value stored under its key. -/
def accumulate (key : β → κ) (f : Option α → β → α) (d : OrderedDict κ α) (xs : List β) :
    OrderedDict κ α :=
  xs.foldl (fun d x => d.insert (key x) (f (d.get? (key x)) x)) d

variable (key : β → κ) (f : Option α → β → α)

theorem accumulate_append (d : OrderedDict κ α) (xs ys : List β) :
    accumulate key f d (xs ++ ys) = accumulate key f (accumulate key f d xs) ys :=
  List.foldl_append

/-- The keys of a counting loop stand in the order of their first occurrence. -/
theorem keys_accumulate_empty (xs : List β) :
    (accumulate key f empty xs).keys = firstSeen (xs.map key) := by
  induction xs using List.reverseRecOn with
  | nil => rfl
  | append_singleton xs x ih =>
    rw [accumulate_append, List.map_append, List.map_singleton, firstSeen_concat, ← ih]
    exact keys_insert _ _ _

/-- Only the items that carry a key contribute to its value. -/
theorem get?_accumulate (d : OrderedDict κ α) (xs : List β) (k : κ) :
    (accumulate key f d xs).get? k =
      (xs.filter fun x => decide (key x = k)).foldl (fun old x => some (f old x)) (d.get? k) := by
  induction xs generalizing d with
  | nil => rfl
  | cons x xs ih =>
    have hstep : accumulate key f d (x :: xs) =
        accumulate key f (d.insert (key x) (f (d.get? (key x)) x)) xs := rfl
    rw [hstep, ih, get?_insert]
    by_cases h : key x = k
    · subst h
      simp
    · simp [h]

/-- Items with distinct keys become the entries of the dictionary. -/
theorem entries_accumulate_of_nodup {xs : List β} (hn : (xs.map key).Nodup) :
    (accumulate key f empty xs).entries = xs.map fun x => (key x, f none x) := by
  induction xs using List.reverseRecOn with
  | nil => rfl
  | append_singleton xs x ih =>
    rw [List.map_append, List.nodup_append] at hn
    have hrest := ih hn.1
    have hkeys : (accumulate key f empty xs).entries.map Prod.fst = xs.map key := by
      rw [hrest, List.map_map]
      rfl
    have hnew : key x ∉ (accumulate key f empty xs).entries.map Prod.fst := by
      rw [hkeys]
      exact fun hm => hn.2.2 (key x) hm (key x) (by simp) rfl
    have hnone : (accumulate key f empty xs).get? (key x) = none := by
      rw [Option.eq_none_iff_forall_ne_some]
      exact fun v hv => hnew (List.mem_map_of_mem (f := Prod.fst) (mem_entries.mpr hv))
    rw [accumulate_append]
    refine (writeIn_of_notMem hnew).trans ?_
    rw [hnone, hrest, List.map_append]
    rfl

theorem keys_accumulate_of_subset {d : OrderedDict κ α} {xs : List β}
    (h : ∀ x ∈ xs, key x ∈ d.keys) : (accumulate key f d xs).keys = d.keys := by
  induction xs using List.reverseRecOn with
  | nil => rfl
  | append_singleton xs x ih =>
    have hkeys := ih fun y hy => h y (List.mem_append_left _ hy)
    rw [accumulate_append]
    refine (keys_insert _ _ _).trans ?_
    rw [hkeys, if_pos (h x (List.mem_append_right _ (List.mem_singleton.mpr rfl)))]

/-- A loop whose items overwrite all but what the first item of a key left changes nothing
when it runs again. -/
theorem accumulate_accumulate_empty {f : Option α → β → α}
    (hself : ∀ x, f (some (f none x)) x = f none x)
    (habsorb : ∀ v x y, f (some (f (some v) x)) y = f (some v) y) (xs : List β) :
    accumulate key f (accumulate key f empty xs) xs = accumulate key f empty xs := by
  refine eq_of_keys_of_get? (keys_accumulate_of_subset key f fun x hx => ?_) fun k => ?_
  · rw [keys_accumulate_empty]
    exact mem_firstSeen.mpr (List.mem_map_of_mem hx)
  · rw [get?_accumulate, get?_accumulate, get?_empty]
    have hlast (v : α) (ys : List β) (z : β) :
        f (ys.foldl (fun old x => some (f old x)) (some v)) z = f (some v) z := by
      induction ys generalizing v with
      | nil => rfl
      | cons y ys ih => exact (ih (f (some v) y)).trans (habsorb v y z)
    generalize (xs.filter fun x => decide (key x = k)) = ys
    induction ys using List.reverseRecOn with
    | nil => rfl
    | append_singleton ys z _ =>
      simp only [List.foldl_append, List.foldl_cons, List.foldl_nil, hlast]
      cases h : ys.foldl (fun old x => some (f old x)) none with
      | none => rw [hself]
      | some v => rw [habsorb]

/-- A value read off a counting loop's entries is the fold over its key's items. -/
theorem entry_of_accumulate {xs : List β} {e : κ × α}
    (he : e ∈ (accumulate key f empty xs).entries) :
    some e.2 = (xs.filter fun x => decide (key x = e.1)).foldl
      (fun old x => some (f old x)) none := by
  have h := mem_entries.mp (show (e.1, e.2) ∈ (accumulate key f empty xs).entries from he)
  rw [get?_accumulate] at h
  exact h.symm

end OrderedDict
end Ragx
