import Mathlib.Algebra.Order.Ring.Rat
import Mathlib.Data.List.Basic
import Ragx.OrderedDict

/-!
# The exact cache

A key-value cache with expiry in process memory. Full keys name the
knowledge base and its epoch, so that bumping the epoch makes everything stored
before unreachable. Full keys of different knowledge bases or epochs never
coincide, as long as the last part has no separator in it.
-/
namespace Ragx

structure InMemoryExactCache where
  nspace : String := "ragx_semantic_cache"
  ttlS : ℤ := 86400
  /-- Full key to expiry time and value. -/
  entries : OrderedDict String (ℚ × String) := .empty
  epochs : OrderedDict String ℕ := .empty

namespace InMemoryExactCache

def fullKey (cache : InMemoryExactCache) (kbId : String) (epoch : ℕ) (key : String) : String :=
  cache.nspace ++ ":" ++ kbId ++ ":" ++ epoch.repr ++ ":" ++ key

/-- An expired entry is dropped when it is read. -/
def get (cache : InMemoryExactCache) (now : ℚ) (key kbId : String) (epoch : ℕ) :
    Option String × InMemoryExactCache :=
  match cache.entries.get? (cache.fullKey kbId epoch key) with
  | none => (none, cache)
  | some (expiresAt, value) =>
    if expiresAt < now then
      (none, { cache with entries := cache.entries.erase (cache.fullKey kbId epoch key) })
    else (some value, cache)

def set (cache : InMemoryExactCache) (now : ℚ) (key value kbId : String) (epoch : ℕ)
    (ttl : Option ℤ) : InMemoryExactCache :=
  { cache with
    entries := cache.entries.insert (cache.fullKey kbId epoch key)
      (now + ttl.getD cache.ttlS, value) }

def getEpoch (cache : InMemoryExactCache) (kbId : String) : ℕ := (cache.epochs.get? kbId).getD 1

/-- `text.startswith(start)`. -/
def startsWithText (start text : String) : Bool := start.toList.isPrefixOf text.toList

/-- Bumps the epoch; entries whose key starts like the knowledge base's but not like its
new epoch's are freed. -/
def invalidateKb (cache : InMemoryExactCache) (kbId : String) : InMemoryExactCache :=
  let newEpoch := cache.getEpoch kbId + 1
  let start := cache.nspace ++ ":" ++ kbId ++ ":"
  let current := start ++ newEpoch.repr ++ ":"
  { cache with
    entries := cache.entries.filterKeys fun k =>
      !(startsWithText start k && !startsWithText current k)
    epochs := cache.epochs.insert kbId newEpoch }

/-- A list is cut in one way at its last separator. -/
theorem append_sep_inj {α : Type*} {xs ys xs' ys' : List α} {sep : α} (hy : sep ∉ ys)
    (hy' : sep ∉ ys') (h : xs ++ sep :: ys = xs' ++ sep :: ys') : xs = xs' ∧ ys = ys' := by
  induction xs generalizing xs' with
  | nil =>
    cases xs' with
    | nil => exact ⟨rfl, (List.cons.inj h).2⟩
    | cons x' xs' => exact absurd ((List.cons.inj h).2 ▸ by simp) hy
  | cons x xs ih =>
    cases xs' with
    | nil => exact absurd ((List.cons.inj h).2 ▸ by simp) hy'
    | cons x' xs' =>
      obtain ⟨rfl, htail⟩ := List.cons.inj h
      obtain ⟨rfl, rfl⟩ := ih htail
      exact ⟨rfl, rfl⟩

theorem repr_inj {m n : ℕ} (h : m.repr = n.repr) : m = n := by
  have hdigits : Nat.toDigits 10 m = Nat.toDigits 10 n := by
    rw [← Nat.toList_repr, ← Nat.toList_repr, h]
  rw [← Nat.ofDigitChars_ten_toDigits (n := m), hdigits, Nat.ofDigitChars_ten_toDigits]

theorem colon_notMem_repr (n : ℕ) : ':' ∉ n.repr.toList := by
  intro h
  rw [Nat.toList_repr] at h
  have hdigit := Nat.isDigit_of_mem_toDigits (by decide) (by decide) h
  exact absurd hdigit (by decide)

theorem toList_fullKey (cache : InMemoryExactCache) (kbId : String) (epoch : ℕ) (key : String) :
    (cache.fullKey kbId epoch key).toList =
      ((cache.nspace.toList ++ ':' :: kbId.toList) ++ ':' :: epoch.repr.toList) ++
        ':' :: key.toList := by
  simp [fullKey]

/-- A full key tells knowledge base, epoch and key apart, whatever characters the
knowledge base id has. -/
theorem fullKey_inj {cache : InMemoryExactCache} {kbId kbId' : String} {epoch epoch' : ℕ}
    {key key' : String} (hk : ':' ∉ key.toList) (hk' : ':' ∉ key'.toList)
    (h : cache.fullKey kbId epoch key = cache.fullKey kbId' epoch' key') :
    kbId = kbId' ∧ epoch = epoch' ∧ key = key' := by
  have hchars := congrArg String.toList h
  rw [toList_fullKey, toList_fullKey] at hchars
  obtain ⟨hfront, hkey⟩ := append_sep_inj hk hk' hchars
  obtain ⟨hkb, hepoch⟩ :=
    append_sep_inj (colon_notMem_repr epoch) (colon_notMem_repr epoch') hfront
  have hkb' : kbId.toList = kbId'.toList := by simpa using hkb
  exact ⟨String.toList_inj.mp hkb', repr_inj (String.toList_inj.mp hepoch),
    String.toList_inj.mp hkey⟩

/-- A read returns a stored value that has not expired. -/
theorem get_eq_some {cache : InMemoryExactCache} {now : ℚ} {key kbId : String} {epoch : ℕ}
    {value : String} (h : (cache.get now key kbId epoch).1 = some value) :
    ∃ expiresAt, cache.entries.get? (cache.fullKey kbId epoch key) = some (expiresAt, value) ∧
      now ≤ expiresAt := by
  unfold get at h
  split at h
  · cases h
  · rename_i expiresAt stored hstored
    split_ifs at h with hlt
    cases h
    exact ⟨expiresAt, hstored, not_lt.mp hlt⟩

@[simp]
theorem nspace_get (cache : InMemoryExactCache) (now : ℚ) (key kbId : String) (epoch : ℕ) :
    (cache.get now key kbId epoch).2.nspace = cache.nspace := by
  unfold get
  split
  · rfl
  · split_ifs <;> rfl

@[simp]
theorem epochs_get (cache : InMemoryExactCache) (now : ℚ) (key kbId : String) (epoch : ℕ) :
    (cache.get now key kbId epoch).2.epochs = cache.epochs := by
  unfold get
  split
  · rfl
  · split_ifs <;> rfl

/-- Reading drops entries and never adds or changes one. -/
theorem entry_of_get {cache : InMemoryExactCache} {now : ℚ} {key kbId : String} {epoch : ℕ}
    {k : String} {entry : ℚ × String}
    (h : (cache.get now key kbId epoch).2.entries.get? k = some entry) :
    cache.entries.get? k = some entry := by
  unfold get at h
  split at h
  · exact h
  · split_ifs at h
    · rw [OrderedDict.erase, OrderedDict.get?_filterKeys] at h
      split_ifs at h
      exact h
    · exact h

theorem entry_of_set {cache : InMemoryExactCache} {now : ℚ} {key value kbId : String}
    {epoch : ℕ} {ttl : Option ℤ} {k : String} {entry : ℚ × String}
    (h : (cache.set now key value kbId epoch ttl).entries.get? k = some entry) :
    (k = cache.fullKey kbId epoch key ∧ entry = (now + ttl.getD cache.ttlS, value)) ∨
      cache.entries.get? k = some entry := by
  rw [set, OrderedDict.get?_insert] at h
  split_ifs at h with hk
  · cases h
    exact Or.inl ⟨hk.symm, rfl⟩
  · exact Or.inr h

theorem entry_of_invalidateKb {cache : InMemoryExactCache} {kbId k : String}
    {entry : ℚ × String} (h : (cache.invalidateKb kbId).entries.get? k = some entry) :
    cache.entries.get? k = some entry := by
  rw [invalidateKb, OrderedDict.get?_filterKeys] at h
  split_ifs at h
  exact h

theorem getEpoch_invalidateKb (cache : InMemoryExactCache) (kbId other : String) :
    (cache.invalidateKb kbId).getEpoch other =
      if kbId = other then cache.getEpoch other + 1 else cache.getEpoch other := by
  rw [getEpoch, invalidateKb, OrderedDict.get?_insert]
  split_ifs with h
  · subst h
    rfl
  · rfl

end InMemoryExactCache

/-! ## Calls

The drivers share their interface: single and batched reads and writes under an epoch, and the
epoch itself. A call takes place at one time. -/

inductive CacheCall where
  | get (key kbId : String) (epoch : ℕ)
  | set (key value kbId : String) (epoch : ℕ) (ttl : Option ℤ)
  | delete (key kbId : String) (epoch : ℕ)
  | getMany (keys : List String) (kbId : String) (epoch : ℕ)
  | setMany (items : List (String × String)) (kbId : String) (epoch : ℕ) (ttl : Option ℤ)
  | getEpoch (kbId : String)
  | invalidateKb (kbId : String)

inductive CacheReply where
  | value (v : Option String)
  | values (vs : List (Option String))
  | stored (ok : Bool)
  | deleted
  | epoch (n : ℕ)
  | invalidated (ok : Bool)
deriving DecidableEq, Repr

namespace InMemoryExactCache

def delete (cache : InMemoryExactCache) (key kbId : String) (epoch : ℕ) : InMemoryExactCache :=
  { cache with entries := cache.entries.erase (cache.fullKey kbId epoch key) }

def getMany (now : ℚ) (kbId : String) (epoch : ℕ) (cache : InMemoryExactCache) :
    List String → List (Option String) × InMemoryExactCache
  | [] => ([], cache)
  | key :: keys =>
    let (value, cache') := cache.get now key kbId epoch
    let (values, cache'') := getMany now kbId epoch cache' keys
    (value :: values, cache'')

def setMany (cache : InMemoryExactCache) (now : ℚ) (items : List (String × String))
    (kbId : String) (epoch : ℕ) (ttl : Option ℤ) : InMemoryExactCache :=
  items.foldl (fun cache item => cache.set now item.1 item.2 kbId epoch ttl) cache

def call (now : ℚ) (cache : InMemoryExactCache) : CacheCall → CacheReply × InMemoryExactCache
  | .get key kbId epoch =>
    let (value, cache') := cache.get now key kbId epoch
    (.value value, cache')
  | .set key value kbId epoch ttl => (.stored true, cache.set now key value kbId epoch ttl)
  | .delete key kbId epoch => (.deleted, cache.delete key kbId epoch)
  | .getMany keys kbId epoch =>
    let (values, cache') := getMany now kbId epoch cache keys
    (.values values, cache')
  | .setMany items kbId epoch ttl => (.stored true, cache.setMany now items kbId epoch ttl)
  | .getEpoch kbId => (.epoch (cache.getEpoch kbId), cache)
  | .invalidateKb kbId => (.invalidated true, cache.invalidateKb kbId)

/-- The states that calls lead to from an empty cache. -/
def Reachable (nspace : String) (ttlS : ℤ) (cache : InMemoryExactCache) : Prop :=
  ∃ calls : List (ℚ × CacheCall),
    cache = calls.foldl (fun cache e => (cache.call e.1 e.2).2) { nspace, ttlS }

@[simp]
theorem getEpoch_set (cache : InMemoryExactCache) (now : ℚ) (key value kbId : String) (epoch : ℕ)
    (ttl : Option ℤ) (other : String) :
    (cache.set now key value kbId epoch ttl).getEpoch other = cache.getEpoch other := rfl

/-- A read depends on the entry under its full key only. -/
theorem get_congr {cache cache' : InMemoryExactCache} {now : ℚ} {key kbId : String} {epoch : ℕ}
    (hspace : cache'.nspace = cache.nspace)
    (h : cache'.entries.get? (cache.fullKey kbId epoch key) =
      cache.entries.get? (cache.fullKey kbId epoch key)) :
    (cache'.get now key kbId epoch).1 = (cache.get now key kbId epoch).1 := by
  have hkey : cache'.fullKey kbId epoch key = cache.fullKey kbId epoch key := by
    rw [fullKey, fullKey, hspace]
  unfold get
  rw [hkey, h]
  split
  · rfl
  · split_ifs <;> rfl

end InMemoryExactCache

end Ragx
