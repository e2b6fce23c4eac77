import Ragx.CacheFrames
import Ragx.RedisCache

/-!
# What the cache drivers read

For ids without separators, one lemma for each operation of a driver says what a later read
returns. All reads and writes are under one epoch.
-/
namespace Ragx

/-- An id without separators and pattern characters. -/
@[ext]
structure KbId where
  id : String
  colon_notMem : ':' ∉ id.toList
  globFree : GlobFree id
deriving DecidableEq

section Segments

variable {α : Type*} {sep : α} {xs ys : List α}

/-- Up to the first separator, a prefix agrees with the whole. -/
theorem append_sep_prefix_iff (hx : sep ∉ xs) (hy : sep ∉ ys) (as bs : List α) :
    xs ++ sep :: as <+: ys ++ sep :: bs ↔ xs = ys ∧ as <+: bs := by
  induction xs generalizing ys with
  | nil =>
    cases ys with
    | nil => simp
    | cons y ys =>
      have hne : sep ≠ y := fun heq => hy (heq ▸ List.mem_cons_self)
      simp [hne]
  | cons x xs ih =>
    cases ys with
    | nil =>
      have hne : x ≠ sep := fun heq => hx (heq ▸ List.mem_cons_self)
      simp [hne]
    | cons y ys =>
      have htail := ih (fun h => hx (List.mem_cons_of_mem _ h))
        (fun h => hy (List.mem_cons_of_mem _ h))
      rw [List.cons_append, List.cons_append, List.cons_prefix_cons, htail, List.cons.injEq]
      exact and_assoc.symm

end Segments

section Keys

variable (nspace : String) (kb kb' : KbId) (epoch epoch' : ℕ) (key key' : String)

theorem kb_prefix_iff :
    (nspace ++ ":" ++ kb.id ++ ":").toList <+:
        (nspace ++ ":" ++ kb'.id ++ ":" ++ epoch'.repr ++ ":" ++ key').toList ↔ kb = kb' := by
  have hsegments := append_sep_prefix_iff kb.colon_notMem kb'.colon_notMem []
    (epoch'.repr.toList ++ ':' :: key'.toList)
  rw [KbId.ext_iff, ← String.toList_inj]
  simpa using hsegments

theorem epoch_prefix_iff :
    (nspace ++ ":" ++ kb.id ++ ":" ++ epoch.repr ++ ":").toList <+:
        (nspace ++ ":" ++ kb'.id ++ ":" ++ epoch'.repr ++ ":" ++ key').toList ↔
      kb = kb' ∧ epoch = epoch' := by
  have hkb := append_sep_prefix_iff kb.colon_notMem kb'.colon_notMem (epoch.repr.toList ++ [':'])
    (epoch'.repr.toList ++ ':' :: key'.toList)
  have hepoch := append_sep_prefix_iff (InMemoryExactCache.colon_notMem_repr epoch)
    (InMemoryExactCache.colon_notMem_repr epoch') [] key'.toList
  have hrepr : epoch.repr.toList = epoch'.repr.toList ↔ epoch = epoch' :=
    ⟨fun h => InMemoryExactCache.repr_inj (String.toList_inj.mp h), fun h => by rw [h]⟩
  rw [hepoch, hrepr, String.toList_inj, ← KbId.ext_iff] at hkb
  simpa using hkb

theorem entryKey_inj_iff :
    nspace ++ ":" ++ kb.id ++ ":" ++ epoch.repr ++ ":" ++ key =
        nspace ++ ":" ++ kb'.id ++ ":" ++ epoch.repr ++ ":" ++ key' ↔ kb = kb' ∧ key = key' := by
  constructor
  · intro h
    obtain rfl := (kb_prefix_iff nspace kb kb' epoch key').mp (by rw [← h]; simp)
    refine ⟨rfl, String.toList_inj.mp ?_⟩
    simpa [← String.toList_inj] using h
  · rintro ⟨rfl, rfl⟩
    rfl

/-- No prefix of entries is one of an epoch counter. -/
theorem not_prefix_epochKey :
    ¬(nspace ++ ":" ++ kb.id ++ ":" ++ epoch.repr ++ ":").toList <+:
      (nspace ++ ":epoch:" ++ kb'.id).toList := by
  intro h
  have hepoch : ':' ∉ "epoch".toList := by decide
  have hkb := append_sep_prefix_iff kb.colon_notMem hepoch (epoch.repr.toList ++ [':'])
    kb'.id.toList
  have hrest := (hkb.mp (by simpa using h)).2
  exact kb'.colon_notMem (hrest.subset (by simp))

end Keys

/-- The value that the last of several items gives a key. -/
def lastValue (key : String) : List (String × String) → Option String
  | [] => none
  | (key', value) :: items =>
    (lastValue key items).or (if key' = key then some value else none)

/-! ## The driver in memory -/

namespace InMemoryExactCache

/-- A read is the entry, unless it has expired. -/
theorem get_fst (cache cache' : InMemoryExactCache) (h : cache'.nspace = cache.nspace) (now : ℚ)
    (key kbId : String) (epoch : ℕ) :
    (cache'.get now key kbId epoch).1 =
      (cache'.entries.get? (cache.fullKey kbId epoch key)).bind fun entry =>
        if entry.1 < now then none else some entry.2 := by
  have hkey : cache'.fullKey kbId epoch key = cache.fullKey kbId epoch key := by
    rw [fullKey, fullKey, h]
  unfold get
  rw [hkey]
  cases cache'.entries.get? (cache.fullKey kbId epoch key) with
  | none => rfl
  | some entry =>
    dsimp only [Option.bind_some]
    split_ifs <;> rfl

variable (cache : InMemoryExactCache) {now now' : ℚ}

theorem get_delete (key kbId key' kbId' : String) (epoch epoch' : ℕ) :
    ((cache.delete key kbId epoch).get now key' kbId' epoch').1 =
      if cache.fullKey kbId' epoch' key' = cache.fullKey kbId epoch key then none
      else (cache.get now key' kbId' epoch').1 := by
  rw [get_fst cache (cache.delete key kbId epoch) rfl, get_fst cache cache rfl, delete,
    OrderedDict.erase, OrderedDict.get?_filterKeys]
  split_ifs <;> simp_all

/-- A read leaves the cache alone or drops the entry, which has expired. -/
theorem get_snd (key kbId : String) (epoch : ℕ) :
    (cache.get now key kbId epoch).2 = cache ∨
      (cache.get now key kbId epoch).2 = cache.delete key kbId epoch ∧
        ∃ entry, cache.entries.get? (cache.fullKey kbId epoch key) = some entry ∧
          entry.1 < now := by
  unfold get
  cases hentry : cache.entries.get? (cache.fullKey kbId epoch key) with
  | none => exact Or.inl rfl
  | some entry =>
    dsimp only
    split_ifs with hexpired
    · exact Or.inr ⟨rfl, entry, rfl, hexpired⟩
    · exact Or.inl rfl

/-- What a read drops would not be read later. -/
theorem get_get (h : now ≤ now') (key kbId key' kbId' : String) (epoch epoch' : ℕ) :
    ((cache.get now key kbId epoch).2.get now' key' kbId' epoch').1 =
      (cache.get now' key' kbId' epoch').1 := by
  rcases cache.get_snd key kbId epoch with heq | ⟨heq, entry, hentry, hexpired⟩
  · rw [heq]
  · rw [heq, get_delete]
    split_ifs with hkey
    · rw [get_fst cache cache rfl, hkey, hentry]
      simp [hexpired.trans_le h]
    · rfl

/-- Two states that differ in their entries at most. -/
structure SameButEntries (cache cache' : InMemoryExactCache) : Prop where
  nspace_eq : cache'.nspace = cache.nspace
  ttlS_eq : cache'.ttlS = cache.ttlS
  epochs_eq : cache'.epochs = cache.epochs

theorem SameButEntries.trans {cache cache' cache'' : InMemoryExactCache}
    (h : SameButEntries cache cache') (h' : SameButEntries cache' cache'') :
    SameButEntries cache cache'' :=
  ⟨h'.nspace_eq.trans h.nspace_eq, h'.ttlS_eq.trans h.ttlS_eq, h'.epochs_eq.trans h.epochs_eq⟩

theorem sameButEntries_get (key kbId : String) (epoch : ℕ) :
    SameButEntries cache (cache.get now key kbId epoch).2 := by
  rcases cache.get_snd key kbId epoch with h | ⟨h, _⟩ <;> rw [h] <;> exact ⟨rfl, rfl, rfl⟩

theorem sameButEntries_getMany (keys : List String) (kbId : String) (epoch : ℕ) :
    SameButEntries cache (getMany now kbId epoch cache keys).2 := by
  induction keys generalizing cache with
  | nil => exact ⟨rfl, rfl, rfl⟩
  | cons key keys ih => exact (cache.sameButEntries_get key kbId epoch).trans (ih _)

theorem sameButEntries_setMany (items : List (String × String)) (kbId : String) (epoch : ℕ)
    (ttl : Option ℤ) : SameButEntries cache (cache.setMany now items kbId epoch ttl) := by
  induction items generalizing cache with
  | nil => exact ⟨rfl, rfl, rfl⟩
  | cons item items ih =>
    have hset : SameButEntries cache (cache.set now item.1 item.2 kbId epoch ttl) := ⟨rfl, rfl, rfl⟩
    exact hset.trans (ih _)

theorem getMany_fst (keys : List String) (kbId : String) (epoch : ℕ) :
    (getMany now kbId epoch cache keys).1 =
      keys.map fun key => (cache.get now key kbId epoch).1 := by
  induction keys generalizing cache with
  | nil => rfl
  | cons key keys ih =>
    rw [getMany, List.map_cons]
    dsimp only
    rw [ih]
    exact congrArg _ (List.map_congr_left fun key' _ => cache.get_get le_rfl ..)

theorem get_getMany (h : now ≤ now') (keys : List String) (kbId key' kbId' : String)
    (epoch epoch' : ℕ) :
    ((getMany now kbId epoch cache keys).2.get now' key' kbId' epoch').1 =
      (cache.get now' key' kbId' epoch').1 := by
  induction keys generalizing cache with
  | nil => rfl
  | cons key keys ih => exact (ih _).trans (cache.get_get h ..)

variable (now now') (kb kb' : KbId) (epoch : ℕ) (key key' value : String) (ttl : Option ℤ)

theorem fullKey_inj_iff :
    cache.fullKey kb.id epoch key = cache.fullKey kb'.id epoch key' ↔ kb = kb' ∧ key = key' :=
  entryKey_inj_iff cache.nspace kb kb' epoch key key'

theorem get_delete_iff :
    ((cache.delete key kb.id epoch).get now key' kb'.id epoch).1 =
      if kb = kb' ∧ key = key' then none else (cache.get now key' kb'.id epoch).1 := by
  simp only [← cache.fullKey_inj_iff kb kb' epoch key key',
    @eq_comm _ (cache.fullKey kb.id epoch key)]
  exact cache.get_delete ..

theorem get_set_iff :
    ((cache.set now key value kb.id epoch ttl).get now' key' kb'.id epoch).1 =
      if kb = kb' ∧ key = key' then
        if now + ttl.getD cache.ttlS < now' then none else some value
      else (cache.get now' key' kb'.id epoch).1 := by
  by_cases hkey : kb = kb' ∧ key = key'
  · rw [if_pos hkey]
    obtain ⟨rfl, rfl⟩ := hkey
    rw [get_fst cache (cache.set now key value kb.id epoch ttl) rfl, set, OrderedDict.get?_insert,
      if_pos rfl]
    rfl
  · rw [if_neg hkey]
    exact get_set (mt (cache.fullKey_inj_iff kb kb' epoch key key').mp hkey)

theorem get_setMany (items : List (String × String)) :
    ((cache.setMany now items kb.id epoch ttl).get now' key' kb'.id epoch).1 =
      match if kb = kb' then lastValue key' items else none with
      | some value => if now + ttl.getD cache.ttlS < now' then none else some value
      | none => (cache.get now' key' kb'.id epoch).1 := by
  induction items generalizing cache with
  | nil =>
    rw [lastValue, ite_self]
    rfl
  | cons item items ih =>
    have hset := cache.get_set_iff now now' kb kb' epoch item.1 key' item.2 ttl
    rw [show cache.setMany now (item :: items) kb.id epoch ttl =
      (cache.set now item.1 item.2 kb.id epoch ttl).setMany now items kb.id epoch ttl from rfl, ih,
      hset, lastValue]
    by_cases hkb : kb = kb'
    · cases lastValue key' items <;> by_cases hk : item.1 = key' <;> simp [hkb, hk, set]
    · simp [hkb]

theorem get_invalidateKb_iff :
    ((cache.invalidateKb kb.id).get now key kb'.id epoch).1 =
      if kb = kb' ∧ cache.getEpoch kb.id + 1 ≠ epoch then none
      else (cache.get now key kb'.id epoch).1 := by
  have hstart := kb_prefix_iff cache.nspace kb kb' epoch key
  have hcurrent := epoch_prefix_iff cache.nspace kb kb' (cache.getEpoch kb.id + 1) epoch key
  split_ifs with hdropped
  · refine get_invalidateKb_eq_none (hstart.mpr hdropped.1) fun h => ?_
    exact hdropped.2 (hcurrent.mp h).2
  · exact get_invalidateKb fun hin => hcurrent.mpr ⟨hstart.mp hin,
      of_not_not fun hne => hdropped ⟨hstart.mp hin, hne⟩⟩

end InMemoryExactCache

/-! ## The driver in Redis -/

theorem globFree_append {front back : String} (hf : GlobFree front) (hb : GlobFree back) :
    GlobFree (front ++ back) := by
  intro c hc
  rw [String.toList_append] at hc
  exact (List.mem_append.mp hc).elim (hf c) (hb c)

theorem globFree_repr (n : ℕ) : GlobFree n.repr := by
  intro c hc hglob
  rw [Nat.toList_repr] at hc
  have hdigit := Nat.isDigit_of_mem_toDigits (by decide) (by decide) hc
  have hnone : globChars.all (!·.isDigit) = true := rfl
  simpa [hdigit] using List.all_eq_true.mp hnone c hglob

namespace RedisCache

variable (cache : RedisCache) {now now' : ℚ}

theorem lookup_congr {cache cache' : RedisCache} (hserver : cache'.server = cache.server)
    {k : String}
    (h : cache'.keyspace.get? k = cache.keyspace.get? k) :
    cache'.lookup now k = cache.lookup now k := by
  rw [lookup, h, hserver, lookup]

theorem lookup_setex (k k' value : String) (ttl : ℤ) :
    (cache.setex now k ttl value).lookup now' k' =
      if k = k' then if cache.server.expired now ttl now' then none else some (.text value)
      else cache.lookup now' k' := by
  rw [lookup, setex, OrderedDict.get?_insert]
  by_cases hk : k = k'
  · cases hexpired : cache.server.expired now ttl now' <;> simp [hk, hexpired, Option.filter]
  · rw [if_neg hk, if_neg hk]
    rfl

theorem lookup_erase (k k' : String) :
    lookup { cache with keyspace := cache.keyspace.erase k } now k' =
      if k = k' then none else cache.lookup now k' := by
  rw [lookup, OrderedDict.erase, OrderedDict.get?_filterKeys]
  by_cases hk : k = k'
  · simp [hk]
  · rw [if_neg hk, if_pos (decide_eq_true (Ne.symm hk))]
    rfl

theorem get?_scanDelete {start : String} (hstart : GlobFree start) (k : String) :
    (cache.scanDelete start).keyspace.get? k =
      if (start ++ ":").toList <+: k.toList then none else cache.keyspace.get? k := by
  have hcolon : GlobFree (start ++ ":") := globFree_append hstart (by decide)
  have hmatch := cache.server.globMatch_star (start ++ ":") k hcolon
  rw [String.append_assoc] at hmatch
  rw [scanDelete, OrderedDict.get?_filterKeys]
  split_ifs with hkept hpre hpre
  · exact absurd (hmatch.mpr hpre) (by simpa using hkept)
  · rfl
  · rfl
  · exact absurd (by simpa using hkept) (mt hmatch.mp hpre)

variable (now now') (kb kb' : KbId) (epoch : ℕ) (key key' value : String) (ttl : Option ℤ)

theorem fullKey_inj_iff :
    cache.fullKey kb.id epoch key = cache.fullKey kb'.id epoch key' ↔ kb = kb' ∧ key = key' :=
  entryKey_inj_iff cache.nspace kb kb' epoch key key'

theorem get_delete :
    (cache.delete key kb.id epoch).get now key' kb'.id epoch =
      if kb = kb' ∧ key = key' then none else cache.get now key' kb'.id epoch := by
  simp only [← cache.fullKey_inj_iff kb kb' epoch key key']
  rw [get, delete, lookup_erase, apply_ite (Option.map _)]
  rfl

theorem get_setex (ttl : ℤ) :
    (cache.setex now (cache.fullKey kb.id epoch key) ttl value).get now' key' kb'.id epoch =
      if kb = kb' ∧ key = key' then if cache.server.expired now ttl now' then none else some value
      else cache.get now' key' kb'.id epoch := by
  simp only [← cache.fullKey_inj_iff kb kb' epoch key key']
  rw [get, lookup_setex, apply_ite (Option.map _), apply_ite (Option.map _)]
  rfl

theorem fullKey_ne_epochKey : cache.fullKey kb.id epoch key ≠ cache.epochKey kb'.id := by
  intro h
  refine not_prefix_epochKey cache.nspace kb kb' epoch ?_
  rw [← epochKey, ← h, fullKey]
  simp

theorem set_eq (h : 0 < ttl.getD cache.ttlS) :
    cache.set now key value kb.id epoch ttl =
      (true, cache.setex now (cache.fullKey kb.id epoch key) (ttl.getD cache.ttlS) value) :=
  if_neg (not_le.mpr h)

theorem setMany_eq (h : 0 < ttl.getD cache.ttlS) (items : List (String × String)) :
    cache.setMany now items kb.id epoch ttl =
      (true, items.foldl (fun c item =>
        c.setex now (c.fullKey kb.id epoch item.1) (ttl.getD cache.ttlS) item.2) cache) := by
  cases items with
  | nil => rfl
  | cons item items =>
    unfold setMany
    dsimp only [List.isEmpty_cons]
    rw [if_neg Bool.false_ne_true, if_neg (not_le.mpr h)]

theorem get_setexMany (ttl : ℤ) (items : List (String × String)) :
    (items.foldl (fun cache item =>
        cache.setex now (cache.fullKey kb.id epoch item.1) ttl item.2) cache).get
        now' key' kb'.id epoch =
      match if kb = kb' then lastValue key' items else none with
      | some value => if cache.server.expired now ttl now' then none else some value
      | none => cache.get now' key' kb'.id epoch := by
  induction items generalizing cache with
  | nil =>
    rw [lastValue, ite_self]
    rfl
  | cons item items ih =>
    have hset := cache.get_setex now now' kb kb' epoch item.1 key' item.2 ttl
    rw [List.foldl_cons, ih, hset, lastValue]
    by_cases hkb : kb = kb'
    · cases lastValue key' items <;> by_cases hk : item.1 = key' <;> simp [hkb, hk, setex]
    · simp [hkb]

/-- Two states that differ in their entries at most. -/
structure SameCounters (cache cache' : RedisCache) : Prop where
  server_eq : cache'.server = cache.server
  nspace_eq : cache'.nspace = cache.nspace
  ttlS_eq : cache'.ttlS = cache.ttlS
  counter_eq : ∀ kb : KbId,
    cache'.keyspace.get? (cache.epochKey kb.id) = cache.keyspace.get? (cache.epochKey kb.id)

theorem sameCounters_delete : SameCounters cache (cache.delete key kb.id epoch) where
  server_eq := rfl
  nspace_eq := rfl
  ttlS_eq := rfl
  counter_eq kb' := by
    rw [delete, OrderedDict.erase, OrderedDict.get?_filterKeys, if_pos]
    exact decide_eq_true (cache.fullKey_ne_epochKey kb kb' epoch key).symm

theorem sameCounters_setex (ttl : ℤ) :
    SameCounters cache (cache.setex now (cache.fullKey kb.id epoch key) ttl value) where
  server_eq := rfl
  nspace_eq := rfl
  ttlS_eq := rfl
  counter_eq kb' := by
    rw [setex, OrderedDict.get?_insert, if_neg (cache.fullKey_ne_epochKey kb kb' epoch key)]

theorem sameCounters_setexMany (ttl : ℤ) (items : List (String × String)) :
    SameCounters cache (items.foldl (fun cache item =>
      cache.setex now (cache.fullKey kb.id epoch item.1) ttl item.2) cache) := by
  induction items generalizing cache with
  | nil => exact ⟨rfl, rfl, rfl, fun _ => rfl⟩
  | cons item items ih =>
    have hset := cache.sameCounters_setex now kb epoch item.1 item.2 ttl
    have hrest := ih (cache.setex now (cache.fullKey kb.id epoch item.1) ttl item.2)
    exact ⟨hrest.server_eq, hrest.nspace_eq, hrest.ttlS_eq,
      fun kb' => (hrest.counter_eq kb').trans (hset.counter_eq kb')⟩

/-- The state of an epoch counter. -/
def counter (n : ℕ) : Option RedisEntry := if n = 0 then none else some ⟨.number n, none⟩

theorem lookup_counter {k : String} {n : ℕ} (h : cache.keyspace.get? k = counter n) :
    cache.lookup now k = if n = 0 then none else some (.number n) := by
  rw [lookup, h, counter]
  split_ifs <;> rfl

theorem getEpoch_counter {kbId : String} {n : ℕ}
    (h : cache.keyspace.get? (cache.epochKey kbId) = counter n) :
    cache.getEpoch now kbId = if n = 0 then 1 else n := by
  rw [getEpoch, cache.lookup_counter now h]
  split_ifs <;> rfl

theorem incr_counter {k : String} {n : ℕ} (h : cache.keyspace.get? k = counter n) :
    cache.incr now k =
      some (n + 1, { cache with keyspace := cache.keyspace.insert k ⟨.number (n + 1), none⟩ }) := by
  rw [incr, cache.lookup_counter now h, h, counter]
  by_cases hn : n = 0
  · simp [hn]
  · simp [hn]

theorem invalidateKb_counter {kbId : String} {n : ℕ}
    (h : cache.keyspace.get? (cache.epochKey kbId) = counter n) :
    cache.invalidateKb now kbId =
      (true, scanDelete { cache with
        keyspace := cache.keyspace.insert (cache.epochKey kbId) ⟨.number (n + 1), none⟩ }
        (cache.nspace ++ ":" ++ kbId ++ ":" ++ n.repr)) := by
  rw [invalidateKb, cache.incr_counter now h]
  rfl

variable {cache} (hspace : GlobFree cache.nspace) {n : ℕ}
  (h : cache.keyspace.get? (cache.epochKey kb.id) = counter n)
include hspace h

theorem get?_invalidateKb (k : String) :
    (cache.invalidateKb now kb.id).2.keyspace.get? k =
      if (cache.nspace ++ ":" ++ kb.id ++ ":" ++ n.repr ++ ":").toList <+: k.toList then none
      else if cache.epochKey kb.id = k then some ⟨.number (n + 1), none⟩
      else cache.keyspace.get? k := by
  have hstart : GlobFree (cache.nspace ++ ":" ++ kb.id ++ ":" ++ n.repr) := by
    refine globFree_append (globFree_append (globFree_append (globFree_append hspace ?_)
      kb.globFree) ?_) (globFree_repr n)
    all_goals decide
  rw [cache.invalidateKb_counter now h, get?_scanDelete _ hstart, OrderedDict.get?_insert]

/-- An invalidation drops the entries of the epoch that the counter showed before. -/
theorem get_invalidateKb :
    (cache.invalidateKb now kb.id).2.get now' key kb'.id epoch =
      if kb = kb' ∧ n = epoch then none else cache.get now' key kb'.id epoch := by
  have hentry := get?_invalidateKb now kb hspace h (cache.fullKey kb'.id epoch key)
  have hserver : (cache.invalidateKb now kb.id).2.server = cache.server := by
    rw [cache.invalidateKb_counter now h]
    rfl
  have hkey : (cache.invalidateKb now kb.id).2.fullKey kb'.id epoch key =
      cache.fullKey kb'.id epoch key := by
    rw [cache.invalidateKb_counter now h]
    rfl
  have hdropped : (cache.nspace ++ ":" ++ kb.id ++ ":" ++ n.repr ++ ":").toList <+:
      (cache.fullKey kb'.id epoch key).toList ↔ kb = kb' ∧ n = epoch :=
    epoch_prefix_iff cache.nspace kb kb' n epoch key
  rw [get, hkey]
  simp only [← hdropped]
  split_ifs at hentry ⊢ with hin
  · rw [lookup, hentry]
    rfl
  · exact absurd ‹_› (cache.fullKey_ne_epochKey kb' kb epoch key).symm
  · rw [lookup_congr hserver hentry, get]

theorem counter_invalidateKb :
    (cache.invalidateKb now kb.id).2.keyspace.get? (cache.epochKey kb'.id) =
      if kb = kb' then counter (n + 1) else cache.keyspace.get? (cache.epochKey kb'.id) := by
  have hkept : ¬(cache.nspace ++ ":" ++ kb.id ++ ":" ++ n.repr ++ ":").toList <+:
      (cache.epochKey kb'.id).toList := not_prefix_epochKey cache.nspace kb kb' n
  have hkey : cache.epochKey kb.id = cache.epochKey kb'.id ↔ kb = kb' := by
    simp [epochKey, KbId.ext_iff, ← String.toList_inj]
  rw [get?_invalidateKb now kb hspace h, if_neg hkept]
  simp only [hkey]
  rfl

end RedisCache

end Ragx
