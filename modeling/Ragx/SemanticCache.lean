import Ragx.EventRuns
import Ragx.ExactCache
import Ragx.SqliteVectorStore

/-!
# The semantic cache

Two tiers in front of the router: the exact cache, then the stored question whose
embedding is close enough. The second half follows one cache over any sequence of
calls, with a log of everything stored, and says when an answer really belongs to
the knowledge base that asks, since its last invalidation and within its time to live.
-/
namespace Ragx

/-- The hex digest of SHA-256 has no colon in it. -/
structure Sha256 where
  hexdigest : String → String
  colon_notMem : ∀ text, ':' ∉ (hexdigest text).toList

structure CacheConfig where
  enabled : Bool := true
  ttlS : ℤ := 86400
  similarity : ℚ := 97 / 100
  fastOnly : Bool := false
  ttl_pos : 0 < ttlS := by decide
  similarity_nonneg : 0 ≤ similarity := by decide +kernel
  similarity_le_one : similarity ≤ 1 := by decide +kernel

/-- The cosine of two vectors is at least the non-negative threshold; it is 0 for vectors of
different lengths and for zero vectors. Squares replace the square roots. -/
def cosineAtLeast (threshold : ℚ) (a b : List ℚ) : Bool :=
  let dot := (a.zipWith (· * ·) b).sum
  let norms := (a.map fun x => x * x).sum * (b.map fun x => x * x).sum
  if a.length ≠ b.length ∨ norms = 0 then decide (threshold ≤ 0)
  else decide (0 ≤ dot) && decide (threshold * threshold * norms ≤ dot * dot)

structure SemanticCache where
  config : CacheConfig
  sha256 : Sha256
  exact : InMemoryExactCache

namespace SemanticCache

/-- The answer that a returned chunk carries, if it is a cache entry close enough. -/
def hitAnswer (config : CacheConfig) (qvec : List ℚ) (chunk : Chunk) : Option String :=
  match chunk.metadata.get? "cache_embedding", chunk.metadata.get? "cache_answer" with
  | some cachedVec, some (.str cachedAnswer) =>
    if cachedVec.truthy && cosineAtLeast config.similarity qvec cachedVec.numbers then
      some cachedAnswer
    else none
  | _, _ => none

/-- `qvec` and `hits` are what the embedder and the vector store return, unless they raise. -/
def lookup (c : SemanticCache) (now : ℚ) (text kbId : String) (qvec : Option (List ℚ))
    (hits : Option (List Chunk)) : Option String × SemanticCache :=
  if !c.config.enabled || c.config.fastOnly then (none, c)
  else
    let hit := c.exact.get now (c.sha256.hexdigest text) kbId (c.exact.getEpoch kbId)
    match hit.1, qvec, hits with
    | some answer, _, _ => (some answer, { c with exact := hit.2 })
    | none, some qvec, some hits =>
      (hits.findSome? (hitAnswer c.config qvec), { c with exact := hit.2 })
    | none, _, _ => (none, { c with exact := hit.2 })

/-- The synthetic chunk of a cached answer. -/
def cacheChunk (config : CacheConfig) (chunkId text answer kbId : String) (epoch : ℕ)
    (qvec : List ℚ) : Chunk where
  chunkId := chunkId
  docId := cacheDocId
  kbId := kbId
  atomIds := []
  text := text
  tokenCount := text.length
  metadata := .ofList [
    ("cache_embedding", .arr (qvec.map .num)), ("cache_query", .str text),
    ("cache_answer", .str answer), ("cache_ttl", .num config.ttlS), ("cache_epoch", .num epoch)]

/-- Writes the exact tier and returns the chunk to upsert, if the text can be embedded. -/
def store (c : SemanticCache) (now : ℚ) (text answer kbId chunkId : String)
    (qvec : Option (List ℚ)) : SemanticCache × Option Chunk :=
  if !c.config.enabled then (c, none)
  else
    let epoch := c.exact.getEpoch kbId
    ({ c with
        exact := c.exact.set now (c.sha256.hexdigest text) answer kbId epoch (some c.config.ttlS) },
      qvec.map (cacheChunk c.config chunkId text answer kbId epoch))

def invalidateKb (c : SemanticCache) (kbId : String) : SemanticCache :=
  { c with exact := c.exact.invalidateKb kbId }

theorem getEpoch_store (c : SemanticCache) (now : ℚ) (text answer kbId chunkId : String)
    (qvec : Option (List ℚ)) :
    (c.store now text answer kbId chunkId qvec).1.exact.getEpoch = c.exact.getEpoch := by
  rw [store]
  split_ifs <;> rfl

theorem hitAnswer_cacheChunk {config config' : CacheConfig}
    {chunkId text answer kbId found : String} {epoch : ℕ} {stored qvec : List ℚ}
    (h : hitAnswer config qvec (cacheChunk config' chunkId text answer kbId epoch stored) =
      some found) : found = answer := by
  have hanswer : (cacheChunk config' chunkId text answer kbId epoch stored).metadata.get?
      "cache_answer" = some (.str answer) :=
    OrderedDict.get?_update_of_mem _ (by simp) (by simp)
  unfold hitAnswer at h
  rw [hanswer] at h
  split at h
  · rename_i heq
    split_ifs at h
    cases h
    cases heq
    rfl
  · cases h

end SemanticCache

/-! ## Runs -/

/-- A call of `store`, with the epoch it wrote under, whether its knowledge base has not been
invalidated since, and the chunk that reached the vector store. -/
structure StoreCall where
  kbId : String
  text : String
  answer : String
  time : ℚ
  epoch : ℕ
  live : Bool
  chunk : Option Chunk

inductive CacheEvent where
  | store (text answer kbId chunkId : String) (qvec : Option (List ℚ)) (upserted : Bool)
  /-- The vector store returns earlier upserts, named by their place in the log. -/
  | lookup (text kbId : String) (qvec : Option (List ℚ)) (hits : Option (List ℕ))
  | invalidateKb (kbId : String)

structure TimedCacheEvent where
  time : ℚ
  event : CacheEvent

structure CacheRun where
  clock : ℚ
  cache : SemanticCache
  log : List StoreCall := []

namespace CacheRun

def fresh (config : CacheConfig) (sha256 : Sha256) (nspace : String) (ttlS : ℤ) (start : ℚ) :
    CacheRun where
  clock := start
  cache := { config, sha256, exact := { nspace, ttlS } }

/-- The calls whose upserts the vector store returns. -/
def returned (w : CacheRun) (hits : List ℕ) : List StoreCall := hits.filterMap (w.log[·]?)

def chunksOf (calls : List StoreCall) : List Chunk := calls.filterMap (·.chunk)

/-- The result of a lookup and the cache after it. -/
def ask (w : CacheRun) (now : ℚ) (text kbId : String) (qvec : Option (List ℚ))
    (hits : Option (List ℕ)) : Option String × SemanticCache :=
  w.cache.lookup now text kbId qvec (hits.map fun hits => chunksOf (w.returned hits))

def step (w : CacheRun) (e : TimedCacheEvent) : Option CacheRun :=
  if e.time < w.clock then none
  else match e.event with
    | .store text answer kbId chunkId qvec upserted =>
      let stored := w.cache.store e.time text answer kbId chunkId qvec
      some {
        clock := e.time
        cache := stored.1
        log := w.log ++ [{
          kbId, text, answer, time := e.time, epoch := w.cache.exact.getEpoch kbId, live := true
          chunk := if upserted then stored.2 else none }] }
    | .lookup text kbId qvec hits =>
      some { w with clock := e.time, cache := (w.ask e.time text kbId qvec hits).2 }
    | .invalidateKb kbId =>
      some {
        clock := e.time
        cache := w.cache.invalidateKb kbId
        log := w.log.map fun s => if s.kbId = kbId then { s with live := false } else s }

/-- A stored answer that a knowledge base may be given now. -/
def Own (config : CacheConfig) (kbId : String) (now : ℚ) (s : StoreCall) : Prop :=
  s.kbId = kbId ∧ s.live = true ∧ now ≤ s.time + config.ttlS

/-- Every answer of a lookup is one its knowledge base may be given. -/
def AnswersOwn (w : CacheRun) (e : TimedCacheEvent) (_ : CacheRun) : Prop :=
  match e.event with
  | .lookup text kbId qvec hits =>
    ∀ answer ∈ (w.ask e.time text kbId qvec hits).1,
      ∃ s ∈ w.log, Own w.cache.config kbId e.time s ∧ s.answer = answer
  | _ => True

/-- The first returned call whose stored question is close enough. -/
def nearest (config : CacheConfig) (qvec : List ℚ) (calls : List StoreCall) :
    Option StoreCall :=
  calls.find? fun s => s.chunk.any fun chunk =>
    (SemanticCache.hitAnswer config qvec chunk).isSome

/-- Where the exact tier has nothing, the first close entry that the vector store returns
is one the knowledge base may be given. -/
def NearestOwn (w : CacheRun) (e : TimedCacheEvent) (_ : CacheRun) : Prop :=
  match e.event with
  | .lookup text kbId (some qvec) (some hits) =>
    (w.cache.exact.get e.time (w.cache.sha256.hexdigest text) kbId
        (w.cache.exact.getEpoch kbId)).1 = none →
      ∀ s ∈ nearest w.cache.config qvec (w.returned hits), Own w.cache.config kbId e.time s
  | _ => True

/-- Everything in either tier comes from the log, and the epochs tell which calls are live. -/
structure Consistent (w : CacheRun) : Prop where
  exact_logged : ∀ k expiresAt value, w.cache.exact.entries.get? k = some (expiresAt, value) →
    ∃ s ∈ w.log, k = w.cache.exact.fullKey s.kbId s.epoch (w.cache.sha256.hexdigest s.text) ∧
      value = s.answer ∧ expiresAt = s.time + w.cache.config.ttlS
  epoch_le : ∀ s ∈ w.log, s.epoch ≤ w.cache.exact.getEpoch s.kbId
  live_of_epoch : ∀ s ∈ w.log, s.epoch = w.cache.exact.getEpoch s.kbId → s.live = true
  chunk_answer : ∀ s ∈ w.log, ∀ chunk ∈ s.chunk, ∀ config qvec,
    ∀ answer ∈ SemanticCache.hitAnswer config qvec chunk, answer = s.answer

theorem consistent_fresh (config : CacheConfig) (sha256 : Sha256) (nspace : String) (ttlS : ℤ)
    (start : ℚ) : Consistent (fresh config sha256 nspace ttlS start) where
  exact_logged k expiresAt value h := by
    rw [fresh, OrderedDict.get?_empty] at h
    cases h
  epoch_le s hs := absurd hs List.not_mem_nil
  live_of_epoch s hs := absurd hs List.not_mem_nil
  chunk_answer s hs := absurd hs List.not_mem_nil

/-- A lookup leaves the epochs alone and at most drops entries of the exact tier. -/
theorem lookup_exact (c : SemanticCache) (now : ℚ) (text kbId : String)
    (qvec : Option (List ℚ)) (hits : Option (List Chunk)) :
    (c.lookup now text kbId qvec hits).2 = c ∨
      (c.lookup now text kbId qvec hits).2 = { c with
        exact := (c.exact.get now (c.sha256.hexdigest text) kbId (c.exact.getEpoch kbId)).2 } := by
  unfold SemanticCache.lookup
  dsimp only
  split_ifs
  · exact Or.inl rfl
  · refine Or.inr ?_
    split <;> rfl

theorem consistent_of_exact {w w' : CacheRun} (hw : Consistent w) (hlog : w'.log = w.log)
    (hsha : w'.cache.sha256 = w.cache.sha256) (hcfg : w'.cache.config = w.cache.config)
    (hspace : w'.cache.exact.nspace = w.cache.exact.nspace)
    (hepochs : w'.cache.exact.epochs = w.cache.exact.epochs)
    (hentries : ∀ k entry, w'.cache.exact.entries.get? k = some entry →
      w.cache.exact.entries.get? k = some entry) : Consistent w' := by
  have hepoch (kbId : String) : w'.cache.exact.getEpoch kbId = w.cache.exact.getEpoch kbId := by
    rw [InMemoryExactCache.getEpoch, hepochs, InMemoryExactCache.getEpoch]
  have hkey (kbId : String) (epoch : ℕ) (key : String) :
      w'.cache.exact.fullKey kbId epoch key = w.cache.exact.fullKey kbId epoch key := by
    rw [InMemoryExactCache.fullKey, hspace, InMemoryExactCache.fullKey]
  constructor
  · intro k expiresAt value hget
    obtain ⟨s, hs, hk, hv⟩ := hw.exact_logged k expiresAt value (hentries _ _ hget)
    exact ⟨s, hlog ▸ hs, by rw [hk, hkey, hsha], by rwa [hcfg]⟩
  · intro s hs
    rw [hepoch]
    exact hw.epoch_le s (hlog ▸ hs)
  · intro s hs he
    rw [hepoch] at he
    exact hw.live_of_epoch s (hlog ▸ hs) he
  · intro s hs
    exact hw.chunk_answer s (hlog ▸ hs)

theorem consistent_lookup {w w' : CacheRun} (hw : Consistent w) {now : ℚ} {text kbId : String}
    {qvec : Option (List ℚ)} {hits : Option (List ℕ)} (hlog : w'.log = w.log)
    (hcache : w'.cache = (w.ask now text kbId qvec hits).2) : Consistent w' := by
  rcases lookup_exact w.cache now text kbId qvec (hits.map fun hits => chunksOf (w.returned hits))
    with heq | heq
  · rw [ask, heq] at hcache
    exact consistent_of_exact hw hlog (by rw [hcache]) (by rw [hcache]) (by rw [hcache])
      (by rw [hcache]) (by rw [hcache]; exact fun _ _ h => h)
  · rw [ask, heq] at hcache
    refine consistent_of_exact hw hlog (by rw [hcache]) (by rw [hcache]) ?_ ?_ ?_
    · rw [hcache]
      exact InMemoryExactCache.nspace_get ..
    · rw [hcache]
      exact InMemoryExactCache.epochs_get ..
    · rw [hcache]
      exact fun _ _ => InMemoryExactCache.entry_of_get

theorem consistent_store {w w' : CacheRun} (hw : Consistent w) {now : ℚ}
    {text answer kbId chunkId : String} {qvec : Option (List ℚ)} {call : StoreCall}
    (hcache : w'.cache = (w.cache.store now text answer kbId chunkId qvec).1)
    (hlog : w'.log = w.log ++ [call])
    (hkb : call.kbId = kbId) (htext : call.text = text) (hanswer : call.answer = answer)
    (htime : call.time = now) (hepoch : call.epoch = w.cache.exact.getEpoch kbId)
    (hlive : call.live = true)
    (hchunk : ∀ chunk ∈ call.chunk,
      (w.cache.store now text answer kbId chunkId qvec).2 = some chunk) :
    Consistent w' := by
  have hold : ∀ s ∈ w.log, s ∈ w'.log := fun s hs => hlog ▸ List.mem_append_left _ hs
  have hnew : call ∈ w'.log := hlog ▸ List.mem_append_right _ List.mem_cons_self
  have hsplit : ∀ s ∈ w'.log, s ∈ w.log ∨ s = call := by
    intro s hs
    rw [hlog] at hs
    simpa using hs
  have hepochs : w'.cache.exact.getEpoch = w.cache.exact.getEpoch := by
    rw [hcache, SemanticCache.getEpoch_store]
  constructor
  · intro k expiresAt value hget
    have hprevious (h : w.cache.exact.entries.get? k = some (expiresAt, value)) :
        ∃ s ∈ w'.log,
          k = w.cache.exact.fullKey s.kbId s.epoch (w.cache.sha256.hexdigest s.text) ∧
            value = s.answer ∧ expiresAt = s.time + w.cache.config.ttlS := by
      obtain ⟨s, hs, hrest⟩ := hw.exact_logged k expiresAt value h
      exact ⟨s, hold s hs, hrest⟩
    rw [hcache, SemanticCache.store] at hget ⊢
    split_ifs at hget ⊢
    · exact hprevious hget
    · rcases InMemoryExactCache.entry_of_set hget with ⟨hk, hentry⟩ | hget
      · cases hentry
        exact ⟨call, hnew, by rw [hk, hkb, hepoch, htext]; rfl, hanswer.symm, by rw [htime]; rfl⟩
      · exact hprevious hget
  · intro s hs
    rw [hepochs]
    rcases hsplit s hs with hs | rfl
    · exact hw.epoch_le s hs
    · rw [hepoch, hkb]
  · intro s hs he
    rcases hsplit s hs with hs | rfl
    · exact hw.live_of_epoch s hs (hepochs ▸ he)
    · exact hlive
  · intro s hs chunk hc config qv found hfound
    rcases hsplit s hs with hs | rfl
    · exact hw.chunk_answer s hs chunk hc config qv found hfound
    · have hstored := hchunk chunk hc
      rw [SemanticCache.store] at hstored
      split_ifs at hstored
      obtain ⟨v, _, rfl⟩ := Option.map_eq_some_iff.mp hstored
      rw [hanswer]
      exact SemanticCache.hitAnswer_cacheChunk hfound

theorem consistent_invalidateKb {w w' : CacheRun} (hw : Consistent w) {kbId : String}
    (hcache : w'.cache = w.cache.invalidateKb kbId)
    (hlog : w'.log = w.log.map fun s => if s.kbId = kbId then { s with live := false } else s) :
    Consistent w' := by
  have hback : ∀ s' ∈ w'.log, ∃ s ∈ w.log,
      s.kbId = kbId ∧ s' = { s with live := false } ∨ s.kbId ≠ kbId ∧ s' = s := by
    intro s' hs'
    rw [hlog] at hs'
    obtain ⟨s, hs, rfl⟩ := List.mem_map.mp hs'
    refine ⟨s, hs, ?_⟩
    by_cases hkb : s.kbId = kbId
    · exact Or.inl ⟨hkb, if_pos hkb⟩
    · exact Or.inr ⟨hkb, if_neg hkb⟩
  have hepoch (other : String) : w'.cache.exact.getEpoch other =
      if kbId = other then w.cache.exact.getEpoch other + 1
      else w.cache.exact.getEpoch other := by
    rw [hcache]
    exact InMemoryExactCache.getEpoch_invalidateKb ..
  constructor
  · intro k expiresAt value hget
    rw [hcache] at hget ⊢
    obtain ⟨s, hs, hrest⟩ :=
      hw.exact_logged k expiresAt value (InMemoryExactCache.entry_of_invalidateKb hget)
    refine ⟨_, hlog ▸ List.mem_map_of_mem hs, ?_⟩
    split_ifs <;> exact hrest
  · intro s' hs'
    obtain ⟨s, hs, ⟨hkb, rfl⟩ | ⟨hkb, rfl⟩⟩ := hback s' hs'
    · rw [hepoch, if_pos hkb.symm]
      exact (hw.epoch_le s hs).trans (Nat.le_succ _)
    · rw [hepoch, if_neg (Ne.symm hkb)]
      exact hw.epoch_le s' hs
  · intro s' hs' he
    obtain ⟨s, hs, ⟨hkb, rfl⟩ | ⟨hkb, rfl⟩⟩ := hback s' hs'
    · -- its epoch is over
      rw [hepoch, if_pos hkb.symm] at he
      exact absurd (hw.epoch_le s hs) (by rw [he]; exact Nat.not_succ_le_self _)
    · rw [hepoch, if_neg (Ne.symm hkb)] at he
      exact hw.live_of_epoch s' hs he
  · intro s' hs'
    obtain ⟨s, hs, ⟨_, rfl⟩ | ⟨_, rfl⟩⟩ := hback s' hs'
    · exact hw.chunk_answer s hs
    · exact hw.chunk_answer s' hs

/-! ## Answers -/

/-- What the vector tier answers is the answer of the nearest returned call. -/
theorem nearest_of_findSome {config : CacheConfig} {qvec : List ℚ} {calls : List StoreCall}
    {answer : String}
    (h : (chunksOf calls).findSome? (SemanticCache.hitAnswer config qvec) = some answer) :
    ∃ s ∈ nearest config qvec calls, ∃ chunk ∈ s.chunk,
      SemanticCache.hitAnswer config qvec chunk = some answer := by
  induction calls with
  | nil => cases h
  | cons s calls ih =>
    cases hc : s.chunk with
    | none =>
      rw [chunksOf, List.filterMap_cons_none hc] at h
      rw [nearest, List.find?_cons_of_neg (by simp [hc])]
      exact ih h
    | some chunk =>
      rw [chunksOf, List.filterMap_cons_some hc, List.findSome?_cons] at h
      cases ha : SemanticCache.hitAnswer config qvec chunk with
      | none =>
        rw [ha] at h
        rw [nearest, List.find?_cons_of_neg (by simp [hc, ha])]
        exact ih h
      | some found =>
        rw [ha] at h
        cases h
        rw [nearest, List.find?_cons_of_pos (by simp [hc, ha])]
        exact ⟨s, rfl, chunk, hc, ha⟩

/-- The exact tier answers with live entries of the same knowledge base only. -/
theorem own_of_exact {w : CacheRun} (hw : Consistent w) {now : ℚ} {text kbId answer : String}
    (h : (w.cache.exact.get now (w.cache.sha256.hexdigest text) kbId
      (w.cache.exact.getEpoch kbId)).1 = some answer) :
    ∃ s ∈ w.log, Own w.cache.config kbId now s ∧ s.answer = answer := by
  obtain ⟨expiresAt, hget, hle⟩ := InMemoryExactCache.get_eq_some h
  obtain ⟨s, hs, hkey, hanswer, hexpires⟩ := hw.exact_logged _ _ _ hget
  obtain ⟨hkb, hepoch, _⟩ := InMemoryExactCache.fullKey_inj
    (w.cache.sha256.colon_notMem text) (w.cache.sha256.colon_notMem s.text) hkey
  subst hkb
  exact ⟨s, hs, ⟨rfl, hw.live_of_epoch s hs hepoch.symm, hexpires ▸ hle⟩, hanswer.symm⟩

theorem answersOwn_lookup {w : CacheRun} (hw : Consistent w) {now : ℚ} {text kbId : String}
    {qvec : Option (List ℚ)} {hits : Option (List ℕ)} {w' : CacheRun}
    (hnear : NearestOwn w ⟨now, .lookup text kbId qvec hits⟩ w') :
    AnswersOwn w ⟨now, .lookup text kbId qvec hits⟩ w' := by
  intro answer hanswer
  have hlookup : (w.ask now text kbId qvec hits).1 = some answer := hanswer
  unfold ask SemanticCache.lookup at hlookup
  dsimp only at hlookup
  split_ifs at hlookup
  split at hlookup
  · rename_i found hexact
    cases hlookup
    exact own_of_exact hw hexact
  · rename_i qvec' hits' hexact hhits
    obtain ⟨positions, rfl, rfl⟩ := Option.map_eq_some_iff.mp hhits
    obtain ⟨s, hs, chunk, hchunk, hfound⟩ := nearest_of_findSome hlookup
    have hmem : s ∈ w.log := by
      obtain ⟨i, _, hi⟩ := List.mem_filterMap.mp (List.mem_of_find?_eq_some hs)
      exact List.mem_of_getElem? hi
    exact ⟨s, hmem, hnear hexact s hs,
      (hw.chunk_answer s hmem chunk hchunk _ _ answer hfound).symm⟩
  · cases hlookup

theorem answersOwn_step {w w' : CacheRun} {e : TimedCacheEvent} (hw : Consistent w)
    (hs : w.step e = some w') (hn : NearestOwn w e w') : AnswersOwn w e w' ∧ Consistent w' := by
  obtain ⟨now, event⟩ := e
  unfold step at hs
  split_ifs at hs
  cases event with
  | store text answer kbId chunkId qvec upserted =>
    cases hs
    refine ⟨trivial, consistent_store hw rfl rfl rfl rfl rfl rfl rfl rfl ?_⟩
    intro chunk hc
    cases upserted with
    | true => exact hc
    | false => cases hc
  | lookup text kbId qvec hits =>
    cases hs
    exact ⟨answersOwn_lookup hw hn, consistent_lookup hw rfl rfl⟩
  | invalidateKb kbId =>
    cases hs
    exact ⟨trivial, consistent_invalidateKb hw rfl rfl⟩

/-- In a run in which the vector tier, wherever it decides, finds the knowledge base's own
live entries nearest, every answer was stored for the knowledge base that gets it, since
its last invalidation and within the time to live. -/
theorem answersOwn_of_nearestOwn {config : CacheConfig} {sha256 : Sha256} {nspace : String}
    {ttlS : ℤ} {start : ℚ} {events : List TimedCacheEvent}
    (h : EveryStep step NearestOwn (fresh config sha256 nspace ttlS start) events) :
    EveryStep step AnswersOwn (fresh config sha256 nspace ttlS start) events :=
  EveryStep.of_invariant (I := Consistent) (fun _ _ _ => answersOwn_step)
    (consistent_fresh config sha256 nspace ttlS start) h

instance (config : CacheConfig) (kbId : String) (now : ℚ) (s : StoreCall) :
    Decidable (Own config kbId now s) :=
  inferInstanceAs (Decidable (_ ∧ _ ∧ _))

instance (w : CacheRun) (e : TimedCacheEvent) (w' : CacheRun) : Decidable (AnswersOwn w e w') :=
  match e with
  | ⟨now, .lookup text kbId qvec hits⟩ =>
    inferInstanceAs (Decidable (∀ answer ∈ (w.ask now text kbId qvec hits).1,
      ∃ s ∈ w.log, Own w.cache.config kbId now s ∧ s.answer = answer))
  | ⟨_, .store ..⟩ => isTrue trivial
  | ⟨_, .invalidateKb _⟩ => isTrue trivial

instance (w : CacheRun) (e : TimedCacheEvent) (w' : CacheRun) : Decidable (NearestOwn w e w') :=
  match e with
  | ⟨now, .lookup text kbId (some qvec) (some hits)⟩ =>
    inferInstanceAs (Decidable ((w.cache.exact.get now (w.cache.sha256.hexdigest text) kbId
        (w.cache.exact.getEpoch kbId)).1 = none →
      ∀ s ∈ nearest w.cache.config qvec (w.returned hits), Own w.cache.config kbId now s))
  | ⟨_, .lookup _ _ (some _) none⟩ => isTrue trivial
  | ⟨_, .lookup _ _ none _⟩ => isTrue trivial
  | ⟨_, .store ..⟩ => isTrue trivial
  | ⟨_, .invalidateKb _⟩ => isTrue trivial

/-- SHA-256 on the two texts asked below. -/
def sampleSha256 : Sha256 where
  hexdigest text :=
    if text = "q" then "8e35c2cd3bf6641bdb0e2050b76932cbb2e6034a0ddacc1d9bea82a6ba57f7cf"
    else "454349e422f05297191ead13e21d3db520e5abef52055e4964b82fb213f593a1"
  colon_notMem text := by split_ifs <;> decide

def storeForDefault : TimedCacheEvent :=
  ⟨0, .store "q" "answer" "default" "chk_1" (some [1, 0]) true⟩

theorem answersOwn_nearDuplicate :
    EveryStep step AnswersOwn (fresh {} sampleSha256 "ragx_semantic_cache" 86400 0)
      [storeForDefault, ⟨60, .lookup "r" "default" (some [1, 0]) (some [0])⟩] :=
  answersOwn_of_nearestOwn (by decide +kernel)

/-- The same question asked of another knowledge base finds the first one's entry. -/
theorem otherKb_not_answersOwn :
    ¬ EveryStep step AnswersOwn (fresh {} sampleSha256 "ragx_semantic_cache" 86400 0)
      [storeForDefault, ⟨60, .lookup "q" "kb_b" (some [1, 0]) (some [0])⟩] := by
  decide +kernel

end CacheRun

end Ragx
