import Ragx.SemanticCache

/-!
# Stored answers come back

What was stored last for a question should be answered from the exact tier until it
expires or its knowledge base is invalidated. A disabled cache answers nothing, and the fast
mode skips the exact tier together with the vector tier. Otherwise an entry is lost only
to a question with the same digest, or to the invalidation of a knowledge base whose keys
begin like those of the entry.
-/
namespace Ragx

inductive CacheBackend where
  | embedder | vectorStore
deriving DecidableEq, Repr

/-- The calls that `lookup` makes behind the exact tier. -/
def SemanticCache.consulted (c : SemanticCache) (now : ℚ) (text kbId : String)
    (qvec : Option (List ℚ)) : List CacheBackend :=
  if !c.config.enabled || c.config.fastOnly then []
  else match (c.exact.get now (c.sha256.hexdigest text) kbId (c.exact.getEpoch kbId)).1 with
    | some _ => []
    | none => .embedder :: if qvec.isSome then [.vectorStore] else []

namespace SemanticCache

theorem config_store (c : SemanticCache) (now : ℚ) (text answer kbId chunkId : String)
    (qvec : Option (List ℚ)) : (c.store now text answer kbId chunkId qvec).1.config = c.config := by
  rw [store]
  split_ifs <;> rfl

theorem store_of_enabled {c : SemanticCache} (h : c.config.enabled = true) (now : ℚ)
    (text answer kbId chunkId : String) (qvec : Option (List ℚ)) :
    (c.store now text answer kbId chunkId qvec).1 = { c with
      exact := c.exact.set now (c.sha256.hexdigest text) answer kbId (c.exact.getEpoch kbId)
        (some c.config.ttlS) } := by
  rw [store, h]
  rfl

end SemanticCache

namespace InMemoryExactCache

/-- An invalidation of the knowledge base frees what is stored under the full key. -/
def drops (cache : InMemoryExactCache) (kbId k : String) : Bool :=
  let start := cache.nspace ++ ":" ++ kbId ++ ":"
  startsWithText start k &&
    !startsWithText (start ++ (cache.getEpoch kbId + 1).repr ++ ":") k

theorem get?_invalidateKb (cache : InMemoryExactCache) (kbId k : String) :
    (cache.invalidateKb kbId).entries.get? k =
      if cache.drops kbId k then none else cache.entries.get? k := by
  rw [invalidateKb, OrderedDict.get?_filterKeys]
  change (if (!cache.drops kbId k) = true then _ else _) = _
  cases cache.drops kbId k <;> rfl

/-- A read leaves every entry that has not expired. -/
theorem entry_get_of_le {cache : InMemoryExactCache} {now expiresAt : ℚ} {k value : String}
    (h : cache.entries.get? k = some (expiresAt, value)) (hle : now ≤ expiresAt)
    (key kbId : String) (epoch : ℕ) :
    (cache.get now key kbId epoch).2.entries.get? k = some (expiresAt, value) := by
  unfold get
  split
  · exact h
  · rename_i found stored hfound
    split_ifs with hlt
    · have hne : k ≠ cache.fullKey kbId epoch key := by
        rintro rfl
        rw [hfound] at h
        cases h
        exact absurd hle (not_le.mpr hlt)
      rw [OrderedDict.erase, OrderedDict.get?_filterKeys, if_pos (by simpa using hne)]
      exact h
    · exact h

theorem get_of_entry {cache : InMemoryExactCache} {now expiresAt : ℚ} {key kbId value : String}
    {epoch : ℕ} (h : cache.entries.get? (cache.fullKey kbId epoch key) = some (expiresAt, value))
    (hle : now ≤ expiresAt) : (cache.get now key kbId epoch).1 = some value := by
  unfold get
  rw [h]
  simp [not_lt.mpr hle]

end InMemoryExactCache

namespace CacheRun

def lastStore (w : CacheRun) (text kbId : String) : Option StoreCall :=
  w.log.reverse.find? fun s => s.text = text ∧ s.kbId = kbId

/-- Its knowledge base has not been invalidated since, and its time to live is not over. -/
def Lives (w : CacheRun) (now : ℚ) (s : StoreCall) : Prop :=
  s.live = true ∧ now < s.time + w.cache.config.ttlS

def entryKey (w : CacheRun) (s : StoreCall) : String :=
  w.cache.exact.fullKey s.kbId s.epoch (w.cache.sha256.hexdigest s.text)

/-- A lookup returns what was stored last and still lives, and the fast mode asks neither the
embedder nor the vector store. -/
def AnswersStored (w : CacheRun) (e : TimedCacheEvent) (_ : CacheRun) : Prop :=
  match e.event with
  | .lookup text kbId qvec hits =>
    (∀ s ∈ w.lastStore text kbId, Lives w e.time s →
      (w.ask e.time text kbId qvec hits).1 = some s.answer) ∧
    (w.cache.config.fastOnly = true → w.cache.consulted e.time text kbId qvec = [])
  | _ => True

/-- The exact tier is in use wherever a stored answer is due; and no living entry is
overwritten by another question, or freed with another knowledge base. -/
def KeepsStored (w : CacheRun) (e : TimedCacheEvent) (_ : CacheRun) : Prop :=
  match e.event with
  | .store text _ kbId _ _ _ =>
    ∀ s ∈ w.log, Lives w e.time s → s.kbId = kbId →
      w.cache.sha256.hexdigest s.text = w.cache.sha256.hexdigest text → s.text = text
  | .lookup text kbId _ _ =>
    (∃ s ∈ w.lastStore text kbId, Lives w e.time s) →
      w.cache.config.enabled = true ∧ w.cache.config.fastOnly = false
  | .invalidateKb kbId =>
    ∀ s ∈ w.log, Lives w e.time s → s.kbId ≠ kbId →
      w.cache.exact.drops kbId (w.entryKey s) = false

/-- Live calls were made in the current epoch, and the last call for each question has its
entry as long as it lives. -/
structure Serving (w : CacheRun) : Prop where
  epoch_of_live : ∀ s ∈ w.log, s.live = true → s.epoch = w.cache.exact.getEpoch s.kbId
  entry : w.cache.config.enabled = true → ∀ text kbId, ∀ s ∈ w.lastStore text kbId,
    Lives w w.clock s → w.cache.exact.entries.get? (w.entryKey s) =
      some (s.time + w.cache.config.ttlS, s.answer)

theorem lastStore_mem {w : CacheRun} {text kbId : String} {s : StoreCall}
    (h : s ∈ w.lastStore text kbId) : s ∈ w.log ∧ s.text = text ∧ s.kbId = kbId :=
  ⟨List.mem_reverse.mp (List.mem_of_find?_eq_some h), by simpa using List.find?_some h⟩

theorem lastStore_concat {w w' : CacheRun} {call : StoreCall} (h : w'.log = w.log ++ [call])
    (text kbId : String) :
    w'.lastStore text kbId =
      if call.text = text ∧ call.kbId = kbId then some call else w.lastStore text kbId := by
  rw [lastStore, h, List.reverse_append, List.reverse_singleton, List.singleton_append,
    List.find?_cons]
  by_cases hcall : call.text = text ∧ call.kbId = kbId
  · rw [if_pos hcall, decide_eq_true hcall]
  · rw [if_neg hcall, decide_eq_false hcall]
    rfl

/-- An invalidation marks calls, and leaves them in their places. -/
theorem lastStore_marked {w w' : CacheRun} {kb : String}
    (h : w'.log = w.log.map fun s => if s.kbId = kb then { s with live := false } else s)
    (text kbId : String) :
    w'.lastStore text kbId =
      (w.lastStore text kbId).map fun s => if s.kbId = kb then { s with live := false } else s := by
  rw [lastStore, h, ← List.map_reverse, List.find?_map, lastStore]
  congr 2
  funext s
  simp only [Function.comp]
  split_ifs <;> rfl

theorem serving_fresh (config : CacheConfig) (sha256 : Sha256) (nspace : String) (ttlS : ℤ)
    (start : ℚ) : Serving (fresh config sha256 nspace ttlS start) where
  epoch_of_live _ hs := absurd hs List.not_mem_nil
  entry _ _ _ _ hs := absurd (lastStore_mem hs).1 List.not_mem_nil

/-- The exact tier answers a question whose last call lives. -/
theorem ask_of_serving {w : CacheRun} (hw : Serving w) {now : ℚ} (hclock : w.clock ≤ now)
    {text kbId : String} {qvec : Option (List ℚ)} {hits : Option (List ℕ)} {s : StoreCall}
    (hs : s ∈ w.lastStore text kbId) (hlives : Lives w now s)
    (henabled : w.cache.config.enabled = true) (htiers : w.cache.config.fastOnly = false) :
    (w.ask now text kbId qvec hits).1 = some s.answer := by
  obtain ⟨hlog, rfl, rfl⟩ := lastStore_mem hs
  have hentry := hw.entry henabled _ _ s hs ⟨hlives.1, hclock.trans_lt hlives.2⟩
  rw [entryKey, hw.epoch_of_live s hlog hlives.1] at hentry
  have hhit := InMemoryExactCache.get_of_entry hentry hlives.2.le
  rw [ask, SemanticCache.lookup, henabled, htiers]
  simp [hhit]

/-- Nothing is answered where the cache is off or in its fast mode. -/
theorem ask_eq_none {w : CacheRun} {now : ℚ} {text kbId : String} {qvec : Option (List ℚ)}
    {hits : Option (List ℕ)}
    (h : ¬(w.cache.config.enabled = true ∧ w.cache.config.fastOnly = false)) :
    (w.ask now text kbId qvec hits).1 = none := by
  rw [ask, SemanticCache.lookup, if_pos]
  cases henabled : w.cache.config.enabled
  · rfl
  · simpa [henabled] using h

/-- A lookup does what it should exactly if the exact tier is in use or no answer is due. -/
theorem answersStored_lookup_iff {w w' : CacheRun} (hw : Serving w) {now : ℚ}
    (hclock : w.clock ≤ now) (text kbId : String) (qvec : Option (List ℚ))
    (hits : Option (List ℕ)) :
    AnswersStored w ⟨now, .lookup text kbId qvec hits⟩ w' ↔
      KeepsStored w ⟨now, .lookup text kbId qvec hits⟩ w' := by
  constructor
  · rintro ⟨hanswers, _⟩ ⟨s, hs, hlives⟩
    by_contra h
    have hnone : (w.ask now text kbId qvec hits).1 = none := ask_eq_none h
    rw [hanswers s hs hlives] at hnone
    cases hnone
  · intro h
    refine ⟨fun s hs hlives => ?_, fun hfast => ?_⟩
    · obtain ⟨henabled, htiers⟩ := h ⟨s, hs, hlives⟩
      exact ask_of_serving hw hclock hs hlives henabled htiers
    · rw [SemanticCache.consulted, hfast, Bool.or_true, if_pos rfl]

theorem serving_lookup {w : CacheRun} (hw : Serving w) {now : ℚ} (hclock : w.clock ≤ now)
    {text kbId : String} {qvec : Option (List ℚ)} {hits : Option (List ℕ)} :
    Serving { w with clock := now, cache := (w.ask now text kbId qvec hits).2 } := by
  have hearlier {s : StoreCall} (h : Lives w now s) : Lives w w.clock s :=
    ⟨h.1, hclock.trans_lt h.2⟩
  rcases lookup_exact w.cache now text kbId qvec (hits.map fun hits => chunksOf (w.returned hits))
    with heq | heq
  · rw [ask, heq]
    exact ⟨hw.epoch_of_live, fun henabled text kbId s hs hlives =>
      hw.entry henabled text kbId s hs (hearlier hlives)⟩
  · rw [ask, heq]
    constructor
    · intro s hs hlive
      rw [hw.epoch_of_live s hs hlive]
      simp [InMemoryExactCache.getEpoch]
    · intro henabled text' kbId' s hs hlives
      have hentry := hw.entry henabled text' kbId' s hs (hearlier hlives)
      have hkept := InMemoryExactCache.entry_get_of_le hentry hlives.2.le
        (w.cache.sha256.hexdigest text) kbId (w.cache.exact.getEpoch kbId)
      simpa [entryKey, InMemoryExactCache.fullKey] using hkept

theorem serving_invalidateKb {w : CacheRun} (hw : Serving w) {now : ℚ} (hclock : w.clock ≤ now)
    {kbId : String} {w' : CacheRun} (hkeeps : KeepsStored w ⟨now, .invalidateKb kbId⟩ w') :
    Serving {
      clock := now
      cache := w.cache.invalidateKb kbId
      log := w.log.map fun s => if s.kbId = kbId then { s with live := false } else s } := by
  constructor
  · intro s' hs' hlive
    obtain ⟨s, hs, rfl⟩ := List.mem_map.mp hs'
    split_ifs at hlive ⊢ with hkb
    rw [hw.epoch_of_live s hs hlive]
    exact (InMemoryExactCache.getEpoch_invalidateKb _ _ _).symm ▸ (if_neg (Ne.symm hkb)).symm
  · intro henabled text' kbId' s' hs' hlives
    rw [lastStore_marked rfl] at hs'
    obtain ⟨s, hs, rfl⟩ := Option.map_eq_some_iff.mp hs'
    have hkb : s.kbId ≠ kbId := by
      intro hkb
      rw [if_pos hkb] at hlives
      cases hlives.1
    rw [if_neg hkb] at hlives ⊢
    have hdrops := hkeeps s (lastStore_mem hs).1 hlives hkb
    have hentry := hw.entry henabled text' kbId' s hs ⟨hlives.1, hclock.trans_lt hlives.2⟩
    change (w.cache.exact.invalidateKb kbId).entries.get? (w.entryKey s) = _
    rw [InMemoryExactCache.get?_invalidateKb, hdrops]
    exact hentry

theorem serving_store {w : CacheRun} (hw : Serving w) {now : ℚ} (hclock : w.clock ≤ now)
    {text answer kbId chunkId : String} {qvec : Option (List ℚ)} {upserted : Bool}
    {chunk : Option Chunk} {w' : CacheRun}
    (hkeeps : KeepsStored w ⟨now, .store text answer kbId chunkId qvec upserted⟩ w') :
    Serving {
      clock := now
      cache := (w.cache.store now text answer kbId chunkId qvec).1
      log := w.log ++ [{
        kbId, text, answer, time := now, epoch := w.cache.exact.getEpoch kbId, live := true
        chunk }] } := by
  constructor
  · intro s hs hlive
    rw [SemanticCache.getEpoch_store]
    rcases List.mem_append.mp hs with hs | hs
    · exact hw.epoch_of_live s hs hlive
    · rw [List.mem_singleton.mp hs]
  · intro henabled text' kbId' s hs hlives
    have hon : w.cache.config.enabled = true :=
      (SemanticCache.config_store ..) ▸ henabled
    rw [SemanticCache.store_of_enabled hon] at hlives ⊢
    rw [lastStore_concat rfl] at hs
    change (w.cache.exact.set now (w.cache.sha256.hexdigest text) answer kbId
      (w.cache.exact.getEpoch kbId) (some w.cache.config.ttlS)).entries.get? (w.entryKey s) = _
    rw [InMemoryExactCache.set, OrderedDict.get?_insert]
    split_ifs at hs with hsame
    · cases hs
      exact if_pos rfl
    · obtain ⟨hlog, htext, hkb⟩ := lastStore_mem hs
      rw [if_neg]
      · exact hw.entry hon text' kbId' s hs ⟨hlives.1, hclock.trans_lt hlives.2⟩
      · -- another question of the knowledge base has another digest
        intro hkey
        obtain ⟨hkb', _, hdigest⟩ := InMemoryExactCache.fullKey_inj
          (w.cache.sha256.colon_notMem text) (w.cache.sha256.colon_notMem s.text) hkey
        have hsametext := hkeeps s hlog hlives hkb'.symm hdigest.symm
        exact hsame ⟨hsametext.symm.trans htext, hkb'.trans hkb⟩

theorem answersStored_step {w w' : CacheRun} {e : TimedCacheEvent} (hw : Serving w)
    (hs : w.step e = some w') (hk : KeepsStored w e w') : AnswersStored w e w' ∧ Serving w' := by
  obtain ⟨now, event⟩ := e
  unfold step at hs
  split_ifs at hs with hbehind
  have hclock : w.clock ≤ now := not_lt.mp hbehind
  cases event with
  | store text answer kbId chunkId qvec upserted =>
    cases hs
    exact ⟨trivial, serving_store hw hclock hk⟩
  | lookup text kbId qvec hits =>
    cases hs
    exact ⟨(answersStored_lookup_iff hw hclock text kbId qvec hits).mpr hk,
      serving_lookup hw hclock⟩
  | invalidateKb kbId =>
    cases hs
    exact ⟨trivial, serving_invalidateKb hw hclock hk⟩

/-- In a run that asks for stored answers in the tiers mode only, and in which no living entry is
taken by a digest or a key that begins alike, every lookup returns what was stored last. -/
theorem answersStored_of_keepsStored {config : CacheConfig} {sha256 : Sha256} {nspace : String}
    {ttlS : ℤ} {start : ℚ} {events : List TimedCacheEvent}
    (h : EveryStep step KeepsStored (fresh config sha256 nspace ttlS start) events) :
    EveryStep step AnswersStored (fresh config sha256 nspace ttlS start) events :=
  EveryStep.of_invariant (I := Serving) (fun _ _ _ => answersStored_step)
    (serving_fresh config sha256 nspace ttlS start) h

instance (w : CacheRun) (now : ℚ) (s : StoreCall) : Decidable (Lives w now s) :=
  inferInstanceAs (Decidable (_ ∧ _))

instance (w : CacheRun) (e : TimedCacheEvent) (w' : CacheRun) : Decidable (AnswersStored w e w') :=
  match e with
  | ⟨now, .lookup text kbId qvec hits⟩ =>
    inferInstanceAs (Decidable ((∀ s ∈ w.lastStore text kbId, Lives w now s →
      (w.ask now text kbId qvec hits).1 = some s.answer) ∧
      (w.cache.config.fastOnly = true → w.cache.consulted now text kbId qvec = [])))
  | ⟨_, .store ..⟩ => isTrue trivial
  | ⟨_, .invalidateKb _⟩ => isTrue trivial

instance (w : CacheRun) (e : TimedCacheEvent) (w' : CacheRun) : Decidable (KeepsStored w e w') :=
  match e with
  | ⟨now, .store text _ kbId _ _ _⟩ =>
    inferInstanceAs (Decidable (∀ s ∈ w.log, Lives w now s → s.kbId = kbId →
      w.cache.sha256.hexdigest s.text = w.cache.sha256.hexdigest text → s.text = text))
  | ⟨now, .lookup text kbId _ _⟩ =>
    inferInstanceAs (Decidable ((∃ s ∈ w.lastStore text kbId, Lives w now s) →
      w.cache.config.enabled = true ∧ w.cache.config.fastOnly = false))
  | ⟨now, .invalidateKb kbId⟩ =>
    inferInstanceAs (Decidable (∀ s ∈ w.log, Lives w now s → s.kbId ≠ kbId →
      w.cache.exact.drops kbId (w.entryKey s) = false))

theorem day_pos : (0 : ℤ) < 86400 := by decide

theorem threshold_nonneg : (0 : ℚ) ≤ 97 / 100 := by decide +kernel

theorem threshold_le_one : (97 / 100 : ℚ) ≤ 1 := by decide +kernel

/-- The defaults, in either mode. -/
def defaultConfig (fastOnly : Bool) : CacheConfig where
  fastOnly := fastOnly
  ttl_pos := day_pos
  similarity_nonneg := threshold_nonneg
  similarity_le_one := threshold_le_one

/-- Another knowledge base is written, asked and invalidated in between. -/
theorem answersStored_interleaved :
    EveryStep step AnswersStored
      (fresh (defaultConfig false) sampleSha256 "ragx_semantic_cache" 86400 0)
      [storeForDefault, ⟨10, .store "q" "other" "kb_b" "chk_2" none false⟩,
        ⟨20, .invalidateKb "kb_b"⟩, ⟨30, .lookup "q" "kb_b" (some [1, 0]) (some [])⟩,
        ⟨60, .lookup "q" "default" none none⟩] :=
  answersStored_of_keepsStored (by decide +kernel)

/-- The fast mode finds nothing, a minute after the answer was stored. -/
theorem fastOnly_not_answersStored :
    ¬ EveryStep step AnswersStored
      (fresh (defaultConfig true) sampleSha256 "ragx_semantic_cache" 86400 0)
      [storeForDefault, ⟨60, .lookup "q" "default" (some [1, 0]) (some [0])⟩] := by
  decide +kernel

end CacheRun

end Ragx
