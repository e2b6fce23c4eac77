import Mathlib.Tactic.Linarith
import Ragx.CacheReads
import Ragx.EventRuns

/-!
# The two cache drivers side by side

The same client talks to both drivers: it asks for the epoch of a knowledge base and uses
each driver's last answer in the calls that follow. The calls so far tell what either driver
still holds, and with it when the two give the same replies.
-/
namespace Ragx

/-- A call before the client fills in the epoch. -/
inductive CacheRequest where
  | get (key : String) (kb : KbId)
  | set (key value : String) (kb : KbId) (ttl : Option {ttl : ℤ // 0 < ttl})
  | delete (key : String) (kb : KbId)
  | getMany (keys : List String) (kb : KbId)
  | setMany (items : List (String × String)) (kb : KbId) (ttl : Option {ttl : ℤ // 0 < ttl})
  | getEpoch (kb : KbId)
  | invalidateKb (kb : KbId)

namespace CacheRequest

def call (epoch : ℕ) : CacheRequest → CacheCall
  | .get key kb => .get key kb.id epoch
  | .set key value kb ttl => .set key value kb.id epoch (ttl.map (·.val))
  | .delete key kb => .delete key kb.id epoch
  | .getMany keys kb => .getMany keys kb.id epoch
  | .setMany items kb ttl => .setMany items kb.id epoch (ttl.map (·.val))
  | .getEpoch kb => .getEpoch kb.id
  | .invalidateKb kb => .invalidateKb kb.id

/-- The knowledge base whose epoch the call takes. -/
def epochOf : CacheRequest → Option KbId
  | .get _ kb | .set _ _ kb _ | .delete _ kb | .getMany _ kb | .setMany _ kb _ => some kb
  | .getEpoch _ | .invalidateKb _ => none

def invalidates (kb : KbId) : CacheRequest → Bool
  | .invalidateKb kb' => kb' = kb
  | _ => false

/-- What a call leaves under a key, if it touches the key: a value with its time to live, or
nothing. -/
def writes (kb : KbId) (key : String) :
    CacheRequest → Option (Option (String × Option {ttl : ℤ // 0 < ttl}))
  | .set key' value kb' ttl => if kb' = kb ∧ key' = key then some (some (value, ttl)) else none
  | .delete key' kb' => if kb' = kb ∧ key' = key then some none else none
  | .setMany items kb' ttl =>
    (if kb' = kb then lastValue key items else none).map fun value => some (value, ttl)
  | _ => none

end CacheRequest

/-- A driver and its last answers to `get_epoch`. -/
structure CacheClient (δ : Type) where
  cache : δ
  epochs : OrderedDict String ℕ := .empty

namespace CacheClient

def noted (epochs : OrderedDict String ℕ) : CacheRequest → CacheReply → OrderedDict String ℕ
  | .getEpoch kb, .epoch n => epochs.insert kb.id n
  | _, _ => epochs

/-- `none` if the call takes an epoch that was not asked for before. -/
def ask {δ : Type} (call : ℚ → δ → CacheCall → CacheReply × δ) (client : CacheClient δ) (now : ℚ)
    (request : CacheRequest) : Option (CacheReply × CacheClient δ) :=
  (request.epochOf.elim (some 1) fun kb => client.epochs.get? kb.id).map fun epoch =>
    let (reply, cache) := call now client.cache (request.call epoch)
    (reply, ⟨cache, noted client.epochs request reply⟩)

end CacheClient

structure CacheTwins where
  clock : ℚ
  memory : CacheClient InMemoryExactCache
  redis : CacheClient RedisCache
  /-- The calls so far, the last one first. -/
  past : List (ℚ × CacheRequest) := []

/-- What both drivers are configured with. -/
structure TwinConfig where
  server : RedisServer
  nspace : String
  ttlS : ℤ
  globFree : GlobFree nspace
  ttlS_pos : 0 < ttlS

/-- The last write of a key. -/
structure CacheWrite where
  value : String
  time : ℚ
  ttl : ℤ
  /-- Invalidations of the knowledge base before and after the write. -/
  before : ℕ
  since : ℕ := 0

namespace CacheTwins

def fresh (config : TwinConfig) (start : ℚ) : CacheTwins where
  clock := start
  memory := { cache := { nspace := config.nspace, ttlS := config.ttlS } }
  redis := { cache := { server := config.server, nspace := config.nspace, ttlS := config.ttlS } }

def step (w : CacheTwins) (e : ℚ × CacheRequest) : Option CacheTwins :=
  if e.1 < w.clock then none
  else
    match w.memory.ask InMemoryExactCache.call e.1 e.2, w.redis.ask RedisCache.call e.1 e.2 with
    | some (_, memory), some (_, redis) =>
      some { clock := e.1, memory, redis, past := e :: w.past }
    | _, _ => none

/-- Both drivers reply the same. -/
def SameReplies (w : CacheTwins) (e : ℚ × CacheRequest) (_ : CacheTwins) : Prop :=
  (w.memory.ask InMemoryExactCache.call e.1 e.2).map (·.1) =
    (w.redis.ask RedisCache.call e.1 e.2).map (·.1)

/-! ## The history of a key -/

def invalidations (kb : KbId) (past : List (ℚ × CacheRequest)) : ℕ :=
  past.countP fun e => e.2.invalidates kb

def lastWrite (ttlS : ℤ) (kb : KbId) (key : String) : List (ℚ × CacheRequest) → Option CacheWrite
  | [] => none
  | (time, request) :: past =>
    match request.writes kb key with
    | some written => written.map fun (value, ttl) =>
      { value, time, ttl := (ttl.map (·.val)).getD ttlS, before := invalidations kb past }
    | none => (lastWrite ttlS kb key past).map fun write =>
      if request.invalidates kb then { write with since := write.since + 1 } else write

/-- The driver in memory drops a value at the next invalidation, and when it has expired. -/
def InMemory (now : ℚ) (write : CacheWrite) : Prop :=
  write.since = 0 ∧ now ≤ write.time + write.ttl

/-- The driver in Redis drops a value at the second invalidation of its knowledge base, and
when the server finds it expired. -/
def InRedis (server : RedisServer) (now : ℚ) (write : CacheWrite) : Prop :=
  ¬(write.before ≤ 1 ∧ 2 ≤ write.before + write.since) ∧
    server.expired write.time write.ttl now = false

instance (now : ℚ) : DecidablePred (InMemory now) :=
  fun write => inferInstanceAs (Decidable (write.since = 0 ∧ now ≤ write.time + write.ttl))

instance (server : RedisServer) (now : ℚ) : DecidablePred (InRedis server now) :=
  fun write => inferInstanceAs (Decidable (¬(write.before ≤ 1 ∧ 2 ≤ write.before + write.since) ∧
    server.expired write.time write.ttl now = false))

/-- The last write of a key is still in both drivers or in neither. -/
def HeldAlike (config : TwinConfig) (w : CacheTwins) (now : ℚ) (kb : KbId) (key : String) : Prop :=
  ∀ write ∈ lastWrite config.ttlS kb key w.past,
    InMemory now write ↔ InRedis config.server now write

/-- No epoch is asked for after an invalidation, and what is read is held alike. -/
def Agrees (config : TwinConfig) (w : CacheTwins) (e : ℚ × CacheRequest) (_ : CacheTwins) : Prop :=
  match e.2 with
  | .get key kb => HeldAlike config w e.1 kb key
  | .getMany keys kb => ∀ key ∈ keys, HeldAlike config w e.1 kb key
  | .getEpoch kb => invalidations kb w.past = 0
  | _ => True

/-- Without an invalidation, the drivers differ about a value in the millisecond from its
deadline on at most. -/
theorem inMemory_iff_inRedis (server : RedisServer) {now : ℚ} {write : CacheWrite}
    (hsince : write.since = 0)
    (hinstant : now < write.time + write.ttl ∨ write.time + write.ttl + 1 / 1000 ≤ now) :
    InMemory now write ↔ InRedis server now write := by
  have hbefore : ¬(write.before ≤ 1 ∧ 2 ≤ write.before + write.since) := by omega
  rcases hinstant with hlive | hgone
  · exact iff_of_true ⟨hsince, hlive.le⟩ ⟨hbefore, server.live_before _ _ _ hlive⟩
  · have hexpired := server.expired_after _ _ _ hgone
    refine iff_of_false (fun h => ?_) fun h => absurd (hexpired.symm.trans h.2) (by decide)
    linarith [h.2]

section History

variable (config : TwinConfig) (past : List (ℚ × CacheRequest)) (holds : CacheWrite → Prop)
  [DecidablePred holds] (kb : KbId) (key : String)

/-- The value of the last write, as long as it is held. -/
def held : Option String :=
  (lastWrite config.ttlS kb key past).bind fun write =>
    if holds write then some write.value else none

variable {config past holds kb key} {time : ℚ} {request : CacheRequest}

theorem held_eq_iff {holds' : CacheWrite → Prop} [DecidablePred holds'] :
    held config past holds kb key = held config past holds' kb key ↔
      ∀ write ∈ lastWrite config.ttlS kb key past, holds write ↔ holds' write := by
  rw [held, held]
  cases lastWrite config.ttlS kb key past with
  | none => simp
  | some write =>
    by_cases h : holds write <;> by_cases h' : holds' write <;> simp [h, h']

theorem invalidations_of_not (hinv : request.invalidates kb = false) :
    invalidations kb ((time, request) :: past) = invalidations kb past := by
  simp [invalidations, hinv]

theorem invalidations_invalidateKb (kb' : KbId) :
    invalidations kb' ((time, .invalidateKb kb) :: past) =
      if kb = kb' then invalidations kb' past + 1 else invalidations kb' past := by
  rw [invalidations, List.countP_cons]
  by_cases hkb : kb = kb' <;> simp [CacheRequest.invalidates, hkb, invalidations]

theorem held_of_untouched (hwrites : request.writes kb key = none)
    (hinv : request.invalidates kb = false) :
    held config ((time, request) :: past) holds kb key = held config past holds kb key := by
  rw [held, lastWrite, hwrites, held]
  simp [hinv]

theorem held_of_written {written : Option (String × Option {ttl : ℤ // 0 < ttl})}
    (hwrites : request.writes kb key = some written) :
    held config ((time, request) :: past) holds kb key = written.bind fun item =>
      if holds ⟨item.1, time, (item.2.map (·.val)).getD config.ttlS, invalidations kb past, 0⟩ then
        some item.1
      else none := by
  rw [held, lastWrite, hwrites]
  cases written <;> rfl

theorem held_of_invalidated :
    held config ((time, .invalidateKb kb) :: past) holds kb key =
      (lastWrite config.ttlS kb key past).bind fun write =>
        if holds { write with since := write.since + 1 } then some write.value else none := by
  rw [held, lastWrite]
  cases lastWrite config.ttlS kb key past <;> simp [CacheRequest.writes, CacheRequest.invalidates]

/-- The invalidations around the last write are all there have been. -/
theorem before_add_since {ttlS : ℤ} {write : CacheWrite}
    (h : lastWrite ttlS kb key past = some write) :
    write.before + write.since = invalidations kb past := by
  induction past generalizing write with
  | nil => cases h
  | cons e past ih =>
    obtain ⟨time, request⟩ := e
    rw [lastWrite] at h
    cases hwrites : request.writes kb key with
    | some written =>
      rw [hwrites] at h
      obtain ⟨item, _, rfl⟩ := Option.map_eq_some_iff.mp h
      have hinv : request.invalidates kb = false := by
        cases request <;> first | rfl | cases hwrites
      exact (invalidations_of_not hinv).symm
    | none =>
      rw [hwrites] at h
      obtain ⟨earlier, hearlier, rfl⟩ := Option.map_eq_some_iff.mp h
      have hcount := ih hearlier
      rw [invalidations, List.countP_cons, ← invalidations, ← hcount]
      split_ifs <;> simp [Nat.add_assoc]

end History

/-! ## Each driver against the history -/

variable (config : TwinConfig) (past : List (ℚ × CacheRequest))

/-- The driver in memory holds what the calls say, at every time from the last call on. -/
structure MemoryDescribed (clock : ℚ) (cache : InMemoryExactCache) : Prop where
  nspace_eq : cache.nspace = config.nspace
  ttlS_eq : cache.ttlS = config.ttlS
  epoch : ∀ kb : KbId, cache.getEpoch kb.id = invalidations kb past + 1
  read : ∀ now, clock ≤ now → ∀ (kb : KbId) (key : String),
    (cache.get now key kb.id 1).1 = held config past (InMemory now) kb key

structure RedisDescribed (cache : RedisCache) : Prop where
  server_eq : cache.server = config.server
  nspace_eq : cache.nspace = config.nspace
  ttlS_eq : cache.ttlS = config.ttlS
  epoch : ∀ kb : KbId,
    cache.keyspace.get? (cache.epochKey kb.id) = RedisCache.counter (invalidations kb past)
  read : ∀ (now : ℚ) (kb : KbId) (key : String),
    cache.get now key kb.id 1 = held config past (InRedis config.server now) kb key

variable {config past}

/-- A call other than an invalidation: each key reads as before or as the call has written. -/
theorem MemoryDescribed.keeps {clock now : ℚ} {cache cache' : InMemoryExactCache}
    (h : MemoryDescribed config past clock cache) (hclock : clock ≤ now) {request : CacheRequest}
    (hinv : ∀ kb, request.invalidates kb = false)
    (hsame : InMemoryExactCache.SameButEntries cache cache')
    (hread : ∀ now', now ≤ now' → ∀ (kb : KbId) (key : String),
      (cache'.get now' key kb.id 1).1 =
        (request.writes kb key).elim (cache.get now' key kb.id 1).1 fun written =>
          written.bind fun item =>
            if now + (item.2.map (·.val)).getD cache.ttlS < now' then none else some item.1) :
    MemoryDescribed config ((now, request) :: past) now cache' where
  nspace_eq := hsame.nspace_eq.trans h.nspace_eq
  ttlS_eq := hsame.ttlS_eq.trans h.ttlS_eq
  epoch kb := by
    rw [InMemoryExactCache.getEpoch, hsame.epochs_eq, ← InMemoryExactCache.getEpoch, h.epoch,
      invalidations_of_not (hinv kb)]
  read now' hnow kb key := by
    rw [hread now' hnow]
    cases hwrites : request.writes kb key with
    | none =>
      rw [held_of_untouched hwrites (hinv kb)]
      exact h.read now' (hclock.trans hnow) kb key
    | some written =>
      rw [held_of_written hwrites, Option.elim_some, h.ttlS_eq]
      refine congrArg _ (funext fun item => ?_)
      simp only [InMemory, true_and, ← not_lt, ite_not]

theorem MemoryDescribed.invalidateKb {clock now : ℚ} {cache : InMemoryExactCache}
    (h : MemoryDescribed config past clock cache) (hclock : clock ≤ now) (kb : KbId) :
    MemoryDescribed config ((now, .invalidateKb kb) :: past) now (cache.invalidateKb kb.id) where
  nspace_eq := h.nspace_eq
  ttlS_eq := h.ttlS_eq
  epoch kb' := by
    have hid : kb.id = kb'.id ↔ kb = kb' := KbId.ext_iff.symm
    rw [InMemoryExactCache.getEpoch_invalidateKb, h.epoch, invalidations_invalidateKb]
    by_cases hkb : kb = kb' <;> simp [hid, hkb]
  read now' hnow kb' key := by
    rw [InMemoryExactCache.get_invalidateKb_iff, h.epoch]
    by_cases hkb : kb = kb'
    · subst hkb
      rw [if_pos ⟨rfl, by omega⟩, held_of_invalidated]
      simp [InMemory]
    · have huntouched : held config ((now, .invalidateKb kb) :: past) (InMemory now') kb' key =
          held config past (InMemory now') kb' key :=
        held_of_untouched rfl (decide_eq_false hkb)
      rw [if_neg (fun hand => hkb hand.1), huntouched]
      exact h.read now' (hclock.trans hnow) kb' key

theorem MemoryDescribed.call {clock now : ℚ} {cache : InMemoryExactCache}
    (h : MemoryDescribed config past clock cache) (hclock : clock ≤ now) (request : CacheRequest) :
    MemoryDescribed config ((now, request) :: past) now (cache.call now (request.call 1)).2 := by
  cases request with
  | get key kb =>
    exact h.keeps hclock (fun _ => rfl) (cache.sameButEntries_get ..)
      fun now' hnow kb' key' => cache.get_get hnow ..
  | set key value kb ttl =>
    refine h.keeps hclock (fun _ => rfl) ⟨rfl, rfl, rfl⟩ fun now' hnow kb' key' => ?_
    refine (cache.get_set_iff now now' kb kb' 1 key key' value _).trans ?_
    rw [CacheRequest.writes]
    by_cases hkey : kb = kb' ∧ key = key' <;> simp [hkey]
  | delete key kb =>
    refine h.keeps hclock (fun _ => rfl) ⟨rfl, rfl, rfl⟩ fun now' hnow kb' key' => ?_
    refine (cache.get_delete_iff now' kb kb' 1 key key').trans ?_
    rw [CacheRequest.writes]
    by_cases hkey : kb = kb' ∧ key = key' <;> simp [hkey]
  | getMany keys kb =>
    exact h.keeps hclock (fun _ => rfl) (cache.sameButEntries_getMany ..)
      fun now' hnow kb' key' => cache.get_getMany hnow ..
  | setMany items kb ttl =>
    refine h.keeps hclock (fun _ => rfl) (cache.sameButEntries_setMany ..)
      fun now' hnow kb' key' => ?_
    refine (cache.get_setMany now now' kb kb' 1 key' _ items).trans ?_
    rw [CacheRequest.writes]
    cases (if kb = kb' then lastValue key' items else none) <;> rfl
  | getEpoch kb =>
    exact h.keeps hclock (fun _ => rfl) ⟨rfl, rfl, rfl⟩ fun _ _ _ _ => rfl
  | invalidateKb kb => exact h.invalidateKb hclock kb

theorem RedisDescribed.keeps {now : ℚ} {cache cache' : RedisCache}
    (h : RedisDescribed config past cache) {request : CacheRequest}
    (hinv : ∀ kb, request.invalidates kb = false) (hsame : RedisCache.SameCounters cache cache')
    (hread : ∀ now' (kb : KbId) (key : String),
      cache'.get now' key kb.id 1 =
        (request.writes kb key).elim (cache.get now' key kb.id 1) fun written =>
          written.bind fun item =>
            if cache.server.expired now ((item.2.map (·.val)).getD cache.ttlS) now' then none
            else some item.1) :
    RedisDescribed config ((now, request) :: past) cache' where
  server_eq := hsame.server_eq.trans h.server_eq
  nspace_eq := hsame.nspace_eq.trans h.nspace_eq
  ttlS_eq := hsame.ttlS_eq.trans h.ttlS_eq
  epoch kb := by
    have hcounter := (hsame.counter_eq kb).trans (h.epoch kb)
    rw [RedisCache.epochKey, ← hsame.nspace_eq] at hcounter
    rw [RedisCache.epochKey, hcounter, invalidations_of_not (hinv kb)]
  read now' kb key := by
    rw [hread now']
    cases hwrites : request.writes kb key with
    | none =>
      rw [held_of_untouched hwrites (hinv kb)]
      exact h.read now' kb key
    | some written =>
      rw [held_of_written hwrites, Option.elim_some, h.ttlS_eq, h.server_eq]
      refine congrArg _ (funext fun item => ?_)
      have hbefore : ¬(invalidations kb past ≤ 1 ∧ 2 ≤ invalidations kb past + 0) := by omega
      simp only [InRedis, hbefore, not_false_eq_true, true_and, ← Bool.not_eq_true, ite_not]

theorem RedisDescribed.invalidateKb {now : ℚ} {cache : RedisCache}
    (h : RedisDescribed config past cache) (kb : KbId) :
    RedisDescribed config ((now, .invalidateKb kb) :: past) (cache.invalidateKb now kb.id).2 := by
  have hspace : GlobFree cache.nspace := h.nspace_eq ▸ config.globFree
  have hcall := cache.invalidateKb_counter now (h.epoch kb)
  constructor
  · rw [hcall]
    exact h.server_eq
  · rw [hcall]
    exact h.nspace_eq
  · rw [hcall]
    exact h.ttlS_eq
  · intro kb'
    have hcounter := RedisCache.counter_invalidateKb now kb kb' hspace (h.epoch kb)
    have hkey : (cache.invalidateKb now kb.id).2.epochKey kb'.id = cache.epochKey kb'.id := by
      rw [hcall]
      rfl
    rw [hkey, hcounter, h.epoch kb', invalidations_invalidateKb]
    by_cases hkb : kb = kb' <;> simp [hkb]
  · intro now' kb' key
    rw [RedisCache.get_invalidateKb now now' kb kb' 1 key hspace (h.epoch kb), h.read]
    by_cases hkb : kb = kb'
    · subst hkb
      rw [held_of_invalidated, held]
      cases hlast : lastWrite config.ttlS kb key past with
      | none => simp
      | some write =>
        have hcount := before_add_since hlast
        by_cases hn : invalidations kb past = 1
        · -- the second invalidation
          have hdropped : write.before ≤ 1 ∧ 2 ≤ write.before + (write.since + 1) := by omega
          rw [if_pos ⟨rfl, hn⟩, Option.bind_some, if_neg (fun hin => hin.1 hdropped)]
        · have hsame : write.before ≤ 1 ∧ 2 ≤ write.before + (write.since + 1) ↔
              write.before ≤ 1 ∧ 2 ≤ write.before + write.since := by omega
          rw [if_neg (fun hand => hn hand.2), Option.bind_some, Option.bind_some]
          exact if_congr (and_congr_left' (not_congr hsame.symm)) rfl rfl
    · have huntouched : held config ((now, .invalidateKb kb) :: past) (InRedis config.server now')
          kb' key = held config past (InRedis config.server now') kb' key :=
        held_of_untouched rfl (decide_eq_false hkb)
      rw [if_neg (fun hand => hkb hand.1), huntouched]

theorem effectiveTtl_pos (config : TwinConfig) (ttl : Option {ttl : ℤ // 0 < ttl}) :
    0 < (ttl.map (·.val)).getD config.ttlS := by
  cases ttl with
  | none => exact config.ttlS_pos
  | some ttl => exact ttl.property

theorem RedisDescribed.call {now : ℚ} {cache : RedisCache}
    (h : RedisDescribed config past cache) (request : CacheRequest) :
    RedisDescribed config ((now, request) :: past) (cache.call now (request.call 1)).2 := by
  cases request with
  | get key kb | getMany keys kb | getEpoch kb =>
    exact h.keeps (fun _ => rfl) ⟨rfl, rfl, rfl, fun _ => rfl⟩ fun _ _ _ => rfl
  | set key value kb ttl =>
    have hset := cache.set_eq now kb 1 key value _ (h.ttlS_eq ▸ effectiveTtl_pos config ttl)
    have hcall : (cache.call now ((CacheRequest.set key value kb ttl).call 1)).2 =
        cache.setex now (cache.fullKey kb.id 1 key) ((ttl.map (·.val)).getD cache.ttlS) value :=
      congrArg Prod.snd hset
    rw [hcall]
    refine h.keeps (fun _ => rfl) (cache.sameCounters_setex ..) fun now' kb' key' => ?_
    rw [cache.get_setex, CacheRequest.writes]
    by_cases hkey : kb = kb' ∧ key = key' <;> simp [hkey]
  | delete key kb =>
    refine h.keeps (fun _ => rfl) (cache.sameCounters_delete ..) fun now' kb' key' => ?_
    refine (cache.get_delete now' kb kb' 1 key key').trans ?_
    rw [CacheRequest.writes]
    by_cases hkey : kb = kb' ∧ key = key' <;> simp [hkey]
  | setMany items kb ttl =>
    have hset := cache.setMany_eq now kb 1 _ (h.ttlS_eq ▸ effectiveTtl_pos config ttl) items
    have hcall : (cache.call now ((CacheRequest.setMany items kb ttl).call 1)).2 =
        items.foldl (fun c item => c.setex now (c.fullKey kb.id 1 item.1)
          ((ttl.map (·.val)).getD cache.ttlS) item.2) cache :=
      congrArg Prod.snd hset
    rw [hcall]
    refine h.keeps (fun _ => rfl) (cache.sameCounters_setexMany ..) fun now' kb' key' => ?_
    rw [cache.get_setexMany, CacheRequest.writes]
    cases (if kb = kb' then lastValue key' items else none) <;> rfl
  | invalidateKb kb => exact h.invalidateKb kb

/-! ## Both drivers -/

/-- As long as the drivers agreed, every epoch that either one named was the first. -/
structure Described (config : TwinConfig) (w : CacheTwins) : Prop where
  memory : MemoryDescribed config w.past w.clock w.memory.cache
  redis : RedisDescribed config w.past w.redis.cache
  epochs_eq : w.redis.epochs = w.memory.epochs
  first : ∀ kb : KbId, ∀ epoch ∈ w.memory.epochs.get? kb.id, epoch = 1

theorem described_fresh (config : TwinConfig) (start : ℚ) :
    Described config (fresh config start) where
  memory := ⟨rfl, rfl, fun _ => rfl, fun _ _ _ _ => rfl⟩
  redis := ⟨rfl, rfl, rfl, fun _ => rfl, fun _ _ _ => rfl⟩
  epochs_eq := rfl
  first kb epoch h := by cases h

theorem ask_eq {δ : Type} {call : ℚ → δ → CacheCall → CacheReply × δ} {client : CacheClient δ}
    {now : ℚ} {request : CacheRequest} {answer : CacheReply × CacheClient δ}
    (hfirst : ∀ kb : KbId, ∀ epoch ∈ client.epochs.get? kb.id, epoch = 1)
    (h : client.ask call now request = some answer) :
    answer = ((call now client.cache (request.call 1)).1,
      ⟨(call now client.cache (request.call 1)).2,
        CacheClient.noted client.epochs request (call now client.cache (request.call 1)).1⟩) := by
  obtain ⟨epoch, hepoch, rfl⟩ := Option.map_eq_some_iff.mp h
  obtain rfl : epoch = 1 := by
    cases hof : request.epochOf with
    | none =>
      rw [hof] at hepoch
      exact (Option.some.inj hepoch).symm
    | some kb =>
      rw [hof] at hepoch
      exact hfirst kb epoch hepoch
  rfl

/-- Under the invariant a step is a call of both drivers in the first epoch. -/
theorem step_cases {config : TwinConfig} {w w' : CacheTwins} {e : ℚ × CacheRequest}
    (hw : Described config w) (h : step w e = some w') :
    w.clock ≤ e.1 ∧
      (SameReplies w e w' ↔ (w.memory.cache.call e.1 (e.2.call 1)).1 =
        (w.redis.cache.call e.1 (e.2.call 1)).1) ∧
      w' = {
        clock := e.1
        memory := ⟨(w.memory.cache.call e.1 (e.2.call 1)).2,
          CacheClient.noted w.memory.epochs e.2 (w.memory.cache.call e.1 (e.2.call 1)).1⟩
        redis := ⟨(w.redis.cache.call e.1 (e.2.call 1)).2,
          CacheClient.noted w.redis.epochs e.2 (w.redis.cache.call e.1 (e.2.call 1)).1⟩
        past := e :: w.past } := by
  rw [step] at h
  split_ifs at h with hclock
  split at h
  · rename_i reply memory reply' redis hmemory hredis
    obtain ⟨rfl, rfl⟩ := Prod.mk.inj (ask_eq hw.first hmemory)
    obtain ⟨rfl, rfl⟩ := Prod.mk.inj (ask_eq (hw.epochs_eq ▸ hw.first) hredis)
    cases h
    refine ⟨not_lt.mp hclock, ?_, rfl⟩
    rw [SameReplies, hmemory, hredis, Option.map_some, Option.map_some, Option.some.injEq]
  · cases h

/-- In the first epoch the replies agree exactly under the condition on the history. -/
theorem replies_eq_iff {config : TwinConfig} {w w' : CacheTwins} {e : ℚ × CacheRequest}
    (hw : Described config w) (hclock : w.clock ≤ e.1) :
    (w.memory.cache.call e.1 (e.2.call 1)).1 = (w.redis.cache.call e.1 (e.2.call 1)).1 ↔
      Agrees config w e w' := by
  obtain ⟨now, request⟩ := e
  have hread (kb : KbId) (key : String) : (w.memory.cache.get now key kb.id 1).1 =
      w.redis.cache.get now key kb.id 1 ↔ HeldAlike config w now kb key := by
    rw [hw.memory.read now hclock, hw.redis.read, held_eq_iff]
    rfl
  have hpos (ttl : Option {ttl : ℤ // 0 < ttl}) :
      0 < (ttl.map (·.val)).getD w.redis.cache.ttlS :=
    hw.redis.ttlS_eq ▸ effectiveTtl_pos config ttl
  cases request with
  | get key kb => exact CacheReply.value.injEq _ _ ▸ hread kb key
  | set key value kb ttl =>
    have hok := congrArg Prod.fst (w.redis.cache.set_eq now kb 1 key value _ (hpos ttl))
    exact iff_of_true (congrArg CacheReply.stored hok.symm) trivial
  | delete key kb => exact iff_of_true rfl trivial
  | getMany keys kb =>
    change CacheReply.values (InMemoryExactCache.getMany now kb.id 1 w.memory.cache keys).1 =
      CacheReply.values (w.redis.cache.getMany now keys kb.id 1) ↔
        ∀ key ∈ keys, HeldAlike config w now kb key
    rw [CacheReply.values.injEq, InMemoryExactCache.getMany_fst, RedisCache.getMany,
      List.map_inj_left]
    exact forall₂_congr fun key _ => hread kb key
  | setMany items kb ttl =>
    have hok := congrArg Prod.fst (w.redis.cache.setMany_eq now kb 1 _ (hpos ttl) items)
    exact iff_of_true (congrArg CacheReply.stored hok.symm) trivial
  | getEpoch kb =>
    have hepoch := w.redis.cache.getEpoch_counter now (hw.redis.epoch kb)
    change CacheReply.epoch _ = CacheReply.epoch _ ↔ invalidations kb w.past = 0
    rw [CacheReply.epoch.injEq, hw.memory.epoch, hepoch]
    split_ifs <;> omega
  | invalidateKb kb =>
    have hok := congrArg Prod.fst (w.redis.cache.invalidateKb_counter now (hw.redis.epoch kb))
    exact iff_of_true (congrArg CacheReply.invalidated hok.symm) trivial

theorem described_step {config : TwinConfig} {w w' : CacheTwins} {e : ℚ × CacheRequest}
    (hw : Described config w) (h : step w e = some w') (hagrees : Agrees config w e w') :
    Described config w' := by
  obtain ⟨hclock, _, rfl⟩ := step_cases hw h
  have hreplies := (replies_eq_iff hw hclock).mpr hagrees
  refine ⟨hw.memory.call hclock e.2, hw.redis.call e.2, ?_, ?_⟩
  · rw [hreplies, hw.epochs_eq]
  · obtain ⟨now, request⟩ := e
    cases request with
    | getEpoch kb =>
      intro kb' epoch hmem
      have hfirst : w.memory.cache.getEpoch kb.id = 1 := by
        rw [hw.memory.epoch, show invalidations kb w.past = 0 from hagrees]
      change (w.memory.epochs.insert kb.id (w.memory.cache.getEpoch kb.id)).get? kb'.id =
        some epoch at hmem
      rw [OrderedDict.get?_insert, hfirst] at hmem
      split_ifs at hmem
      · exact (Option.some.inj hmem).symm
      · exact hw.first kb' epoch hmem
    | get | set | delete | getMany | setMany | invalidateKb => exact hw.first

/-- In every run the drivers reply the same exactly if no epoch is asked for after an
invalidation and every value that is read is held by both or by neither. -/
theorem sameReplies_iff_agrees (config : TwinConfig) (start : ℚ) (es : List (ℚ × CacheRequest)) :
    EveryStep step SameReplies (fresh config start) es ↔
      EveryStep step (Agrees config) (fresh config start) es := by
  refine everyStep_congr (I := Described config) (fun w e w' hw h => ⟨?_, ?_⟩)
    (described_fresh config start)
  · obtain ⟨hclock, hsame, _⟩ := step_cases hw h
    exact hsame.trans (replies_eq_iff hw hclock)
  · exact described_step hw h

instance (w : CacheTwins) (e : ℚ × CacheRequest) (w' : CacheTwins) :
    Decidable (SameReplies w e w') :=
  inferInstanceAs (Decidable (_ = _))

/-- After the first invalidation the memory driver is in epoch 2, the Redis driver still in
epoch 1, where it finds the old answer. -/
theorem first_invalidation_tells_drivers_apart :
    ¬∀ (config : TwinConfig) (start : ℚ) (es : List (ℚ × CacheRequest)),
      EveryStep step SameReplies (fresh config start) es := by
  intro hall
  let kb : KbId := ⟨"docs", by decide, by decide⟩
  have hrun := hall ⟨plainServer, "ragx_semantic_cache", 86400, by decide, by decide⟩ 0
    [(0, .getEpoch kb), (1, .set "question" "old answer" kb none), (2, .invalidateKb kb),
      (3, .getEpoch kb), (4, .get "question" kb)]
  exact absurd hrun (by decide +kernel)

end CacheTwins

end Ragx
