import Mathlib.Tactic.Linarith
import Ragx.ExactCache

/-!
# The exact cache in Redis

The second driver keeps values and epoch counters in one keyspace of a Redis server. What
the server does by itself, expiring values and matching patterns, is known as far as its
documentation goes.
-/
namespace Ragx

/-- The characters with a meaning in the patterns of SCAN. -/
def globChars : List Char := ['*', '?', '[', ']', '\\']

def GlobFree (text : String) : Prop := ∀ c ∈ text.toList, c ∉ globChars

instance (text : String) : Decidable (GlobFree text) :=
  decidable_of_iff (text.toList.all (!globChars.contains ·)) (by simp [GlobFree])

structure RedisServer where
  /-- Time of the write, time to live and current time. -/
  expired : ℚ → ℤ → ℚ → Bool
  live_before : ∀ (writtenAt : ℚ) (ttl : ℤ) (now : ℚ), now < writtenAt + ttl →
    expired writtenAt ttl now = false
  expired_after : ∀ (writtenAt : ℚ) (ttl : ℤ) (now : ℚ), writtenAt + ttl + 1 / 1000 ≤ now →
    expired writtenAt ttl now = true
  /-- Pattern and key. -/
  globMatch : String → String → Bool
  globMatch_star : ∀ start key, GlobFree start →
    (globMatch (start ++ "*") key = true ↔ start.toList <+: key.toList)

/-- Values expire on time; a pattern ends in its only star. -/
def plainServer : RedisServer where
  expired writtenAt ttl now := writtenAt + ttl < now
  live_before writtenAt ttl now h := decide_eq_false h.not_gt
  expired_after writtenAt ttl now h := decide_eq_true (by linarith)
  globMatch pattern key := pattern.toList.dropLast.isPrefixOf key.toList
  globMatch_star start key _ := by simp

inductive RedisValue where
  | text (s : String)
  | number (n : ℕ)

/-- What GET returns of a value. -/
def RedisValue.shown : RedisValue → String
  | .text s => s
  | .number n => n.repr

structure RedisEntry where
  value : RedisValue
  /-- Time of the write and time to live. -/
  expiry : Option (ℚ × ℤ)

structure RedisCache where
  server : RedisServer
  nspace : String := "ragx_semantic_cache"
  ttlS : ℤ := 86400
  keyspace : OrderedDict String RedisEntry := .empty

namespace RedisCache

def fullKey (cache : RedisCache) (kbId : String) (epoch : ℕ) (key : String) : String :=
  cache.nspace ++ ":" ++ kbId ++ ":" ++ epoch.repr ++ ":" ++ key

def epochKey (cache : RedisCache) (kbId : String) : String := cache.nspace ++ ":epoch:" ++ kbId

/-! ## Commands of the server -/

def lookup (cache : RedisCache) (now : ℚ) (k : String) : Option RedisValue :=
  ((cache.keyspace.get? k).filter fun entry =>
    entry.expiry.all fun e => !cache.server.expired e.1 e.2 now).map (·.value)

/-- SETEX with a positive time to live. -/
def setex (cache : RedisCache) (now : ℚ) (k : String) (ttl : ℤ) (value : String) : RedisCache :=
  { cache with keyspace := cache.keyspace.insert k ⟨.text value, some (now, ttl)⟩ }

/-- INCR; a text is refused. -/
def incr (cache : RedisCache) (now : ℚ) (k : String) : Option (ℕ × RedisCache) :=
  match cache.lookup now k with
  | none => some (1, { cache with keyspace := cache.keyspace.insert k ⟨.number 1, none⟩ })
  | some (.number n) =>
    let expiry := (cache.keyspace.get? k).bind (·.expiry)
    some (n + 1, { cache with keyspace := cache.keyspace.insert k ⟨.number (n + 1), expiry⟩ })
  | some (.text _) => none

/-- The script: SCAN for the keys behind a prefix, and DEL. -/
def scanDelete (cache : RedisCache) (start : String) : RedisCache :=
  { cache with
    keyspace := cache.keyspace.filterKeys fun k => !cache.server.globMatch (start ++ ":*") k }

/-! ## The driver -/

def get (cache : RedisCache) (now : ℚ) (key kbId : String) (epoch : ℕ) : Option String :=
  (cache.lookup now (cache.fullKey kbId epoch key)).map (·.shown)

def set (cache : RedisCache) (now : ℚ) (key value kbId : String) (epoch : ℕ)
    (ttl : Option ℤ) : Bool × RedisCache :=
  let effectiveTtl := ttl.getD cache.ttlS
  -- the server refuses other times to live
  if effectiveTtl ≤ 0 then (false, cache)
  else (true, cache.setex now (cache.fullKey kbId epoch key) effectiveTtl value)

def delete (cache : RedisCache) (key kbId : String) (epoch : ℕ) : RedisCache :=
  { cache with keyspace := cache.keyspace.erase (cache.fullKey kbId epoch key) }

def getMany (cache : RedisCache) (now : ℚ) (keys : List String) (kbId : String) (epoch : ℕ) :
    List (Option String) :=
  keys.map fun key => cache.get now key kbId epoch

def setMany (cache : RedisCache) (now : ℚ) (items : List (String × String)) (kbId : String)
    (epoch : ℕ) (ttl : Option ℤ) : Bool × RedisCache :=
  let effectiveTtl := ttl.getD cache.ttlS
  if items.isEmpty then (true, cache)
  else if effectiveTtl ≤ 0 then (false, cache)
  else (true, items.foldl (fun cache item =>
    cache.setex now (cache.fullKey kbId epoch item.1) effectiveTtl item.2) cache)

def invalidateKb (cache : RedisCache) (now : ℚ) (kbId : String) : Bool × RedisCache :=
  match cache.incr now (cache.epochKey kbId) with
  | none => (false, cache)
  | some (newEpoch, cache') =>
    (true, cache'.scanDelete (cache.nspace ++ ":" ++ kbId ++ ":" ++ (newEpoch - 1).repr))

def getEpoch (cache : RedisCache) (now : ℚ) (kbId : String) : ℕ :=
  match cache.lookup now (cache.epochKey kbId) with
  | none => 1
  | some (.number n) => n
  | some (.text s) => s.toNat?.getD 1

def call (now : ℚ) (cache : RedisCache) : CacheCall → CacheReply × RedisCache
  | .get key kbId epoch => (.value (cache.get now key kbId epoch), cache)
  | .set key value kbId epoch ttl =>
    let (ok, cache') := cache.set now key value kbId epoch ttl
    (.stored ok, cache')
  | .delete key kbId epoch => (.deleted, cache.delete key kbId epoch)
  | .getMany keys kbId epoch => (.values (cache.getMany now keys kbId epoch), cache)
  | .setMany items kbId epoch ttl =>
    let (ok, cache') := cache.setMany now items kbId epoch ttl
    (.stored ok, cache')
  | .getEpoch kbId => (.epoch (cache.getEpoch now kbId), cache)
  | .invalidateKb kbId =>
    let (ok, cache') := cache.invalidateKb now kbId
    (.invalidated ok, cache')

end RedisCache

end Ragx
