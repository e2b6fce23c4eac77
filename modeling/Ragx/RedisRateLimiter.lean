import Mathlib.Algebra.Order.Floor.Ring
import Mathlib.Data.NNRat.Defs
import Mathlib.Data.Rat.Floor
import Ragx.EventRuns
import Ragx.TokenBuckets

/-!
# The rate limiter shared through Redis

The API instances run two scripts on one hash for each key. A script gets the time from
the clock of its caller and stores it with the level; Redis counts the seconds until it
removes the hash by its own clock. What the bucket grants is bounded as long as the times that
reach it keep up with the one it has stored.
-/
namespace Ragx

open scoped NNRat

/-- The limiter that all instances build from the same settings. -/
structure RedisRateLimiter where
  rate : ℚ
  burst : ℕ
  rate_pos : 0 < rate
  burst_ge : 1 ≤ burst

/-- The fields of the hash under a key. -/
structure BucketHash where
  tokens : ℚ
  ts : ℚ

namespace RedisRateLimiter

/-- The opening lines of both scripts: the level at the caller's time. -/
def current (rl : RedisRateLimiter) (now : ℚ) (data : Option BucketHash) : ℚ :=
  let current := (data.map (·.tokens)).getD (rl.burst : ℚ)
  let lastTs := (data.map (·.ts)).getD now
  let elapsed := max 0 (now - lastTs)
  refilled (rl.burst : ℚ) rl.rate current elapsed

/-- `_TOKEN_BUCKET_LUA`: the new hash, and the seconds to wait unless the tokens were there. -/
def tokenBucket (rl : RedisRateLimiter) (tokens now : ℚ) (data : Option BucketHash) :
    BucketHash × Option ℚ :=
  let current := rl.current now data
  if tokens ≤ current then (⟨current - tokens, now⟩, none)
  else (⟨current, now⟩, some ((tokens - current) / rl.rate))

/-- `_ADD_TOKENS_LUA`. -/
def addTokens (rl : RedisRateLimiter) (count now : ℚ) (data : Option BucketHash) : BucketHash :=
  ⟨max 0 (rl.current now data - count), now⟩

/-- The seconds that both scripts give to `EXPIRE`. -/
def expiry (rl : RedisRateLimiter) : ℚ := (⌈rl.burst / rl.rate⌉ + 1 : ℤ)

end RedisRateLimiter

/-! ## Runs -/

/-- A script for the key, when Redis executes it by its own clock and with the time that
the calling instance has passed. -/
inductive ScriptCall where
  | acquire (server now : ℚ) (tokens : ℚ≥0)
  | addTokens (server now : ℚ) (count : ℚ≥0)
deriving DecidableEq

def ScriptCall.server : ScriptCall → ℚ
  | .acquire server .. => server
  | .addTokens server .. => server

def ScriptCall.now : ScriptCall → ℚ
  | .acquire _ now _ => now
  | .addTokens _ now _ => now

/-- The hash of one key with the time at which Redis removes it, the tokens granted so far,
and the smallest and the largest time that was passed. -/
structure SharedBucket where
  server : ℚ := 0
  hash : Option BucketHash := none
  deadline : ℚ := 0
  granted : ℚ := 0
  stamps : Option (ℚ × ℚ) := none

namespace SharedBucket

/-- What a script reads; an expired hash is gone. -/
def data (w : SharedBucket) (server : ℚ) : Option BucketHash :=
  if server < w.deadline then w.hash else none

def stampsWith (w : SharedBucket) (now : ℚ) : ℚ × ℚ :=
  match w.stamps with
  | none => (now, now)
  | some (smallest, largest) => (min smallest now, max largest now)

/-- The largest minus the smallest time passed. -/
def spread (w : SharedBucket) : ℚ :=
  match w.stamps with
  | none => 0
  | some (smallest, largest) => largest - smallest

/-- `HMSET` and `EXPIRE`, with the account of what the script has granted. -/
def written (rl : RedisRateLimiter) (w : SharedBucket) (call : ScriptCall) (hash : BucketHash)
    (granted : ℚ) : SharedBucket where
  server := call.server
  hash := some hash
  deadline := call.server + rl.expiry
  granted := w.granted + granted
  stamps := some (w.stampsWith call.now)

/-- Only the clock of Redis never goes back. -/
def step (rl : RedisRateLimiter) (w : SharedBucket) (call : ScriptCall) : Option SharedBucket :=
  if call.server < w.server then none
  else
    let data := w.data call.server
    match call with
    | .acquire _ now tokens =>
      let out := rl.tokenBucket tokens now data
      some (w.written rl call out.1 (if out.2 = none then tokens else 0))
    | .addTokens _ now count => some (w.written rl call (rl.addTokens count now data) 0)

def RateBounded (rl : RedisRateLimiter) (w : SharedBucket) : Prop :=
  w.granted ≤ rl.burst + rl.rate * w.spread

/-- The time passed is not behind the stored one, and if the hash has expired it is
ahead by the time in which the bucket fills. -/
def KeepsUp (rl : RedisRateLimiter) (w : SharedBucket) (call : ScriptCall) : Prop :=
  match w.hash with
  | none => True
  | some hash =>
    if call.server < w.deadline then hash.ts ≤ call.now
    else hash.ts + rl.burst / rl.rate ≤ call.now

/-! ## The account of the bucket -/

/-- The account of the key, from the smallest time passed to the stored one, which is
the largest. -/
def Accounted (rl : RedisRateLimiter) (w : SharedBucket) : Prop :=
  match w.hash with
  | none => w.granted = 0 ∧ w.stamps = none
  | some hash => ∃ smallest, w.stamps = some (smallest, hash.ts) ∧ smallest ≤ hash.ts ∧
      Ledger (rl.burst : ℚ) rl.rate w.granted hash.tokens (hash.ts - smallest)

instance (rl : RedisRateLimiter) (w : SharedBucket) : Decidable (RateBounded rl w) :=
  inferInstanceAs (Decidable (_ ≤ _))

instance (rl : RedisRateLimiter) (w : SharedBucket) (call : ScriptCall) :
    Decidable (KeepsUp rl w call) := by
  unfold KeepsUp
  split <;> infer_instance

variable {rl : RedisRateLimiter} {w w' : SharedBucket} {call : ScriptCall}

theorem rateBounded_of_accounted (hw : Accounted rl w) : RateBounded rl w := by
  unfold RateBounded spread
  unfold Accounted at hw
  cases hhash : w.hash with
  | none =>
    rw [hhash] at hw
    obtain ⟨hgranted, hstamps⟩ := hw
    rw [hgranted, hstamps]
    simp
  | some hash =>
    rw [hhash] at hw
    obtain ⟨smallest, hstamps, _, hledger⟩ := hw
    rw [hstamps]
    exact hledger.granted_le

/-- A script finds the bucket with its account in order, up to the time that was passed. -/
theorem ledger_current (hw : Accounted rl w) (hup : w.KeepsUp rl call) :
    ∃ smallest, w.stampsWith call.now = (smallest, call.now) ∧ smallest ≤ call.now ∧
      Ledger (rl.burst : ℚ) rl.rate w.granted (rl.current call.now (w.data call.server))
        (call.now - smallest) := by
  have hburst : (0 : ℚ) ≤ rl.burst := Nat.cast_nonneg _
  unfold Accounted at hw
  unfold KeepsUp at hup
  cases hhash : w.hash with
  | none =>
    rw [hhash] at hw
    obtain ⟨hgranted, hstamps⟩ := hw
    have hdata : w.data call.server = none := by
      rw [data, hhash, ite_self]
    refine ⟨call.now, by rw [stampsWith, hstamps], le_rfl, ?_⟩
    rw [hdata, hgranted, sub_self]
    simpa [RedisRateLimiter.current, refilled_zero] using Ledger.full hburst
  | some hash =>
    rw [hhash] at hw hup
    obtain ⟨smallest, hstamps, hle, hledger⟩ := hw
    have hnow : hash.ts ≤ call.now := by
      split_ifs at hup
      · exact hup
      · exact (le_add_of_nonneg_right (div_nonneg hburst rl.rate_pos.le)).trans hup
    refine ⟨smallest, ?_, hle.trans hnow, ?_⟩
    · rw [stampsWith, hstamps]
      exact Prod.ext (min_eq_left (hle.trans hnow)) (max_eq_right hnow)
    have hspan : call.now - smallest = hash.ts - smallest + (call.now - hash.ts) := by ring
    rw [hspan, data, hhash]
    split_ifs with hlive
    · have helapsed : max 0 (call.now - hash.ts) = call.now - hash.ts :=
        max_eq_right (sub_nonneg.mpr hnow)
      simp only [RedisRateLimiter.current, Option.map_some, Option.getD_some, helapsed]
      exact hledger.refill rl.rate_pos.le (sub_nonneg.mpr hnow)
    · simp only [if_neg hlive] at hup
      have hfull : rl.current call.now none = rl.burst := by
        simp [RedisRateLimiter.current, refilled_zero]
      have htime : (rl.burst : ℚ) ≤ rl.rate * (call.now - hash.ts) := by
        rw [← div_le_iff₀' rl.rate_pos]
        linarith
      rw [hfull]
      exact hledger.fillUp htime

theorem ledger_tokenBucket {granted span now : ℚ} {data : Option BucketHash} (tokens : ℚ≥0)
    (h : Ledger (rl.burst : ℚ) rl.rate granted (rl.current now data) span) :
    Ledger (rl.burst : ℚ) rl.rate
      (granted + if (rl.tokenBucket tokens now data).2 = none then (tokens : ℚ) else 0)
      (rl.tokenBucket tokens now data).1.tokens span := by
  unfold RedisRateLimiter.tokenBucket
  dsimp only
  by_cases henough : (tokens : ℚ) ≤ rl.current now data
  · rw [if_pos henough, if_pos rfl]
    exact h.grant tokens.coe_nonneg henough
  · rw [if_neg henough, if_neg (Option.some_ne_none _), add_zero]
    exact h

theorem ts_tokenBucket (tokens now : ℚ) (data : Option BucketHash) :
    (rl.tokenBucket tokens now data).1.ts = now := by
  unfold RedisRateLimiter.tokenBucket
  dsimp only
  split_ifs <;> rfl

theorem accounted_step (hw : Accounted rl w) (hs : step rl w call = some w')
    (hup : w.KeepsUp rl call) : Accounted rl w' := by
  obtain ⟨smallest, hstamps, hle, hledger⟩ := ledger_current hw hup
  have haccount (hash : BucketHash) (granted : ℚ) (hts : hash.ts = call.now)
      (h : Ledger (rl.burst : ℚ) rl.rate (w.granted + granted) hash.tokens
        (call.now - smallest)) : Accounted rl (w.written rl call hash granted) :=
    ⟨smallest, by rw [written, hstamps, hts], hts ▸ hle, hts ▸ h⟩
  unfold step at hs
  split_ifs at hs
  cases call with
  | acquire server now tokens =>
    cases hs
    exact haccount _ _ (ts_tokenBucket _ _ _) (ledger_tokenBucket tokens hledger)
  | addTokens server now count =>
    cases hs
    refine haccount _ _ rfl ?_
    rw [add_zero]
    exact hledger.drain count.coe_nonneg

/-- Callers whose clocks go with the clock of Redis always keep up: a hash expires only
after the time in which the bucket fills. -/
theorem keepsUp_of_oneClock (rl : RedisRateLimiter) (server offset : ℚ)
    {calls : List ScriptCall} (h : ∀ call ∈ calls, call.now = call.server + offset) :
    EveryStep (step rl) (fun w call _ => w.KeepsUp rl call) { server } calls := by
  have hexpiry : rl.burst / rl.rate ≤ rl.expiry := by
    unfold RedisRateLimiter.expiry
    push_cast
    exact (Int.le_ceil _).trans (le_add_of_nonneg_right zero_le_one)
  refine EveryStep.of_invariant
    (I := fun w => ∀ hash, w.hash = some hash →
      hash.ts = w.server + offset ∧ w.deadline = w.server + rl.expiry)
    (fun w call w' hw hs hnow => ?_) (fun _ hhash => by cases hhash)
    (everyStep_of_forall (P := fun _ call _ => call.now = call.server + offset)
      (fun call hm _ _ => h call hm) _)
  unfold step at hs
  split_ifs at hs with hserver
  rw [not_lt] at hserver
  refine ⟨?_, fun hash hhash => ?_⟩
  · unfold KeepsUp
    cases hhash : w.hash with
    | none => trivial
    | some hash =>
      obtain ⟨hts, hdeadline⟩ := hw hash hhash
      dsimp only
      split_ifs with hlive <;> linarith
  · cases call with
    | acquire server now tokens =>
      cases hs
      cases hhash
      exact ⟨(ts_tokenBucket _ _ _).trans hnow, rfl⟩
    | addTokens server now count =>
      cases hs
      cases hhash
      exact ⟨hnow, rfl⟩

/-- In a run in which every time that is passed keeps up with the stored one, the tokens
granted never exceed the burst and what flows in between the smallest and the largest time. -/
theorem rateBounded_of_keepsUp (rl : RedisRateLimiter) (server : ℚ) (calls : List ScriptCall)
    (hup : EveryStep (step rl) (fun w call _ => w.KeepsUp rl call) { server } calls) :
    EveryStep (step rl) (fun _ _ w' => w'.RateBounded rl) { server } calls := by
  have hstart : Accounted rl { server } := ⟨rfl, rfl⟩
  refine EveryStep.of_invariant (fun w call w' hw hs hkeeps => ?_) hstart hup
  have hw' := accounted_step hw hs hkeeps
  exact ⟨rateBounded_of_accounted hw', hw'⟩

/-- One request a second. -/
def onePerSecond : RedisRateLimiter where
  rate := 1
  burst := 1
  rate_pos := one_pos
  burst_ge := Nat.zero_lt_one

/-- Two instances whose clocks are a second apart. -/
def skewedCalls : List ScriptCall :=
  [.acquire 0 0 1, .acquire 0 1 1, .acquire 0 0 1, .acquire 0 1 1]

theorem rateBounded_of_keepsUp_oneClock :
    EveryStep (step onePerSecond) (fun _ _ w' => w'.RateBounded onePerSecond) { server := 0 }
      [.acquire 0 0 1, .acquire 1 1 1] :=
  rateBounded_of_keepsUp onePerSecond 0 _ (by decide +kernel)

theorem skewedCalls_not_rateBounded :
    ¬ EveryStep (step onePerSecond) (fun _ _ w' => w'.RateBounded onePerSecond) { server := 0 }
      skewedCalls := by
  decide +kernel

end SharedBucket

end Ragx
