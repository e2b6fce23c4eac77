import Mathlib.Data.NNRat.Defs
import Ragx.EventRuns
import Ragx.OrderedDict
import Ragx.TokenBuckets

/-!
# The in-process rate limiter

One token bucket for each key. The application builds a limiter for the keys of its
callers and, if a rate is set for it, one for their addresses; each takes its rate and its
burst from fields of its own.
-/
namespace Ragx

open scoped NNRat

/-! ## Buckets -/

structure TokenBucket where
  capacity : ℚ
  rate : ℚ
  tokens : ℚ
  lastRefill : ℚ

namespace TokenBucket

/-- `__init__`: a new bucket is full. -/
def create (rate capacity now : ℚ) : TokenBucket :=
  { capacity, rate, tokens := capacity, lastRefill := now }

def refill (b : TokenBucket) (now : ℚ) : TokenBucket :=
  { b with
    tokens := refilled b.capacity b.rate b.tokens (now - b.lastRefill)
    lastRefill := now }

/-- `none` if the tokens were there, or else the seconds to wait for them. -/
def acquire (b : TokenBucket) (now tokens : ℚ) : TokenBucket × Option ℚ :=
  let b := b.refill now
  if tokens ≤ b.tokens then ({ b with tokens := b.tokens - tokens }, none)
  else (b, some ((tokens - b.tokens) / b.rate))

def addTokens (b : TokenBucket) (now count : ℚ) : TokenBucket :=
  let b := b.refill now
  { b with tokens := max 0 (b.tokens - count) }

end TokenBucket

structure InProcessRateLimiter where
  rate : ℚ
  burst : ℕ
  buckets : OrderedDict String TokenBucket := .empty

namespace InProcessRateLimiter

/-- `_bucket`: a key that was not seen before gets a new bucket. It is full, so that it does not
matter that it reads the clock a moment before the call does. -/
def bucket (rl : InProcessRateLimiter) (now : ℚ) (key : String) : TokenBucket :=
  rl.buckets.getD key (.create rl.rate rl.burst now)

def acquire (rl : InProcessRateLimiter) (now : ℚ) (key : String) (tokens : ℚ) :
    InProcessRateLimiter × Option ℚ :=
  let out := (rl.bucket now key).acquire now tokens
  ({ rl with buckets := rl.buckets.insert key out.1 }, out.2)

def addTokens (rl : InProcessRateLimiter) (now : ℚ) (key : String) (count : ℚ) :
    InProcessRateLimiter :=
  { rl with buckets := rl.buckets.insert key ((rl.bucket now key).addTokens now count) }

end InProcessRateLimiter

/-- What the security settings say about rates, with the bounds of the settings model. -/
structure RateSettings where
  rateLimitRps : ℚ := 10
  rateLimitBurst : ℕ := 20
  ipRateLimitRps : ℚ := 0
  ipRateLimitBurst : ℕ := 0
  rate_limit_rps_gt : 0 < rateLimitRps := by decide +kernel
  rate_limit_burst_ge : 1 ≤ rateLimitBurst := by decide
  ip_rate_limit_rps_ge : 0 ≤ ipRateLimitRps := by decide +kernel

/-- The limiters that `create_app` builds: per key, and per address if a rate is set. -/
def RateSettings.limiters (settings : RateSettings) : List InProcessRateLimiter :=
  { rate := settings.rateLimitRps, burst := settings.rateLimitBurst } ::
    if 0 < settings.ipRateLimitRps then
      [{ rate := settings.ipRateLimitRps, burst := settings.ipRateLimitBurst }]
    else []

/-! ## Runs -/

/-- A request asks for one token; the count of tokens used up is never negative. -/
inductive LimiterCall where
  | acquire (now : ℚ) (key : String)
  | addTokens (now : ℚ) (key : String) (count : ℚ≥0)

def LimiterCall.now : LimiterCall → ℚ
  | .acquire now _ => now
  | .addTokens now _ _ => now

def LimiterCall.key : LimiterCall → String
  | .acquire _ key => key
  | .addTokens _ key _ => key

structure LimiterRun where
  limiter : InProcessRateLimiter
  clock : ℚ

namespace LimiterRun

/-- The clock is monotonic. -/
def step (w : LimiterRun) (call : LimiterCall) : Option LimiterRun :=
  if call.now < w.clock then none
  else some {
    clock := call.now
    limiter := match call with
      | .acquire now key => (w.limiter.acquire now key 1).1
      | .addTokens now key count => w.limiter.addTokens now key count }

def admits (w : LimiterRun) (key : String) : LimiterCall → Bool
  | .acquire now key' => key' = key && (w.limiter.acquire now key' 1).2 = none
  | .addTokens .. => false

/-- How many of the calls are requests of the key that are admitted. -/
def admitted (w : LimiterRun) (key : String) : List LimiterCall → ℕ
  | [] => 0
  | call :: calls =>
    match step w call with
    | none => 0
    | some w' => (w.admits key call).toNat + w'.admitted key calls

/-- The call takes tokens out of the bucket of the key. -/
def Consumes (w : LimiterRun) (key : String) : LimiterCall → Prop
  | .acquire now key' => w.admits key (.acquire now key') = true
  | .addTokens _ key' count => key' = key ∧ 0 < count

end LimiterRun

/-- What a limiter promises, from whatever time on it is used: the levels stay within the
burst, no window admits more than the burst and what flows in during the window, and a caller
who waits as told is admitted if nobody else takes the tokens. -/
structure InProcessRateLimiter.Conforms (rl : InProcessRateLimiter) : Prop where
  levels : ∀ start calls w key b, run LimiterRun.step ⟨rl, start⟩ calls = some w →
    w.limiter.buckets.get? key = some b → 0 ≤ b.tokens ∧ b.tokens ≤ rl.burst
  windows : ∀ start before w key within opening length, 0 ≤ length →
    run LimiterRun.step ⟨rl, start⟩ before = some w →
    (∀ call ∈ within, opening ≤ call.now ∧ call.now ≤ opening + length) →
    (w.admitted key within : ℚ) ≤ rl.burst + rl.rate * length
  waits : ∀ start before w now key wait w' between w'',
    run LimiterRun.step ⟨rl, start⟩ before = some w →
    (w.limiter.acquire now key 1).2 = some wait →
    LimiterRun.step w (.acquire now key) = some w' →
    EveryStep LimiterRun.step (fun v call _ => ¬ v.Consumes key call) w' between →
    run LimiterRun.step w' between = some w'' → w''.clock ≤ now + wait →
    (w''.limiter.acquire (now + wait) key 1).2 = none

/-! ## The level of a key -/

namespace TokenBucket

/-- The bucket has this rate and capacity, is within bounds, and was refilled by that time. -/
structure InOrder (rate capacity clock : ℚ) (b : TokenBucket) : Prop where
  rate_eq : b.rate = rate
  capacity_eq : b.capacity = capacity
  tokens_nonneg : 0 ≤ b.tokens
  tokens_le : b.tokens ≤ capacity
  refilled_by : b.lastRefill ≤ clock

variable {rate capacity now later : ℚ} {b : TokenBucket}

theorem inOrder_create (hcapacity : 0 ≤ capacity) : InOrder rate capacity now
    (create rate capacity now) :=
  ⟨rfl, rfl, hcapacity, le_rfl, le_rfl⟩

namespace InOrder

theorem mono (hb : b.InOrder rate capacity now) (h : now ≤ later) :
    b.InOrder rate capacity later :=
  { hb with refilled_by := hb.refilled_by.trans h }

theorem refill (hb : b.InOrder rate capacity now) (hrate : 0 ≤ rate) (h : now ≤ later) :
    (b.refill later).InOrder rate capacity later where
  rate_eq := hb.rate_eq
  capacity_eq := hb.capacity_eq
  tokens_nonneg := by
    have hcapacity : 0 ≤ b.capacity :=
      hb.capacity_eq ▸ hb.tokens_nonneg.trans hb.tokens_le
    exact refilled_nonneg hcapacity (hb.rate_eq ▸ hrate) hb.tokens_nonneg
      (sub_nonneg.mpr (hb.refilled_by.trans h))
  tokens_le := hb.capacity_eq ▸ refilled_le
  refilled_by := le_rfl

theorem refill_later (hb : b.InOrder rate capacity now) (hrate : 0 ≤ rate) (h : now ≤ later) :
    (b.refill later).tokens =
      refilled capacity rate (b.refill now).tokens (later - now) := by
  simp only [TokenBucket.refill, hb.capacity_eq, hb.rate_eq,
    refilled_refilled hrate (sub_nonneg.mpr h)]
  congr 1
  ring

end InOrder

end TokenBucket

namespace LimiterRun

/-- What the bucket of the key holds at that time. -/
def level (w : LimiterRun) (key : String) (now : ℚ) : ℚ :=
  ((w.limiter.bucket now key).refill now).tokens

/-- The limiter was built with this rate and this burst, and its buckets are in order. -/
structure Sound (rate : ℚ) (burst : ℕ) (w : LimiterRun) : Prop where
  rate_pos : 0 < rate
  rate_eq : w.limiter.rate = rate
  burst_eq : w.limiter.burst = burst
  buckets : ∀ key b, w.limiter.buckets.get? key = some b → b.InOrder rate burst w.clock

variable {rate : ℚ} {burst : ℕ} {w w' : LimiterRun} {key : String} {call : LimiterCall}
  {now later : ℚ}

theorem sound_start {rl : InProcessRateLimiter} (hrate : 0 < rl.rate)
    (hnew : rl.buckets = .empty) (start : ℚ) : Sound rl.rate rl.burst ⟨rl, start⟩ := by
  refine ⟨hrate, rfl, rfl, fun key b h => ?_⟩
  rw [hnew] at h
  simp at h

namespace Sound

/-- The bucket that a call finds or makes is in order. -/
theorem bucket (hw : Sound rate burst w) (key : String) (h : w.clock ≤ now) :
    (w.limiter.bucket now key).InOrder rate burst now := by
  unfold InProcessRateLimiter.bucket OrderedDict.getD
  cases hb : w.limiter.buckets.get? key with
  | none =>
    rw [Option.getD_none, hw.rate_eq, hw.burst_eq]
    exact TokenBucket.inOrder_create (Nat.cast_nonneg burst)
  | some b => exact (hw.buckets key b hb).mono h

theorem level_nonneg (hw : Sound rate burst w) (key : String) (h : w.clock ≤ now) :
    0 ≤ w.level key now :=
  ((hw.bucket key h).refill hw.rate_pos.le le_rfl).tokens_nonneg

theorem level_le (hw : Sound rate burst w) (key : String) (h : w.clock ≤ now) :
    w.level key now ≤ burst :=
  ((hw.bucket key h).refill hw.rate_pos.le le_rfl).tokens_le

/-- Between calls a level only fills up. -/
theorem level_later (hw : Sound rate burst w) (key : String) (h : w.clock ≤ now)
    (hlater : now ≤ later) :
    w.level key later = refilled (burst : ℚ) rate (w.level key now) (later - now) := by
  unfold level InProcessRateLimiter.bucket OrderedDict.getD
  cases hb : w.limiter.buckets.get? key with
  | none =>
    simp only [Option.getD_none, hw.rate_eq, hw.burst_eq, TokenBucket.refill, TokenBucket.create,
      sub_self, refilled_zero le_rfl,
      refilled_full hw.rate_pos.le (sub_nonneg.mpr hlater)]
  | some b => exact ((hw.buckets key b hb).mono h).refill_later hw.rate_pos.le hlater

end Sound

/-! ## One call -/

theorem clock_step (hs : step w call = some w') : w.clock ≤ call.now ∧ w'.clock = call.now := by
  unfold step at hs
  split_ifs at hs with h
  cases hs
  exact ⟨not_lt.mp h, rfl⟩

theorem acquire_snd (w : LimiterRun) (now : ℚ) (key : String) :
    (w.limiter.acquire now key 1).2 =
      if 1 ≤ w.level key now then none
      else some ((1 - w.level key now) / (w.limiter.bucket now key).rate) := by
  unfold InProcessRateLimiter.acquire TokenBucket.acquire level
  dsimp only
  split_ifs <;> rfl

theorem acquire_eq_none_iff : (w.limiter.acquire now key 1).2 = none ↔ 1 ≤ w.level key now := by
  rw [acquire_snd]
  split_ifs with h
  · exact iff_of_true rfl h
  · exact iff_of_false (fun hnone => by cases hnone) h

theorem admits_iff : w.admits key call = true ↔
    ∃ now, call = .acquire now key ∧ 1 ≤ w.level key now := by
  cases call with
  | acquire now key' =>
    simp only [admits, Bool.and_eq_true, decide_eq_true_eq, acquire_eq_none_iff,
      LimiterCall.acquire.injEq]
    constructor
    · rintro ⟨rfl, h⟩
      exact ⟨now, ⟨rfl, rfl⟩, h⟩
    · rintro ⟨_, ⟨rfl, rfl⟩, h⟩
      exact ⟨rfl, h⟩
  | addTokens now key' count => simp [admits]

/-- What a call leaves in a bucket that it has refilled. -/
def remainder (found : ℚ) : LimiterCall → ℚ
  | .acquire .. => if 1 ≤ found then found - 1 else found
  | .addTokens _ _ count => max 0 (found - count)

theorem remainder_nonneg {found : ℚ} (h : 0 ≤ found) (call : LimiterCall) :
    0 ≤ remainder found call := by
  cases call with
  | acquire =>
    unfold remainder
    split_ifs with hone
    · exact sub_nonneg.mpr hone
    · exact h
  | addTokens => exact le_max_left _ _

theorem remainder_le {found : ℚ} (h : 0 ≤ found) (call : LimiterCall) :
    remainder found call ≤ found := by
  cases call with
  | acquire =>
    unfold remainder
    split_ifs
    · exact sub_le_self found zero_le_one
    · exact le_rfl
  | addTokens _ _ count => exact max_le h (sub_le_self found count.coe_nonneg)

theorem acquire_one_fst (b : TokenBucket) (now : ℚ) (key : String) :
    (b.acquire now 1).1 = { b.refill now with
      tokens := remainder (b.refill now).tokens (.acquire now key) } := by
  unfold TokenBucket.acquire remainder
  dsimp only
  split_ifs <;> rfl

/-- A call refills the bucket of its key, takes from it, and touches no other. -/
theorem limiter_step (hs : step w call = some w') :
    w'.limiter = { w.limiter with
      buckets := w.limiter.buckets.insert call.key
        { (w.limiter.bucket call.now call.key).refill call.now with
          tokens := remainder (w.level call.key call.now) call } } := by
  unfold step at hs
  split_ifs at hs
  cases hs
  cases call with
  | acquire now key =>
    simp only [InProcessRateLimiter.acquire, acquire_one_fst _ now key]
    rfl
  | addTokens now key count => rfl

theorem sound_step (hw : Sound rate burst w) (hs : step w call = some w') :
    Sound rate burst w' := by
  obtain ⟨hle, hclock⟩ := clock_step hs
  have hlimiter := limiter_step hs
  refine ⟨hw.rate_pos, by rw [hlimiter, hw.rate_eq], by rw [hlimiter, hw.burst_eq],
    fun key b hb => ?_⟩
  rw [hclock]
  rw [hlimiter, OrderedDict.get?_insert] at hb
  split_ifs at hb
  · cases hb
    have hfound := (hw.bucket call.key hle).refill hw.rate_pos.le le_rfl
    exact { hfound with
      tokens_nonneg := remainder_nonneg hfound.tokens_nonneg call
      tokens_le := (remainder_le hfound.tokens_nonneg call).trans hfound.tokens_le }
  · exact (hw.buckets key b hb).mono hle

/-- At the time of the call, only the level of its key changes. -/
theorem level_step (hw : Sound rate burst w) (hs : step w call = some w') (key : String) :
    w'.level key call.now =
      if call.key = key then remainder (w.level key call.now) call
      else w.level key call.now := by
  obtain ⟨hle, -⟩ := clock_step hs
  unfold level InProcessRateLimiter.bucket OrderedDict.getD
  rw [limiter_step hs, OrderedDict.get?_insert]
  split_ifs with hkey
  · subst hkey
    have hfound := hw.level_nonneg call.key hle
    have hcapacity := (hw.bucket call.key hle).capacity_eq
    have hrest : remainder (w.level call.key call.now) call ≤ burst :=
      (remainder_le hfound call).trans (hw.level_le call.key hle)
    simp only [Option.getD_some, TokenBucket.refill, sub_self, hcapacity]
    exact refilled_zero hrest
  · rfl

/-! ## Whole runs -/

theorem sound_run (hw : Sound rate burst w) {calls : List LimiterCall}
    (hrun : run step w calls = some w') : Sound rate burst w' :=
  run_invariant (fun _ _ _ hv hs => sound_step hv hs) hw hrun

/-- A call keeps the account of the key. -/
theorem ledger_step (hw : Sound rate burst w) (hs : step w call = some w') {granted span : ℚ}
    (h : Ledger (burst : ℚ) rate granted (w.level key call.now) span) :
    Ledger (burst : ℚ) rate (granted + (w.admits key call).toNat) (w'.level key call.now)
      span := by
  rw [level_step hw hs]
  by_cases hadmits : w.admits key call = true
  · obtain ⟨now, rfl, hone⟩ := admits_iff.mp hadmits
    have hkey : (LimiterCall.acquire now key).key = key := rfl
    have hrest : remainder (w.level key now) (.acquire now key) = w.level key now - 1 :=
      if_pos hone
    rw [if_pos hkey, hadmits, Bool.toNat_true, Nat.cast_one]
    exact hrest ▸ h.grant zero_le_one hone
  · rw [Bool.not_eq_true] at hadmits
    rw [hadmits, Bool.toNat_false, Nat.cast_zero, add_zero]
    split_ifs with hkey
    · cases call with
      | acquire now key' =>
        have hone : ¬ 1 ≤ w.level key now := fun hone => by
          have hyes : w.admits key (.acquire now key') = true :=
            admits_iff.mpr ⟨now, congrArg (LimiterCall.acquire now) hkey, hone⟩
          rw [hyes] at hadmits
          cases hadmits
        rw [LimiterCall.now, remainder, if_neg hone]
        exact h
      | addTokens now key' count => exact h.drain count.coe_nonneg
    · exact h

theorem admitted_le (hw : Sound rate burst w) {granted span closing : ℚ} {calls : List LimiterCall}
    (h : Ledger (burst : ℚ) rate granted (w.level key w.clock) span) (hclock : w.clock ≤ closing)
    (hcalls : ∀ call ∈ calls, call.now ≤ closing) :
    granted + w.admitted key calls ≤ burst + rate * (span + (closing - w.clock)) := by
  induction calls generalizing w granted span with
  | nil =>
    simp only [admitted, Nat.cast_zero, add_zero]
    exact (h.mono hw.rate_pos.le (le_add_of_nonneg_right (sub_nonneg.mpr hclock))).granted_le
  | cons call calls ih =>
    obtain ⟨hnow, hrest⟩ := List.forall_mem_cons.mp hcalls
    unfold admitted
    cases hs : step w call with
    | none =>
      simp only [Nat.cast_zero, add_zero]
      exact (h.mono hw.rate_pos.le (le_add_of_nonneg_right (sub_nonneg.mpr hclock))).granted_le
    | some w' =>
      obtain ⟨hle, hclock'⟩ := clock_step hs
      have hfilled := h.refill hw.rate_pos.le (sub_nonneg.mpr hle)
      rw [← hw.level_later key le_rfl hle] at hfilled
      have hafter := ledger_step hw hs hfilled
      rw [← hclock'] at hafter hnow
      have hle' := ih (sound_step hw hs) hafter hnow hrest
      push_cast
      calc granted + ((w.admits key call).toNat + w'.admitted key calls)
          = granted + (w.admits key call).toNat + w'.admitted key calls := (add_assoc _ _ _).symm
        _ ≤ _ := hle'
        _ = burst + rate * (span + (closing - w.clock)) := by ring

theorem level_of_not_consumed (hw : Sound rate burst w) (hs : step w call = some w')
    (hnot : ¬ w.Consumes key call) : w'.level key call.now = w.level key call.now := by
  rw [level_step hw hs]
  split_ifs with hkey
  · cases call with
    | acquire now key' =>
      refine if_neg fun hone => hnot ?_
      exact admits_iff.mpr ⟨now, congrArg (LimiterCall.acquire now) hkey, hone⟩
    | addTokens now key' count =>
      have hzero : count = 0 := by
        by_contra hne
        exact hnot ⟨hkey, pos_iff_ne_zero.mpr hne⟩
      subst hzero
      have hnonneg := hw.level_nonneg key (clock_step hs).1
      simpa [remainder] using hnonneg
  · rfl

/-- A run that takes nothing out of the bucket leaves the level to come as it is. -/
theorem level_of_unused (hw : Sound rate burst w) {calls : List LimiterCall}
    (hunused : EveryStep step (fun v call _ => ¬ v.Consumes key call) w calls)
    (hrun : run step w calls = some w') (hnow : w'.clock ≤ now) :
    w.clock ≤ now ∧ w'.level key now = w.level key now := by
  induction calls generalizing w with
  | nil =>
    cases hrun
    exact ⟨hnow, rfl⟩
  | cons call calls ih =>
    obtain ⟨v, hs, hrest⟩ := run_cons_eq_some hrun
    obtain ⟨hnot, hunused⟩ := (everyStep_cons hs).mp hunused
    obtain ⟨hle, hclock⟩ := clock_step hs
    have hv := sound_step hw hs
    obtain ⟨hvnow, hlevel⟩ := ih hv hunused hrest
    have hcall : call.now ≤ now := hclock ▸ hvnow
    refine ⟨hle.trans hcall, hlevel.trans ?_⟩
    have hkept := level_of_not_consumed hw hs hnot
    rw [hv.level_later key hclock.le hcall, hkept, ← hw.level_later key hle hcall]

/-- Within a window a key gets the burst and what flows in. -/
theorem admitted_window_le (hw : Sound rate burst w) (key : String) {opening length : ℚ}
    (hlength : 0 ≤ length) {calls : List LimiterCall}
    (hcalls : ∀ call ∈ calls, opening ≤ call.now ∧ call.now ≤ opening + length) :
    (w.admitted key calls : ℚ) ≤ burst + rate * length := by
  have hbound : (0 : ℚ) ≤ burst + rate * length :=
    add_nonneg (Nat.cast_nonneg _) (mul_nonneg hw.rate_pos.le hlength)
  cases calls with
  | nil => simpa [admitted] using hbound
  | cons call calls =>
    obtain ⟨⟨hopen, hnow⟩, hrest⟩ := List.forall_mem_cons.mp hcalls
    unfold admitted
    cases hs : step w call with
    | none => simpa using hbound
    | some w' =>
      obtain ⟨hle, hclock⟩ := clock_step hs
      -- The account of the window opens with its first call.
      have hopening : Ledger (burst : ℚ) rate 0 (w.level key call.now) 0 :=
        ⟨hw.level_nonneg key hle, hw.level_le key hle, by simpa using hw.level_le key hle⟩
      have hafter := ledger_step hw hs hopening
      rw [← hclock] at hafter hnow hopen
      have hall := admitted_le (sound_step hw hs) hafter hnow fun call hm => (hrest call hm).2
      have hspan : rate * (0 + (opening + length - w'.clock)) ≤ rate * length :=
        mul_le_mul_of_nonneg_left (by linarith) hw.rate_pos.le
      push_cast
      linarith

/-- Who waits as told finds a token, if nobody else has taken any in between. -/
theorem level_after_wait (hw : Sound rate burst w) (hburst : 1 ≤ burst) {wait : ℚ}
    (hwait : (w.limiter.acquire now key 1).2 = some wait)
    (hs : step w (.acquire now key) = some w') {between : List LimiterCall} {w'' : LimiterRun}
    (hunused : EveryStep step (fun v call _ => ¬ v.Consumes key call) w' between)
    (hbetween : run step w' between = some w'') (hclock : w''.clock ≤ now + wait) :
    1 ≤ w''.level key (now + wait) := by
  obtain ⟨hle, hclock'⟩ : w.clock ≤ now ∧ w'.clock = now := clock_step hs
  rw [acquire_snd, (hw.bucket key hle).rate_eq] at hwait
  split_ifs at hwait with hone
  have hnot : ¬ w.Consumes key (.acquire now key) := fun hconsumed => by
    obtain ⟨_, hcall, hone'⟩ := admits_iff.mp hconsumed
    cases hcall
    exact hone hone'
  have hlevel := level_of_not_consumed hw hs hnot
  simp only [LimiterCall.now] at hlevel
  obtain ⟨hlater, hunused⟩ := level_of_unused (sound_step hw hs) hunused hbetween hclock
  rw [hclock'] at hlater
  rw [hunused, (sound_step hw hs).level_later key hclock'.le hlater, hlevel,
    add_sub_cancel_left, ← Option.some.inj hwait]
  have hcap : (1 : ℚ) ≤ burst := by exact_mod_cast hburst
  exact le_refilled_deficit hw.rate_pos hcap

end LimiterRun

/-! ## What a limiter promises -/

namespace InProcessRateLimiter

open LimiterRun

variable {rl : InProcessRateLimiter}

theorem conforms_of_burst (hrate : 0 < rl.rate) (hnew : rl.buckets = .empty)
    (hburst : 1 ≤ rl.burst) : rl.Conforms where
  levels start calls w key b hrun hb := by
    have hw := sound_run (sound_start hrate hnew start) hrun
    exact ⟨(hw.buckets key b hb).tokens_nonneg, (hw.buckets key b hb).tokens_le⟩
  windows start before w key within opening length hlength hrun hwithin := by
    have hw := sound_run (sound_start hrate hnew start) hrun
    exact admitted_window_le hw key hlength hwithin
  waits start before w now key wait w' between w'' hrun hwait hs hunused hbetween hclock := by
    have hw := sound_run (sound_start hrate hnew start) hrun
    exact acquire_eq_none_iff.mpr (level_after_wait hw hburst hwait hs hunused hbetween hclock)

/-- Without a burst nobody is ever admitted, however long the wait. -/
theorem burst_of_conforms (hrate : 0 < rl.rate) (hnew : rl.buckets = .empty)
    (h : rl.Conforms) : 1 ≤ rl.burst := by
  by_contra hzero
  have hburst : rl.burst = 0 := by omega
  have hrefused (w : LimiterRun) (hw : Sound rl.rate rl.burst w) (now : ℚ)
      (hnow : w.clock ≤ now) (key : String) : ¬ 1 ≤ w.level key now := fun hone => by
    have hle := hw.level_le key hnow
    rw [hburst, Nat.cast_zero] at hle
    linarith
  have hw := sound_start hrate hnew 0
  have hs : ∃ w', step ⟨rl, 0⟩ (.acquire 0 "key") = some w' := ⟨_, if_neg (lt_irrefl _)⟩
  obtain ⟨w', hs⟩ := hs
  have hclock : w'.clock = 0 := (clock_step hs).2
  have hwait := acquire_snd ⟨rl, 0⟩ 0 "key"
  rw [if_neg (hrefused ⟨rl, 0⟩ hw 0 le_rfl "key")] at hwait
  have hpos : w'.clock ≤
      0 + (1 - level ⟨rl, 0⟩ "key" 0) / (InProcessRateLimiter.bucket rl 0 "key").rate := by
    have hstart : (⟨rl, 0⟩ : LimiterRun).clock ≤ 0 := le_rfl
    have hle := hw.level_le "key" hstart
    rw [hburst, Nat.cast_zero] at hle
    rw [hclock, (hw.bucket "key" hstart).rate_eq, zero_add]
    exact div_nonneg (by linarith) hrate.le
  have hnone := h.waits 0 [] ⟨rl, 0⟩ 0 "key" _ w' [] w' rfl hwait hs trivial rfl hpos
  exact hrefused w' (sound_step hw hs) _ hpos "key" (acquire_eq_none_iff.mp hnone)

end InProcessRateLimiter

/-- The limiters of an application keep what they promise exactly if the one for addresses,
where there is one, has a burst of at least one request. -/
theorem RateSettings.conforms_iff (settings : RateSettings) :
    (∀ rl ∈ settings.limiters, rl.Conforms) ↔
      (0 < settings.ipRateLimitRps → 1 ≤ settings.ipRateLimitBurst) := by
  have hkeys : InProcessRateLimiter.Conforms
      { rate := settings.rateLimitRps, burst := settings.rateLimitBurst } :=
    InProcessRateLimiter.conforms_of_burst settings.rate_limit_rps_gt rfl
      settings.rate_limit_burst_ge
  unfold limiters
  rw [List.forall_mem_cons]
  split_ifs with hrate
  · rw [List.forall_mem_singleton]
    refine ⟨fun h _ => InProcessRateLimiter.burst_of_conforms hrate rfl h.2, fun h => ⟨hkeys, ?_⟩⟩
    exact InProcessRateLimiter.conforms_of_burst hrate rfl (h hrate)
  · exact iff_of_true ⟨hkeys, by simp⟩ fun h => absurd h hrate

/-- Five requests a second for each address, with the burst left at its default. -/
def ipRateOnly : RateSettings := { ipRateLimitRps := 5 }

theorem ipRateOnly_not_conforms : ¬ ∀ rl ∈ ipRateOnly.limiters, rl.Conforms := by
  intro h
  have hrate : 0 < ipRateOnly.ipRateLimitRps := by decide +kernel
  have hmem : { rate := 5, burst := 0 } ∈ ipRateOnly.limiters := by
    rw [RateSettings.limiters, if_pos hrate]
    exact List.mem_cons_of_mem _ (List.mem_singleton.mpr rfl)
  exact absurd (InProcessRateLimiter.burst_of_conforms hrate rfl (h _ hmem)) (by decide)

end Ragx
