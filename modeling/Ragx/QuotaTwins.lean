import Mathlib.Algebra.GroupWithZero.Nat
import Ragx.QuotaMiddleware
import Ragx.UtcTimes

/-!
# The two quota stores

In memory a tenant has one record, which is replaced when the month has changed; the table keeps
a row for each month. For a clock that does not go back both count what the tenant
has used in the month, since what a record forgets belongs to a month that is over.
-/
namespace Ragx

open Calendar

/-! ## Months -/

/-- `_period_start`, which is the same for both stores. -/
def periodStart (now : UtcDateTime) : String := now.monthStart.isoformat

def SameMonth (s t : UtcDateTime) : Prop := s.year = t.year ∧ s.month = t.month

instance (s t : UtcDateTime) : Decidable (SameMonth s t) :=
  inferInstanceAs (Decidable (s.year = t.year ∧ s.month = t.month))

section Months

variable {s t u : UtcDateTime}

theorem periodStart_eq_iff : periodStart s = periodStart t ↔ SameMonth s t := by
  unfold periodStart
  rw [UtcDateTime.isoformat_injective.eq_iff, UtcDateTime.monthStart_eq_iff]
  rfl

theorem SameMonth.symm (h : SameMonth s t) : SameMonth t s := ⟨h.1.symm, h.2.symm⟩

/-- What lies between two times of a month is in that month. -/
theorem SameMonth.of_between (hst : s ≤ t) (htu : t ≤ u) (h : SameMonth s u) : SameMonth t u := by
  have hfirst := not_lt.mpr hst
  have hsecond := not_lt.mpr htu
  rw [UtcDateTime.lt_iff] at hfirst hsecond
  unfold SameMonth CivilDate.Before at *
  omega

end Months

/-! ## Calls -/

inductive QuotaOp where
  | addTokens (count : ℕ)
  | addUpload (count : ℕ)
  | usage
deriving DecidableEq, Repr

/-- A call at a time of the clock. -/
structure QuotaCall where
  now : UtcDateTime
  tenantId : String
  op : QuotaOp

/-- What a call adds to a counter. -/
def QuotaCall.count (call : QuotaCall) : QuotaField → ℕ
  | .tokens =>
    match call.op with
    | .addTokens count => count
    | _ => 0
  | .uploadBytes =>
    match call.op with
    | .addUpload count => count
    | _ => 0

/-! ## The table -/

/-- `INSERT ... ON CONFLICT(tenant_id, period_start) DO NOTHING`. -/
def insertQuota (period tenantId : String) (quotas : OrderedDict (String × String) QuotaUsage) :
    OrderedDict (String × String) QuotaUsage :=
  if (quotas.get? (tenantId, period)).isSome then quotas
  else quotas.insert (tenantId, period) { periodStart := period }

/-- `UPDATE quotas SET field = field + ? WHERE tenant_id = ? AND period_start = ?`. -/
def updateQuota (field : QuotaField) (period tenantId : String) (count : ℤ)
    (quotas : OrderedDict (String × String) QuotaUsage) :
    OrderedDict (String × String) QuotaUsage :=
  match quotas.get? (tenantId, period) with
  | none => quotas
  | some row => quotas.insert (tenantId, period) (row.bump count field)

def bumpQuota (field : QuotaField) (period tenantId : String) (count : ℤ)
    (quotas : OrderedDict (String × String) QuotaUsage) :
    OrderedDict (String × String) QuotaUsage × QuotaUsage :=
  let quotas := updateQuota field period tenantId count (insertQuota period tenantId quotas)
  (quotas, getQuota period tenantId quotas)

namespace QuotaStore

def bump (field : QuotaField) (period tenantId : String) (count : ℤ) :
    QuotaStore → QuotaStore × QuotaUsage
  | .inMemory usage => add field period tenantId count (.inMemory usage)
  | .metadata quotas =>
    let bumped := bumpQuota field period tenantId count quotas
    (.metadata bumped.1, bumped.2)

/-- A store after a call, and what the call returns. -/
def serve (store : QuotaStore) (call : QuotaCall) : QuotaStore × QuotaUsage :=
  let period := periodStart call.now
  match call.op with
  | .addTokens count => store.bump .tokens period call.tenantId count
  | .addUpload count => store.bump .uploadBytes period call.tenantId count
  | .usage =>
    match store with
    | .inMemory usage =>
      let ensured := ensureQuota period call.tenantId usage
      (.inMemory ensured.1, ensured.2)
    | .metadata quotas => (.metadata quotas, getQuota period call.tenantId quotas)

def serveAll : QuotaStore → List QuotaCall → List QuotaUsage
  | _, [] => []
  | store, call :: calls =>
    let served := store.serve call
    served.2 :: serveAll served.1 calls

/-! ## What one call does -/

end QuotaStore

/-- The counters after a call. -/
def QuotaUsage.plus (u : QuotaUsage) (call : QuotaCall) : QuotaUsage where
  tokens := u.tokens + call.count .tokens
  uploadBytes := u.uploadBytes + call.count .uploadBytes
  periodStart := u.periodStart

/-- The two statements count up one row, which they add if it is not there. -/
theorem getQuota_bumpQuota (field : QuotaField) (period period' tenantId other : String) (count : ℤ)
    (quotas : OrderedDict (String × String) QuotaUsage) :
    getQuota period' other (bumpQuota field period tenantId count quotas).1 =
      if tenantId = other ∧ period = period' then (getQuota period' other quotas).bump count field
      else getQuota period' other quotas := by
  unfold bumpQuota updateQuota insertQuota getQuota
  cases hrow : quotas.get? (tenantId, period) with
  | none =>
    simp only [Option.isSome_none, Bool.false_eq_true, if_false, OrderedDict.get?_insert, if_true,
      Prod.mk.injEq]
    split_ifs with hkey
    · obtain ⟨rfl, rfl⟩ := hkey
      rw [hrow]
      rfl
    · rfl
  | some row =>
    simp only [Option.isSome_some, if_true, hrow, OrderedDict.get?_insert, Prod.mk.injEq]
    split_ifs with hkey
    · obtain ⟨rfl, rfl⟩ := hkey
      rw [hrow]
      rfl
    · rfl

namespace QuotaStore

variable {store : QuotaStore} {period period' tenantId other : String}

theorem bump_snd (field : QuotaField) (count : ℤ) : (store.bump field period tenantId count).2 =
    (store.usage period tenantId).bump count field := by
  cases store with
  | inMemory usage => rfl
  | metadata quotas =>
    refine (getQuota_bumpQuota field period period tenantId tenantId count quotas).trans ?_
    rw [if_pos ⟨rfl, rfl⟩]
    rfl

theorem usage_bump (field : QuotaField) (count : ℤ) :
    (store.bump field period tenantId count).1.usage period other =
      if tenantId = other then (store.usage period other).bump count field
      else store.usage period other := by
  cases store with
  | inMemory usage => exact usage_add field period tenantId other count _
  | metadata quotas =>
    refine (getQuota_bumpQuota field period period tenantId other count quotas).trans ?_
    simp only [and_true]
    rfl

/-- Where only the record of one tenant has been replaced, another period is as before, or
forgotten. -/
theorem usage_of_replaced {usage usage' : OrderedDict String QuotaUsage} {record : QuotaUsage}
    (hself : usage'.get? tenantId = some record) (hrecord : record.periodStart ≠ period')
    (hrest : ∀ other, tenantId ≠ other → usage'.get? other = usage.get? other) :
    (inMemory usage').usage period' other = (inMemory usage).usage period' other ∨
      tenantId = other ∧ (inMemory usage').usage period' other = { periodStart := period' } := by
  by_cases h : tenantId = other
  · subst h
    refine .inr ⟨rfl, ?_⟩
    simp only [QuotaStore.usage, ensureQuota, hself]
    rw [if_pos hrecord]
  · exact .inl (ensureQuota_congr (hrest other h))

theorem get?_ensureQuota_self (usage : OrderedDict String QuotaUsage) :
    (ensureQuota period tenantId usage).1.get? tenantId =
      some (ensureQuota period tenantId usage).2 := by
  unfold ensureQuota
  dsimp only
  split
  · rw [OrderedDict.get?_insert, if_pos rfl]
  case h_2 hrecord =>
    split_ifs
    · rw [OrderedDict.get?_insert, if_pos rfl]
    · exact hrecord

theorem usage_bump_of_ne (hperiod : period ≠ period') (field : QuotaField) (count : ℤ) :
    (store.bump field period tenantId count).1.usage period' other = store.usage period' other ∨
      tenantId = other ∧
        (store.bump field period tenantId count).1.usage period' other =
          { periodStart := period' } := by
  cases store with
  | inMemory usage =>
    refine usage_of_replaced (by rw [OrderedDict.get?_insert, if_pos rfl]) ?_ fun other hother => ?_
    · rw [QuotaUsage.periodStart_bump, periodStart_ensureQuota]
      exact hperiod
    · rw [OrderedDict.get?_insert, if_neg hother, get?_ensureQuota_of_ne hother]
  | metadata quotas =>
    refine .inl ((getQuota_bumpQuota field period period' tenantId other count quotas).trans ?_)
    rw [if_neg fun h => hperiod h.2]
    rfl

variable (store) (call : QuotaCall)

theorem serve_snd :
    (store.serve call).2 = (store.usage (periodStart call.now) call.tenantId).plus call := by
  obtain ⟨now, tenantId, op⟩ := call
  cases op with
  | addTokens count => simp [serve, bump_snd, QuotaUsage.bump, QuotaUsage.plus, QuotaCall.count]
  | addUpload count => simp [serve, bump_snd, QuotaUsage.bump, QuotaUsage.plus, QuotaCall.count]
  | usage => cases store <;> simp [serve, QuotaUsage.plus, QuotaCall.count, QuotaStore.usage]

/-- In its own month a call counts for its tenant. -/
theorem usage_serve (other : String) :
    (store.serve call).1.usage (periodStart call.now) other =
      if call.tenantId = other then (store.usage (periodStart call.now) other).plus call
      else store.usage (periodStart call.now) other := by
  obtain ⟨now, tenantId, op⟩ := call
  cases op with
  | addTokens count => simp [serve, usage_bump, QuotaUsage.bump, QuotaUsage.plus, QuotaCall.count]
  | addUpload count => simp [serve, usage_bump, QuotaUsage.bump, QuotaUsage.plus, QuotaCall.count]
  | usage =>
    have hsame : (store.serve ⟨now, tenantId, .usage⟩).1.usage (periodStart now) other =
        store.usage (periodStart now) other := by
      cases store with
      | metadata quotas => rfl
      | inMemory usage =>
        by_cases h : tenantId = other
        · subst h
          have hperiod := periodStart_ensureQuota (periodStart now) tenantId usage
          simp only [serve, QuotaStore.usage]
          rw [ensureQuota, get?_ensureQuota_self]
          dsimp only
          rw [if_neg (not_not.mpr hperiod)]
        · exact ensureQuota_congr (get?_ensureQuota_of_ne h usage)
    simp [hsame, QuotaUsage.plus, QuotaCall.count]

/-- The counters of another month are as before, or forgotten. -/
theorem usage_serve_of_ne (other : String) (hperiod : periodStart call.now ≠ period') :
    (store.serve call).1.usage period' other = store.usage period' other ∨
      call.tenantId = other ∧ (store.serve call).1.usage period' other =
        { periodStart := period' } := by
  obtain ⟨now, tenantId, op⟩ := call
  cases op with
  | addTokens count => exact usage_bump_of_ne hperiod .tokens count
  | addUpload count => exact usage_bump_of_ne hperiod .uploadBytes count
  | usage =>
    cases store with
    | metadata quotas => exact .inl rfl
    | inMemory usage =>
      refine usage_of_replaced (get?_ensureQuota_self usage) ?_ fun other hother => ?_
      · rw [periodStart_ensureQuota]
        exact hperiod
      · exact get?_ensureQuota_of_ne hother usage

end QuotaStore

/-! ## What has been used in a month -/

/-- What the calls have counted for a tenant in the month of a time. -/
def counted (field : QuotaField) (tenantId : String) (now : UtcDateTime)
    (calls : List QuotaCall) : ℕ :=
  ((calls.filter fun call => call.tenantId = tenantId ∧ SameMonth call.now now).map
    (·.count field)).sum

def monthUsage (calls : List QuotaCall) (now : UtcDateTime) (tenantId : String) : QuotaUsage where
  tokens := counted .tokens tenantId now calls
  uploadBytes := counted .uploadBytes tenantId now calls
  periodStart := periodStart now

/-- The answers of a store that has served some calls and is asked for more of them. -/
def monthUsages (served : List QuotaCall) : List QuotaCall → List QuotaUsage
  | [] => []
  | call :: calls =>
    monthUsage (served ++ [call]) call.now call.tenantId :: monthUsages (served ++ [call]) calls

section Counted

variable {calls : List QuotaCall} {call : QuotaCall} {now : UtcDateTime} {tenantId : String}

theorem counted_snoc (field : QuotaField) : counted field tenantId now (calls ++ [call]) =
    counted field tenantId now calls +
      if call.tenantId = tenantId ∧ SameMonth call.now now then call.count field else 0 := by
  unfold counted
  rw [List.filter_append, List.map_append, List.sum_append]
  split_ifs with h <;> simp [h]

theorem monthUsage_snoc : monthUsage (calls ++ [call]) now tenantId =
    if call.tenantId = tenantId ∧ SameMonth call.now now then
      (monthUsage calls now tenantId).plus call
    else monthUsage calls now tenantId := by
  unfold monthUsage
  rw [counted_snoc, counted_snoc]
  split_ifs
  · simp [QuotaUsage.plus]
  · rfl

theorem monthUsage_eq_zero (h : ∀ call ∈ calls, ¬ SameMonth call.now now) :
    monthUsage calls now tenantId = { periodStart := periodStart now } := by
  have hnone (field : QuotaField) : counted field tenantId now calls = 0 := by
    unfold counted
    rw [List.filter_eq_nil_iff.mpr fun call hcall => by simp [h call hcall]]
    rfl
  simp [monthUsage, hnone]

end Counted

/-! ## The simulation -/

/-- From its latest call on, a store knows what has been used in the month. -/
def QuotaStore.Counts (store : QuotaStore) (served : List QuotaCall) : Prop :=
  ∀ now tenantId, (∀ call ∈ served, call.now ≤ now) →
    store.usage (periodStart now) tenantId = monthUsage served now tenantId

namespace QuotaStore

variable {store : QuotaStore} {served : List QuotaCall} {call : QuotaCall}

theorem counts_empty : Counts (.inMemory .empty) [] ∧ Counts (.metadata .empty) [] :=
  ⟨fun _ _ _ => rfl, fun _ _ _ => rfl⟩

/-- A call keeps the counts: what it adds belongs to its month, and what it makes a store forget
to an earlier one. -/
theorem Counts.serve (hstore : store.Counts served)
    (hclock : ∀ past ∈ served, past.now ≤ call.now) :
    (store.serve call).1.Counts (served ++ [call]) := by
  intro now tenantId hnow
  have hserved : ∀ past ∈ served, past.now ≤ now := fun past hpast =>
    hnow past (List.mem_append_left _ hpast)
  have hcall : call.now ≤ now := hnow call (List.mem_append_right _ (List.mem_singleton_self call))
  rw [monthUsage_snoc, ← hstore now tenantId hserved]
  by_cases hmonth : SameMonth call.now now
  · rw [← periodStart_eq_iff.mpr hmonth, usage_serve]
    simp only [hmonth, and_true]
  · rw [if_neg fun h => hmonth h.2]
    have hperiod : periodStart call.now ≠ periodStart now := fun h =>
      hmonth (periodStart_eq_iff.mp h)
    obtain hkept | ⟨rfl, hforgotten⟩ := usage_serve_of_ne store call tenantId hperiod
    · exact hkept
    · rw [hforgotten, hstore now _ hserved, monthUsage_eq_zero]
      exact fun past hpast hsame => hmonth (hsame.of_between (hclock past hpast) hcall)

theorem serve_snd_of_counts (hstore : store.Counts served)
    (hclock : ∀ past ∈ served, past.now ≤ call.now) :
    (store.serve call).2 = monthUsage (served ++ [call]) call.now call.tenantId := by
  rw [serve_snd, hstore _ _ hclock, monthUsage_snoc, if_pos ⟨rfl, rfl, rfl⟩]

theorem serveAll_of_counts {calls : List QuotaCall} (hstore : store.Counts served)
    (hclock : (served ++ calls).Pairwise fun a b => a.now ≤ b.now) :
    store.serveAll calls = monthUsages served calls := by
  induction calls generalizing store served with
  | nil => rfl
  | cons call calls ih =>
    have hpast : ∀ past ∈ served, past.now ≤ call.now := fun past hpast =>
      (List.pairwise_append.mp hclock).2.2 past hpast call List.mem_cons_self
    have hrest := ih (hstore.serve hpast) (by rwa [List.append_assoc])
    simp only [serveAll, monthUsages]
    rw [serve_snd_of_counts hstore hpast, hrest]

end QuotaStore

/-- Both stores return what the tenant has used in the month. -/
theorem serveAll_eq_monthUsages {calls : List QuotaCall}
    (hclock : calls.Pairwise fun a b => a.now ≤ b.now) :
    QuotaStore.serveAll (.inMemory .empty) calls = monthUsages [] calls ∧
      QuotaStore.serveAll (.metadata .empty) calls = monthUsages [] calls :=
  ⟨QuotaStore.serveAll_of_counts QuotaStore.counts_empty.1 hclock,
    QuotaStore.serveAll_of_counts QuotaStore.counts_empty.2 hclock⟩

/-! ## Around the end of a year -/

/-- A second before midnight on the last of December. -/
def yearEnd : UtcDateTime := .ofParts 2025 12 31 23 59 59 0

def newYear : UtcDateTime := .ofParts 2026 1 1 0 0 0 0

def callsAtYearEnd : List QuotaCall := [
  ⟨yearEnd, "tenant", .addTokens 700⟩,
  ⟨yearEnd, "other", .addUpload 5⟩,
  ⟨newYear, "tenant", .addTokens 20⟩,
  ⟨newYear, "tenant", .addUpload 3⟩,
  ⟨newYear, "other", .usage⟩]

theorem serveAll_callsAtYearEnd :
    QuotaStore.serveAll (.inMemory .empty) callsAtYearEnd = monthUsages [] callsAtYearEnd ∧
      QuotaStore.serveAll (.metadata .empty) callsAtYearEnd = monthUsages [] callsAtYearEnd :=
  serveAll_eq_monthUsages (by decide)

/-! ## The wait for the next month

The seconds that a refused client is told to wait lead to the first of the next month at the time
of day of the request, while the counters start again at midnight. -/

/-- `now.replace(...)` to the first of the next month; none where it raises. -/
def nextPeriod? (now : UtcDateTime) : Option UtcDateTime :=
  if now.month = 12 then
    if hyear : now.year < 9999 then
      some { now with
        year := now.year + 1, year_mem := ⟨Nat.succ_pos _, hyear⟩
        month := 1, month_mem := january_mem
        day := 1, day_mem := ⟨le_rfl, daysInMonth_pos _ _⟩ }
    else none
  else if hmonth : now.month + 1 ≤ 12 then
    some { now with
      month := now.month + 1, month_mem := ⟨Nat.succ_pos _, hmonth⟩
      day := 1, day_mem := ⟨le_rfl, daysInMonth_pos _ _⟩ }
  else none

/-- `_next_period_seconds`. -/
def nextPeriodSeconds (now : UtcDateTime) : Except Exc ℤ :=
  match nextPeriod? now with
  | none => .error (.foreign "year 10000 is out of range")
  | some nxt => .ok (max 1 (((nxt.instant : ℤ) - now.instant).tdiv 1000000))

/-- The first instant of the next calendar month. -/
def nextMonthStart (now : UtcDateTime) : ℕ :=
  (daysBeforeYear now.year + daysBeforeMonth now.year (now.month + 1) + 1) * dayLength

/-- Waiting as long leads to the first instant of the next month, up to a second. -/
def PointsAtNextMonth (now : UtcDateTime) : Prop :=
  ∃ seconds, nextPeriodSeconds now = .ok seconds ∧
    |(now.instant : ℤ) + seconds * 1000000 - nextMonthStart now| ≤ 1000000

section Months

variable {now nxt t : UtcDateTime}

/-- In December the next month is the first of the next year. -/
theorem nextMonthStart_december (h : now.month = 12) :
    nextMonthStart now = (daysBeforeYear (now.year + 1) + 1) * dayLength := by
  unfold nextMonthStart
  rw [h, daysBeforeMonth_thirteen, daysBeforeYear_succ now.year_mem.1]

/-- Every later month begins after this one has ended. -/
theorem nextMonthStart_le (h : now ≤ t) (hother : ¬ SameMonth t now) :
    nextMonthStart now ≤ t.instant := by
  have hday := t.day_mem.1
  have hlater : now.year < t.year ∨ now.year = t.year ∧ now.month < t.month := by
    have hnot := not_lt.mpr h
    rw [UtcDateTime.lt_iff] at hnot
    unfold SameMonth at hother
    unfold CivilDate.Before at hnot
    omega
  have hstart : daysBeforeYear now.year + daysBeforeMonth now.year (now.month + 1) ≤
      daysBeforeYear t.year + daysBeforeMonth t.year t.month := by
    obtain hyear | ⟨hyear, hmonth⟩ := hlater
    · have hyears := daysBeforeYear_le_of_lt now.year_mem.1 hyear
      have hmonths := daysBeforeMonth_succ_le now.year now.month_mem.2
      omega
    · have hmonths := daysBeforeMonth_le_of_lt now.year now.month_mem.1 hmonth
      rw [daysBeforeMonth_succ _ now.month_mem.1, ← hyear]
      omega
  unfold nextMonthStart UtcDateTime.instant CivilDate.dayNumber
  refine (Nat.mul_le_mul_right _ ?_).trans (Nat.le_add_right _ _)
  omega

/-- The period of a request is over exactly when the next month has begun. -/
theorem periodStart_eq_iff_lt (h : now ≤ t) :
    periodStart t = periodStart now ↔ t.instant < nextMonthStart now := by
  rw [periodStart_eq_iff]
  constructor
  · rintro ⟨hyear, hmonth⟩
    have hbound := CivilDate.dayNumber_le_month t.toCivilDate
    have htime := UtcDateTime.microsecondOfDay_lt t
    rw [hyear, hmonth] at hbound
    unfold nextMonthStart UtcDateTime.instant
    calc
      t.dayNumber * dayLength + t.microsecondOfDay < (t.dayNumber + 1) * dayLength := by
        rw [Nat.succ_mul]
        omega
      _ ≤ _ := Nat.mul_le_mul_right _ (Nat.succ_le_succ hbound)
  · intro hless
    by_contra hother
    exact absurd (nextMonthStart_le h hother) (not_le.mpr hless)

/-- The first of the next month, at the same time of day. -/
theorem instant_nextPeriod (h : nextPeriod? now = some nxt) :
    nxt.instant = nextMonthStart now + now.microsecondOfDay := by
  unfold nextPeriod? at h
  split_ifs at h with hdecember hyear hmonth
  · cases h
    rw [nextMonthStart_december hdecember]
    rfl
  · cases h
    rfl

theorem nextPeriod_eq_none_iff :
    nextPeriod? now = none ↔ now.year = 9999 ∧ now.month = 12 := by
  have hyear := now.year_mem.2
  have hmonth := now.month_mem.2
  unfold nextPeriod?
  split_ifs <;> simp <;> omega

/-- The wait is a whole number of days, which ends as long after the beginning of the month as
the request came after midnight. -/
theorem nextPeriodSeconds_eq (h : nextPeriod? now = some nxt) :
    ∃ seconds, nextPeriodSeconds now = .ok seconds ∧
      (now.instant : ℤ) + seconds * 1000000 = nextMonthStart now + now.microsecondOfDay := by
  have hinstant := instant_nextPeriod h
  have hbound := CivilDate.dayNumber_le_month now.toCivilDate
  obtain ⟨days, hdays⟩ := Nat.exists_eq_add_of_le hbound
  have hwait : (nxt.instant : ℤ) - now.instant = ((days + 1 : ℕ) * 86400 : ℤ) * 1000000 := by
    rw [hinstant, nextMonthStart, hdays]
    unfold UtcDateTime.instant dayLength
    push_cast
    ring
  have hseconds : nextPeriodSeconds now = .ok ((days + 1 : ℕ) * 86400) := by
    unfold nextPeriodSeconds
    rw [h]
    dsimp only
    rw [hwait, Int.mul_tdiv_cancel _ (by decide), max_eq_right (by omega)]
  refine ⟨_, hseconds, ?_⟩
  rw [← hwait, hinstant]
  push_cast
  ring

end Months

/-- The wait is right in the first second of a day, and before the last month there is. -/
theorem pointsAtNextMonth_iff (now : UtcDateTime) :
    PointsAtNextMonth now ↔
      ¬ (now.year = 9999 ∧ now.month = 12) ∧ now.microsecondOfDay ≤ 1000000 := by
  rw [← nextPeriod_eq_none_iff]
  unfold PointsAtNextMonth
  cases h : nextPeriod? now with
  | none =>
    refine iff_of_false ?_ fun hcond => hcond.1 rfl
    rintro ⟨seconds, hseconds, -⟩
    rw [nextPeriodSeconds, h] at hseconds
    exact nomatch hseconds
  | some nxt =>
    obtain ⟨seconds, hseconds, hwait⟩ := nextPeriodSeconds_eq h
    have habs : |(now.instant : ℤ) + seconds * 1000000 - nextMonthStart now| =
        now.microsecondOfDay := by
      rw [hwait, add_sub_cancel_left, Nat.abs_cast]
    simp only [hseconds, Except.ok.injEq, exists_eq_left', habs, reduceCtorEq, not_false_eq_true,
      true_and]
    omega

/-! ## At noon -/

def noon : UtcDateTime := .ofParts 2026 6 15 12 0 0 0

/-- A client that is refused at noon is told to wait until the first of July at noon. -/
theorem not_pointsAtNextMonth_noon : ¬ PointsAtNextMonth noon := by
  rintro ⟨seconds, hseconds, habs⟩
  have hnext : nextPeriod? noon = some _ := rfl
  obtain ⟨days, hdays, hwait⟩ := nextPeriodSeconds_eq hnext
  obtain rfl : seconds = days := Except.ok.inj (hseconds.symm.trans hdays)
  rw [hwait, add_sub_cancel_left] at habs
  exact absurd habs (by decide)

end Ragx
