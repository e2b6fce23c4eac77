import Mathlib.Data.String.Basic
import Mathlib.Tactic.Ring
import Ragx.Calendar

/-!
# Times in UTC and their texts

A date with a time of day down to the microsecond. The texts have two lengths: without
microseconds the offset stands right behind the seconds. They still sort like the times, since
the plus sign of the offset comes before the point of a fraction.
-/
namespace Ragx.Calendar

/-- A `datetime` with the time zone UTC. -/
structure UtcDateTime extends CivilDate where
  hour : ℕ
  minute : ℕ
  second : ℕ
  microsecond : ℕ
  hour_lt : hour < 24
  minute_lt : minute < 60
  second_lt : second < 60
  microsecond_lt : microsecond < 1000000
deriving DecidableEq

/-- The time with these parts. -/
def UtcDateTime.ofParts (year month day hour minute second microsecond : ℕ)
    (h : (1 ≤ year ∧ year ≤ 9999) ∧ (1 ≤ month ∧ month ≤ 12) ∧
      (1 ≤ day ∧ day ≤ daysInMonth year month) ∧
      hour < 24 ∧ minute < 60 ∧ second < 60 ∧ microsecond < 1000000 := by decide) :
    UtcDateTime where
  year := year
  month := month
  day := day
  year_mem := h.1
  month_mem := h.2.1
  day_mem := h.2.2.1
  hour := hour
  minute := minute
  second := second
  microsecond := microsecond
  hour_lt := h.2.2.2.1
  minute_lt := h.2.2.2.2.1
  second_lt := h.2.2.2.2.2.1
  microsecond_lt := h.2.2.2.2.2.2

/-- The microseconds of a day. -/
def dayLength : ℕ := 86400000000

namespace UtcDateTime

def microsecondOfDay (t : UtcDateTime) : ℕ :=
  ((t.hour * 60 + t.minute) * 60 + t.second) * 1000000 + t.microsecond

/-- The point on the line of time, in microseconds. -/
def instant (t : UtcDateTime) : ℕ := t.dayNumber * dayLength + t.microsecondOfDay

variable {s t : UtcDateTime}

theorem microsecondOfDay_lt (t : UtcDateTime) : t.microsecondOfDay < dayLength := by
  have hhour := t.hour_lt
  have hminute := t.minute_lt
  have hsecond := t.second_lt
  have hmicrosecond := t.microsecond_lt
  unfold microsecondOfDay dayLength
  omega

/-! ## The order of time -/

/-- Earlier on the clock. -/
def EarlierInDay (s t : UtcDateTime) : Prop :=
  s.hour < t.hour ∨ s.hour = t.hour ∧ (s.minute < t.minute ∨ s.minute = t.minute ∧
    (s.second < t.second ∨ s.second = t.second ∧ s.microsecond < t.microsecond))

theorem microsecondOfDay_lt_iff : s.microsecondOfDay < t.microsecondOfDay ↔ EarlierInDay s t := by
  have hminute := And.intro s.minute_lt t.minute_lt
  have hsecond := And.intro s.second_lt t.second_lt
  have hmicrosecond := And.intro s.microsecond_lt t.microsecond_lt
  unfold microsecondOfDay EarlierInDay
  omega

theorem microsecondOfDay_eq_iff : s.microsecondOfDay = t.microsecondOfDay ↔
    s.hour = t.hour ∧ s.minute = t.minute ∧ s.second = t.second ∧
      s.microsecond = t.microsecond := by
  have hminute := And.intro s.minute_lt t.minute_lt
  have hsecond := And.intro s.second_lt t.second_lt
  have hmicrosecond := And.intro s.microsecond_lt t.microsecond_lt
  unfold microsecondOfDay
  omega

theorem instant_lt_iff : s.instant < t.instant ↔
    s.dayNumber < t.dayNumber ∨
      s.dayNumber = t.dayNumber ∧ s.microsecondOfDay < t.microsecondOfDay := by
  have hs := microsecondOfDay_lt s
  have ht := microsecondOfDay_lt t
  unfold instant dayLength at *
  omega

theorem instant_injective : Function.Injective instant := by
  intro s t h
  have hs := microsecondOfDay_lt s
  have ht := microsecondOfDay_lt t
  have hdate : s.dayNumber = t.dayNumber := by
    unfold instant dayLength at *
    omega
  have htime : s.microsecondOfDay = t.microsecondOfDay := by
    unfold instant dayLength at *
    omega
  rw [CivilDate.dayNumber_eq_iff] at hdate
  rw [microsecondOfDay_eq_iff] at htime
  obtain ⟨⟨_, _, _, _, _, _⟩, _, _, _, _, _, _, _, _⟩ := s
  obtain ⟨⟨_, _, _, _, _, _⟩, _, _, _, _, _, _, _, _⟩ := t
  obtain ⟨rfl, rfl, rfl⟩ := hdate
  obtain ⟨rfl, rfl, rfl, rfl⟩ := htime
  rfl

instance : LinearOrder UtcDateTime := .lift' instant instant_injective

theorem lt_iff : s < t ↔ s.toCivilDate.Before t.toCivilDate ∨
    (s.year = t.year ∧ s.month = t.month ∧ s.day = t.day) ∧ EarlierInDay s t := by
  rw [← CivilDate.dayNumber_lt_iff, ← CivilDate.dayNumber_eq_iff, ← microsecondOfDay_lt_iff]
  exact instant_lt_iff

/-! ## Parts that are set to zero -/

/-- `replace(hour=0, minute=0, second=0, microsecond=0)`. -/
def midnight (t : UtcDateTime) : UtcDateTime where
  toCivilDate := t.toCivilDate
  hour := 0
  minute := 0
  second := 0
  microsecond := 0
  hour_lt := by decide
  minute_lt := by decide
  second_lt := by decide
  microsecond_lt := by decide

/-- `replace(day=1, hour=0, minute=0, second=0, microsecond=0)`. -/
def monthStart (t : UtcDateTime) : UtcDateTime where
  toCivilDate := { t.toCivilDate with day := 1, day_mem := ⟨le_rfl, daysInMonth_pos _ _⟩ }
  hour := 0
  minute := 0
  second := 0
  microsecond := 0
  hour_lt := by decide
  minute_lt := by decide
  second_lt := by decide
  microsecond_lt := by decide

theorem monthStart_eq_iff :
    s.monthStart = t.monthStart ↔ s.year = t.year ∧ s.month = t.month := by
  simp [monthStart]

/-! ## Texts -/

/-- The part behind the seconds, which is empty for whole seconds. -/
def fraction (microsecond : ℕ) : List Char :=
  if microsecond = 0 then [] else '.' :: zeroPad 6 microsecond

def isoChars (t : UtcDateTime) : List Char :=
  zeroPad 4 t.year ++ '-' :: (zeroPad 2 t.month ++ '-' :: (zeroPad 2 t.day ++ 'T' ::
    (zeroPad 2 t.hour ++ ':' :: (zeroPad 2 t.minute ++ ':' :: (zeroPad 2 t.second ++
      (fraction t.microsecond ++ "+00:00".toList))))))

/-- `isoformat()`. -/
def isoformat (t : UtcDateTime) : String := String.ofList t.isoChars

example : fraction 0 = [] := rfl

example : fraction 40 = ".000040".toList := by decide

theorem zeroPad_eq_iff {width m n : ℕ} (hm : m < 10 ^ (width + 1)) (hn : n < 10 ^ (width + 1)) :
    zeroPad (width + 1) m = zeroPad (width + 1) n ↔ m = n := by
  refine ⟨fun h => ?_, fun h => h ▸ rfl⟩
  refine le_antisymm (le_of_not_gt fun hlt => ?_) (le_of_not_gt fun hlt => ?_)
  · exact ((zeroPad_lt_iff hn hm).mpr hlt).ne' h
  · exact ((zeroPad_lt_iff hm hn).mpr hlt).ne h

theorem length_zeroPad {width n : ℕ} (h : n < 10 ^ (width + 1)) :
    (zeroPad (width + 1) n).length = width + 1 := by
  rw [zeroPad_eq h, List.length_map, length_digits]

/-- A field of a fixed width decides, and after equal fields the rest does. -/
theorem zeroPad_append_lt_iff {width m n : ℕ} (hm : m < 10 ^ (width + 1))
    (hn : n < 10 ^ (width + 1)) {rest rest' : List Char} :
    zeroPad (width + 1) m ++ rest < zeroPad (width + 1) n ++ rest' ↔
      m < n ∨ m = n ∧ rest < rest' := by
  rw [append_lt_append_iff (by rw [length_zeroPad hm, length_zeroPad hn]), zeroPad_lt_iff hm hn,
    zeroPad_eq_iff hm hn]

theorem cons_lt_cons_iff_rest {c : Char} {rest rest' : List Char} :
    c :: rest < c :: rest' ↔ rest < rest' := by
  simp

/-- The plus sign comes before the point, so whole seconds come before their fractions. -/
theorem fraction_lt_iff {m n : ℕ} (hm : m < 1000000) (hn : n < 1000000) :
    fraction m ++ "+00:00".toList < fraction n ++ "+00:00".toList ↔ m < n := by
  have hoffset : "+00:00".toList = '+' :: "00:00".toList := rfl
  unfold fraction
  split_ifs with hm0 hn0 hn0
  · simp [hm0, hn0]
  · refine iff_of_true ?_ (by omega)
    rw [List.nil_append, List.cons_append, hoffset, List.cons_lt_cons_iff]
    exact .inl (by decide)
  · refine iff_of_false ?_ (by omega)
    rw [List.nil_append, List.cons_append, hoffset, List.cons_lt_cons_iff]
    rintro (h | ⟨h, -⟩)
    · exact absurd h (by decide)
    · exact absurd h (by decide)
  · rw [List.cons_append, List.cons_append, cons_lt_cons_iff_rest,
      zeroPad_append_lt_iff (by simpa using hm) (by simpa using hn)]
    simp

/-- Every field fits the width that it is written with. -/
theorem fields_lt (t : UtcDateTime) : t.year < 10 ^ 4 ∧ t.month < 10 ^ 2 ∧ t.day < 10 ^ 2 ∧
    t.hour < 10 ^ 2 ∧ t.minute < 10 ^ 2 ∧ t.second < 10 ^ 2 := by
  have hyear := t.year_mem.2
  have hmonth := t.month_mem.2
  have hday := t.day_mem.2.trans (daysInMonth_le _ _)
  have hhour := t.hour_lt
  have hminute := t.minute_lt
  have hsecond := t.second_lt
  omega

theorem isoChars_lt_iff : s.isoChars < t.isoChars ↔ s < t := by
  obtain ⟨hyear, hmonth, hday, hhour, hminute, hsecond⟩ := fields_lt s
  obtain ⟨hyear', hmonth', hday', hhour', hminute', hsecond'⟩ := fields_lt t
  unfold isoChars
  rw [zeroPad_append_lt_iff hyear hyear', cons_lt_cons_iff_rest,
    zeroPad_append_lt_iff hmonth hmonth', cons_lt_cons_iff_rest,
    zeroPad_append_lt_iff hday hday', cons_lt_cons_iff_rest,
    zeroPad_append_lt_iff hhour hhour', cons_lt_cons_iff_rest,
    zeroPad_append_lt_iff hminute hminute', cons_lt_cons_iff_rest,
    zeroPad_append_lt_iff hsecond hsecond',
    fraction_lt_iff s.microsecond_lt t.microsecond_lt, lt_iff]
  simp only [CivilDate.Before, EarlierInDay, and_or_left, or_assoc, and_assoc]

/-- Texts sort like the times that they show. -/
theorem isoformat_lt_iff : s.isoformat < t.isoformat ↔ s < t := by
  simp only [isoformat, String.lt_iff, String.toList_ofList]
  exact isoChars_lt_iff

theorem isoformat_injective : Function.Injective isoformat := by
  intro s t h
  refine le_antisymm (le_of_not_gt fun hlt => ?_) (le_of_not_gt fun hlt => ?_)
  · exact (isoformat_lt_iff.mpr hlt).ne' h
  · exact (isoformat_lt_iff.mpr hlt).ne h

theorem isoformat_le_iff : s.isoformat ≤ t.isoformat ↔ s ≤ t := by
  rw [← not_lt, ← not_lt, isoformat_lt_iff]

/-! ## Whole days later or earlier -/

/-- The same time of day on another date. -/
def onDate (t : UtcDateTime) (d : CivilDate) : UtcDateTime := { t with toCivilDate := d }

/-- `t - timedelta(days=days)`, none where that is no date. -/
def daysBefore? (t : UtcDateTime) : ℤ → Option UtcDateTime
  | .ofNat days => (t.toCivilDate.earlier? days).map t.onDate
  | .negSucc days => (t.toCivilDate.later? (days + 1)).map t.onDate

theorem instant_onDate (t : UtcDateTime) (d : CivilDate) :
    (t.onDate d).instant = d.dayNumber * dayLength + t.microsecondOfDay := rfl

theorem instant_daysBefore {days : ℤ} (h : t.daysBefore? days = some s) :
    (s.instant : ℤ) = t.instant - days * dayLength := by
  cases days with
  | ofNat days =>
    obtain ⟨d, hd, rfl⟩ := Option.map_eq_some_iff.mp h
    have hnumber := CivilDate.dayNumber_earlier hd
    rw [instant_onDate, instant, ← hnumber, Int.ofNat_eq_natCast]
    push_cast
    ring
  | negSucc days =>
    obtain ⟨d, hd, rfl⟩ := Option.map_eq_some_iff.mp h
    have hnumber := CivilDate.dayNumber_later hd
    rw [instant_onDate, instant, hnumber, Int.negSucc_eq]
    push_cast
    ring

/-- Only a time before the year 1 or after the year 9999 has no date. -/
theorem daysBefore_eq_none {days : ℤ} (h : t.daysBefore? days = none) :
    (t.dayNumber : ℤ) - days < 1 ∨ (CivilDate.lastDay : ℤ) < t.dayNumber - days := by
  cases days with
  | ofNat days =>
    have hnumber := CivilDate.earlier_eq_none (Option.map_eq_none_iff.mp h)
    refine .inl ?_
    rw [Int.ofNat_eq_natCast]
    omega
  | negSucc days =>
    have hnumber := CivilDate.later_eq_none (Option.map_eq_none_iff.mp h)
    refine .inr ?_
    rw [Int.negSucc_eq]
    omega

end UtcDateTime

end Ragx.Calendar
