import Mathlib.Order.Basic
import Ragx.FixedWidth

/-!
# Dates, times and their texts

Dates of the Gregorian calendar in the years 1 to 9999, with a time of day in UTC down to the
microsecond. Dates are numbered by days and times by microseconds, and both the number and the
ISO text follow the order of the fields.
-/
namespace Ragx.Calendar

/-! ## Days, months and years -/

def isLeap (year : ℕ) : Bool := year % 4 = 0 && (year % 100 ≠ 0 || year % 400 = 0)

def yearLength (year : ℕ) : ℕ := if isLeap year then 366 else 365

def daysInMonth (year : ℕ) : ℕ → ℕ
  | 2 => if isLeap year then 29 else 28
  | 4 | 6 | 9 | 11 => 30
  | _ => 31

/-- The days of the years from 1 on. -/
def daysBeforeYear (year : ℕ) : ℕ :=
  (year - 1) * 365 + (year - 1) / 4 - (year - 1) / 100 + (year - 1) / 400

def daysBeforeMonth (year : ℕ) : ℕ → ℕ
  | 0 => 0
  | 1 => 0
  | month + 2 => daysBeforeMonth year (month + 1) + daysInMonth year (month + 1)

theorem succ_div_eq (n k : ℕ) : (n + 1) / k = n / k + if (n + 1) % k = 0 then 1 else 0 := by
  rw [Nat.succ_div]
  simp only [Nat.dvd_iff_mod_eq_zero]

theorem daysBeforeYear_succ {year : ℕ} (h : 1 ≤ year) :
    daysBeforeYear (year + 1) = daysBeforeYear year + yearLength year := by
  obtain ⟨n, rfl⟩ := Nat.exists_eq_add_of_le' h
  have hcenturies : n / 100 ≤ n / 4 := Nat.div_le_div_left (by decide) (by decide)
  have hhundred : (n + 1) % 100 = 0 → (n + 1) % 4 = 0 := by omega
  have hfour : (n + 1) % 400 = 0 → (n + 1) % 100 = 0 := by omega
  unfold daysBeforeYear yearLength isLeap
  simp only [Nat.add_sub_cancel, succ_div_eq n 4, succ_div_eq n 100, succ_div_eq n 400,
    Bool.and_eq_true, Bool.or_eq_true, decide_eq_true_eq]
  generalize n / 4 = fourths, n / 100 = hundreds, n / 400 = quarters at *
  split_ifs <;> omega

theorem daysBeforeMonth_succ (year : ℕ) {month : ℕ} (h : 1 ≤ month) :
    daysBeforeMonth year (month + 1) = daysBeforeMonth year month + daysInMonth year month := by
  obtain ⟨n, rfl⟩ := Nat.exists_eq_add_of_le' h
  rfl

/-- After December the year is full. -/
theorem daysBeforeMonth_thirteen (year : ℕ) : daysBeforeMonth year 13 = yearLength year := by
  unfold yearLength
  cases h : isLeap year <;> simp [daysBeforeMonth, daysInMonth, h]

theorem january_mem : 1 ≤ 1 ∧ 1 ≤ 12 := by decide

theorem daysInMonth_pos (year month : ℕ) : 1 ≤ daysInMonth year month := by
  unfold daysInMonth
  split
  · split_ifs <;> omega
  all_goals omega

theorem daysInMonth_le (year month : ℕ) : daysInMonth year month ≤ 31 := by
  unfold daysInMonth
  split
  · split_ifs <;> omega
  all_goals omega

/-- A month ends before a later one begins. -/
theorem daysBeforeMonth_le_of_lt (year : ℕ) {month later : ℕ} (hmonth : 1 ≤ month)
    (h : month < later) :
    daysBeforeMonth year month + daysInMonth year month ≤ daysBeforeMonth year later := by
  induction later, h using Nat.le_induction with
  | base => exact (daysBeforeMonth_succ year hmonth).ge
  | succ later hlater ih =>
    rw [daysBeforeMonth_succ year (by omega)]
    omega

/-- A month ends within its year. -/
theorem daysBeforeMonth_succ_le (year : ℕ) {month : ℕ} (h : month ≤ 12) :
    daysBeforeMonth year (month + 1) ≤ yearLength year := by
  rw [← daysBeforeMonth_thirteen]
  obtain hlast | hlast := Nat.lt_or_eq_of_le h
  · exact (Nat.le_add_right _ _).trans (daysBeforeMonth_le_of_lt _ (by omega) (by omega))
  · rw [hlast]

theorem daysBeforeYear_le_of_lt {year later : ℕ} (hyear : 1 ≤ year) (h : year < later) :
    daysBeforeYear year + yearLength year ≤ daysBeforeYear later := by
  induction later, h using Nat.le_induction with
  | base => exact (daysBeforeYear_succ hyear).ge
  | succ later hlater ih =>
    rw [daysBeforeYear_succ (by omega)]
    omega

/-! ## Dates -/

structure CivilDate where
  year : ℕ
  month : ℕ
  day : ℕ
  year_mem : 1 ≤ year ∧ year ≤ 9999
  month_mem : 1 ≤ month ∧ month ≤ 12
  day_mem : 1 ≤ day ∧ day ≤ daysInMonth year month
deriving DecidableEq

namespace CivilDate

/-- The days up to the date, from the first of January of the year 1 on. -/
def dayNumber (d : CivilDate) : ℕ :=
  daysBeforeYear d.year + daysBeforeMonth d.year d.month + d.day

variable {d e : CivilDate}

theorem dayNumber_le_month (d : CivilDate) :
    d.dayNumber ≤ daysBeforeYear d.year + daysBeforeMonth d.year (d.month + 1) := by
  have hday := d.day_mem
  rw [daysBeforeMonth_succ _ d.month_mem.1, dayNumber]
  omega

theorem dayNumber_le_year (d : CivilDate) :
    d.dayNumber ≤ daysBeforeYear d.year + yearLength d.year :=
  (dayNumber_le_month d).trans
    (Nat.add_le_add_left (daysBeforeMonth_succ_le d.year d.month_mem.2) _)

theorem dayNumber_lt_of_year (h : d.year < e.year) : d.dayNumber < e.dayNumber := by
  have hbound := dayNumber_le_year d
  have hyears := daysBeforeYear_le_of_lt d.year_mem.1 h
  have hday := e.day_mem.1
  unfold dayNumber at *
  omega

theorem dayNumber_lt_of_month (hyear : d.year = e.year) (h : d.month < e.month) :
    d.dayNumber < e.dayNumber := by
  have hbound := dayNumber_le_month d
  have hmonths := daysBeforeMonth_le_of_lt d.year d.month_mem.1 h
  have hday := e.day_mem.1
  rw [daysBeforeMonth_succ _ d.month_mem.1] at hbound
  unfold dayNumber at *
  rw [← hyear]
  omega

/-- Earlier in the calendar. -/
def Before (d e : CivilDate) : Prop :=
  d.year < e.year ∨ d.year = e.year ∧ (d.month < e.month ∨ d.month = e.month ∧ d.day < e.day)

theorem dayNumber_lt_of_before (h : d.Before e) : d.dayNumber < e.dayNumber := by
  obtain h | ⟨hyear, h | ⟨hmonth, h⟩⟩ := h
  · exact dayNumber_lt_of_year h
  · exact dayNumber_lt_of_month hyear h
  · unfold dayNumber
    rw [hyear, hmonth]
    omega

theorem before_trichotomy (d e : CivilDate) :
    d.Before e ∨ (d.year = e.year ∧ d.month = e.month ∧ d.day = e.day) ∨ e.Before d := by
  unfold Before
  omega

theorem dayNumber_lt_iff : d.dayNumber < e.dayNumber ↔ d.Before e := by
  refine ⟨fun h => ?_, dayNumber_lt_of_before⟩
  obtain hbefore | ⟨hyear, hmonth, hday⟩ | hafter := before_trichotomy d e
  · exact hbefore
  · unfold dayNumber at h
    rw [hyear, hmonth, hday] at h
    exact absurd h (lt_irrefl _)
  · exact absurd h (dayNumber_lt_of_before hafter).asymm

theorem dayNumber_eq_iff :
    d.dayNumber = e.dayNumber ↔ d.year = e.year ∧ d.month = e.month ∧ d.day = e.day := by
  constructor
  · intro h
    obtain hbefore | heq | hafter := before_trichotomy d e
    · exact absurd h (dayNumber_lt_of_before hbefore).ne
    · exact heq
    · exact absurd h (dayNumber_lt_of_before hafter).ne'
  · rintro ⟨hyear, hmonth, hday⟩
    rw [dayNumber, dayNumber, hyear, hmonth, hday]

/-! ## The day after and the day before -/

def next? (d : CivilDate) : Option CivilDate :=
  if hday : d.day < daysInMonth d.year d.month then
    some { d with day := d.day + 1, day_mem := ⟨Nat.succ_pos _, hday⟩ }
  else if hmonth : d.month < 12 then
    some { d with
      month := d.month + 1, month_mem := ⟨Nat.succ_pos _, hmonth⟩
      day := 1, day_mem := ⟨le_rfl, daysInMonth_pos _ _⟩ }
  else if hyear : d.year < 9999 then
    some {
      year := d.year + 1, year_mem := ⟨Nat.succ_pos _, hyear⟩
      month := 1, month_mem := by decide
      day := 1, day_mem := ⟨le_rfl, daysInMonth_pos _ _⟩ }
  else none

def previous? (d : CivilDate) : Option CivilDate :=
  if hday : 1 < d.day then
    some { d with
      day := d.day - 1
      day_mem := ⟨Nat.le_sub_one_of_lt hday, (Nat.sub_le _ _).trans d.day_mem.2⟩ }
  else if hmonth : 1 < d.month then
    some { d with
      month := d.month - 1
      month_mem := ⟨Nat.le_sub_one_of_lt hmonth, (Nat.sub_le _ _).trans d.month_mem.2⟩
      day := daysInMonth d.year (d.month - 1), day_mem := ⟨daysInMonth_pos _ _, le_rfl⟩ }
  else if hyear : 1 < d.year then
    some {
      year := d.year - 1
      year_mem := ⟨Nat.le_sub_one_of_lt hyear, (Nat.sub_le _ _).trans d.year_mem.2⟩
      month := 12, month_mem := by decide
      day := 31, day_mem := by simp [daysInMonth] }
  else none

theorem dayNumber_next (h : d.next? = some e) : e.dayNumber = d.dayNumber + 1 := by
  have hday := d.day_mem.2
  have hmonth := d.month_mem
  unfold next? at h
  split_ifs at h with hlast hdecember hyear
  · cases h
    rfl
  · cases h
    simp only [dayNumber]
    rw [daysBeforeMonth_succ _ hmonth.1]
    omega
  · cases h
    have hend : d.month = 12 := by omega
    have hfull := daysBeforeMonth_thirteen d.year
    rw [daysBeforeMonth_succ _ (by decide)] at hfull
    simp only [dayNumber]
    rw [daysBeforeYear_succ d.year_mem.1, hend, ← hfull]
    rw [hend] at hlast hday
    simp only [daysBeforeMonth]
    omega

theorem dayNumber_previous (h : d.previous? = some e) : e.dayNumber + 1 = d.dayNumber := by
  have hday := d.day_mem.1
  have hmonth := d.month_mem
  have hyears := d.year_mem.1
  unfold previous? at h
  split_ifs at h with hfirst hjanuary hyear
  · cases h
    simp only [dayNumber]
    omega
  · cases h
    have hsucc := daysBeforeMonth_succ d.year (Nat.le_sub_one_of_lt hjanuary)
    rw [Nat.sub_add_cancel hmonth.1] at hsucc
    simp only [dayNumber]
    omega
  · cases h
    have hstart : d.month = 1 := by omega
    have hsucc := daysBeforeYear_succ (Nat.le_sub_one_of_lt hyear)
    have hfull := daysBeforeMonth_thirteen (d.year - 1)
    rw [daysBeforeMonth_succ _ (by decide)] at hfull
    rw [Nat.sub_add_cancel hyears, ← hfull] at hsucc
    simp only [dayNumber]
    rw [hstart, hsucc]
    simp only [daysBeforeMonth, daysInMonth]
    omega

/-! ## A number of days later or earlier -/

def lastDay : ℕ := 3652059

theorem next_eq_none (h : d.next? = none) : d.dayNumber = lastDay := by
  have hday := d.day_mem.2
  have hmonth := d.month_mem.2
  have hyear := d.year_mem.2
  unfold next? at h
  split_ifs at h with hlast hdecember hyear'
  obtain ⟨hyear, hmonth⟩ : d.year = 9999 ∧ d.month = 12 := by omega
  rw [hyear, hmonth] at hday hlast
  have hend : d.day = 31 := le_antisymm hday (not_lt.mp hlast)
  unfold dayNumber
  rw [hyear, hmonth, hend]
  decide

theorem previous_eq_none (h : d.previous? = none) : d.dayNumber = 1 := by
  have hday := d.day_mem.1
  have hmonth := d.month_mem.1
  have hyear := d.year_mem.1
  unfold previous? at h
  split_ifs at h with hfirst hjanuary hyear'
  obtain ⟨hyear, hmonth, hday⟩ : d.year = 1 ∧ d.month = 1 ∧ d.day = 1 := by omega
  unfold dayNumber
  rw [hyear, hmonth, hday]
  rfl

/-- So many days later, if there is such a date. -/
def later? (d : CivilDate) : ℕ → Option CivilDate
  | 0 => some d
  | days + 1 => d.next?.bind (later? · days)

def earlier? (d : CivilDate) : ℕ → Option CivilDate
  | 0 => some d
  | days + 1 => d.previous?.bind (earlier? · days)

theorem dayNumber_later {days : ℕ} (h : d.later? days = some e) :
    e.dayNumber = d.dayNumber + days := by
  induction days generalizing d with
  | zero =>
    cases h
    rfl
  | succ days ih =>
    obtain ⟨next, hnext, h⟩ := Option.bind_eq_some_iff.mp h
    rw [ih h, dayNumber_next hnext]
    omega

theorem dayNumber_earlier {days : ℕ} (h : d.earlier? days = some e) :
    e.dayNumber + days = d.dayNumber := by
  induction days generalizing d with
  | zero =>
    cases h
    rfl
  | succ days ih =>
    obtain ⟨previous, hprevious, h⟩ := Option.bind_eq_some_iff.mp h
    have hrest := ih h
    have hfirst := dayNumber_previous hprevious
    omega

theorem later_eq_none {days : ℕ} (h : d.later? days = none) : lastDay < d.dayNumber + days := by
  induction days generalizing d with
  | zero => exact nomatch h
  | succ days ih =>
    cases hnext : d.next? with
    | none =>
      rw [next_eq_none hnext]
      omega
    | some next =>
      rw [later?, hnext] at h
      have hrest := ih h
      rw [dayNumber_next hnext] at hrest
      omega

theorem earlier_eq_none {days : ℕ} (h : d.earlier? days = none) : d.dayNumber ≤ days := by
  induction days generalizing d with
  | zero => exact nomatch h
  | succ days ih =>
    cases hprevious : d.previous? with
    | none =>
      rw [previous_eq_none hprevious]
      omega
    | some previous =>
      rw [earlier?, hprevious] at h
      have hrest := ih h
      have hfirst := dayNumber_previous hprevious
      omega

end CivilDate

end Ragx.Calendar
