import Mathlib.Order.Monotone.Basic
import Mathlib.Data.Int.Order.Basic
import Mathlib.Data.Int.SuccPred
import Mathlib.Tactic.IntervalCases

/-! The proleptic Gregorian calendar, with years and days that are integers of any size. -/

namespace SimPLCity.CivilCalendar

structure Date where
  year : Int
  month : Int
  day : Int
deriving DecidableEq, Repr

def Leap (year : Int) : Prop := year % 4 = 0 ∧ (year % 100 ≠ 0 ∨ year % 400 = 0)

instance (year : Int) : Decidable (Leap year) :=
  inferInstanceAs (Decidable (year % 4 = 0 ∧ (year % 100 ≠ 0 ∨ year % 400 = 0)))

def monthLength (year month : Int) : Int :=
  if month = 2 then if Leap year then 29 else 28
  else if month = 4 ∨ month = 6 ∨ month = 9 ∨ month = 11 then 30
  else 31

theorem monthLength_le (year month : Int) : 28 ≤ monthLength year month ∧ monthLength year month ≤ 31 := by
  unfold monthLength
  split
  · split <;> omega
  · split <;> omega

namespace Date

structure Valid (date : Date) : Prop where
  month : 1 ≤ date.month ∧ date.month ≤ 12
  day : 1 ≤ date.day ∧ date.day ≤ monthLength date.year date.month

/-- The next day, in the same month, the next month or the next year. -/
def next (date : Date) : Date :=
  if date.day < monthLength date.year date.month then { date with day := date.day + 1 }
  else if date.month < 12 then ⟨date.year, date.month + 1, 1⟩
  else ⟨date.year + 1, 1, 1⟩

def Before (a b : Date) : Prop :=
  a.year < b.year ∨ a.year = b.year ∧
    (a.month < b.month ∨ a.month = b.month ∧ a.day < b.day)

/-- The months in order, so that a month of a year is one number. -/
def monthIndex (date : Date) : Int := 12 * date.year + date.month - 1

/-- The year that begins in March. -/
def marchYear (date : Date) : Int := if date.month ≤ 2 then date.year - 1 else date.year

def marchMonth (date : Date) : Int := if date.month ≤ 2 then date.month + 9 else date.month - 3

/-- Days since 1970-01-01. The days before each month of a year that begins in March are a linear
function of the month, rounded down. -/
def dayNumber (date : Date) : Int :=
  365 * date.marchYear + date.marchYear / 4 - date.marchYear / 100 + date.marchYear / 400 +
    (153 * date.marchMonth + 2) / 5 + date.day - 1 - 719468

end Date

open Date

theorem dayNumber_day (year month day : Int) :
    dayNumber ⟨year, month, day⟩ = dayNumber ⟨year, month, 1⟩ + (day - 1) := by
  unfold dayNumber marchYear marchMonth
  dsimp only
  omega

/-- March is the first month, so that the leap day is the last day of a year. -/
theorem dayNumber_february (year : Int) :
    dayNumber ⟨year, 3, 1⟩ = dayNumber ⟨year, 2, 1⟩ + monthLength year 2 := by
  unfold dayNumber marchYear marchMonth monthLength
  simp only [if_true, show ¬ (3 : Int) ≤ 2 by decide, show (2 : Int) ≤ 2 by decide, if_false]
  split
  · rename_i hleap
    obtain ⟨hfour, hhundred⟩ := hleap
    omega
  · rename_i hcommon
    have hrest : year % 4 ≠ 0 ∨ year % 100 = 0 ∧ year % 400 ≠ 0 := by
      by_contra hnot
      exact hcommon ⟨by omega, by omega⟩
    omega

theorem dayNumber_month {year month : Int} (h : 1 ≤ month ∧ month ≤ 11) :
    dayNumber ⟨year, month + 1, 1⟩ = dayNumber ⟨year, month, 1⟩ + monthLength year month := by
  rcases eq_or_ne month 2 with rfl | hmonth
  · exact dayNumber_february year
  · obtain ⟨hlow, hhigh⟩ := h
    unfold dayNumber marchYear marchMonth monthLength
    interval_cases month <;> simp <;> omega

theorem dayNumber_december (year : Int) :
    dayNumber ⟨year + 1, 1, 1⟩ = dayNumber ⟨year, 12, 1⟩ + monthLength year 12 := by
  unfold dayNumber marchYear marchMonth monthLength
  simp
  omega

theorem dayNumber_next {date : Date} (h : date.Valid) : date.next.dayNumber = date.dayNumber + 1 := by
  obtain ⟨year, month, day⟩ := date
  obtain ⟨hmonth, hday⟩ := h
  dsimp only at hmonth hday
  unfold next
  dsimp only
  rw [dayNumber_day year month day]
  split
  · rw [dayNumber_day year month (day + 1)]
    omega
  · split
    · rw [dayNumber_month ⟨hmonth.1, by omega⟩]
      omega
    · obtain rfl : month = 12 := by omega
      rw [dayNumber_december]
      omega

theorem valid_next {date : Date} (h : date.Valid) : date.next.Valid := by
  obtain ⟨hmonth, hday⟩ := h
  unfold next
  split
  · exact ⟨hmonth, by dsimp only; omega⟩
  · split
    · have hlength := monthLength_le date.year (date.month + 1)
      exact ⟨by dsimp only; omega, by dsimp only; omega⟩
    · have hlength := monthLength_le (date.year + 1) 1
      exact ⟨by dsimp only; omega, by dsimp only; omega⟩

theorem marchYear_next {date : Date} (h : date.Valid) : date.marchYear ≤ date.next.marchYear := by
  have hmonth := h.month
  unfold next
  split
  · exact Int.le_refl _
  · split
    · unfold marchYear
      dsimp only
      split <;> split <;> omega
    · unfold marchYear
      dsimp only
      split <;> split <;> omega

/-- The first day of a month, from its number. -/
def monthStart (k : Int) : Int := dayNumber ⟨k / 12, k % 12 + 1, 1⟩

theorem monthStart_monthIndex {date : Date} (h : date.Valid) :
    monthStart date.monthIndex = dayNumber ⟨date.year, date.month, 1⟩ := by
  have hmonth := h.month
  have hyear : date.monthIndex / 12 = date.year := by
    unfold monthIndex
    omega
  have hrest : date.monthIndex % 12 + 1 = date.month := by
    unfold monthIndex
    omega
  rw [monthStart, hyear, hrest]

theorem monthStart_succ (k : Int) :
    monthStart (k + 1) = monthStart k + monthLength (k / 12) (k % 12 + 1) := by
  unfold monthStart
  rcases eq_or_ne (k % 12) 11 with hlast | hlast
  · have hyear : (k + 1) / 12 = k / 12 + 1 := by omega
    have hmonth : (k + 1) % 12 = 0 := by omega
    rw [hyear, hmonth, hlast]
    exact dayNumber_december (k / 12)
  · have hyear : (k + 1) / 12 = k / 12 := by omega
    have hmonth : (k + 1) % 12 = k % 12 + 1 := by omega
    rw [hyear, hmonth]
    exact dayNumber_month ⟨by omega, by omega⟩

theorem monthStart_le {a b : Int} (h : a ≤ b) : monthStart a ≤ monthStart b := by
  have hmono : StrictMono monthStart := strictMono_int_of_lt_succ fun k => by
    have hlength := monthLength_le (k / 12) (k % 12 + 1)
    rw [monthStart_succ]
    omega
  exact hmono.monotone h

theorem dayNumber_eq {date : Date} (h : date.Valid) :
    date.dayNumber = monthStart date.monthIndex + (date.day - 1) := by
  rw [monthStart_monthIndex h]
  exact dayNumber_day ..

theorem dayNumber_lt_succ {date : Date} (h : date.Valid) :
    date.dayNumber < monthStart (date.monthIndex + 1) := by
  have hday := h.day
  have hmonth := h.month
  have hyear : date.monthIndex / 12 = date.year := by
    unfold monthIndex
    omega
  have hrest : date.monthIndex % 12 + 1 = date.month := by
    unfold monthIndex
    omega
  rw [dayNumber_eq h, monthStart_succ, hyear, hrest]
  omega

theorem dayNumber_lt {a b : Date} (ha : a.Valid) (hb : b.Valid) (h : a.Before b) :
    a.dayNumber < b.dayNumber := by
  have hday := hb.day
  have hmonths := ha.month
  have hmonths' := hb.month
  rcases lt_trichotomy a.monthIndex b.monthIndex with hlt | heq | hgt
  · have hstart := monthStart_le (show a.monthIndex + 1 ≤ b.monthIndex by omega)
    have hbefore := dayNumber_lt_succ ha
    rw [dayNumber_eq hb]
    omega
  · rw [dayNumber_eq ha, dayNumber_eq hb, heq]
    unfold monthIndex at heq
    unfold Before at h
    omega
  · unfold monthIndex at hgt
    unfold Before at h
    omega

end SimPLCity.CivilCalendar
