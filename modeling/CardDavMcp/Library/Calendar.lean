import Mathlib.Data.Int.ConditionallyCompleteOrder
import Mathlib.Data.Prod.Lex
import Mathlib.Order.Monotone.Basic
import Mathlib.Tactic.IntervalCases

namespace CardDavMcp.Library.Calendar

/-- The leap years of the proleptic Gregorian calendar. -/
def isLeap (year : Int) : Bool := year % 4 = 0 ∧ (year % 100 ≠ 0 ∨ year % 400 = 0)

/-- The days of each month; the twelve months count from 1. -/
def daysInMonth (leap : Bool) : Nat → Nat
  | 1 | 3 | 5 | 7 | 8 | 10 | 12 => 31
  | 4 | 6 | 9 | 11 => 30
  | 2 => if leap then 29 else 28
  | _ => 0

def ValidDate (year : Int) (month day : Nat) : Prop :=
  1 ≤ day ∧ day ≤ daysInMonth (isLeap year) month

instance (year : Int) (month day : Nat) : Decidable (ValidDate year month day) :=
  inferInstanceAs (Decidable (_ ∧ _))

theorem daysInMonth_pos (leap : Bool) {month : Nat} (h : 1 ≤ month) (h' : month ≤ 12) :
    1 ≤ daysInMonth leap month := by
  interval_cases month <;> cases leap <;> decide

/-- Only 29 February depends on the year. -/
theorem ValidDate.in_year {year : Int} {month day : Nat} (h : ValidDate year month day)
    (year' : Int) :
    ValidDate year' month day ∨ month = 2 ∧ day = 29 ∧ isLeap year' = false := by
  obtain ⟨hpos, hday⟩ := h
  by_cases hmonth : month = 2
  · subst hmonth
    have hle : day ≤ 29 := hday.trans (by cases isLeap year <;> decide)
    cases hleap : isLeap year' with
    | false =>
      by_cases hlast : day = 29
      · exact .inr ⟨rfl, hlast, rfl⟩
      · refine .inl ⟨hpos, ?_⟩
        have hcommon : daysInMonth (isLeap year') 2 = 28 := by rw [hleap]; rfl
        omega
    | true =>
      refine .inl ⟨hpos, ?_⟩
      rw [hleap]
      exact hle
  · refine .inl ⟨hpos, hday.trans_eq ?_⟩
    rw [daysInMonth.eq_def, daysInMonth.eq_def]
    split <;> first | rfl | exact absurd rfl hmonth

theorem not_leapDay {year : Int} (h : isLeap year = false) : ¬ ValidDate year 2 29 := by
  rintro ⟨-, hday⟩
  rw [h] at hday
  exact absurd hday (by decide)

@[ext]
structure Date where
  year : Int
  month : Nat
  day : Nat
  valid : ValidDate year month day
deriving DecidableEq, Repr

theorem ValidDate.month {year : Int} {month day : Nat} (h : ValidDate year month day) :
    1 ≤ month ∧ month ≤ 12 := by
  obtain ⟨hpos, hday⟩ := h
  by_contra hmonth
  have hnone : daysInMonth (isLeap year) month = 0 := by
    rw [daysInMonth.eq_def]
    split <;> omega
  omega

def Date.fields (d : Date) : Int ×ₗ Nat ×ₗ Nat := toLex (d.year, toLex (d.month, d.day))

theorem fields_injective : Function.Injective Date.fields := by
  intro d e h
  simp only [Date.fields, EmbeddingLike.apply_eq_iff_eq, Prod.mk.injEq] at h
  exact Date.ext h.1 h.2.1 h.2.2

/-- Dates are ordered by year, then month, then day. -/
instance : LinearOrder Date := LinearOrder.lift' Date.fields fields_injective

theorem lt_iff {d e : Date} : d < e ↔ d.year < e.year ∨
    d.year = e.year ∧ (d.month < e.month ∨ d.month = e.month ∧ d.day < e.day) :=
  Prod.Lex.toLex_lt_toLex.trans (or_congr Iff.rfl (and_congr Iff.rfl Prod.Lex.toLex_lt_toLex))

theorem lt_of_year_lt {d e : Date} (h : d.year < e.year) : d < e := lt_iff.mpr (.inl h)

theorem year_le {d e : Date} (h : d ≤ e) : d.year ≤ e.year :=
  not_lt.mp fun hlt => not_lt_of_ge h (lt_of_year_lt hlt)

def daysBeforeMonth (leap : Bool) : Nat → Nat
  | 0 => 0
  | month + 1 => daysBeforeMonth leap month + daysInMonth leap month

def daysBeforeYear (year : Int) : Int :=
  365 * (year - 1) + (year - 1) / 4 - (year - 1) / 100 + (year - 1) / 400

def dayOfYear (leap : Bool) (month day : Nat) : Nat := daysBeforeMonth leap month + day

/-- The days from 31 December of the year 0 to a date. -/
def Date.number (d : Date) : Int := daysBeforeYear d.year + dayOfYear (isLeap d.year) d.month d.day

def yearLength (leap : Bool) : Nat := if leap then 366 else 365

theorem daysBeforeYear_succ (year : Int) :
    daysBeforeYear (year + 1) = daysBeforeYear year + yearLength (isLeap year) := by
  by_cases h : year % 4 = 0 ∧ (year % 100 ≠ 0 ∨ year % 400 = 0)
  · have hlength : yearLength (isLeap year) = 366 := if_pos (decide_eq_true h)
    rw [hlength, daysBeforeYear, daysBeforeYear]
    omega
  · have hlength : yearLength (isLeap year) = 365 := if_neg (by simpa [isLeap] using h)
    rw [hlength, daysBeforeYear, daysBeforeYear]
    omega

theorem daysBeforeYear_le {year year' : Int} (h : year ≤ year') :
    daysBeforeYear year ≤ daysBeforeYear year' := by
  rw [daysBeforeYear, daysBeforeYear]
  omega

theorem daysBeforeMonth_le (leap : Bool) {month month' : Nat} (h : month < month') :
    daysBeforeMonth leap month + daysInMonth leap month ≤ daysBeforeMonth leap month' := by
  induction month', h using Nat.le_induction with
  | base => exact Nat.le_refl _
  | succ n _ ih => exact ih.trans (Nat.le_add_right ..)

theorem daysBeforeMonth_thirteen (leap : Bool) : daysBeforeMonth leap 13 = yearLength leap := by
  cases leap <;> rfl

/-- A leap year delays the days after February by one. -/
theorem dayOfYear_leap {month day : Nat} : dayOfYear true month day =
    dayOfYear false month day + if 2 < month then 1 else 0 := by
  have hmonths : daysBeforeMonth true month =
      daysBeforeMonth false month + if 2 < month then 1 else 0 := by
    induction month with
    | zero => rfl
    | succ n ih =>
      rw [daysBeforeMonth, daysBeforeMonth, ih]
      obtain hlt | rfl | hgt := Nat.lt_trichotomy n 2
      · interval_cases n <;> rfl
      · rfl
      · have hsame : daysInMonth true n = daysInMonth false n := by
          rw [daysInMonth.eq_def, daysInMonth.eq_def]
          split <;> first | rfl | omega
        rw [hsame, if_pos hgt, if_pos (hgt.trans (Nat.lt_succ_self n))]
        omega
  rw [dayOfYear, dayOfYear, hmonths]
  omega

theorem Date.dayOfYear_le (d : Date) :
    1 ≤ dayOfYear (isLeap d.year) d.month d.day ∧
      dayOfYear (isLeap d.year) d.month d.day ≤ yearLength (isLeap d.year) := by
  obtain ⟨hpos, hday⟩ := d.valid
  have hmonth := daysBeforeMonth_le (isLeap d.year) (Nat.lt_succ_of_le d.valid.month.2)
  rw [daysBeforeMonth_thirteen] at hmonth
  rw [dayOfYear]
  omega

/-- Dates are numbered in their order. -/
theorem number_strictMono : StrictMono Date.number := by
  intro d e h
  have hd := d.dayOfYear_le
  have he := e.dayOfYear_le
  rw [Date.number, Date.number]
  obtain hyear | ⟨hyear, hlex⟩ := lt_iff.mp h
  · have hle := daysBeforeYear_le (Int.add_one_le_of_lt hyear)
    rw [daysBeforeYear_succ] at hle
    omega
  rw [hyear, dayOfYear, dayOfYear]
  obtain hmonth | ⟨hmonth, hday⟩ := hlex
  · have hle := daysBeforeMonth_le (isLeap e.year) hmonth
    have hday := d.valid.2
    have hpos := e.valid.1
    rw [hyear] at hday
    omega
  · rw [hmonth]
    omega

theorem number_le {d e : Date} : d.number ≤ e.number ↔ d ≤ e := number_strictMono.le_iff_le

theorem number_lt {d e : Date} : d.number < e.number ↔ d < e := number_strictMono.lt_iff_lt

theorem number_injective : Function.Injective Date.number := number_strictMono.injective

/-- The day after a date. -/
def Date.next (d : Date) : Date :=
  if hday : d.day + 1 ≤ daysInMonth (isLeap d.year) d.month then
    ⟨d.year, d.month, d.day + 1, Nat.le_add_left .., hday⟩
  else if hmonth : d.month < 12 then
    ⟨d.year, d.month + 1, 1, Nat.le_refl _, daysInMonth_pos _ (Nat.le_add_left ..) hmonth⟩
  else ⟨d.year + 1, 1, 1, Nat.le_refl _, daysInMonth_pos _ (Nat.le_refl _) (by decide)⟩

theorem number_next (d : Date) : d.next.number = d.number + 1 := by
  have hvalid := d.valid
  rw [Date.next]
  split_ifs with hday hmonth
  · simp only [Date.number, dayOfYear]
    omega
  · have hlast : d.day = daysInMonth (isLeap d.year) d.month := by
      have := hvalid.2
      omega
    simp only [Date.number, dayOfYear, daysBeforeMonth]
    omega
  · have hlast : d.day = daysInMonth (isLeap d.year) d.month := by
      have := hvalid.2
      omega
    have hdec : d.month = 12 := by
      have := hvalid.month.2
      omega
    have hyear := daysBeforeMonth_thirteen (isLeap d.year)
    rw [daysBeforeMonth] at hyear
    rw [hdec] at hlast
    simp only [Date.number, dayOfYear, hdec, hlast, daysBeforeYear_succ]
    have hone : daysBeforeMonth (isLeap (d.year + 1)) 1 = 0 := rfl
    omega

/-- The date some days after another. -/
def Date.plus (d : Date) (days : Nat) : Date := Date.next^[days] d

theorem number_plus (d : Date) (days : Nat) : (d.plus days).number = d.number + days := by
  induction days generalizing d with
  | zero => exact (Int.add_zero _).symm
  | succ n ih =>
    have hplus : d.plus (n + 1) = d.next.plus n := rfl
    rw [hplus, ih, number_next]
    omega

theorem plus_eq_iff {d e : Date} {days : Nat} : d.plus days = e ↔ e.number = d.number + days := by
  rw [← number_plus, eq_comm]
  exact number_injective.eq_iff.symm

end CardDavMcp.Library.Calendar
