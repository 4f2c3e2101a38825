/-
# Dates of days

A day is counted within its era of 400 years, which starts on a first of March: by its century, its
span of four years, its year and its day in the year (`EraDay`).  Leap days are then the last ones
of their years, and the divisions that find the year of a day take them out one after the other.
So every count of days has a date in the calendar, and the date has this count
(`Date.days_ofDays`).
-/
import Mathlib.Tactic.IntervalCases
import VectorQuery.Instant

namespace VectorQuery.Instant

/-! ## Days of an era -/

/-- A day of an era.  Only the last year of a span has a day more, and in the last span of a century
only the last century has it. -/
structure EraDay where
  century : Nat
  span : Nat
  year : Nat
  day : Nat
  century_le : century ≤ 3
  span_le : span ≤ 24
  year_le : year ≤ 3
  day_le : day ≤ 365
  leap : day = 365 → year = 3 ∧ (span = 24 → century = 3)

/-- Only the last day of an era seems to begin a fifth century. -/
theorem century_of_day {c r : Nat} (hc : c ≤ 3) (hr : r ≤ 36524) (hlast : r = 36524 → c = 3) :
    (36524 * c + r) / 36524 = (36524 * c + r) / 146096 + c := by
  rcases Nat.lt_or_eq_of_le hr with hr | rfl
  · have hera : (36524 * c + r) / 146096 = 0 := Nat.div_eq_of_lt (by omega)
    have hcentury : r / 36524 = 0 := Nat.div_eq_of_lt hr
    rw [hera, Nat.mul_add_div (by decide), hcentury]
    omega
  · rw [hlast rfl]

theorem spans_of_day (c k s : Nat) :
    (36524 * c + (1461 * k + s)) / 1460 = 25 * c + k + (24 * c + k + s) / 1460 := by
  have hsplit : 36524 * c + (1461 * k + s) = 1460 * (25 * c + k) + (24 * c + k + s) := by omega
  rw [hsplit, Nat.mul_add_div (by decide)]

/-- A leap day taken out, the days of a span fall into its years. -/
theorem year_of_day {a j day : Nat} (ha : a ≤ 96) (hj : j ≤ 3) (hd : day ≤ 365)
    (hleap : day = 365 → j = 3) :
    (a + (365 * j + day)) / 1460 ≤ 365 * j + day ∧
      (365 * j + day - (a + (365 * j + day)) / 1460) / 365 = j := by
  rcases Nat.lt_or_ge (a + (365 * j + day)) 1460 with hlt | hge
  · have hday : day ≠ 365 := by
      intro heq
      have := hleap heq
      omega
    rw [Nat.div_eq_of_lt hlt]
    omega
  · have hone : (a + (365 * j + day)) / 1460 = 1 := by omega
    rw [hone]
    omega

namespace EraDay

/-- How many days of the era come before. -/
def number (d : EraDay) : Nat :=
  36524 * d.century + (1461 * d.span + (365 * d.year + d.day))

/-- How many years of the era come before. -/
def yearOfEra (d : EraDay) : Nat := 100 * d.century + 4 * d.span + d.year

theorem exists_number {n : Nat} (h : n < 146097) : ∃ d : EraDay, d.number = n := by
  obtain ⟨c, r, hc, hr, hcr, rfl⟩ : ∃ c r, c ≤ 3 ∧ r ≤ 36524 ∧ (r = 36524 → c = 3) ∧
      n = 36524 * c + r :=
    ⟨min (n / 36524) 3, n - 36524 * min (n / 36524) 3, by omega, by omega, by omega, by omega⟩
  obtain ⟨k, s, hk, hs, rfl⟩ : ∃ k s, k ≤ 24 ∧ s ≤ 1460 ∧ r = 1461 * k + s :=
    ⟨r / 1461, r % 1461, by omega, by omega, by omega⟩
  obtain ⟨j, day, hj, hd, hjd, rfl⟩ : ∃ j day, j ≤ 3 ∧ day ≤ 365 ∧ (day = 365 → j = 3) ∧
      s = 365 * j + day :=
    ⟨min (s / 365) 3, s - 365 * min (s / 365) 3, by omega, by omega, by omega, by omega⟩
  exact ⟨⟨c, k, j, day, hc, hk, hj, hd, fun heq => ⟨hjd heq, by omega⟩⟩, rfl⟩

variable (d : EraDay)

theorem yearOfEra_lt : d.yearOfEra < 400 := by
  obtain ⟨c, k, j, day, hc, hk, hj, -, -⟩ := d
  change 100 * c + 4 * k + j < 400
  omega

/-- The year of a day, from the number of the day. -/
theorem yearOfEra_eq :
    (d.number - d.number / 1460 + d.number / 36524 - d.number / 146096) / 365 = d.yearOfEra := by
  obtain ⟨c, k, j, day, hc, hk, hj, hd, hleap⟩ := d
  have hcentury := century_of_day (r := 1461 * k + (365 * j + day)) hc (by omega) (by omega)
  have hspan := spans_of_day c k (365 * j + day)
  obtain ⟨hle, hyear⟩ := year_of_day (a := 24 * c + k) (by omega) hj hd fun heq => (hleap heq).1
  simp only [number, yearOfEra]
  generalize (36524 * c + (1461 * k + (365 * j + day))) / 146096 = spare at *
  generalize (24 * c + k + (365 * j + day)) / 1460 = extra at *
  have hsum : 36524 * c + (1461 * k + (365 * j + day)) - (25 * c + k + extra) + (spare + c) -
      spare = 365 * (100 * c + 4 * k) + (365 * j + day - extra) := by omega
  rw [hcentury, hspan, hsum, Nat.mul_add_div (by decide), hyear]

/-- The days of the years before, with a day more for each leap year. -/
theorem number_eq :
    d.number = 365 * d.yearOfEra + d.yearOfEra / 4 - d.yearOfEra / 100 + d.day := by
  obtain ⟨c, k, j, day, hc, hk, hj, -, -⟩ := d
  simp only [number, yearOfEra]
  omega

/-- A year with a day more ends in a leap year of the calendar. -/
theorem isLeap_of_day (h : d.day = 365) (era : Int) :
    isLeap (d.yearOfEra + era * 400 + 1) = true := by
  obtain ⟨hyear, hlast⟩ := d.leap h
  have hc := d.century_le
  have hk := d.span_le
  have hfour : (d.yearOfEra + era * 400 + 1 : Int) % 4 = 0 := by
    rw [yearOfEra, hyear]
    omega
  have hhundred : (d.yearOfEra + era * 400 + 1 : Int) % 100 ≠ 0 ∨
      (d.yearOfEra + era * 400 + 1 : Int) % 400 = 0 := by
    rw [yearOfEra, hyear]
    omega
  have hmod (a b : Int) : a.emod b = a % b := rfl
  simp only [isLeap, hmod, hfour, decide_true, Bool.true_and, Bool.or_eq_true, decide_eq_true_iff]
  exact hhundred

end EraDay

/-! ## Months -/

/-- How many days a month has, months counted from March and the last one in a leap year. -/
def monthLength (month : Nat) : Nat :=
  if month = 11 then 29 else if month = 1 ∨ month = 3 ∨ month = 6 ∨ month = 8 then 30 else 31

/-- The month of a day of a year that starts in March. -/
theorem month_of_day {day month : Nat} (h : day ≤ 365) (hm : month = (5 * day + 2) / 153) :
    month ≤ 11 ∧ (153 * month + 2) / 5 ≤ day ∧
      day < (153 * month + 2) / 5 + monthLength month ∧
      (month = 11 → day < 365 → day < (153 * month + 2) / 5 + 28) := by
  have hle : month ≤ 11 := by omega
  refine ⟨hle, by omega, ?_, by omega⟩
  interval_cases month <;> simp [monthLength] <;> omega

/-- The calendar's number of a month counted from March. -/
def calendarMonth (month : Nat) : Nat := if month < 10 then month + 3 else month - 9

theorem monthDays_calendarMonth {month : Nat} (h : month ≤ 11) (year : Int) :
    monthDays year (calendarMonth month) =
      if month = 11 then if isLeap year then 29 else 28 else monthLength month := by
  interval_cases month <;> rfl

/-! ## Dates -/

/-- The date is one of the calendar. -/
structure Date.IsDate (d : Date) : Prop where
  month_pos : 1 ≤ d.month
  month_le : d.month ≤ 12
  day_pos : 1 ≤ d.day
  day_le : d.day ≤ monthDays d.year d.month

/-- The date of a day, by the day's place in its era. -/
theorem Date.exists_ofDays (n : Int) :
    ∃ (d : EraDay) (era : Int) (month : Nat), n + 719468 = era * 146097 + d.number ∧
      month = (5 * d.day + 2) / 153 ∧
      Date.ofDays n =
        ⟨if calendarMonth month ≤ 2 then d.yearOfEra + era * 400 + 1 else d.yearOfEra + era * 400,
          calendarMonth month, d.day - (153 * month + 2) / 5 + 1⟩ := by
  have hera := Int.fdiv_eq_ediv_of_nonneg (n + 719468) (b := 146097) (by decide)
  obtain ⟨d, hd⟩ := EraDay.exists_number
    (n := ((n + 719468) - (n + 719468).fdiv 146097 * 146097).toNat) (by omega)
  refine ⟨d, (n + 719468).fdiv 146097, _, by omega, rfl, ?_⟩
  have hday : d.number - (365 * d.yearOfEra + d.yearOfEra / 4 - d.yearOfEra / 100) = d.day := by
    have := d.number_eq
    omega
  unfold Date.ofDays
  simp only [← hd, d.yearOfEra_eq, hday]
  rfl

theorem Date.isDate_ofDays (n : Int) : (Date.ofDays n).IsDate := by
  obtain ⟨d, era, month, -, hm, hdate⟩ := Date.exists_ofDays n
  obtain ⟨hle, hstart, hlength, hshort⟩ := month_of_day d.day_le hm
  rw [hdate]
  refine ⟨?_, ?_, Nat.le_add_left _ _, ?_⟩
  · dsimp only [calendarMonth]
    split <;> omega
  · dsimp only [calendarMonth]
    split <;> omega
  · dsimp only
    rw [monthDays_calendarMonth hle]
    by_cases hlast : month = 11
    · -- the year that February belongs to is the next one
      have hfebruary : calendarMonth month ≤ 2 := by rw [hlast]; decide
      rw [if_pos hfebruary, if_pos hlast]
      rcases Nat.lt_or_eq_of_le d.day_le with hlt | heq
      · have := hshort hlast hlt
        split <;> omega
      · rw [d.isLeap_of_day heq era, if_pos rfl]
        rw [hlast] at hlength ⊢
        change _ < _ + 29 at hlength
        omega
    · rw [if_neg hlast]
      omega

/-- The date of a day counts as that day. -/
theorem Date.days_ofDays (n : Int) : (Date.ofDays n).days = n := by
  obtain ⟨d, era, month, hn, hm, hdate⟩ := Date.exists_ofDays n
  obtain ⟨hle, hstart, -, -⟩ := month_of_day d.day_le hm
  have hnumber := d.number_eq
  have hyear := d.yearOfEra_lt
  have hmonth : (calendarMonth month + 9) % 12 = month := by
    unfold calendarMonth
    split <;> omega
  have hshift : (if calendarMonth month ≤ 2 then
        (if calendarMonth month ≤ 2 then (d.yearOfEra + era * 400 + 1 : Int)
          else d.yearOfEra + era * 400) - 1
      else if calendarMonth month ≤ 2 then d.yearOfEra + era * 400 + 1
        else d.yearOfEra + era * 400) = d.yearOfEra + era * 400 := by
    split
    · exact Int.add_sub_cancel _ _
    · rfl
  have hera : (d.yearOfEra + era * 400 : Int).fdiv 400 = era := by
    rw [Int.fdiv_eq_ediv_of_nonneg _ (by decide)]
    omega
  rw [hdate]
  unfold Date.days
  simp only [hmonth, hshift, hera]
  omega

end VectorQuery.Instant
