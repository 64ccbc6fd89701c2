/-!
# Dates

Days of the proleptic Gregorian calendar, in the years from -262143 to 262142. A date is a year, a
month and a day; days are counted from 1970-01-01 (day 0).

* `Date.dayNumber` — the number of a date
* `Date.ofDayNumber?` — the date of a number
* `Date.weekday`, `Date.isoWeek`, `Date.weekOfYear` — weeks, counted in three ways
-/

namespace Clauses

/-! ## Years and months -/

namespace Calendar

/-- The year has a 29th of February. -/
def isLeap (year : Int) : Bool := year % 4 == 0 && (year % 100 != 0 || year % 400 == 0)

/-- Length of a year in days. -/
def yearLength (year : Int) : Nat := if isLeap year then 366 else 365

/-- Length of the months in days, January first. -/
def monthLengths (year : Int) : List Nat :=
  [31, if isLeap year then 29 else 28, 31, 30, 31, 30, 31, 31, 30, 31, 30, 31]

/-- Length of a month in days; zero if there is no such month. -/
def monthLength (year : Int) (month : Nat) : Nat :=
  if month = 0 then 0 else (monthLengths year).getD (month - 1) 0

/-- Days of the year before a month. -/
def daysBeforeMonth (year : Int) (month : Nat) : Nat :=
  ((monthLengths year).take (month - 1)).foldl Nat.add 0

/-- Days from the start of year 1 to the start of a year. -/
def daysBeforeYear (year : Int) : Int :=
  let y := year - 1
  365 * y + y / 4 - y / 100 + y / 400

/-- Days from the start of year 1 to 1970-01-01. -/
def epochDay : Int := 719162

/-- The first and the last year. -/
def minYear : Int := -262143

@[inherit_doc minYear]
def maxYear : Int := 262142

/-! ## Finding year and month -/

/--
Days from the start of a cycle of 400 years to the start of its year `y`, which counts from 0.
-/
def daysBeforeCycleYear (y : Nat) : Nat := 365 * y + y / 4 - y / 100

/-- The year of a cycle of 400 years that holds a day of it, and the day of that year from 0. -/
def cycleYear (day : Nat) : Nat × Nat :=
  let y := min (day / 365) 399
  if daysBeforeCycleYear y ≤ day then (y, day - daysBeforeCycleYear y)
  else (y - 1, day - daysBeforeCycleYear (y - 1))

/-- The year of a day, counted from the start of year 1, and the day of that year from 0. -/
def yearOfDay (day : Int) : Int × Nat :=
  let (y, ordinal) := cycleYear (day % 146097).toNat
  (400 * (day / 146097) + y + 1, ordinal)

/-- The month of a day, counted from 0, among months of these lengths, and the day of that month
from 0. The first of them has the number `month`. -/
def monthOfDay (month day : Nat) : List Nat → Nat × Nat
  | [] => (month, day)
  | length :: rest => if day < length then (month, day)
    else monthOfDay (month + 1) (day - length) rest

end Calendar

open Calendar

/-! ## Dates -/

/-- The parts name a day. -/
def Date.Valid (year : Int) (month day : Nat) : Prop :=
  minYear ≤ year ∧ year ≤ maxYear ∧ 1 ≤ day ∧ day ≤ monthLength year month

instance (year : Int) (month day : Nat) : Decidable (Date.Valid year month day) :=
  inferInstanceAs (Decidable (_ ∧ _ ∧ _ ∧ _))

/-- A day of the calendar. -/
structure Date where
  year : Int
  month : Nat
  day : Nat
  valid : Date.Valid year month day
deriving DecidableEq

namespace Date

/-- The date with these parts, if there is one. -/
def ofParts? (year : Int) (month day : Nat) : Option Date :=
  if h : Valid year month day then some ⟨year, month, day, h⟩ else none

/-- The first day of the epoch. -/
def epoch : Date := ⟨1970, 1, 1, by decide⟩

/-- The day of the year, from 1. -/
def ordinal (d : Date) : Nat := daysBeforeMonth d.year d.month + d.day

/-- The date of a day of the year, from 1. -/
def ofOrdinal? (year : Int) (ordinal : Nat) : Option Date :=
  if ordinal = 0 then none
  else
    let (month, day) := monthOfDay 1 (ordinal - 1) (monthLengths year)
    ofParts? year month (day + 1)

/-- The number of a date; days before the epoch are negative. -/
def dayNumber (d : Date) : Int := daysBeforeYear d.year + d.ordinal - 1 - epochDay

/-- The date of a number. -/
def ofDayNumber? (n : Int) : Option Date :=
  let (year, day) := yearOfDay (n + epochDay)
  ofOrdinal? year (day + 1)

/-! ## Weeks -/

/-- The day of the week of a day number: Monday is 0. -/
def weekdayOfNumber (n : Int) : Nat := ((n + 3) % 7).toNat

/-- The day of the week: Monday is 0. -/
def weekday (d : Date) : Nat := weekdayOfNumber d.dayNumber

/-- The week of the year, where week 1 starts with the first day of the week `start`. -/
def weekOfYear (d : Date) (start : Nat) : Nat := (d.ordinal + 6 - (d.weekday + 7 - start) % 7) / 7

/-- Year and week of a date, where a week belongs to the year of its Thursday. -/
def isoWeek (d : Date) : Int × Nat :=
  let thursday := d.dayNumber - d.weekday + 3
  let (year, day) := yearOfDay (thursday + epochDay)
  (year, day / 7 + 1)

/-- Number of weeks of a year, counted so. -/
def isoWeeks (year : Int) : Nat :=
  let newYear := weekdayOfNumber (daysBeforeYear year - epochDay)
  if newYear = 3 || newYear = 2 && isLeap year then 53 else 52

/-- The day of a week, where a week belongs to the year of its Thursday. -/
def ofIsoWeek? (year : Int) (week weekday : Nat) : Option Date :=
  if week = 0 || isoWeeks year < week then none
  else
    let fourth := daysBeforeYear year + 3 - epochDay
    ofDayNumber? (fourth - weekdayOfNumber fourth + 7 * (week - 1) + weekday)

/-- The quarter of the year, from 1. -/
def quarter (d : Date) : Nat := (d.month - 1) / 3 + 1

end Date

end Clauses
