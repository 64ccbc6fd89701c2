import Clauses.Calendar.Instant
import Mathlib.Algebra.Ring.Nat

/-!
# Days are counted

The number of a date is made of whole years, whole months and days, and the date is found from it
again. The year comes first: years repeat in cycles of 400, and in a cycle a year is guessed from
its days as if none had a 29th of February. The guess is right or one too great. Then the month is
found in the table of the year.

* `Calendar.yearOfDay_eq` — the year of a day, and the day of the year
* `Date.ofOrdinal?_ordinal` — a date is found from the day of its year
* `Date.ofDayNumber?_dayNumber` — and from its number
* `Instant.ofEpoch?_epochSeconds`, `Instant.ofEpoch?_self` — an instant is found from its
  seconds and its nanoseconds
-/

namespace Clauses

namespace Calendar

/-! ## Years -/

theorem isLeap_iff {year : Int} :
    isLeap year = true ↔ year % 4 = 0 ∧ (year % 100 ≠ 0 ∨ year % 400 = 0) := by
  simp [isLeap]

/-- A year has 366 days or 365, in a form for linear arithmetic. -/
theorem yearLength_cases (year : Int) :
    (year % 4 = 0 ∧ (year % 100 ≠ 0 ∨ year % 400 = 0)) ∧ yearLength year = 366 ∨
      ¬(year % 4 = 0 ∧ (year % 100 ≠ 0 ∨ year % 400 = 0)) ∧ yearLength year = 365 := by
  rw [← isLeap_iff, yearLength]
  cases isLeap year <;> simp

/-- The years of all cycles are alike. -/
theorem yearLength_cycle (cycle year : Int) :
    yearLength (400 * cycle + year) = yearLength year := by
  have h := yearLength_cases (400 * cycle + year)
  have h' := yearLength_cases year
  omega

theorem daysBeforeYear_cycle (cycle : Int) {y : Nat} (hy : y < 400) :
    daysBeforeYear (400 * cycle + y + 1) = 146097 * cycle + daysBeforeCycleYear y := by
  dsimp only [daysBeforeYear, daysBeforeCycleYear]
  omega

theorem daysBeforeCycleYear_succ {y : Nat} (hy : y + 1 < 400) :
    daysBeforeCycleYear (y + 1) = daysBeforeCycleYear y + yearLength (y + 1) := by
  have h := yearLength_cases (y + 1)
  unfold daysBeforeCycleYear
  omega

variable {y day : Nat}

/-- The year is guessed right or one too great. -/
theorem cycleYear_eq (hy : y < 400) (hday : day < yearLength (y + 1)) :
    cycleYear (daysBeforeCycleYear y + day) = (y, day) := by
  have hlength := yearLength_cases (y + 1)
  -- no more than 97 leap days are counted, fewer than a year has days: the guess is off by one at
  -- most
  have hguess : min ((daysBeforeCycleYear y + day) / 365) 399 = y ∨
      y + 1 < 400 ∧ min ((daysBeforeCycleYear y + day) / 365) 399 = y + 1 := by
    unfold daysBeforeCycleYear
    omega
  rcases hguess with hguess | ⟨hlt, hguess⟩
  · rw [cycleYear, hguess, if_pos (Nat.le_add_right _ _), Nat.add_sub_cancel_left]
  · have hsucc := daysBeforeCycleYear_succ hlt
    rw [cycleYear, hguess, if_neg (by omega), Nat.add_sub_cancel, Nat.add_sub_cancel_left]

/-- The days of a cycle are those before its last year and those of it. -/
theorem day_lt_cycle (hy : y < 400) (hday : day < yearLength (y + 1)) :
    daysBeforeCycleYear y + day < 146097 := by
  have hlength := yearLength_cases (y + 1)
  unfold daysBeforeCycleYear
  omega

/-- The year of a day is found, and the day of the year. -/
theorem yearOfDay_eq (year : Int) (hday : day < yearLength year) :
    yearOfDay (daysBeforeYear year + day) = (year, day) := by
  obtain ⟨cycle, y, hy, rfl⟩ : ∃ (cycle : Int) (y : Nat), y < 400 ∧ year = 400 * cycle + y + 1 :=
    ⟨(year - 1) / 400, ((year - 1) % 400).toNat, by omega, by omega⟩
  rw [Int.add_assoc, yearLength_cycle] at hday
  have hlast := day_lt_cycle hy hday
  have hday' : ((146097 * cycle + daysBeforeCycleYear y + day) % 146097).toNat
      = daysBeforeCycleYear y + day := by omega
  have hcycle : (146097 * cycle + daysBeforeCycleYear y + day) / 146097 = cycle := by omega
  rw [daysBeforeYear_cycle cycle hy, yearOfDay, hday', hcycle, cycleYear_eq hy hday]

/-! ## Months -/

theorem daysBeforeMonth_eq (year : Int) (month : Nat) :
    daysBeforeMonth year month = ((monthLengths year).take (month - 1)).sum :=
  List.sum_eq_foldl.symm

theorem sum_monthLengths (year : Int) : (monthLengths year).sum = yearLength year := by
  unfold monthLengths yearLength
  cases isLeap year <;> rfl

/-- The months before one of them and it are no longer than all together. -/
theorem sum_take_add_getD_le (lengths : List Nat) (i : Nat) :
    (lengths.take i).sum + lengths.getD i 0 ≤ lengths.sum := by
  induction lengths generalizing i with
  | nil => simp
  | cons length rest ih =>
    cases i with
    | zero =>
      rw [List.take_zero, List.sum_nil, List.getD_cons_zero, List.sum_cons]
      omega
    | succ i =>
      have hrest := ih i
      rw [List.take_succ_cons, List.sum_cons, List.getD_cons_succ, List.sum_cons]
      omega

/-- The month of a day is found, and the day of the month. -/
theorem monthOfDay_eq (first : Nat) {lengths : List Nat} {i : Nat} (hday : day < lengths.getD i 0) :
    monthOfDay first ((lengths.take i).sum + day) lengths = (first + i, day) := by
  induction lengths generalizing first i with
  | nil => cases i <;> simp at hday
  | cons length rest ih =>
    cases i with
    | zero =>
      rw [List.getD_cons_zero] at hday
      rw [List.take_zero, List.sum_nil, Nat.zero_add, monthOfDay, if_pos hday, Nat.add_zero]
    | succ i =>
      rw [List.getD_cons_succ] at hday
      rw [List.take_succ_cons, List.sum_cons, monthOfDay, if_neg (by omega), Nat.add_assoc,
        Nat.add_sub_cancel_left, ih (first + 1) hday, Nat.add_right_comm, Nat.add_assoc]

end Calendar

open Calendar

/-! ## Dates -/

namespace Date

variable (d : Date)

theorem ofParts?_self : ofParts? d.year d.month d.day = some d := dif_pos d.valid

theorem month_pos : 1 ≤ d.month := by
  obtain ⟨-, -, hpos, hle⟩ := d.valid
  refine Nat.one_le_iff_ne_zero.mpr fun hzero => ?_
  rw [monthLength, if_pos hzero] at hle
  omega

/-- The day is one of its month, in the table of the year. -/
theorem day_le : d.day ≤ (monthLengths d.year).getD (d.month - 1) 0 := by
  have hle := d.valid.2.2.2
  rwa [monthLength, if_neg (Nat.one_le_iff_ne_zero.mp d.month_pos)] at hle

theorem month_le : d.month ≤ 12 := by
  have hpos := d.valid.2.2.1
  refine Nat.le_of_not_lt fun hlt => ?_
  have hday := d.day_le
  rw [List.getD_eq_getElem?_getD, List.getElem?_eq_none (show 12 ≤ d.month - 1 by omega),
    Option.getD_none] at hday
  omega

theorem day_le_thirtyOne : d.day ≤ 31 := by
  have hall : ∀ (leap : Bool), ∀ i < 12,
      [31, if leap then 29 else 28, 31, 30, 31, 30, 31, 31, 30, 31, 30, 31].getD i 0 ≤ 31 := by
    decide
  have hpos := d.month_pos
  have hle := d.month_le
  exact Nat.le_trans d.day_le (hall (isLeap d.year) _ (by omega))

theorem ordinal_pos : 1 ≤ d.ordinal := Nat.le_add_left_of_le d.valid.2.2.1

theorem ordinal_le : d.ordinal ≤ yearLength d.year := by
  have hle := sum_take_add_getD_le (monthLengths d.year) (d.month - 1)
  have hday := d.day_le
  rw [sum_monthLengths] at hle
  rw [ordinal, daysBeforeMonth_eq]
  omega

/-- A date is found from its year and the day of the year. -/
theorem ofOrdinal?_ordinal : ofOrdinal? d.year d.ordinal = some d := by
  have hpos := d.valid.2.2.1
  have hday : d.day - 1 < (monthLengths d.year).getD (d.month - 1) 0 := by
    have := d.day_le
    omega
  have hordinal : d.ordinal - 1 = ((monthLengths d.year).take (d.month - 1)).sum + (d.day - 1) := by
    rw [ordinal, daysBeforeMonth_eq, Nat.add_sub_assoc hpos]
  rw [ofOrdinal?, if_neg (Nat.one_le_iff_ne_zero.mp d.ordinal_pos), hordinal, monthOfDay_eq 1 hday,
    Nat.add_sub_of_le d.month_pos]
  dsimp only
  rw [Nat.sub_add_cancel hpos, ofParts?_self]

/-- A date is found from its number. -/
theorem ofDayNumber?_dayNumber : ofDayNumber? d.dayNumber = some d := by
  have hpos := d.ordinal_pos
  have hle := d.ordinal_le
  have hday : d.dayNumber + epochDay = daysBeforeYear d.year + (d.ordinal - 1 : Nat) := by
    rw [dayNumber]
    omega
  rw [ofDayNumber?, hday, yearOfDay_eq d.year (by omega)]
  dsimp only
  rw [Nat.sub_add_cancel hpos, ofOrdinal?_ordinal]

/-- Day numbers are small. -/
theorem dayNumber_bounds : -100000000 ≤ d.dayNumber ∧ d.dayNumber ≤ 100000000 := by
  have hpos := d.ordinal_pos
  have hle := d.ordinal_le
  have hlength := yearLength_cases d.year
  obtain ⟨hmin, hmax, -⟩ := d.valid
  simp only [dayNumber, daysBeforeYear, epochDay, minYear, maxYear] at *
  omega

end Date

/-! ## Instants -/

namespace TimeOfDay

variable (t : TimeOfDay)

theorem ofParts?_self : ofParts? t.hour t.minute t.second t.nano = some t := dif_pos t.valid

theorem seconds_lt : t.seconds < 86400 := by
  obtain ⟨hhour, hminute, hsecond, -⟩ := t.valid
  rw [seconds]
  omega

/-- Hour, minute and second are found from the seconds of the day. -/
theorem ofSeconds?_seconds (nano : Nat) :
    ofSeconds? t.seconds nano = ofParts? t.hour t.minute t.second nano := by
  obtain ⟨hhour, hminute, hsecond, -⟩ := t.valid
  have hours : t.seconds / 3600 = t.hour := by rw [seconds]; omega
  have minutes : t.seconds / 60 % 60 = t.minute := by rw [seconds]; omega
  have rest : t.seconds % 60 = t.second := by rw [seconds]; omega
  rw [ofSeconds?, hours, minutes, rest]

end TimeOfDay

namespace Instant

variable (t : Instant)

/--
Date, hour, minute and second are found from the seconds of an instant; the nanoseconds may be
others.
-/
theorem ofEpoch?_epochSeconds (nano : Nat) :
    ofEpoch? t.epochSeconds nano
      = (TimeOfDay.ofParts? t.time.hour t.time.minute t.time.second nano).map
        (Instant.mk t.date) := by
  have hlt := t.time.seconds_lt
  have hday : t.epochSeconds / dayLength = t.date.dayNumber := by
    rw [epochSeconds, dayLength]; omega
  have hrest : (t.epochSeconds % dayLength).toNat = t.time.seconds := by
    rw [epochSeconds, dayLength]; omega
  rw [ofEpoch?, hday, hrest, Date.ofDayNumber?_dayNumber, TimeOfDay.ofSeconds?_seconds]
  cases TimeOfDay.ofParts? t.time.hour t.time.minute t.time.second nano <;> rfl

/-- An instant is found from its seconds and its nanoseconds. -/
theorem ofEpoch?_self : ofEpoch? t.epochSeconds t.time.nano = some t := by
  rw [ofEpoch?_epochSeconds, TimeOfDay.ofParts?_self]
  rfl

/-- In UTC an instant stays where it is. -/
theorem shift?_zero : t.shift? 0 = some t := by
  rw [shift?, Int.add_zero, ofEpoch?_self]

end Instant

end Clauses
