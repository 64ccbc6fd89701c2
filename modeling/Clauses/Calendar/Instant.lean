import Clauses.Calendar.Date

/-!
# Instants

A date and a time of day. Where a zone matters it is UTC. A leap second is the 59th second of its
minute with a nanosecond part from a thousand million on, so it needs no second of its own.

* `Instant.epochSeconds` — whole seconds since 1970-01-01 without leap seconds
* `Instant.ofEpoch?` — the instant of a number of seconds
* `Instant.shift?` — the instant some seconds later; the nanosecond part is kept
-/

namespace Clauses

/-- Nanoseconds of a second. -/
def billion : Nat := 1000000000

/-- The parts are a time of day. -/
def TimeOfDay.Valid (hour minute second nano : Nat) : Prop :=
  hour < 24 ∧ minute < 60 ∧ second < 60 ∧ nano < 2 * billion ∧ (billion ≤ nano → second = 59)

instance (hour minute second nano : Nat) : Decidable (TimeOfDay.Valid hour minute second nano) :=
  inferInstanceAs (Decidable (_ ∧ _ ∧ _ ∧ _ ∧ _))

/-- A time of day. -/
structure TimeOfDay where
  hour : Nat
  minute : Nat
  second : Nat
  nano : Nat
  valid : TimeOfDay.Valid hour minute second nano
deriving DecidableEq

namespace TimeOfDay

/-- The time with these parts, if there is one. -/
def ofParts? (hour minute second nano : Nat) : Option TimeOfDay :=
  if h : Valid hour minute second nano then some ⟨hour, minute, second, nano, h⟩ else none

/-- The start of the day. -/
def midnight : TimeOfDay := ⟨0, 0, 0, 0, by decide⟩

/-- Seconds since the start of the day. -/
def seconds (t : TimeOfDay) : Nat := (t.hour * 60 + t.minute) * 60 + t.second

/-- The second as clocks show it: 60 in a leap second. -/
def shownSecond (t : TimeOfDay) : Nat := t.second + t.nano / billion

/-- The fraction of the second as clocks show it, in nanoseconds. -/
def shownNano (t : TimeOfDay) : Nat := t.nano % billion

/-- The hour of a clock of twelve hours. -/
def hour12 (t : TimeOfDay) : Nat := if t.hour % 12 = 0 then 12 else t.hour % 12

/-- The time is after noon. -/
def isAfternoon (t : TimeOfDay) : Bool := 12 ≤ t.hour

/-- The time this many seconds after the start of the day. -/
def ofSeconds? (seconds nano : Nat) : Option TimeOfDay :=
  ofParts? (seconds / 3600) (seconds / 60 % 60) (seconds % 60) nano

end TimeOfDay

/-- A date and a time of day. -/
structure Instant where
  date : Date
  time : TimeOfDay
deriving DecidableEq

namespace Instant

/-- Seconds of a day. -/
def dayLength : Int := 86400

/-- Whole seconds since the start of the epoch. -/
def epochSeconds (t : Instant) : Int := t.date.dayNumber * dayLength + t.time.seconds

/-- Milliseconds since the start of the epoch; those of a leap second run on to 1999. -/
def epochMillis (t : Instant) : Int := t.epochSeconds * 1000 + t.time.nano / 1000000

/-- The instant of a number of seconds since the start of the epoch, and nanoseconds. -/
def ofEpoch? (seconds : Int) (nano : Nat) : Option Instant := do
  let date ← Date.ofDayNumber? (seconds / dayLength)
  let time ← TimeOfDay.ofSeconds? (seconds % dayLength).toNat nano
  return ⟨date, time⟩

/-- The instant of a number of milliseconds since the start of the epoch. -/
def ofEpochMillis? (millis : Int) : Option Instant :=
  ofEpoch? (millis / 1000) ((millis % 1000).toNat * 1000000)

/-- The instant some whole minutes later, in seconds. -/
def shift? (t : Instant) (seconds : Int) : Option Instant :=
  ofEpoch? (t.epochSeconds + seconds) t.time.nano

/-- The start of a day. -/
def startOf (d : Date) : Instant := ⟨d, .midnight⟩

end Instant

end Clauses
