import Clauses.Calendar.Instant

/-!
# Fields of a date

What a reader has found so far: a year in one place, an hour in another. A field that is found
twice has to be the same both times. When everything is read the fields have to name one date, and
every field that was not needed for that has to agree with it.

* `Fields.set` functions — put a field in, or tell why it cannot be
* `Fields.date` — the date that the fields name
* `Fields.time` — the time of day that they name
* `Fields.instant` — both, where a number of seconds since the epoch may stand for what is missing
-/

namespace Clauses.Calendar

/-- Why a text is not a date. -/
inductive ReadFault where
  | outOfRange
  | impossible
  | notEnough
  | invalid
  | tooShort
  | tooLong
deriving DecidableEq

/-- The fault in words. -/
def ReadFault.message : ReadFault → String
  | .outOfRange => "input is out of range"
  | .impossible => "no possible date and time matching input"
  | .notEnough => "input is not enough for unique date and time"
  | .invalid => "input contains invalid characters"
  | .tooShort => "premature end of input"
  | .tooLong => "trailing input"

/-- The fields that have been found. -/
structure Fields where
  year : Option Int := none
  century : Option Int := none
  yearOfCentury : Option Int := none
  isoYear : Option Int := none
  isoYearOfCentury : Option Int := none
  quarter : Option Int := none
  month : Option Int := none
  day : Option Int := none
  weekFromSunday : Option Int := none
  weekFromMonday : Option Int := none
  isoWeek : Option Int := none
  /-- The day of the week; Monday is 0. -/
  weekday : Option Int := none
  ordinal : Option Int := none
  /-- 0 before noon, 1 after it. -/
  halfDay : Option Int := none
  /-- The hour of the half of the day, from 0. -/
  halfHour : Option Int := none
  minute : Option Int := none
  second : Option Int := none
  nanosecond : Option Int := none
  timestamp : Option Int := none
  /-- Seconds by which the local time is ahead of UTC. -/
  offset : Option Int := none
deriving DecidableEq

namespace Fields

/-! ## Putting fields in -/

/-- A value for a field: it must be in its range and agree with the value found before. -/
def agree (old : Option Int) (lo hi v : Int) : Except ReadFault (Option Int) :=
  if v < lo ∨ hi < v then .error .outOfRange
  else match old with
    | none => .ok (some v)
    | some w => if w = v then .ok (some v) else .error .impossible

/-- The greatest 32-bit integer. -/
def maxInt32 : Int := 2147483647

/-- The greatest 64-bit integer. -/
def maxInt64 : Int := 9223372036854775807

def setYear (f : Fields) (v : Int) : Except ReadFault Fields := do
  return { f with year := ← agree f.year (-maxInt32 - 1) maxInt32 v }

def setCentury (f : Fields) (v : Int) : Except ReadFault Fields := do
  return { f with century := ← agree f.century 0 maxInt32 v }

def setYearOfCentury (f : Fields) (v : Int) : Except ReadFault Fields := do
  return { f with yearOfCentury := ← agree f.yearOfCentury 0 99 v }

def setIsoYear (f : Fields) (v : Int) : Except ReadFault Fields := do
  return { f with isoYear := ← agree f.isoYear (-maxInt32 - 1) maxInt32 v }

def setIsoYearOfCentury (f : Fields) (v : Int) : Except ReadFault Fields := do
  return { f with isoYearOfCentury := ← agree f.isoYearOfCentury 0 99 v }

def setQuarter (f : Fields) (v : Int) : Except ReadFault Fields := do
  return { f with quarter := ← agree f.quarter 1 4 v }

def setMonth (f : Fields) (v : Int) : Except ReadFault Fields := do
  return { f with month := ← agree f.month 1 12 v }

def setDay (f : Fields) (v : Int) : Except ReadFault Fields := do
  return { f with day := ← agree f.day 1 31 v }

def setWeekFromSunday (f : Fields) (v : Int) : Except ReadFault Fields := do
  return { f with weekFromSunday := ← agree f.weekFromSunday 0 53 v }

def setWeekFromMonday (f : Fields) (v : Int) : Except ReadFault Fields := do
  return { f with weekFromMonday := ← agree f.weekFromMonday 0 53 v }

def setIsoWeek (f : Fields) (v : Int) : Except ReadFault Fields := do
  return { f with isoWeek := ← agree f.isoWeek 1 53 v }

/-- The day of the week; Monday is 0. -/
def setWeekday (f : Fields) (v : Int) : Except ReadFault Fields := do
  return { f with weekday := ← agree f.weekday 0 6 v }

/-- The day of the week; Sunday is 0. -/
def setWeekdayFromSunday (f : Fields) (v : Int) : Except ReadFault Fields :=
  if v < 0 ∨ 6 < v then .error .outOfRange else f.setWeekday ((v + 6) % 7)

def setOrdinal (f : Fields) (v : Int) : Except ReadFault Fields := do
  return { f with ordinal := ← agree f.ordinal 1 366 v }

/-- 0 before noon, 1 after it. -/
def setHalfDay (f : Fields) (v : Int) : Except ReadFault Fields := do
  return { f with halfDay := ← agree f.halfDay 0 1 v }

/-- The hour of the half of the day, from 0. -/
def setHalfHour (f : Fields) (v : Int) : Except ReadFault Fields := do
  return { f with halfHour := ← agree f.halfHour 0 11 v }

/-- The hour of a clock of twelve hours. -/
def setHour12 (f : Fields) (v : Int) : Except ReadFault Fields :=
  if v < 1 ∨ 12 < v then .error .outOfRange else f.setHalfHour (v % 12)

def setHour (f : Fields) (v : Int) : Except ReadFault Fields :=
  if v < 0 ∨ 23 < v then .error .outOfRange
  else do (← f.setHalfDay (v / 12)).setHalfHour (v % 12)

def setMinute (f : Fields) (v : Int) : Except ReadFault Fields := do
  return { f with minute := ← agree f.minute 0 59 v }

/-- The second; 60 is a leap second. -/
def setSecond (f : Fields) (v : Int) : Except ReadFault Fields := do
  return { f with second := ← agree f.second 0 60 v }

def setNanosecond (f : Fields) (v : Int) : Except ReadFault Fields := do
  return { f with nanosecond := ← agree f.nanosecond 0 999999999 v }

def setTimestamp (f : Fields) (v : Int) : Except ReadFault Fields := do
  return { f with timestamp := ← agree f.timestamp (-maxInt64 - 1) maxInt64 v }

def setOffset (f : Fields) (v : Int) : Except ReadFault Fields := do
  return { f with offset := ← agree f.offset (-maxInt32 - 1) maxInt32 v }

/-! ## Years -/

/--
A year out of the whole year, its century and its place in the century. A year that is known by its
place alone lies from 1970 to 2069. Centuries go with years from 0 on.
-/
def wholeYear (year century ofCentury : Option Int) : Except ReadFault (Option Int) :=
  match year, century, ofCentury with
  | y, none, none => .ok y
  | some y, c, r =>
    if y < 0 then .error .impossible
    else if c.getD (y / 100) = y / 100 ∧ r.getD (y % 100) = y % 100 then .ok (some y)
    else .error .impossible
  | none, some c, some r =>
    if c * 100 + r ≤ maxInt32 then .ok (some (c * 100 + r)) else .error .outOfRange
  | none, none, some r => .ok (some (if r < 70 then 2000 + r else 1900 + r))
  | none, some _, none => .error .notEnough

/-! ## Agreement with a date -/

/-- A field agrees with a value if it is missing or equal to it. -/
def agrees (field : Option Int) (v : Int) : Bool := field.getD v == v

/-- A field that only years from 0 on have. -/
def agreesFrom (year : Int) (field : Option Int) (v : Int) : Bool :=
  if 0 ≤ year then agrees field v else field.isNone

/-- The fields of year, month and day agree with a date. -/
def agreesYmd (f : Fields) (d : Date) : Bool :=
  agrees f.year d.year && agreesFrom d.year f.century (d.year / 100)
    && agreesFrom d.year f.yearOfCentury (d.year % 100) && agrees f.month d.month
    && agrees f.day d.day

/-- The fields of the week that belongs to the year of its Thursday agree with a date. -/
def agreesIsoWeek (f : Fields) (d : Date) : Bool :=
  let (year, week) := d.isoWeek
  agrees f.isoYear year && agreesFrom year f.isoYearOfCentury (year % 100)
    && agrees f.isoWeek week && agrees f.weekday d.weekday

/-- The day of the year and the other weeks agree with a date. -/
def agreesOrdinal (f : Fields) (d : Date) : Bool :=
  agrees f.ordinal d.ordinal && agrees f.weekFromSunday (d.weekOfYear 6)
    && agrees f.weekFromMonday (d.weekOfYear 0)

/-! ## The date -/

/-- The day of a week of the year, where week 1 starts with the first day of the week `start`. -/
def dateOfWeek (year : Int) (week weekday start : Int) : Except ReadFault Date :=
  match Date.ofOrdinal? year 1 with
  | none => .error .outOfRange
  | some newYear =>
    let firstWeek := 1 + (start - newYear.weekday) % 7
    let ordinal := firstWeek + (week - 1) * 7 + (weekday - start) % 7
    if ordinal ≤ 0 then .error .impossible
    else match Date.ofOrdinal? year ordinal.toNat with
      | some d => .ok d
      | none => .error .impossible

/-- A date, if it is there and the fields agree with it. -/
def confirm (d : Option Date) (agrees : Date → Bool) : Except ReadFault Date :=
  match d with
  | none => .error .outOfRange
  | some d => if agrees d then .ok d else .error .impossible

/-- The date that the fields name, without regard to the quarter. -/
def namedDate (f : Fields) : Except ReadFault Date := do
  let year ← wholeYear f.year f.century f.yearOfCentury
  let isoYear ← wholeYear f.isoYear none f.isoYearOfCentury
  let all := fun d => f.agreesYmd d && f.agreesIsoWeek d && f.agreesOrdinal d
  let fromIsoWeek := match isoYear, f.isoWeek, f.weekday with
    | some year, some week, some weekday =>
      confirm (Date.ofIsoWeek? year week.toNat weekday.toNat) fun d =>
        f.agreesYmd d && f.agreesOrdinal d
    | _, _, _ => .error .notEnough
  match year with
  | none => fromIsoWeek
  | some year =>
    match f.month, f.day, f.ordinal, f.weekFromSunday, f.weekFromMonday, f.weekday with
    | some month, some day, _, _, _, _ =>
      confirm (Date.ofParts? year month.toNat day.toNat) fun d =>
        f.agreesIsoWeek d && f.agreesOrdinal d
    | _, _, some ordinal, _, _, _ => confirm (Date.ofOrdinal? year ordinal.toNat) all
    | _, _, _, some week, _, some weekday => do
      confirm (some (← dateOfWeek year week weekday 6)) all
    | _, _, _, _, some week, some weekday => do
      confirm (some (← dateOfWeek year week weekday 0)) all
    | _, _, _, _, _, _ => fromIsoWeek

/-- The date that the fields name. -/
def date (f : Fields) : Except ReadFault Date := do
  let d ← f.namedDate
  if agrees f.quarter d.quarter then return d else .error .impossible

/-! ## The time -/

/-- The time of day that the fields name. A fraction needs a second. -/
def time (f : Fields) : Except ReadFault TimeOfDay := do
  let some half := f.halfDay | .error .notEnough
  let some hour := f.halfHour | .error .notEnough
  let some minute := f.minute | .error .notEnough
  if f.nanosecond.isSome && f.second.isNone then .error .notEnough
  let second := f.second.getD 0
  let nano := f.nanosecond.getD 0 + if second = 60 then billion else 0
  let second := if second = 60 then 59 else second
  match TimeOfDay.ofParts? (half * 12 + hour).toNat minute.toNat second.toNat nano.toNat with
  | some t => .ok t
  | none => .error .outOfRange

/-! ## Both -/

/-- The fields with those of an instant, which leaves a leap second as it is. -/
def setInstant (f : Fields) (t : Instant) : Except ReadFault Fields := do
  let f ← if f.second = some 60 then pure f else f.setSecond t.time.second
  let f ← f.setYear t.date.year
  let f ← f.setOrdinal t.date.ordinal
  let f ← f.setHour t.time.hour
  f.setMinute t.time.minute

/-- The instant of a number of seconds; in a leap second the next one is meant as well. -/
def ofTimestamp (f : Fields) (seconds : Int) : Except ReadFault Instant :=
  match Instant.ofEpoch? seconds 0 with
  | none => .error .outOfRange
  | some t =>
    if f.second = some 60 then
      if t.time.second = 59 then .ok t
      else if t.time.second = 0 then
        match t.shift? (-1) with
        | some t => .ok t
        | none => .error .outOfRange
      else .error .impossible
    else .ok t

/-- The local instant that the fields name, where local time is `offset` seconds ahead of UTC. -/
def localInstant (f : Fields) (offset : Int) : Except ReadFault Instant :=
  match f.date, f.time, f.timestamp with
  | .ok date, .ok time, timestamp =>
    let t : Instant := ⟨date, time⟩
    let seconds := t.epochSeconds - offset
    match timestamp with
    | none => .ok t
    | some given =>
      if given = seconds ∨ billion ≤ time.nano ∧ given = seconds + 1 then .ok t
      else .error .impossible
  | date, time, some given =>
    if date matches .error .outOfRange ∨ time matches .error .outOfRange then .error .outOfRange
    else if date matches .error .impossible ∨ time matches .error .impossible then
      .error .impossible
    else if maxInt64 < given + offset ∨ given + offset < -maxInt64 - 1 then .error .outOfRange
    else do
      let f ← f.setInstant (← f.ofTimestamp (given + offset))
      return ⟨← f.date, ← f.time⟩
  | .error e, _, none => .error e
  | .ok _, .error e, none => .error e

/-- The offsets from UTC that a zone may have, in seconds. -/
def maxOffset : Int := 86399

/-- The instant that the fields name; a number of seconds since the epoch counts as UTC. -/
def instant (f : Fields) : Except ReadFault Instant := do
  let some offset := f.offset <|> f.timestamp.map fun _ => 0 | .error .notEnough
  let t ← f.localInstant offset
  if offset < -maxOffset ∨ maxOffset < offset then .error .outOfRange
  else match t.shift? (-offset) with
    | some t => .ok t
    | none => .error .impossible

end Fields

end Clauses.Calendar
