import Clauses.Calendar.Instant
import Clauses.Calendar.Pattern
import Clauses.Decimal.Integer

/-!
# Writing dates

* `Pattern.render?` — an instant in the items of a pattern; none if an item asks for a zone
* `Instant.isoText` — an instant in UTC
* `Instant.plainText` — an instant without a zone, with a space between date and time

Years from 0 to 9999 have four digits. Others have a sign and at least four digits.
-/

namespace Clauses

namespace Calendar

/-! ## Numbers -/

/-- A number filled up to `width` characters; its sign counts as one and stands before zeros. -/
def filled (filling : Filling) (width : Nat) (signed : Bool) (n : Int) : List Char :=
  let sign := if n < 0 then ['-'] else if signed then ['+'] else []
  let digits := Nat.toDigits 10 n.natAbs
  match filling with
  | .none => sign ++ digits
  | .zeros => sign ++ Text.padLeft '0' (width - sign.length) digits
  | .spaces => Text.padLeft ' ' width (sign ++ digits)

/-- A year. -/
def yearText (filling : Filling) (year : Int) : List Char :=
  if 0 ≤ year ∧ year ≤ 9999 then filled filling 4 false year else filled filling 5 true year

/-- A number below 100. The place of the tens holds whatever character comes so far behind `0`. -/
def twoPlaces (filling : Filling) (n : Nat) : List Char :=
  let ones := Char.ofNat (48 + n % 10)
  match n / 10, filling with
  | 0, .none => [ones]
  | 0, .spaces => [' ', ones]
  | tens, _ => [Char.ofNat (48 + tens), ones]

/-! ## Names -/

/-- The months, January first. -/
def monthNames : List String :=
  ["January", "February", "March", "April", "May", "June", "July", "August", "September",
    "October", "November", "December"]

/-- The days of the week, Monday first. -/
def weekdayNames : List String :=
  ["Monday", "Tuesday", "Wednesday", "Thursday", "Friday", "Saturday", "Sunday"]

/-- A name of the list, by its place from 0. -/
def nameAt (names : List String) (i : Nat) : List Char := (names.getD i "").toList

/-! ## Items -/

/-- The number of an item, written out. -/
def Numeral.render (n : Numeral) (filling : Filling) (t : Instant) : List Char :=
  match n with
  | .year => yearText filling t.date.year
  | .century => twoPlaces filling (t.date.year / 100 % 256).toNat
  | .yearOfCentury => twoPlaces filling (t.date.year % 100).toNat
  | .isoYear => yearText filling t.date.isoWeek.1
  | .isoYearOfCentury => twoPlaces filling (t.date.isoWeek.1 % 100).toNat
  | .quarter => Nat.toDigits 10 t.date.quarter
  | .month => twoPlaces filling t.date.month
  | .day => twoPlaces filling t.date.day
  | .weekFromSunday => twoPlaces filling (t.date.weekOfYear 6)
  | .weekFromMonday => twoPlaces filling (t.date.weekOfYear 0)
  | .isoWeek => twoPlaces filling t.date.isoWeek.2
  | .weekdayFromSunday => Nat.toDigits 10 ((t.date.weekday + 1) % 7)
  | .weekdayFromMonday => Nat.toDigits 10 (t.date.weekday + 1)
  | .ordinal => filled filling 3 false t.date.ordinal
  | .hour => twoPlaces filling t.time.hour
  | .hour12 => twoPlaces filling t.time.hour12
  | .minute => twoPlaces filling t.time.minute
  | .second => twoPlaces filling t.time.shownSecond
  | .nanosecond => filled filling 9 false t.time.shownNano
  | .timestamp => filled filling 9 false t.epochSeconds

/-- The first `digits` digits of a fraction of a second; there are 3, 6 or 9 of them. -/
def fractionDigits (digits nano : Nat) : List Char :=
  Text.zeroPadded digits (nano / Nat.pow 10 (9 - digits))

/-- Point and fraction of a second in as few groups of three digits as it needs. -/
def fractionText (nano : Nat) : List Char :=
  if nano = 0 then []
  else if nano % 1000000 = 0 then '.' :: fractionDigits 3 nano
  else if nano % 1000 = 0 then '.' :: fractionDigits 6 nano
  else '.' :: fractionDigits 9 nano

/-- The half of the day. -/
def halfDay (t : TimeOfDay) : List Char := if t.isAfternoon then ['P', 'M'] else ['A', 'M']

/-- A part that is no plain number; none if it asks for a zone. -/
def Part.render? (p : Part) (t : Instant) : Option (List Char) :=
  match p with
  | .shortMonth => some ((nameAt monthNames (t.date.month - 1)).take 3)
  | .longMonth => some (nameAt monthNames (t.date.month - 1))
  | .shortWeekday => some ((nameAt weekdayNames t.date.weekday).take 3)
  | .longWeekday => some (nameAt weekdayNames t.date.weekday)
  | .lowerHalfDay => some (Text.lower (halfDay t.time))
  | .upperHalfDay => some (halfDay t.time)
  | .fraction => some (fractionText t.time.shownNano)
  | .pointedFraction n => some ('.' :: fractionDigits n t.time.shownNano)
  | .bareFraction n => some (fractionDigits n t.time.shownNano)
  | .zoneName | .zoneOffset | .looseZoneOffset | .dateTime => none

/-- An item; none if it asks for a zone. -/
def Item.render? (item : Item) (t : Instant) : Option (List Char) :=
  match item with
  | .literal text | .blank text => some text
  | .numeral n filling => some (n.render filling t)
  | .part p => p.render? t

/-- An instant in the items of a pattern. -/
def Pattern.render? (pattern : Pattern) (t : Instant) : Option (List Char) :=
  (pattern.mapM fun (item : Item) => item.render? t).map List.flatten

end Calendar

open Calendar

/-! ## Fixed forms -/

/-- Year, month and day, between dashes. -/
def Date.text (d : Date) : List Char :=
  yearText .zeros d.year ++ '-' :: twoPlaces .zeros d.month ++ '-' :: twoPlaces .zeros d.day

/-- Hour, minute and second, between colons, and the fraction of the second. -/
def TimeOfDay.text (t : TimeOfDay) : List Char :=
  twoPlaces .zeros t.hour ++ ':' :: twoPlaces .zeros t.minute ++ ':'
    :: twoPlaces .zeros t.shownSecond ++ fractionText t.shownNano

/-- Date and time in UTC. -/
def Instant.isoText (t : Instant) : String :=
  String.ofList (t.date.text ++ 'T' :: t.time.text ++ ['Z'])

/-- Date and time without a zone. -/
def Instant.plainText (t : Instant) : String :=
  String.ofList (t.date.text ++ ' ' :: t.time.text)

end Clauses
