import Clauses.Calendar.Fields
import Clauses.Calendar.Pattern
import Clauses.Calendar.Render

/-!
# Reading dates

A text is read along a pattern, item by item; each item takes something off the front of the text
and puts a field in. The first fault ends the reading, and so does text that is left over.

* White space may stand before a number, and any amount of it where the pattern has some.
* A number has at most the width of its item, except that a year with a sign has no width.
* Names are told by their first three letters, in any case; a long name may follow or not.
* Instants in UTC have a form of their own, with a zone and without any freedom.

Lengths that decide whether a text is too short count bytes.
-/

namespace Clauses.Calendar

/-! ## Numbers -/

/--
Takes off a number of at least `least` and at most `most` digits. It has to fit into 64 bits, which
is checked digit by digit.
-/
def scanNumber (least : Nat) (most : Nat) (s : List Char) : Except ReadFault (Int × List Char) :=
  let rec go : (taken room : Nat) → (n : Int) → List Char → Except ReadFault (Int × List Char)
    | _, 0, n, s => .ok (n, s)
    | _, _ + 1, n, [] => .ok (n, [])
    | taken, room + 1, n, c :: rest =>
      if c.isDigit then
        let next := n * 10 + (c.toNat - 48 : Nat)
        if Fields.maxInt64 < next then .error .outOfRange else go (taken + 1) room next rest
      else if taken < least then .error .invalid
      else .ok (n, c :: rest)
  if Text.byteLength s < least then .error .tooShort else go 0 most 0 s

/-- More digits than any text has. -/
def unlimited (s : List Char) : Nat := s.length + 1

/-- Takes off a year: one with a sign may have any number of digits. -/
def scanYear (s : List Char) : Except ReadFault (Int × List Char) :=
  match s with
  | '-' :: rest => (scanNumber 1 (unlimited rest) rest).map fun (n, rest) => (-n, rest)
  | '+' :: rest => scanNumber 1 (unlimited rest) rest
  | s => scanNumber 1 4 s

/-- Takes off the digits of a fraction; from the tenth on they do not count. -/
def scanFraction (s : List Char) : Except ReadFault (Int × List Char) := do
  let (n, rest) ← scanNumber 1 9 s
  let digits := s.length - rest.length
  return (n * Int.pow 10 (9 - digits), rest.dropWhile Char.isDigit)

/-- Takes off a fraction of exactly `digits` digits. -/
def scanFixedFraction (digits : Nat) (s : List Char) : Except ReadFault (Int × List Char) := do
  let (n, rest) ← scanNumber digits digits s
  return (n * Int.pow 10 (9 - digits), rest)

/-! ## Names -/

/-- The place, from 0, of the first name that starts with these three letters. -/
def placeOfName? (names : List String) (letters : List Char) : Option Nat :=
  names.findIdx? fun name => Text.lower (name.toList.take 3) == Text.lower letters

/-- Takes off the first three letters of a name. -/
def scanShortName (names : List String) (s : List Char) : Except ReadFault (Nat × List Char) :=
  if Text.byteLength s < 3 then .error .tooShort
  else match placeOfName? names (s.take 3) with
    | some i => .ok (i, s.drop 3)
    | none => .error .invalid

/-- Takes off the first three letters of a name and, if they are there, the others. -/
def scanLongName (names : List String) (s : List Char) : Except ReadFault (Nat × List Char) := do
  let (i, rest) ← scanShortName names s
  let others := (nameAt names i).drop 3
  return (i, if Text.sameFolded (rest.take others.length) others then rest.drop others.length
    else rest)

/-- Takes off the half of the day. -/
def scanHalfDay (s : List Char) : Except ReadFault (Int × List Char) :=
  if Text.byteLength s < 2 then .error .tooShort
  else match Text.lower (s.take 2) with
    | ['a', 'm'] => .ok (0, s.drop 2)
    | ['p', 'm'] => .ok (1, s.drop 2)
    | _ => .error .invalid

/-! ## Zones -/

/-- What may stand between hours and minutes of an offset. -/
inductive ZoneColon where
  /-- Exactly one colon. -/
  | one
  /-- Any number of colons and white space, or nothing. -/
  | loose
deriving DecidableEq

/-- Passes over what stands between hours and minutes. -/
def ZoneColon.skip (colon : ZoneColon) (s : List Char) : Except ReadFault (List Char) :=
  match colon, s with
  | .loose, s => .ok (s.dropWhile fun c => c == ':' || Text.isBlank c)
  | .one, ':' :: rest => .ok rest
  | .one, _ :: _ => .error .invalid
  | .one, [] => .error .tooShort

/-- Two digits at the front of a text of at least two bytes. -/
def twoDigits? : List Char → Option (Nat × Nat × List Char)
  | a :: b :: rest =>
    if a.isDigit && b.isDigit then some (a.toNat - 48, b.toNat - 48, rest) else none
  | _ => none

/-- Takes off the minutes of an offset. -/
def scanZoneMinutes (mayLack : Bool) (s : List Char) : Except ReadFault (Int × List Char) :=
  if Text.byteLength s < 2 then
    if mayLack && s.isEmpty then .ok (0, s) else .error .tooShort
  else match twoDigits? s with
    | none => .error .invalid
    | some (tens, ones, rest) =>
      if 6 ≤ tens then .error .outOfRange else .ok ((tens * 10 + ones : Nat), rest)

/-- Takes off an offset with a sign, in seconds. -/
def scanSignedOffset (colon : ZoneColon) (mayLackMinutes : Bool) (s : List Char) :
    Except ReadFault (Int × List Char) := do
  let (negative, rest) ← match s with
    | '+' :: rest => pure (false, rest)
    | '-' :: rest => pure (true, rest)
    | '−' :: rest => pure (true, rest)
    | _ :: _ => .error .invalid
    | [] => .error .tooShort
  if Text.byteLength rest < 2 then .error .tooShort
  let some (tens, ones, rest) := twoDigits? rest | .error .invalid
  let rest ← colon.skip rest
  let (minutes, rest) ← scanZoneMinutes mayLackMinutes rest
  let seconds := (tens * 10 + ones : Nat) * 3600 + minutes * 60
  return (if negative then -seconds else seconds, rest)

/-- Takes off an offset, which may be the letter `Z`. -/
def scanOffset (colon : ZoneColon) (mayLackMinutes : Bool) (s : List Char) :
    Except ReadFault (Int × List Char) :=
  match s with
  | 'Z' :: rest => .ok (0, rest)
  | 'z' :: rest => .ok (0, rest)
  | s => scanSignedOffset colon mayLackMinutes s

/-! ## Items -/

/-- The text behind a literal. -/
def scanLiteral (literal s : List Char) : Except ReadFault (List Char) :=
  if Text.byteLength s < Text.byteLength literal then .error .tooShort
  else match Text.dropText? literal s with
    | some rest => .ok rest
    | none => .error .invalid

/-- How many digits a number may have. -/
def Numeral.width (n : Numeral) (s : List Char) : Nat :=
  match n with
  | .year | .isoYear => 4
  | .quarter | .weekdayFromSunday | .weekdayFromMonday => 1
  | .ordinal => 3
  | .nanosecond => 9
  | .timestamp => unlimited s
  | _ => 2

/-- Puts a number into its field. -/
def Numeral.set (n : Numeral) (f : Fields) (v : Int) : Except ReadFault Fields :=
  match n with
  | .year => f.setYear v
  | .century => f.setCentury v
  | .yearOfCentury => f.setYearOfCentury v
  | .isoYear => f.setIsoYear v
  | .isoYearOfCentury => f.setIsoYearOfCentury v
  | .quarter => f.setQuarter v
  | .month => f.setMonth v
  | .day => f.setDay v
  | .weekFromSunday => f.setWeekFromSunday v
  | .weekFromMonday => f.setWeekFromMonday v
  | .isoWeek => f.setIsoWeek v
  | .weekdayFromSunday => f.setWeekdayFromSunday v
  | .weekdayFromMonday => f.setWeekday (v - 1)
  | .ordinal => f.setOrdinal v
  | .hour => f.setHour v
  | .hour12 => f.setHour12 v
  | .minute => f.setMinute v
  | .second => f.setSecond v
  | .nanosecond => f.setNanosecond v
  | .timestamp => f.setTimestamp v

/-- Reads a number. -/
def Numeral.read (n : Numeral) (f : Fields) (s : List Char) :
    Except ReadFault (Fields × List Char) := do
  let s := Text.dropBlanks s
  let (v, rest) ← match n with
    | .year | .isoYear => scanYear s
    | _ => scanNumber 1 (n.width s) s
  return (← n.set f v, rest)

/-- Reads a point and a fraction behind it, if there is a point. -/
def readPointed (scan : List Char → Except ReadFault (Int × List Char)) (f : Fields)
    (s : List Char) : Except ReadFault (Fields × List Char) :=
  match s with
  | '.' :: rest => do
    let (v, rest) ← scan rest
    return (← f.setNanosecond v, rest)
  | s => .ok (f, s)

/-- Reads numbers and the literals between them, with white space before each. -/
def readSpread : (items : List (Numeral × List Char)) → Fields → List Char →
    Except ReadFault (Fields × List Char)
  | [], f, s => .ok (f, s)
  | (n, literal) :: items, f, s => do
    let (f, rest) ← n.read f s
    let rest ← if literal.isEmpty then pure rest else scanLiteral literal (Text.dropBlanks rest)
    readSpread items f rest

/-- Reads date, time and zone, with white space between their parts. -/
def readDateTime (f : Fields) (s : List Char) : Except ReadFault (Fields × List Char) := do
  let (f, s) ← readSpread [(.year, ['-']), (.month, ['-']), (.day, [])] f s
  let s ← match s with
    | 't' :: rest => pure rest
    | 'T' :: rest => pure rest
    | ' ' :: rest => pure rest
    | _ :: _ => .error .invalid
    | [] => .error .tooShort
  let (f, s) ← readSpread [(.hour, [':']), (.minute, [':']), (.second, [])] f s
  let (f, s) ← readPointed scanFraction f s
  let s := Text.dropBlanks s
  let (offset, rest) ←
    if Text.sameFolded (s.take 3) ['u', 't', 'c'] then pure (0, s.drop 3)
    else scanOffset .loose false s
  return (← f.setOffset offset, rest)

/-- Reads a part that is no plain number. -/
def Part.read (p : Part) (f : Fields) (s : List Char) : Except ReadFault (Fields × List Char) :=
  match p with
  | .shortMonth => do
    let (i, rest) ← scanShortName monthNames s
    return (← f.setMonth (i + 1), rest)
  | .longMonth => do
    let (i, rest) ← scanLongName monthNames s
    return (← f.setMonth (i + 1), rest)
  | .shortWeekday => do
    let (i, rest) ← scanShortName weekdayNames s
    return (← f.setWeekday i, rest)
  | .longWeekday => do
    let (i, rest) ← scanLongName weekdayNames s
    return (← f.setWeekday i, rest)
  | .lowerHalfDay | .upperHalfDay => do
    let (v, rest) ← scanHalfDay s
    return (← f.setHalfDay v, rest)
  | .fraction => readPointed scanFraction f s
  | .pointedFraction n => readPointed (scanFixedFraction n) f s
  | .bareFraction n => do
    if Text.byteLength s < n then .error .tooShort
    let (v, rest) ← scanFixedFraction n s
    return (← f.setNanosecond v, rest)
  | .zoneName => .ok (f, s.dropWhile fun c => !Text.isBlank c)
  | .zoneOffset => do
    let (v, rest) ← scanSignedOffset .loose false (Text.dropBlanks s)
    return (← f.setOffset v, rest)
  | .looseZoneOffset => do
    let (v, rest) ← scanOffset .loose true (Text.dropBlanks s)
    return (← f.setOffset v, rest)
  | .dateTime => readDateTime f s

/-- Reads one item. -/
def Item.read (item : Item) (f : Fields) (s : List Char) : Except ReadFault (Fields × List Char) :=
  match item with
  | .literal text => (scanLiteral text s).map fun rest => (f, rest)
  | .blank _ => .ok (f, Text.dropBlanks s)
  | .numeral n _ => n.read f s
  | .part p => p.read f s

/-! ## Texts -/

/-- Reads items one after the other. -/
def Pattern.readFrom (f : Fields) : Pattern → List Char → Except ReadFault (Fields × List Char)
  | [], s => .ok (f, s)
  | item :: pattern, s => do
    let (f, rest) ← item.read f s
    Pattern.readFrom f pattern rest

/-- The fields of a text that is read along a pattern, to its end. -/
def Pattern.fields (pattern : Pattern) (text : String) : Except ReadFault Fields := do
  let (f, rest) ← pattern.readFrom {} text.toList
  if rest.isEmpty then return f else .error .tooLong

/-- Reads an instant whose zone is known. -/
def Pattern.readInstant (pattern : Pattern) (text : String) : Except ReadFault Instant := do
  (← pattern.fields text).instant

/-- Reads date and time without regard to a zone. -/
def Pattern.readLocal (pattern : Pattern) (text : String) : Except ReadFault Instant := do
  (← pattern.fields text).localInstant 0

/-- Reads a date. -/
def Pattern.readDate (pattern : Pattern) (text : String) : Except ReadFault Date := do
  (← pattern.fields text).date

/-! ## Instants in UTC -/

/-- Takes off `count` digits. -/
def scanDigits : (count : Nat) → (n : Nat) → List Char → Except ReadFault (Nat × List Char)
  | 0, n, s => .ok (n, s)
  | count + 1, n, c :: rest =>
    if c.isDigit then scanDigits count (n * 10 + (c.toNat - 48)) rest else .error .invalid
  | _ + 1, _, [] => .error .invalid

/-- Takes off one of some characters. -/
def scanOneOf (choices : List Char) : List Char → Except ReadFault (List Char)
  | c :: rest => if choices.contains c then .ok rest else .error .invalid
  | [] => .error .invalid

/--
Reads date, time and zone in their one form: every number at its full width, a fraction of any
length, and an offset below 24 hours. The second 60 is a leap second.
-/
def readIsoInstant (text : String) : Except ReadFault Instant := do
  let s := text.toList
  if Text.byteLength s < 19 then .error .tooShort
  let (year, s) ← scanDigits 4 0 s
  let s ← scanOneOf ['-'] s
  let (month, s) ← scanDigits 2 0 s
  let s ← scanOneOf ['-'] s
  let (day, s) ← scanDigits 2 0 s
  let some date := Date.ofParts? year month day | .error .outOfRange
  let s ← scanOneOf ['t', 'T', ' '] s
  let (hour, s) ← scanDigits 2 0 s
  let s ← scanOneOf [':'] s
  let (minute, s) ← scanDigits 2 0 s
  let s ← scanOneOf [':'] s
  let (second, s) ← scanDigits 2 0 s
  let (nano, s) ← match s with
    | '.' :: rest => scanFraction rest
    | s => pure (0, s)
  let leap := if second = 60 then billion else 0
  let some time := TimeOfDay.ofParts? hour minute (if second = 60 then 59 else second)
    (nano.toNat + leap) | .error .outOfRange
  let (offset, s) ← scanOffset .one false s
  if !s.isEmpty then .error .tooLong
  if offset < -Fields.maxOffset ∨ Fields.maxOffset < offset then .error .outOfRange
  match Instant.shift? ⟨date, time⟩ (-offset) with
  | some t => .ok t
  | none => .error .outOfRange

end Clauses.Calendar
