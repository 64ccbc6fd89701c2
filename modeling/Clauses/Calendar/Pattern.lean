import Clauses.Text.Blank

/-!
# Date patterns

A pattern is a text in which `%` and a letter stand for a part of a date or time, white space for
any white space, and everything else for itself. Between `%` and the letter a number may be told
how to fill up its width: `-` not at all, `0` with zeros, `_` with spaces.

Some letters stand for several items; those take no filling. A pattern with an unknown letter is no
pattern at all.

* `Pattern.read?` — the items of a pattern
-/

namespace Clauses.Calendar

/-- How the width of a number is filled up. -/
inductive Filling where
  | none
  | zeros
  | spaces
deriving DecidableEq

/-- A number in a pattern. -/
inductive Numeral where
  | year
  | century
  | yearOfCentury
  | isoYear
  | isoYearOfCentury
  | quarter
  | month
  | day
  /-- The week of the year; weeks start on Sunday. -/
  | weekFromSunday
  /-- The week of the year; weeks start on Monday. -/
  | weekFromMonday
  | isoWeek
  /-- The day of the week; Sunday is 0. -/
  | weekdayFromSunday
  /-- The day of the week; Monday is 1. -/
  | weekdayFromMonday
  | ordinal
  | hour
  | hour12
  | minute
  | second
  | nanosecond
  | timestamp
deriving DecidableEq

/-- A part that is no plain number. -/
inductive Part where
  | shortMonth
  | longMonth
  | shortWeekday
  | longWeekday
  | lowerHalfDay
  | upperHalfDay
  /-- Point and fraction of the second, as far as it is not zero. -/
  | fraction
  /-- Point and fraction of the second in this many digits. -/
  | pointedFraction (digits : Nat)
  /-- The fraction of the second in this many digits, without a point. -/
  | bareFraction (digits : Nat)
  | zoneName
  | zoneOffset
  /-- The offset of a zone, which may lack its minutes and may be the letter `Z`. -/
  | looseZoneOffset
  /-- Date, time and zone together. -/
  | dateTime
deriving DecidableEq

/-- An item of a pattern. -/
inductive Item where
  | literal (text : List Char)
  | blank (text : List Char)
  | numeral (numeral : Numeral) (filling : Filling)
  | part (part : Part)
deriving DecidableEq

/-- The items of a pattern, in order. -/
abbrev Pattern := List Item

namespace Pattern

/-! ## Letters -/

/-- A number whose width is filled up with zeros. -/
def zeroed (n : Numeral) : Item := .numeral n .zeros

/-- A number whose width is filled up with spaces. -/
def spaced (n : Numeral) : Item := .numeral n .spaces

/-- Year, month and day, between dashes. -/
def isoDate : Pattern :=
  [zeroed .year, .literal ['-'], zeroed .month, .literal ['-'], zeroed .day]

/-- Month, day and year of the century, between slashes. -/
def shortDate : Pattern :=
  [zeroed .month, .literal ['/'], zeroed .day, .literal ['/'], zeroed .yearOfCentury]

/-- Hour and minute. -/
def hourMinute : Pattern := [zeroed .hour, .literal [':'], zeroed .minute]

/-- Hour, minute and second. -/
def clock : Pattern := hourMinute ++ [.literal [':'], zeroed .second]

/-- What one letter behind `%` stands for. -/
def letter? (c : Char) : Option Pattern :=
  match c with
  | 'A' => some [.part .longWeekday]
  | 'B' => some [.part .longMonth]
  | 'C' => some [zeroed .century]
  | 'D' => some shortDate
  | 'F' => some isoDate
  | 'G' => some [zeroed .isoYear]
  | 'H' => some [zeroed .hour]
  | 'I' => some [zeroed .hour12]
  | 'M' => some [zeroed .minute]
  | 'P' => some [.part .lowerHalfDay]
  | 'R' => some hourMinute
  | 'S' => some [zeroed .second]
  | 'T' => some clock
  | 'U' => some [zeroed .weekFromSunday]
  | 'V' => some [zeroed .isoWeek]
  | 'W' => some [zeroed .weekFromMonday]
  | 'X' => some clock
  | 'Y' => some [zeroed .year]
  | 'Z' => some [.part .zoneName]
  | 'a' => some [.part .shortWeekday]
  | 'b' => some [.part .shortMonth]
  | 'c' => some
      ([.part .shortWeekday, .blank [' '], .part .shortMonth, .blank [' '], spaced .day,
        .blank [' ']] ++ clock ++ [.blank [' '], zeroed .year])
  | 'd' => some [zeroed .day]
  | 'e' => some [spaced .day]
  | 'f' => some [zeroed .nanosecond]
  | 'g' => some [zeroed .isoYearOfCentury]
  | 'h' => some [.part .shortMonth]
  | 'j' => some [zeroed .ordinal]
  | 'k' => some [spaced .hour]
  | 'l' => some [spaced .hour12]
  | 'm' => some [zeroed .month]
  | 'n' => some [.blank ['\n']]
  | 'p' => some [.part .upperHalfDay]
  | 'q' => some [.numeral .quarter .none]
  | 'r' => some
      [zeroed .hour12, .literal [':'], zeroed .minute, .literal [':'], zeroed .second,
        .blank [' '], .part .upperHalfDay]
  | 's' => some [.numeral .timestamp .none]
  | 't' => some [.blank ['\t']]
  | 'u' => some [.numeral .weekdayFromMonday .none]
  | 'v' => some
      [spaced .day, .literal ['-'], .part .shortMonth, .literal ['-'], zeroed .year]
  | 'w' => some [.numeral .weekdayFromSunday .none]
  | 'x' => some shortDate
  | 'y' => some [zeroed .yearOfCentury]
  | 'z' => some [.part .zoneOffset]
  | '+' => some [.part .dateTime]
  | '%' => some [.literal ['%']]
  | _ => none

/-- The number of digits of a fraction that can be asked for. -/
def fractionDigits? (c : Char) : Option Nat :=
  match c with
  | '3' => some 3
  | '6' => some 6
  | '9' => some 9
  | _ => none

/-- What stands behind `%`, where it has no filling, and what is left of the pattern. -/
def specifier? : List Char → Option (Pattern × List Char)
  | '#' :: 'z' :: rest => some ([.part .looseZoneOffset], rest)
  | ':' :: 'z' :: rest => some ([.part .zoneOffset], rest)
  | ':' :: ':' :: 'z' :: rest => some ([.part .zoneOffset], rest)
  | ':' :: ':' :: ':' :: 'z' :: rest => some ([.part .zoneOffset], rest)
  | '.' :: 'f' :: rest => some ([.part .fraction], rest)
  | '.' :: c :: 'f' :: rest => (fractionDigits? c).map fun n => ([.part (.pointedFraction n)], rest)
  | c :: 'f' :: rest =>
    match fractionDigits? c with
    | some n => some ([.part (.bareFraction n)], rest)
    | none => (letter? c).map fun items => (items, 'f' :: rest)
  | c :: rest => (letter? c).map fun items => (items, rest)
  | [] => none

/-- The filling that a character asks for. -/
def filling? (c : Char) : Option Filling :=
  match c with
  | '-' => some .none
  | '0' => some .zeros
  | '_' => some .spaces
  | _ => none

/-- Puts another filling on a pattern that is a single number. -/
def refill? (filling : Filling) : Pattern → Option Pattern
  | [.numeral n _] => some [.numeral n filling]
  | _ => none

/-- What stands behind `%`, and what is left of the pattern. -/
def afterPercent? : List Char → Option (Pattern × List Char)
  | [] => none
  | c :: rest =>
    match filling? c with
    | none => specifier? (c :: rest)
    | some filling =>
      (specifier? rest).bind fun (items, rest) =>
        (refill? filling items).map fun items => (items, rest)

/-! ## Reading -/

/-- A character that stands for itself. -/
def isPlain (c : Char) : Bool := c != '%' && !Text.isBlank c

theorem specifier?_length {s rest : List Char} {items : Pattern}
    (h : specifier? s = some (items, rest)) : rest.length < s.length := by
  unfold specifier? at h
  split at h
  case h_6 | h_8 =>
    obtain ⟨_, _, h⟩ := Option.map_eq_some_iff.1 h
    cases h
    simp only [List.length_cons]
    omega
  case h_7 =>
    split at h
    · cases h
      simp only [List.length_cons]
      omega
    · obtain ⟨_, _, h⟩ := Option.map_eq_some_iff.1 h
      cases h
      simp only [List.length_cons]
      omega
  case h_9 => cases h
  all_goals
    cases h
    simp only [List.length_cons]
    omega

theorem afterPercent?_length {s rest : List Char} {items : Pattern}
    (h : afterPercent? s = some (items, rest)) : rest.length < s.length := by
  unfold afterPercent? at h
  split at h
  · cases h
  · split at h
    · exact specifier?_length h
    · obtain ⟨⟨items', rest'⟩, h', h⟩ := Option.bind_eq_some_iff.1 h
      obtain ⟨_, _, h⟩ := Option.map_eq_some_iff.1 h
      cases h
      have := specifier?_length h'
      simp only [List.length_cons]
      omega

/-- The items of a pattern; none if it is no pattern. -/
def readItems? : List Char → Option Pattern
  | [] => some []
  | c :: rest =>
    if c == '%' then
      match _h : afterPercent? rest with
      | none => none
      | some (items, rest') => (readItems? rest').map (items ++ ·)
    else if Text.isBlank c then
      (readItems? (rest.dropWhile Text.isBlank)).map
        (.blank (c :: rest.takeWhile Text.isBlank) :: ·)
    else
      (readItems? (rest.dropWhile isPlain)).map (.literal (c :: rest.takeWhile isPlain) :: ·)
termination_by s => s.length
decreasing_by
  · have := afterPercent?_length _h
    simp only [List.length_cons]
    omega
  · have := (List.dropWhile_suffix (l := rest) Text.isBlank).length_le
    simp only [List.length_cons]
    omega
  · have := (List.dropWhile_suffix (l := rest) isPlain).length_le
    simp only [List.length_cons]
    omega

/-- Reads a pattern. -/
def read? (pattern : String) : Option Pattern := readItems? pattern.toList

end Pattern

end Clauses.Calendar
