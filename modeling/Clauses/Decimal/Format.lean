import Clauses.Decimal.Rounding

/-!
# Number formats

A number format fixes the text of a number, so that it can stand in a sortable key.

* `F` and a number of places: the number is rounded to that many places, a half away from zero,
  and then filled up with zeros behind the point as far as 96 bits hold them.
* `D` and a width: the number has to be integral; its digits are filled up with zeros in front.

The letter may be small. There are at most 28 places, and a width is at most 64.
-/

namespace Clauses

/-- A number format. -/
inductive NumberFormat where
  /-- This many digits behind the point. -/
  | fixed (places : Nat) (places_le : places ≤ 28)
  /-- An integer of at least this many digits. -/
  | padded (width : Nat) (width_le : width ≤ 64)

namespace NumberFormat

/-- Reads a number format. -/
def read? (format : String) : Option NumberFormat :=
  match format.toList with
  | [] => none
  | tag :: digits =>
    if digits.isEmpty || !digits.all Char.isDigit then none
    else
      let n := Text.digitsValue digits
      if tag.toUpper == 'F' then if h : n ≤ 28 then some (.fixed n h) else none
      else if tag.toUpper == 'D' then if h : n ≤ 64 then some (.padded n h) else none
      else none

/-- The number has no text in a format for integers of this width. -/
structure NotIntegral where
  width : Nat
  value : Decimal
deriving DecidableEq

/-- The text of a number in a format. -/
def render (format : NumberFormat) (d : Decimal) : Except NotIntegral String :=
  match format with
  | .fixed places h => .ok ((d.roundTo places).fillTo places h).text
  | .padded width _ =>
    if d.isIntegral then
      let digits := Text.zeroPadded width d.wholePart
      .ok (String.ofList (if d.negative && !d.isZero then '-' :: digits else digits))
    else .error ⟨width, d⟩

end NumberFormat

end Clauses
