import Clauses.Decimal.Rounding

/-!
# Reading decimal numbers

A decimal in plain notation is an optional sign, digits, and at most one point among them; a `_`
may stand anywhere behind the first digit. A number with more digits than a decimal holds is
rounded when the digits that do not fit are behind the point, and refused otherwise. The rounding
looks at the first digit that is dropped and at no other.

What a `_` behind the last place means depends on the digits before it.

* In a short number it counts as the digit zero, which is dropped with all that follows.
* In any other number it is passed over, and the digit behind it is the first that is dropped.

Scientific notation is tried where plain notation does not apply: a plain decimal, `e` or `E`, and
an exponent between -28 and 28. With a negative exponent the number is rounded to the greatest
scale.

## Termination

`readDigits` and `roundOff` walk down the text.
-/

namespace Clauses.Decimal

/-- A character that may stand behind the last digit that counts. -/
def isSpareDigit (c : Char) : Bool := c.isDigit || c == '_'

/--
Drops the digit `digit` and all that is behind it, where `coefficient` and `scale` are what stands
before them: from five on the coefficient goes up by one. If that is one too many, the coefficient
gives up its last digit.
-/
def roundOff (coefficient scale digit : Nat) (rest : List Char) : Option (Nat × Nat) :=
  if rest.all isSpareDigit then
    if digit < 5 then some (coefficient, scale)
    else if coefficient + 1 < bound then some (coefficient + 1, scale)
    else if scale = 0 then none
    else some ((coefficient + 5) / 10, scale - 1)
  else none

/-- A number is short as long as all its digits but the last make less than this. -/
def shortBound : Nat := UInt64.size / 10 - 255

/-- The coefficient of a short number. -/
def isShort (coefficient : Nat) : Bool := coefficient / 10 < shortBound

/--
Coefficient and scale of the digits that follow, behind those already in `coefficient` and
`scale`. `pointed` tells that the point has been passed, `started` that there was a digit.
-/
def readDigits (pointed started : Bool) (coefficient scale : Nat) :
    List Char → Option (Nat × Nat)
  | [] => if started then some (coefficient, scale) else none
  | c :: rest =>
    let full := pointed && scale == maxScale
    if c.isDigit then
      let digit := c.toNat - 48
      if coefficient * 10 + digit < bound && !full then
        readDigits pointed true (coefficient * 10 + digit) (if pointed then scale + 1 else scale)
          rest
      else if pointed then roundOff coefficient scale digit rest
      else none
    else if c == '.' && !pointed then readDigits true started coefficient scale rest
    else if c == '_' && started then
      if full && isShort coefficient then roundOff coefficient scale 0 rest
      else readDigits pointed started coefficient scale rest
    else none

/-- Takes a sign off the front of a text; the flag tells a minus. -/
def splitSign : List Char → Bool × List Char
  | '-' :: rest => (true, rest)
  | '+' :: rest => (false, rest)
  | text => (false, text)

/-- Reads plain notation. -/
def ofPlain? (text : List Char) : Option Decimal :=
  let (negative, digits) := splitSign text
  (readDigits false false 0 0 digits).bind fun (coefficient, scale) =>
    ofParts? negative coefficient scale

/-- Reads a natural number below `limit`: digits, with a plus before them if need be. -/
def readBelow? (limit : Nat) (text : List Char) : Option Nat :=
  let digits := match text with
    | '+' :: rest => rest
    | _ => text
  if digits.isEmpty || !digits.all Char.isDigit then none
  else
    let n := Text.digitsValue digits
    if n < limit then some n else none

/-- The number `d * 10 ^ exponent`, where it fits. -/
def scaleUp? (d : Decimal) (exponent : Nat) : Option Decimal :=
  if exponent ≤ d.scale then ofParts? d.negative d.coefficient (d.scale - exponent)
  else if exponent ≤ maxScale then
    ofParts? d.negative (d.coefficient * Nat.pow 10 (exponent - d.scale)) 0
  else none

/-- The number `d / 10 ^ exponent`, rounded to the greatest scale. -/
def scaleDown? (d : Decimal) (exponent : Nat) : Option Decimal :=
  if exponent ≤ maxScale then some (d.shiftDown exponent) else none

/-- A character that starts an exponent. -/
def isExponentMark (c : Char) : Bool := c == 'e' || c == 'E'

/-- Reads scientific notation: what stands before the first exponent mark is in plain notation. -/
def ofScientific? (text : List Char) : Option Decimal :=
  match text.dropWhile (fun c => !isExponentMark c) with
  | [] => none
  | _ :: exponent => do
    let base ← ofPlain? (text.takeWhile fun c => !isExponentMark c)
    match exponent with
    | '-' :: digits => scaleDown? base (← readBelow? UInt32.size digits)
    | digits => scaleUp? base (← readBelow? UInt32.size digits)

/-- Reads a number in plain or scientific notation. -/
def read? (text : String) : Option Decimal :=
  (ofPlain? text.toList).orElse fun _ => ofScientific? text.toList

end Clauses.Decimal
