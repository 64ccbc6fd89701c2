import Clauses.Binary64.Basic
import Clauses.Decimal.Reader

/-!
# Reading floating point numbers

A number is an optional sign, digits with at most one point among them, and an optional exponent.
It is read as the nearest floating point number. A number that is too great for one is refused:
from half way between the greatest finite number and the next power of two on.

Exponents are compared with the length of the digits first, so that no power of ten is computed
that decides nothing.
-/

namespace Clauses.Binary64

/-- `d * 10 ^ e` is rounded to a finite number. -/
def isInRange (d : Nat) (e : Int) : Bool := compareDecimal d e (Nat.pow 2 54 - 1) 970 == .lt

/-- The finite floating point number that is nearest to `d * 10 ^ e`. -/
def ofScientific? (d : Nat) (e : Int) : Option Float :=
  if d = 0 then some 0
  else
    let length : Int := (Nat.toDigits 10 d).length
    if 400 < length + e then none
    else if length + e < -400 then some 0
    else if isInRange d e then some (Float.ofScientific d (e < 0) e.natAbs)
    else none

/-- Reads an exponent: nothing, or an exponent mark, an optional sign and digits. -/
def readExponent? : List Char → Option Int
  | [] => some 0
  | mark :: rest =>
    if Decimal.isExponentMark mark then
      let (negative, digits) := Decimal.splitSign rest
      if digits.isEmpty || !digits.all Char.isDigit then none
      else
        let n : Int := Text.digitsValue digits
        some (if negative then -n else n)
    else none

/-- Reads the digits around the point, and the exponent behind them. -/
def readMagnitude? (text : List Char) : Option Float :=
  let whole := text.takeWhile Char.isDigit
  let rest := text.dropWhile Char.isDigit
  let (places, rest) := match rest with
    | '.' :: rest => (rest.takeWhile Char.isDigit, rest.dropWhile Char.isDigit)
    | rest => ([], rest)
  if whole.isEmpty && places.isEmpty then none
  else
    (readExponent? rest).bind fun e =>
      ofScientific? (Text.digitsValue (whole ++ places)) (e - places.length)

/-- Reads a finite floating point number. -/
def read? (text : String) : Option Float :=
  let (negative, magnitude) := Decimal.splitSign text.toList
  (readMagnitude? magnitude).map fun x => if negative then -x else x

end Clauses.Binary64
