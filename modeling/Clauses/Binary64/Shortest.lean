import Clauses.Binary64.Basic
import Clauses.Text.Ascii

/-!
# Shortest decimal text of a floating point number

A finite number is written in plain notation with the fewest digits that are read back as the same
number, and of those the nearest to it; of two equally near the greater. There is no exponent, no
point behind an integer, and a sign in front of negative zero.

## How the digits are found

Let `10 ^ k` be the least power of ten above the number. With `n` digits the candidates are the two
multiples of `10 ^ (k - n)` around the number. The first `n` with a candidate that is read back
decides; 17 digits are always enough. Should they not be, the exact value would be written, so the
text is right in every case.
-/

namespace Clauses.Binary64

/-! ## Scale -/

/-- `m * 2 ^ q < 10 ^ k`. -/
def isBelowPower (x : Binary64) (k : Int) : Bool := compareDecimal 1 k x.m x.q == .gt

/-- The least of the `n` exponents from `k` on whose power of ten is above the number. -/
def leastPower (x : Binary64) (k : Int) : Nat → Int
  | 0 => k
  | n + 1 => if x.isBelowPower k then k else leastPower x (k + 1) n

/-- Number of digits in front of the point, counted down below zero for small numbers. -/
def magnitude (x : Binary64) : Int :=
  x.leastPower ((((x.m.log2 : Int) + x.q) * 301).fdiv 1000 - 1) 4

/-! ## Digits -/

/-- The greatest multiple of `10 ^ e` that is not above the number, as a factor of `10 ^ e`. -/
def floorAt (x : Binary64) (e : Int) : Nat :=
  (binaryNum x.m x.q * decimalDen e) / (binaryDen x.q * decimalNum 1 e)

/-- The number lies nearer to `d * 10 ^ e` than to `(d + 1) * 10 ^ e`. -/
def isNearerBelow (x : Binary64) (d : Nat) (e : Int) : Bool :=
  compareDecimal (2 * d + 1) e (2 * x.m) x.q == .gt

/-- The nearest multiple of `10 ^ e` that is read back as the number. -/
def candidate? (x : Binary64) (e : Int) : Option Nat :=
  let d := x.floorAt e
  match x.holds d e, x.holds (d + 1) e with
  | true, true => some (if x.isNearerBelow d e then d else d + 1)
  | true, false => some d
  | false, true => some (d + 1)
  | false, false => none

/-- The first number of digits from `n` on, up to `fuel` of them, that has a candidate. -/
def searchDigits (x : Binary64) (k : Int) (n : Nat) : (fuel : Nat) → Option (Nat × Int)
  | 0 => none
  | fuel + 1 =>
    match x.candidate? (k - n) with
    | some d => some (d, k - n)
    | none => searchDigits x k (n + 1) fuel

/-- The exact value as a decimal. -/
def exact (x : Binary64) : Nat × Int := (binaryNum x.m x.q * Nat.pow 5 (-x.q).toNat, min x.q 0)

/-- Digits and exponent of the shortest decimal that is read back as the number. -/
def shortest (x : Binary64) : Nat × Int := (x.searchDigits x.magnitude 1 17).getD x.exact

/-! ## Plain notation -/

/-- Takes the trailing zeros off a run of digits, at most `n` of them. -/
def dropZeros : (n d : Nat) → Nat × Nat
  | 0, d => (0, d)
  | n + 1, d => if d % 10 = 0 then dropZeros n (d / 10) else (n + 1, d)

/-- The number `d * 10 ^ e` without an exponent. -/
def plainText (d : Nat) (e : Int) : List Char :=
  if 0 ≤ e then
    if d = 0 then ['0'] else Nat.toDigits 10 d ++ List.replicate e.toNat '0'
  else
    let (places, d) := dropZeros (-e).toNat d
    if places = 0 then Nat.toDigits 10 d
    else
      let digits := Text.zeroPadded (places + 1) d
      let whole := digits.length - places
      digits.take whole ++ '.' :: digits.drop whole

/-- The text of the magnitude of a finite number. -/
def magnitudeText (x : Float) : List Char :=
  let b := ofFloat x
  if b.m = 0 then ['0'] else plainText b.shortest.1 b.shortest.2

/-- The text of any floating point number. -/
def text (x : Float) : String :=
  if isFinite x then
    String.ofList (if signBit x then '-' :: magnitudeText x else magnitudeText x)
  else if fractionField x != 0 then "NaN"
  else if signBit x then "-inf" else "inf"

end Clauses.Binary64
