/-!
# Binary floating point numbers as exact numbers

A finite 64-bit floating point number is `± m * 2 ^ q`. The real numbers that are rounded to it
form an interval around it, from half way to the number below to half way to the number above. The
ends belong to it exactly when `m` is even.

* `Binary64.ofFloat` — `m`, `q` and the width of the interval
* `Binary64.holds` — a decimal lies in the interval, compared in exact natural numbers
-/

namespace Clauses

/-- The magnitude of a finite floating point number, `m * 2 ^ q`. -/
structure Binary64 where
  m : Nat
  q : Int
  /-- The gap to the number below is half the gap to the number above. -/
  narrowBelow : Bool
deriving DecidableEq, Repr

namespace Binary64

/-- The field of the exponent. -/
def exponentField (x : Float) : Nat := ((x.toBits >>> 52) &&& 0x7FF).toNat

/-- The field of the fraction. -/
def fractionField (x : Float) : Nat := (x.toBits &&& 0xFFFFFFFFFFFFF).toNat

/-- The sign bit is set: it is for negative zero too. -/
def signBit (x : Float) : Bool := x.toBits >>> 63 != 0

/-- Neither infinite nor the result of an invalid operation. -/
def isFinite (x : Float) : Bool := exponentField x != 0x7FF

/-- The magnitude of a finite number. -/
def ofFloat (x : Float) : Binary64 :=
  let e := exponentField x
  let f := fractionField x
  if e = 0 then ⟨f, -1074, false⟩
  else ⟨Nat.pow 2 52 + f, (e : Int) - 1075, f == 0 && 1 < e⟩

/-! ## Exact comparison -/

/-- Numerator of `a * 2 ^ i`. -/
def binaryNum (a : Nat) (i : Int) : Nat := a * Nat.pow 2 i.toNat

/-- Denominator of `a * 2 ^ i`. -/
def binaryDen (i : Int) : Nat := Nat.pow 2 (-i).toNat

/-- Numerator of `d * 10 ^ e`. -/
def decimalNum (d : Nat) (e : Int) : Nat := d * Nat.pow 10 e.toNat

/-- Denominator of `d * 10 ^ e`. -/
def decimalDen (e : Int) : Nat := Nat.pow 10 (-e).toNat

/-- Compares `d * 10 ^ e` with `a * 2 ^ i`. -/
def compareDecimal (d : Nat) (e : Int) (a : Nat) (i : Int) : Ordering :=
  compare (decimalNum d e * binaryDen i) (binaryNum a i * decimalDen e)

/-- Four times the lower end of the interval, in units of `2 ^ q`. -/
def lowEnd (x : Binary64) : Nat := 4 * x.m - if x.narrowBelow then 1 else 2

/-- Four times the upper end of the interval, in units of `2 ^ q`. -/
def highEnd (x : Binary64) : Nat := 4 * x.m + 2

/-- The decimal `d * 10 ^ e` is rounded to `x`. -/
def holds (x : Binary64) (d : Nat) (e : Int) : Bool :=
  match compareDecimal d e x.lowEnd (x.q - 2), compareDecimal d e x.highEnd (x.q - 2) with
  | .gt, .lt => true
  | .eq, .lt => x.m % 2 == 0
  | .gt, .eq => x.m % 2 == 0
  | _, _ => false

end Binary64

end Clauses
