import Clauses.Text.Ascii

/-!
# Decimal numbers

A decimal is a sign, a coefficient of at most 96 bits and a scale of at most 28: the number
`± coefficient / 10 ^ scale`. The scale is part of the value, so `1.5` and `1.50` are two decimals
of one number, and so is the sign of zero.

* `Decimal.text` — the coefficient with `scale` digits behind the point
* `Decimal.SameNumber` — two decimals of one number
-/

namespace Clauses

/-- Coefficients stay below this bound, `2 ^ 96`. -/
def Decimal.bound : Nat := Nat.pow 2 96

/-- A decimal number, `± coefficient / 10 ^ scale`. -/
structure Decimal where
  negative : Bool
  coefficient : Nat
  scale : Nat
  coefficient_lt : coefficient < Decimal.bound
  scale_le : scale ≤ 28
deriving DecidableEq

namespace Decimal

/-- The greatest scale. -/
def maxScale : Nat := 28

/-- The decimal with these parts, where they fit. Zero comes out without a sign. -/
def ofParts? (negative : Bool) (coefficient scale : Nat) : Option Decimal :=
  if h : coefficient < bound ∧ scale ≤ 28 then
    some ⟨negative && coefficient != 0, coefficient, scale, h.1, h.2⟩
  else none

/-- The decimal of a 64-bit integer. -/
def ofInt64 (n : Int64) : Decimal where
  negative := n < 0
  coefficient := n.toInt.natAbs
  scale := 0
  coefficient_lt := by
    have h1 := n.toInt_lt
    have h2 := n.le_toInt
    have hb : bound = 79228162514264337593543950336 := rfl
    omega
  scale_le := by omega

/-- The coefficient with its sign. -/
def signed (d : Decimal) : Int := if d.negative then -d.coefficient else d.coefficient

/-- The number is zero. -/
def isZero (d : Decimal) : Bool := d.coefficient == 0

/-- The two decimals are of one number: cross-multiplied, their coefficients agree. -/
def SameNumber (a b : Decimal) : Prop :=
  a.signed * Int.pow 10 b.scale = b.signed * Int.pow 10 a.scale

instance (a b : Decimal) : Decidable (a.SameNumber b) :=
  inferInstanceAs (Decidable (_ = _))

theorem SameNumber.symm {a b : Decimal} (h : a.SameNumber b) : b.SameNumber a := Eq.symm h

/-- The number is an integer. -/
def isIntegral (d : Decimal) : Bool := d.coefficient % Nat.pow 10 d.scale == 0

/-- The digits in front of the point, as a number. -/
def wholePart (d : Decimal) : Nat := d.coefficient / Nat.pow 10 d.scale

/-! ## Text -/

/-- The digits without the sign: `scale` of them stand behind the point, at least one before. -/
def unsignedText (d : Decimal) : List Char :=
  let digits := Text.zeroPadded (d.scale + 1) d.coefficient
  let whole := digits.length - d.scale
  if d.scale = 0 then digits else digits.take whole ++ '.' :: digits.drop whole

/-- The number in plain notation. -/
def text (d : Decimal) : String :=
  String.ofList (if d.negative then '-' :: d.unsignedText else d.unsignedText)

end Decimal

end Clauses
