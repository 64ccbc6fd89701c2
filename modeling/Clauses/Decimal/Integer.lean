import Clauses.Decimal.Reader

/-!
# 64-bit integers as text

An integer is read from digits with an optional sign, or from any decimal notation of an integral
number, as long as it fits into 64 bits.
-/

namespace Clauses.Integer

/-- The integer as a 64-bit word, where it fits. -/
def ofInt? (n : Int) : Option Int64 :=
  if Int64.minValue.toInt ≤ n ∧ n ≤ Int64.maxValue.toInt then some (Int64.ofInt n) else none

theorem toInt_of_ofInt? {n : Int} {m : Int64} (h : ofInt? n = some m) : m.toInt = n := by
  unfold ofInt? at h
  split at h
  · rename_i hr
    cases h
    rw [Int64.toInt_minValue, Int64.toInt_maxValue] at hr
    exact Int64.toInt_ofInt_of_le (by omega) (by omega)
  · simp at h

/-- The integer in decimal. -/
def text (n : Int) : String :=
  String.ofList (if n < 0 then '-' :: Nat.toDigits 10 n.natAbs else Nat.toDigits 10 n.natAbs)

/-- Reads digits with an optional sign. -/
def ofDigits? (text : List Char) : Option Int64 :=
  let (negative, digits) := Decimal.splitSign text
  if digits.isEmpty || !digits.all Char.isDigit then none
  else
    let n : Int := Text.digitsValue digits
    ofInt? (if negative then -n else n)

/-- The integer that a decimal stands for, if it is one. -/
def ofDecimal? (d : Decimal) : Option Int64 :=
  if d.isIntegral then
    let n : Int := d.wholePart
    ofInt? (if d.negative then -n else n)
  else none

/-- Reads an integer in any notation of numbers. -/
def read? (text : String) : Option Int64 :=
  (ofDigits? text.toList).orElse fun _ => (Decimal.read? text).bind ofDecimal?

end Clauses.Integer
