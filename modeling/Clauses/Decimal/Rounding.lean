import Clauses.Decimal.Basic

/-!
# Rounding decimals and filling them up

Two ways to give a number another scale.

* `Decimal.roundTo`, `Decimal.shiftDown` — fewer digits behind the point, a half away from zero
* `Decimal.fillTo` — zeros behind the last digit, as far as 96 bits hold them
-/

namespace Clauses

namespace Decimal

/-! ## Rounding -/

/-- `n / 10 ^ k` to the nearest integer, a half up. -/
def roundedQuotient (n k : Nat) : Nat :=
  n / Nat.pow 10 k + if Nat.pow 10 k ≤ 2 * (n % Nat.pow 10 k) then 1 else 0

@[simp] theorem roundedQuotient_zero (n : Nat) : roundedQuotient n 0 = n := by
  unfold roundedQuotient
  rw [show Nat.pow 10 0 = 1 from rfl]
  split <;> omega

theorem roundedQuotient_lt {n k b : Nat} (hn : n < b) (hb : 10 ≤ b) :
    roundedQuotient n k < b := by
  cases k with
  | zero => simpa using hn
  | succ j =>
    have h10 : n / Nat.pow 10 (j + 1) ≤ n / 10 := by
      rw [Nat.pow_eq, Nat.pow_succ, Nat.mul_comm, ← Nat.div_div_eq_div_mul]
      exact Nat.div_le_self _ _
    unfold roundedQuotient
    split <;> omega

/--
The decimal rounded to at most `places` digits behind the point, a half away from zero. A number
that is rounded to zero has no sign, but zero itself keeps its own.
-/
def roundTo (d : Decimal) (places : Nat) : Decimal :=
  if h : places < d.scale then
    { negative := d.negative &&
        (d.isZero || roundedQuotient d.coefficient (d.scale - places) != 0)
      coefficient := roundedQuotient d.coefficient (d.scale - places)
      scale := places
      coefficient_lt := roundedQuotient_lt d.coefficient_lt (by decide)
      scale_le := by have := d.scale_le; omega }
  else d

/--
The number `d / 10 ^ exponent`, where its exact scale is within reach or else rounded to the
greatest scale, a half away from zero. The sign stays even where nothing else does.
-/
def shiftDown (d : Decimal) (exponent : Nat) : Decimal where
  negative := d.negative
  coefficient := roundedQuotient d.coefficient (d.scale + exponent - maxScale)
  scale := min (d.scale + exponent) maxScale
  coefficient_lt := roundedQuotient_lt d.coefficient_lt (by decide)
  scale_le := Nat.min_le_right _ _

/-! ## Filling up -/

/-- Coefficient and scale after up to `n` more zeros, as long as the coefficient holds them. -/
def fillUp : (n coefficient scale : Nat) → Nat × Nat
  | 0, c, s => (c, s)
  | n + 1, c, s => if c * 10 < bound then fillUp n (c * 10) (s + 1) else (c, s)

theorem fillUp_fst_lt {n c s : Nat} (h : c < bound) : (fillUp n c s).1 < bound := by
  induction n generalizing c s with
  | zero => exact h
  | succ n ih =>
    simp only [fillUp]
    split
    · exact ih ‹_›
    · exact h

theorem fillUp_snd_le (n c s : Nat) : (fillUp n c s).2 ≤ s + n := by
  induction n generalizing c s with
  | zero => simp [fillUp]
  | succ n ih =>
    simp only [fillUp]
    split
    · have := ih (c * 10) (s + 1)
      omega
    · omega

/-- The decimal with zeros added behind its last digit, up to `places` digits behind the point. -/
def fillTo (d : Decimal) (places : Nat) (h : places ≤ 28) : Decimal where
  negative := d.negative
  coefficient := (fillUp (places - d.scale) d.coefficient d.scale).1
  scale := (fillUp (places - d.scale) d.coefficient d.scale).2
  coefficient_lt := fillUp_fst_lt d.coefficient_lt
  scale_le := by
    have := fillUp_snd_le (places - d.scale) d.coefficient d.scale
    have := d.scale_le
    omega

end Decimal

end Clauses
