import Clauses.Codec.Encode
import Clauses.Proofs.Numerals
import Mathlib.Algebra.Order.Field.Power
import Mathlib.Tactic.NormNum.Pow

/-!
# The texts of floating point numbers are read

A floating point number is written with the fewest digits that are rounded to it, in plain notation.
So what is written is another number in general, but one of the interval that is rounded to the
floating point number. The bounds of this interval decide which readers take the text.

* `Binary64.Rounded`, `Binary64.rounded_written` — the interval of a floating point number, and
  what is written lies in it
* `Binary64.exists_floatText` — the text is a numeral of what is written
* `Binary64.exists_read?_floatText` — every finite number is read from its text
* `Binary64.exists_decimal_floatText_iff` — a decimal is read from it exactly if the number is below
  the bound of the coefficients of decimals
-/

namespace Clauses

namespace Binary64

/-! ## Floating point numbers as rationals -/

/-- The magnitude of a floating point number. -/
def toRat (x : Binary64) : ℚ := x.m * 2 ^ x.q

/-- A power with an exponent of any sign is a quotient of two powers. -/
theorem zpow_eq_div {b : ℚ} (hb : b ≠ 0) (i : ℤ) : b ^ i = b ^ i.toNat / b ^ (-i).toNat := by
  rw [← zpow_natCast, ← zpow_natCast, ← zpow_sub₀ hb, Int.toNat_sub_toNat_neg]

theorem binaryNum_div_binaryDen (a : ℕ) (i : ℤ) :
    (binaryNum a i / binaryDen i : ℚ) = a * 2 ^ i := by
  rw [zpow_eq_div two_ne_zero, binaryNum, binaryDen, Nat.pow_eq, Nat.pow_eq]
  push_cast
  rw [mul_div_assoc]

theorem decimalNum_div_decimalDen (d : ℕ) (e : ℤ) :
    (decimalNum d e / decimalDen e : ℚ) = d * 10 ^ e := by
  rw [zpow_eq_div (by norm_num), decimalNum, decimalDen, Nat.pow_eq, Nat.pow_eq]
  push_cast
  rw [mul_div_assoc]

theorem binaryDen_pos (i : ℤ) : 0 < binaryDen i := Nat.pow_pos (by decide)

theorem decimalDen_pos (e : ℤ) : 0 < decimalDen e := Nat.pow_pos (by decide)

/-- A decimal is compared with a number in powers of two as the rationals are. -/
theorem compareDecimal_compares (d : ℕ) (e : ℤ) (a : ℕ) (i : ℤ) :
    (compareDecimal d e a i).Compares ((d : ℚ) * 10 ^ e) (a * 2 ^ i) := by
  have hden : (0 : ℚ) < decimalDen e := by exact_mod_cast decimalDen_pos e
  have hbin : (0 : ℚ) < binaryDen i := by exact_mod_cast binaryDen_pos i
  rw [← binaryNum_div_binaryDen, ← decimalNum_div_decimalDen, compareDecimal]
  rcases lt_trichotomy (decimalNum d e * binaryDen i) (binaryNum a i * decimalDen e) with h | h | h
  · rw [compare_lt_iff_lt.mpr h, Ordering.Compares, div_lt_div_iff₀ hden hbin]
    exact_mod_cast h
  · rw [compare_eq_iff_eq.mpr h, Ordering.Compares, div_eq_div_iff hden.ne' hbin.ne']
    exact_mod_cast h
  · rw [compare_gt_iff_gt.mpr h, Ordering.Compares, gt_iff_lt, div_lt_div_iff₀ hbin hden]
    exact_mod_cast h

/-! ## Intervals -/

/-- The number lies in the interval of those that are rounded to `x`. -/
structure Rounded (x : Binary64) (n : ℚ) : Prop where
  low_le : x.lowEnd * 2 ^ (x.q - 2) ≤ n
  le_high : n ≤ x.highEnd * 2 ^ (x.q - 2)
  lt_high : x.m % 2 ≠ 0 → n < x.highEnd * 2 ^ (x.q - 2)

variable {x : Binary64} {d : ℕ} {e : ℤ}

theorem rounded_of_holds (h : x.holds d e = true) : x.Rounded (d * 10 ^ e) := by
  have hlow := compareDecimal_compares d e x.lowEnd (x.q - 2)
  have hhigh := compareDecimal_compares d e x.highEnd (x.q - 2)
  unfold holds at h
  split at h
  · next hl hh =>
    rw [hl] at hlow
    rw [hh] at hhigh
    exact ⟨le_of_lt hlow, le_of_lt hhigh, fun _ => hhigh⟩
  · next hl hh =>
    rw [hl] at hlow
    rw [hh] at hhigh
    exact ⟨le_of_eq hlow.symm, le_of_lt hhigh, fun _ => hhigh⟩
  · next hl hh =>
    rw [hl] at hlow
    rw [hh] at hhigh
    exact ⟨le_of_lt hlow, le_of_eq hhigh, fun hodd => absurd (beq_iff_eq.mp h) hodd⟩
  · cases h

/-- In units of a quarter. -/
theorem toRat_eq_quarters (x : Binary64) : x.toRat = (4 * x.m : ℕ) * 2 ^ (x.q - 2) := by
  rw [toRat, zpow_sub₀ two_ne_zero]
  push_cast
  ring

theorem rounded_toRat (x : Binary64) : x.Rounded x.toRat := by
  have hpos : (0 : ℚ) < 2 ^ (x.q - 2) := by positivity
  have hlow : x.lowEnd ≤ 4 * x.m := Nat.sub_le _ _
  have hhigh : 4 * x.m < x.highEnd := by rw [highEnd]; omega
  rw [toRat_eq_quarters]
  refine ⟨?_, ?_, fun _ => ?_⟩ <;> gcongr

/-! ## Shortest digits -/

theorem holds_of_candidate? (h : x.candidate? e = some d) : x.holds d e = true := by
  unfold candidate? at h
  dsimp only at h
  split at h
  · split at h <;> cases h <;> assumption
  · cases h
    assumption
  · cases h
    assumption
  · cases h

theorem holds_of_searchDigits {k : ℤ} {n fuel : ℕ} (h : x.searchDigits k n fuel = some (d, e)) :
    x.holds d e = true := by
  induction fuel generalizing n with
  | zero => cases h
  | succ fuel ih =>
    rw [searchDigits] at h
    split at h
    · next hd =>
      cases h
      exact holds_of_candidate? hd
    · exact ih h

/-- The exact value is a decimal, because two divides ten. -/
theorem exact_eq (x : Binary64) : (x.exact.1 : ℚ) * 10 ^ x.exact.2 = x.toRat := by
  have hmin : min x.q 0 = -(-x.q).toNat := by omega
  have hten : (10 : ℚ) = 2 * 5 := by norm_num
  rw [exact, toRat, ← binaryNum_div_binaryDen, binaryDen, Nat.pow_eq, Nat.pow_eq]
  dsimp only
  rw [hmin, zpow_neg, zpow_natCast, hten, mul_pow]
  push_cast
  field_simp

/-- The shortest digits are of a number that is rounded to the floating point number. -/
theorem rounded_shortest (x : Binary64) : x.Rounded (x.shortest.1 * 10 ^ x.shortest.2) := by
  unfold shortest
  cases h : x.searchDigits x.magnitude 1 17 with
  | none => exact x.exact_eq ▸ x.rounded_toRat
  | some r => exact rounded_of_holds (holds_of_searchDigits h)

/--
The number that is written: the shortest that is rounded to the floating point number, and zero as
it is.
-/
def written (x : Binary64) : ℚ := if x.m = 0 then 0 else x.shortest.1 * 10 ^ x.shortest.2

theorem rounded_written (x : Binary64) : x.Rounded x.written := by
  unfold written
  split
  · next hm =>
    have hzero : x.toRat = 0 := by rw [toRat, hm, Nat.cast_zero, zero_mul]
    exact hzero ▸ x.rounded_toRat
  · exact x.rounded_shortest

/-! ## Bounds -/

/-- The parts are those of a finite number of 64 bits. -/
structure InFormat (x : Binary64) : Prop where
  m_lt : x.m < 2 ^ 53
  q_le : x.q ≤ 971
  le_m : -1074 < x.q → 2 ^ 52 ≤ x.m
  narrowBelow_iff : x.narrowBelow = true ↔ x.m = 2 ^ 52 ∧ -1074 < x.q

theorem exponentField_lt {x : Float} (h : isFinite x = true) : exponentField x < 2047 := by
  have hle : exponentField x ≤ 2047 := by
    rw [exponentField, UInt64.toNat_and]
    exact Nat.and_le_right
  have hne : exponentField x ≠ 2047 := bne_iff_ne.mp h
  omega

theorem fractionField_lt (x : Float) : fractionField x < 2 ^ 52 := by
  have hle : fractionField x ≤ 2 ^ 52 - 1 := by
    rw [fractionField, UInt64.toNat_and]
    exact Nat.and_le_right
  omega

theorem inFormat_ofFloat {x : Float} (h : isFinite x = true) : (ofFloat x).InFormat := by
  have he := exponentField_lt h
  have hf := fractionField_lt x
  unfold ofFloat
  dsimp only
  rw [Nat.pow_eq]
  split
  · refine ⟨Nat.lt_trans hf (by norm_num), by norm_num, fun h => absurd h (lt_irrefl _), ?_⟩
    exact iff_of_false Bool.false_ne_true fun h => lt_irrefl _ h.2
  · constructor <;> dsimp only
    · omega
    · omega
    · omega
    · rw [Bool.and_eq_true, beq_iff_eq, decide_eq_true_iff]
      omega

namespace Rounded

variable {n : ℚ} {k : ℤ}

/--
What is rounded to a number is below the middle between the greatest number of the same exponent, or
of a greater one, and the number after it.
-/
theorem lt_of_q_le (h : x.Rounded n) (hx : x.InFormat) (hk : x.q ≤ k) :
    n < (2 ^ 55 - 2) * 2 ^ (k - 2) := by
  have hpos : (0 : ℚ) < 2 ^ (x.q - 2) := by positivity
  have hmono : (2 ^ 55 - 2) * (2 : ℚ) ^ (x.q - 2) ≤ (2 ^ 55 - 2) * 2 ^ (k - 2) := by
    gcongr
    norm_num
  refine lt_of_lt_of_le ?_ hmono
  have hm := hx.m_lt
  by_cases hlast : x.m = 2 ^ 53 - 1
  · -- the greatest number is odd, so that its interval is open
    have hlt := h.lt_high (by rw [hlast]; norm_num)
    rw [highEnd, hlast] at hlt
    norm_num at hlt ⊢
    exact hlt
  · have hhigh : (x.highEnd : ℚ) < 2 ^ 55 - 2 := by
      have hhigh : x.highEnd + 2 < 2 ^ 55 := by rw [highEnd]; omega
      have hhigh : (x.highEnd : ℚ) + 2 < 2 ^ 55 := by exact_mod_cast hhigh
      linarith
    exact h.le_high.trans_lt (mul_lt_mul_of_pos_right hhigh hpos)

/-- What is rounded to a number above a power of two is not below it. -/
theorem le_of_le_q (h : x.Rounded n) (hx : x.InFormat) (hk : -1074 < k) (hq : k ≤ x.q)
    (hne : x.q = k → x.m ≠ 2 ^ 52) : 2 ^ 54 * 2 ^ (k - 2) ≤ n := by
  have hm := hx.le_m (by omega)
  rcases hq.eq_or_lt with heq | hlt
  · have hlow : (2 ^ 54 : ℚ) ≤ x.lowEnd := by
      have hlow : 2 ^ 54 ≤ x.lowEnd := by
        have := hne heq.symm
        rw [lowEnd]
        split <;> omega
      exact_mod_cast hlow
    rw [heq]
    exact (mul_le_mul_of_nonneg_right hlow (by positivity)).trans h.low_le
  · have hlow : (2 ^ 53 : ℚ) ≤ x.lowEnd := by
      have hlow : 2 ^ 53 ≤ x.lowEnd := by
        rw [lowEnd]
        split <;> omega
      exact_mod_cast hlow
    calc (2 ^ 54 : ℚ) * 2 ^ (k - 2) = 2 ^ 53 * 2 ^ (k + 1 - 2) := by
          rw [add_sub_right_comm, zpow_add_one₀ two_ne_zero]
          ring
      _ ≤ x.lowEnd * 2 ^ (x.q - 2) := by
          gcongr
          · norm_num
          · omega
      _ ≤ n := h.low_le

end Rounded

/-- The power of two that decimals stay below is written as a number above it. -/
theorem written_bound : (⟨2 ^ 52, 44, true⟩ : Binary64).written = 7922816251426434 * 10 ^ 13 := by
  have hshortest : (⟨2 ^ 52, 44, true⟩ : Binary64).shortest = (7922816251426434, 13) := by
    decide +kernel
  rw [written, if_neg (by norm_num), hshortest]
  norm_num

/-- Decimals hold what is written if, and only if, they hold the number itself. -/
theorem written_lt_iff (hx : x.InFormat) :
    x.written + 1 / 2 < Decimal.bound ↔ x.toRat < Decimal.bound := by
  have hbound : (Decimal.bound : ℚ) = 2 ^ 54 * 2 ^ ((44 : ℤ) - 2) := by
    rw [Decimal.bound, Nat.pow_eq]
    norm_num
  rcases lt_or_ge x.q 44 with hlow | hhigh
  · have hlt {n : ℚ} (h : x.Rounded n) : n + 1 / 2 < Decimal.bound := by
      have hlt : n < (2 ^ 55 - 2) * 2 ^ ((43 : ℤ) - 2) := h.lt_of_q_le hx (by omega)
      rw [hbound]
      norm_num at hlt ⊢
      linarith
    exact iff_of_true (hlt x.rounded_written) (by linarith [hlt x.rounded_toRat])
  · by_cases hpower : x.q = 44 ∧ x.m = 2 ^ 52
    · have heq : x = ⟨2 ^ 52, 44, true⟩ := by
        have hnarrow := hx.narrowBelow_iff.mpr ⟨hpower.2, by omega⟩
        obtain ⟨m, q, narrowBelow⟩ := x
        obtain ⟨rfl, rfl⟩ := hpower
        rw [show narrowBelow = true from hnarrow]
      rw [hbound, heq, written_bound, toRat]
      norm_num
    · have hge {n : ℚ} (h : x.Rounded n) : (Decimal.bound : ℚ) ≤ n :=
        hbound ▸ h.le_of_le_q hx (by norm_num) hhigh fun hq hm => hpower ⟨hq, hm⟩
      exact iff_of_false (by linarith [hge x.rounded_written]) (not_lt.mpr (hge x.rounded_toRat))

/-! ## Texts are numerals -/

/-- Zeros that are taken off are factors of ten. -/
theorem dropZeros_spec (n d : ℕ) :
    (dropZeros n d).1 ≤ n ∧ d = (dropZeros n d).2 * 10 ^ (n - (dropZeros n d).1) := by
  induction n generalizing d with
  | zero => exact ⟨Nat.le_refl 0, (Nat.mul_one d).symm⟩
  | succ n ih =>
    rw [dropZeros]
    split
    · next hten =>
      obtain ⟨hle, hd⟩ := ih (d / 10)
      refine ⟨by omega, ?_⟩
      rw [Nat.succ_sub hle, pow_succ, ← mul_assoc, ← hd]
      omega
    · exact ⟨Nat.le_refl _, by rw [Nat.sub_self, pow_zero, mul_one]⟩

/-- A numeral is made of a sign, the digits of a number and zeros behind them. -/
theorem exists_integral (negative : Bool) (d zeros : ℕ) : ∃ t : Numeral, t.negative = negative ∧
    t.unsigned = Nat.toDigits 10 d ++ List.replicate zeros '0' ∧ t.magnitude = d * 10 ^ zeros := by
  have hdigits : ∀ c ∈ (Nat.toDigits 10 d ++ List.replicate zeros '0') ++ [], c.isDigit = true := by
    intro c hc
    rw [List.append_nil] at hc
    rcases List.mem_append.mp hc with h | h
    · exact Nat.isDigit_of_mem_toDigits (by decide) (by decide) h
    · rw [List.eq_of_mem_replicate h]
      decide
  refine ⟨⟨negative, _, [], by simp [Nat.toDigits_ne_nil], hdigits⟩, rfl,
    by simp [Numeral.unsigned], ?_⟩
  rw [Numeral.magnitude, Text.digitsValue]
  simp [Nat.ofDigitChars_append, Nat.ofDigitChars_replicate_zero, mul_comm]

/-- Plain notation of a decimal is a numeral of it. -/
theorem exists_plainText (negative : Bool) (d : ℕ) (e : ℤ) : ∃ t : Numeral, t.negative = negative ∧
    t.unsigned = plainText d e ∧ t.magnitude = d * 10 ^ e := by
  unfold plainText
  split
  · next he =>
    obtain ⟨zeros, rfl⟩ := Int.eq_ofNat_of_zero_le he
    rw [zpow_natCast]
    split
    · next hd =>
      obtain ⟨t, hsign, htext, hvalue⟩ := exists_integral negative 0 0
      exact ⟨t, hsign, htext, by rw [hvalue, hd]; simp⟩
    · exact exists_integral negative d zeros
  · next he =>
    obtain ⟨n, hn⟩ := Int.eq_ofNat_of_zero_le (show 0 ≤ -e by omega)
    obtain rfl : e = -n := by omega
    rw [neg_neg, Int.toNat_natCast]
    obtain ⟨hle, hd⟩ := dropZeros_spec n d
    cases hdrop : dropZeros n d with
    | mk places d' =>
    rw [hdrop] at hle hd
    dsimp only at hle hd ⊢
    have hvalue : (d : ℚ) * 10 ^ (-n : ℤ) = d' / 10 ^ places := by
      rw [hd, zpow_neg, zpow_natCast, ← div_eq_mul_inv,
        div_eq_div_iff (by positivity) (by positivity)]
      push_cast
      rw [mul_assoc, ← pow_add, Nat.sub_add_cancel hle]
    rw [hvalue]
    split
    · next hplaces =>
      obtain ⟨t, hsign, htext, hmagnitude⟩ := exists_integral negative d' 0
      refine ⟨t, hsign, by rw [htext]; simp, by rw [hmagnitude, hplaces]; simp⟩
    · next hplaces =>
      obtain ⟨last, hlength, hdigits, hlast, hpadded, htake, hdrop⟩ := Text.exists_cut places d'
      have hall : ∀ c ∈ Nat.toDigits 10 (d' / 10 ^ places) ++ last, c.isDigit = true :=
        fun c hc => Text.isDigit_of_mem_zeroPadded (hpadded ▸ hc)
      refine ⟨⟨negative, _, last, Nat.toDigits_ne_nil, hall⟩, rfl, ?_, ?_⟩
      · have hne : last ≠ [] := List.ne_nil_of_length_pos (by omega)
        rw [htake, hdrop, Numeral.unsigned, if_neg hne]
      · rw [Numeral.magnitude, Text.digitsValue, Nat.ofDigitChars_append,
          Nat.ofDigitChars_ten_toDigits, hlast, hlength]

/-! ## Zero -/

/-- What equals zero is one of the two zeros. -/
theorem exists_unpack_eq_zero {x : Float} (h : (x == 0) = true) :
    ∃ sign, x.toModel.unpack = .zero sign := by
  have hcompare : x.toModel.unpack.compare (.zero .positive) = some .eq := beq_iff_eq.mp h
  cases hx : x.toModel.unpack with
  | zero sign => exact ⟨sign, rfl⟩
  | notANumber => rw [hx] at hcompare; cases hcompare
  | infinity sign => rw [hx] at hcompare; cases sign <;> cases hcompare
  | finite sign => rw [hx] at hcompare; cases sign <;> cases hcompare

theorem exponentField_eq (x : Float) :
    exponentField x
      = (@Float.Model.UnpackedFloat.unpackExponent .binary64 x.toBits.toBitVec).toNat := by
  rw [exponentField, UInt64.toNat_and, UInt64.toNat_shiftRight]
  exact Nat.and_two_pow_sub_one_eq_mod _ 11

theorem fractionField_eq (x : Float) :
    fractionField x
      = (@Float.Model.UnpackedFloat.unpackMantissa .binary64 x.toBits.toBitVec).toNat := by
  rw [fractionField, UInt64.toNat_and]
  exact Nat.and_two_pow_sub_one_eq_mod _ 52

/-- Both zeros are zero in all their bits but the sign. -/
theorem m_eq_zero {x : Float} (h : (x == 0) = true) : (ofFloat x).m = 0 := by
  obtain ⟨sign, hx⟩ := exists_unpack_eq_zero h
  change Float.Model.UnpackedFloat.unpack .binary64 x.toBits.toBitVec = _ at hx
  unfold Float.Model.UnpackedFloat.unpack at hx
  dsimp only at hx
  let exponent : BitVec 11 :=
    @Float.Model.UnpackedFloat.unpackExponent .binary64 x.toBits.toBitVec
  let fraction : BitVec 52 :=
    @Float.Model.UnpackedFloat.unpackMantissa .binary64 x.toBits.toBitVec
  by_cases hones : exponent = -1#11
  · rw [if_pos hones] at hx
    split at hx <;> cases hx
  · rw [if_neg hones] at hx
    by_cases hexponent : exponent = 0#11
    · rw [if_pos hexponent] at hx
      by_cases hfraction : fraction = 0#52
      · have hexponent : exponentField x = 0 :=
          (exponentField_eq x).trans (congrArg BitVec.toNat hexponent)
        have hfraction : fractionField x = 0 :=
          (fractionField_eq x).trans (congrArg BitVec.toNat hfraction)
        rw [ofFloat, hexponent, hfraction]
        rfl
      · rw [dif_neg hfraction] at hx
        cases hx
    · rw [if_neg hexponent] at hx
      cases hx

/-- A finite number is written as a numeral of a number that is rounded to it. -/
theorem exists_floatText {x : Float} (h : isFinite x = true) : ∃ t : Numeral,
    t.text = Value.floatText x ∧ |t.toRat| = (ofFloat x).written := by
  have hzero (negative : Bool) : ∃ t : Numeral, t.negative = negative ∧ t.unsigned = ['0'] ∧
      t.magnitude = 0 := by
    obtain ⟨t, hsign, htext, hvalue⟩ := exists_integral negative 0 0
    exact ⟨t, hsign, htext, by rw [hvalue, Nat.cast_zero, zero_mul]⟩
  unfold Value.floatText
  split
  · next hx =>
    obtain ⟨t, hsign, htext, hvalue⟩ := hzero false
    refine ⟨t, by rw [Numeral.text, hsign, htext]; rfl, ?_⟩
    rw [t.abs_toRat, hvalue, written, if_pos (m_eq_zero hx)]
  · have hmagnitude : ∃ t : Numeral, t.negative = signBit x ∧ t.unsigned = magnitudeText x ∧
        t.magnitude = (ofFloat x).written := by
      unfold magnitudeText written
      dsimp only
      split
      · exact hzero _
      · exact exists_plainText _ _ _
    obtain ⟨t, hsign, htext, hvalue⟩ := hmagnitude
    exact ⟨t, by rw [Numeral.text, hsign, htext, text, if_pos h], t.abs_toRat.trans hvalue⟩

/-! ## Reading -/

/-- From here on a number is too great for the format. -/
def limit : ℚ := ((2 ^ 54 - 1 : ℕ) : ℚ) * 2 ^ (970 : ℤ)

theorem limit_eq : limit = (2 ^ 55 - 2) * 2 ^ ((971 : ℤ) - 2) := by
  rw [limit, show (970 : ℤ) = 971 - 2 + 1 from rfl, zpow_add_one₀ two_ne_zero]
  generalize (2 : ℚ) ^ ((971 : ℤ) - 2) = power
  norm_num
  ring

theorem limit_lt : limit < 10 ^ (400 : ℤ) := by
  have hlt : ((2 ^ 54 - 1 : ℕ) : ℚ) < 2 ^ 54 := by norm_num
  calc limit < 2 ^ 54 * 2 ^ (970 : ℤ) := mul_lt_mul_of_pos_right hlt (by positivity)
    _ = 2 ^ 1024 := by rw [show (970 : ℤ) = (970 : ℕ) from rfl, zpow_natCast, ← pow_add]
    _ ≤ 2 ^ (3 * 400) := pow_le_pow_right₀ (by norm_num) (by norm_num)
    _ = 8 ^ 400 := by rw [pow_mul, show (2 : ℚ) ^ 3 = 8 by norm_num]
    _ ≤ 10 ^ 400 := pow_le_pow_left₀ (by norm_num) (by norm_num) 400
    _ = 10 ^ (400 : ℤ) := by rw [show (400 : ℤ) = (400 : ℕ) from rfl, zpow_natCast]

theorem isInRange_iff {d : ℕ} {e : ℤ} : isInRange d e = true ↔ (d : ℚ) * 10 ^ e < limit := by
  rw [isInRange, beq_iff_eq, limit, Nat.pow_eq]
  exact (compareDecimal_compares d e (2 ^ 54 - 1) 970).eq_lt

/-- A number has as many digits as powers of ten are not above it. -/
theorem pow_le_of_length_toDigits {d k : ℕ} (hd : d ≠ 0) (hk : k < (Nat.toDigits 10 d).length) :
    10 ^ k ≤ d := by
  rcases Nat.eq_zero_or_pos k with rfl | hpos
  · exact Nat.pos_of_ne_zero hd
  · exact Nat.le_of_not_lt fun hlt =>
      Nat.not_le.mpr hk ((Nat.length_toDigits_le_iff (by decide) hpos).mpr hlt)

/-- A number in the range of the format is read. -/
theorem exists_ofScientific? {d : ℕ} {e : ℤ} (h : (d : ℚ) * 10 ^ e < limit) :
    ∃ x, ofScientific? d e = some x := by
  unfold ofScientific?
  dsimp only
  split
  · exact ⟨_, rfl⟩
  · next hd =>
    have hlength : ¬400 < ((Nat.toDigits 10 d).length : ℤ) + e := by
      intro hlong
      obtain ⟨k, hk⟩ :=
        Nat.exists_eq_add_one_of_ne_zero (Nat.length_toDigits_pos (b := 10) (n := d)).ne'
      have hdigits : ((10 ^ k : ℕ) : ℚ) ≤ d := by
        exact_mod_cast pow_le_of_length_toDigits hd (by omega)
      have hlarge : (10 : ℚ) ^ (400 : ℤ) ≤ d * 10 ^ e := by
        calc (10 : ℚ) ^ (400 : ℤ) ≤ 10 ^ (k + e) := zpow_le_zpow_right₀ (by norm_num) (by omega)
          _ = (10 ^ k : ℕ) * 10 ^ e := by
            rw [zpow_add₀ (by norm_num), zpow_natCast, Nat.cast_pow, Nat.cast_ofNat]
          _ ≤ d * 10 ^ e := by gcongr
      exact absurd (hlarge.trans_lt (h.trans limit_lt)) (lt_irrefl _)
    rw [if_neg hlength, if_pos (isInRange_iff.mpr h)]
    split <;> exact ⟨_, rfl⟩

/-- The digits of a numeral are read together, and those behind the point are counted. -/
theorem readMagnitude?_unsigned (t : Numeral) : readMagnitude? t.unsigned
    = ofScientific? (Text.digitsValue (t.whole ++ t.places)) (-t.places.length) := by
  have hwhole : ∀ c ∈ t.whole, c.isDigit = true := fun _ => t.isDigit_whole
  have hplaces : ∀ c ∈ t.places, c.isDigit = true := fun _ => t.isDigit_places
  have hne : t.whole.isEmpty = false := List.isEmpty_eq_false_iff.mpr t.whole_ne_nil
  unfold readMagnitude? Numeral.unsigned
  rw [List.takeWhile_append_of_pos hwhole, List.dropWhile_append_of_pos hwhole]
  split
  · next hnone => simp [hne, hnone, readExponent?]
  · have hpoint : Char.isDigit '.' = false := by decide
    simp [hne, hpoint, List.takeWhile_eq_self_iff.mpr hplaces,
      List.dropWhile_eq_nil_iff.mpr hplaces, readExponent?]

/-- A numeral in the range of the format is read. -/
theorem exists_read?_numeral {t : Numeral} (h : |t.toRat| < limit) :
    ∃ x, read? t.text = some x := by
  have hmagnitude : |t.toRat| = Text.digitsValue
      (t.whole ++ t.places) * 10 ^ (-t.places.length : ℤ) := by
    rw [t.abs_toRat, Numeral.magnitude, zpow_neg, zpow_natCast, div_eq_mul_inv]
  obtain ⟨x, hx⟩ := exists_ofScientific? (hmagnitude ▸ h)
  rw [read?, t.splitSign_text]
  dsimp only
  rw [readMagnitude?_unsigned, hx]
  exact ⟨_, rfl⟩

/-- Every finite number is read from its text. -/
theorem exists_read?_floatText {x : Float} (h : isFinite x = true) :
    ∃ x', read? (Value.floatText x) = some x' := by
  obtain ⟨t, htext, hvalue⟩ := exists_floatText h
  have hx := inFormat_ofFloat h
  have hlt : (ofFloat x).written < limit := limit_eq ▸ (rounded_written _).lt_of_q_le hx hx.q_le
  rw [← htext]
  exact exists_read?_numeral (hvalue ▸ hlt)

/-- A decimal is read from it if, and only if, the number itself is below the bound. -/
theorem exists_decimal_floatText_iff {x : Float} (h : isFinite x = true) :
    (∃ d, Decimal.read? (Value.floatText x) = some d) ↔ (ofFloat x).toRat < Decimal.bound := by
  obtain ⟨t, htext, hvalue⟩ := exists_floatText h
  rw [← written_lt_iff (inFormat_ofFloat h), ← hvalue, ← htext, ← not_le, ← t.read?_eq_none_iff]
  exact Option.ne_none_iff_exists'.symm

end Binary64

end Clauses
