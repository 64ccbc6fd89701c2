import Clauses.Proofs.Completing
import Clauses.Proofs.Numerals
import Mathlib.Data.Rat.Floor

/-!
# Numbers in a format

A number in a format is a text on the wire. With `F` it is rounded to some places and filled up with
zeros; with `D` it has to be an integer, and zeros are put in front of it. Either text is in plain
notation and of a number that a decimal can hold, so that it is read back as this number.

Filling up ends early where the coefficient would grow beyond 96 bits.

* `roundHalfAway` — a number rounded to some places, a half away from zero
* `Decimal.toRat_roundTo`, `Decimal.toRat_fillTo` — what rounding and filling up do to the number
* `NumberFormat.render_fixed`, `NumberFormat.render_padded` — the texts of both formats
* `Codec.formatted_number_comes_back` — a formatted number is read back, rounded with
  `F` and as it is with `D`
* `Codec.fixed_places` — how many places a number has with `F`
-/

namespace Clauses

/-! ## Rounding -/

/-- The number rounded to this many places, a half away from zero. -/
def roundHalfAway (q : ℚ) (places : ℕ) : ℚ :=
  (if q < 0 then -round (|q| * 10 ^ places) else round (|q| * 10 ^ places) : ℤ) / 10 ^ places

/-- A number that has no more places than that stays as it is. -/
theorem roundHalfAway_eq_self {q : ℚ} {places : ℕ} {units : ℤ} (h : |q| * 10 ^ places = units) :
    roundHalfAway q places = q := by
  have hpow : (10 : ℚ) ^ places ≠ 0 := by positivity
  rw [roundHalfAway, h, round_intCast, div_eq_iff hpow]
  split
  · next hneg =>
    rw [Int.cast_neg, ← h, abs_of_neg hneg, neg_mul, neg_neg]
  · next hneg => rw [← h, abs_of_nonneg (not_lt.mp hneg)]

theorem roundHalfAway_intCast (k : ℤ) (places : ℕ) : roundHalfAway k places = k :=
  @roundHalfAway_eq_self k places (|k| * 10 ^ places) (by push_cast; rfl)

namespace Decimal

/-- A quotient is rounded as the rational number is. -/
theorem roundedQuotient_eq_round (n k : ℕ) :
    (roundedQuotient n k : ℤ) = round ((n : ℚ) / 10 ^ k) := by
  have hpos : (0 : ℚ) < 10 ^ k := by positivity
  have hdiv : (n : ℚ) = 10 ^ k * (n / 10 ^ k : ℕ) + (n % 10 ^ k : ℕ) := by
    exact_mod_cast (Nat.div_add_mod n (10 ^ k)).symm
  have hmod : ((n % 10 ^ k : ℕ) : ℚ) < 10 ^ k := by
    exact_mod_cast Nat.mod_lt n (Nat.pow_pos (by decide))
  have hnonneg : (0 : ℚ) ≤ (n % 10 ^ k : ℕ) := Nat.cast_nonneg _
  symm
  rw [round_eq_iff, Set.mem_Ico, le_div_iff₀ hpos, div_lt_iff₀ hpos, hdiv, Int.cast_natCast]
  unfold roundedQuotient
  simp only [Nat.pow_eq]
  split
  · next hup =>
    have hup : (10 : ℚ) ^ k ≤ 2 * (n % 10 ^ k : ℕ) := by exact_mod_cast hup
    rw [Nat.cast_add, Nat.cast_one]
    constructor <;> linarith
  · next hdown =>
    have hdown : 2 * ((n % 10 ^ k : ℕ) : ℚ) < 10 ^ k := by exact_mod_cast Nat.lt_of_not_le hdown
    rw [Nat.add_zero]
    constructor <;> linarith

theorem toRat_neg_iff {d : Decimal} : d.toRat < 0 ↔ d.negative = true ∧ d.coefficient ≠ 0 := by
  have hpow : (0 : ℚ) < 10 ^ d.scale := by positivity
  rw [toRat, div_lt_iff₀ hpow, zero_mul, signed]
  cases d.negative <;> simp [Nat.pos_iff_ne_zero]

/-- A decimal of more places, counted in units of the last one that stays, is rounded. -/
theorem round_units {d : Decimal} {places : ℕ} (h : places < d.scale) :
    round (|d.toRat| * 10 ^ places) = roundedQuotient d.coefficient (d.scale - places) := by
  rw [roundedQuotient_eq_round, abs_toRat, ← Nat.sub_add_cancel h.le, pow_add, Nat.add_sub_cancel,
    div_mul_eq_mul_div, mul_div_mul_right _ _ (by positivity)]

/-- Zero is rounded to zero. -/
theorem roundedQuotient_ne_zero {n k : ℕ} (h : roundedQuotient n k ≠ 0) : n ≠ 0 := by
  rintro rfl
  refine h (Nat.cast_injective (R := ℤ) ?_)
  rw [roundedQuotient_eq_round, Nat.cast_zero, zero_div, round_zero, Nat.cast_zero]

/-- Rounding a decimal rounds its number. -/
theorem toRat_roundTo (d : Decimal) (places : ℕ) :
    (d.roundTo places).toRat = roundHalfAway d.toRat places := by
  rcases Nat.lt_or_ge places d.scale with hmore | hless
  · have hparts : (d.roundTo places).toRat
        = if d.negative && (d.isZero || roundedQuotient d.coefficient (d.scale - places) != 0) then
            -(roundedQuotient d.coefficient (d.scale - places) / 10 ^ places : ℚ)
          else roundedQuotient d.coefficient (d.scale - places) / 10 ^ places := by
      rw [toRat_eq, roundTo, dif_pos hmore]
    rw [hparts, roundHalfAway, round_units hmore]
    generalize hr : roundedQuotient d.coefficient (d.scale - places) = r
    rcases eq_or_ne r 0 with rfl | hne
    · -- nothing is left, and the sign makes no difference
      simp
    · have hcoefficient : d.coefficient ≠ 0 := roundedQuotient_ne_zero (hr ▸ hne)
      have hsign : (d.negative && (d.isZero || r != 0)) = true ↔ d.toRat < 0 := by
        rw [toRat_neg_iff]
        simp [hcoefficient, hne]
      simp only [hsign]
      split
      · rw [Int.cast_neg, Int.cast_natCast, neg_div]
      · rw [Int.cast_natCast]
  · obtain ⟨k, hk⟩ := Nat.exists_eq_add_of_le hless
    have hunits : |d.toRat| * 10 ^ places = (d.coefficient * 10 ^ k : ℕ) := by
      rw [abs_toRat, hk, pow_add, ← mul_assoc, div_mul_cancel₀ _ (by positivity)]
      push_cast
      rfl
    rw [roundTo, dif_neg (Nat.not_lt.mpr hless)]
    exact (roundHalfAway_eq_self hunits).symm

theorem scale_roundTo_le (d : Decimal) (places : ℕ) : (d.roundTo places).scale ≤ places := by
  unfold roundTo
  split
  · exact Nat.le_refl places
  · omega

/-! ## Filling up -/

theorem fillUp_number (n c s : ℕ) :
    ((fillUp n c s).1 : ℚ) / 10 ^ (fillUp n c s).2 = c / 10 ^ s := by
  induction n generalizing c s with
  | zero => rfl
  | succ n ih =>
    rw [fillUp]
    split
    · rw [ih, Nat.cast_mul, pow_succ, Nat.cast_ofNat, mul_div_mul_right _ _ (by norm_num)]
    · rfl

/-- Filling up ends with all zeros added or with a coefficient that cannot take one more. -/
theorem fillUp_stops (n c s : ℕ) : (fillUp n c s).2 = s + n ∨ bound ≤ (fillUp n c s).1 * 10 := by
  induction n generalizing c s with
  | zero => exact .inl rfl
  | succ n ih =>
    rw [fillUp]
    split
    · exact (ih (c * 10) (s + 1)).imp_left fun h => by omega
    · next hfull => exact .inr (Nat.le_of_not_lt hfull)

/-- Zeros behind the last place leave the number as it is. -/
theorem toRat_fillTo (d : Decimal) {places : ℕ} (h : places ≤ 28) :
    (d.fillTo places h).toRat = d.toRat := by
  rw [toRat_eq, toRat_eq d, ← fillUp_number (places - d.scale) d.coefficient d.scale]
  rfl

/--
A decimal that is rounded and filled up has all its places, unless the coefficient is at its limit.
-/
theorem scale_fixed (d : Decimal) {places : ℕ} (h : places ≤ 28) :
    ((d.roundTo places).fillTo places h).scale ≤ places ∧
      (((d.roundTo places).fillTo places h).scale = places ∨
        bound ≤ ((d.roundTo places).fillTo places h).coefficient * 10) := by
  have hscale := d.scale_roundTo_le places
  have hle := fillUp_snd_le (places - (d.roundTo places).scale) (d.roundTo places).coefficient
    (d.roundTo places).scale
  have hstops := fillUp_stops (places - (d.roundTo places).scale) (d.roundTo places).coefficient
    (d.roundTo places).scale
  rw [Nat.add_sub_of_le hscale] at hle hstops
  exact ⟨hle, hstops⟩

/-! ## Texts in plain notation -/

/-- A decimal is written in plain notation, with as many places as its scale says. -/
theorem exists_numeral (d : Decimal) :
    ∃ t : Numeral, t.text = d.text ∧ t.places.length = d.scale ∧ t.toRat = d.toRat := by
  obtain ⟨whole, places, hne, hdigits, hplaces, hvalue, htext⟩ := d.unsignedText_spelled
  let t : Numeral := ⟨d.negative, whole, places, hne, hdigits⟩
  have hunsigned : t.unsigned = d.unsignedText := by
    rw [htext, Numeral.unsigned, ← hplaces]
    simp only [List.length_eq_zero_iff, t]
  have hmagnitude : t.magnitude = d.coefficient / 10 ^ d.scale := by
    rw [Numeral.magnitude, Text.digitsValue, Nat.ofDigitChars_append, hvalue, hplaces]
  refine ⟨t, ?_, hplaces, ?_⟩
  · rw [Numeral.text, text, hunsigned]
  · rw [Numeral.toRat, toRat_eq, hmagnitude]

end Decimal

/-! ## Formats -/

namespace NumberFormat

/-- The format is this letter, large or small, and the digits of a number. -/
def Spells (format : String) (letter : Char) (n : ℕ) : Prop :=
  ∃ tag digits, format.toList = tag :: digits ∧ tag.toUpper = letter ∧ digits ≠ [] ∧
    (∀ c ∈ digits, c.isDigit = true) ∧ Text.digitsValue digits = n

variable {format : String} {n : ℕ}

theorem read?_of_spells {letter : Char} (h : Spells format letter n) : read? format =
    if letter == 'F' then if h : n ≤ 28 then some (.fixed n h) else none
    else if letter == 'D' then if h : n ≤ 64 then some (.padded n h) else none
    else none := by
  obtain ⟨tag, digits, hformat, rfl, hne, hdigits, rfl⟩ := h
  have hsome : (digits.isEmpty || !digits.all Char.isDigit) = false := by
    rw [List.isEmpty_eq_false_iff.mpr hne, List.all_eq_true.mpr hdigits]
    rfl
  rw [read?, hformat]
  exact if_neg (ne_true_of_eq_false hsome)

theorem read?_fixed (h : Spells format 'F' n) (hn : n ≤ 28) :
    read? format = some (.fixed n hn) := by
  rw [read?_of_spells h, if_pos (beq_self_eq_true _), dif_pos hn]

theorem read?_padded (h : Spells format 'D' n) (hn : n ≤ 64) :
    read? format = some (.padded n hn) := by
  rw [read?_of_spells h, if_neg (by decide), if_pos (beq_self_eq_true _), dif_pos hn]

/--
With `F` a number is written in plain notation, rounded, and with all places unless the
coefficient is at its limit.
-/
theorem render_fixed (d : Decimal) (hn : n ≤ 28) : ∃ t :
    Numeral, render (.fixed n hn) d = .ok t.text ∧
    t.toRat = roundHalfAway d.toRat n ∧ Decimal.Held t.toRat ∧ t.places.length ≤ n ∧
    (t.places.length = n ∨ (Decimal.bound : ℚ) ≤ |t.toRat| * 10 ^ (t.places.length + 1)) ∧
    |t.toRat| * 10 ^ t.places.length < Decimal.bound := by
  obtain ⟨t, htext, hplaces, hrat⟩ := ((d.roundTo n).fillTo n hn).exists_numeral
  obtain ⟨hle, hfull⟩ := d.scale_fixed hn
  have hunits : |t.toRat| * 10 ^ t.places.length = ((d.roundTo n).fillTo n hn).coefficient := by
    rw [hrat, Decimal.abs_toRat, hplaces, div_mul_cancel₀ _ (by positivity)]
  refine ⟨t, congrArg Except.ok htext.symm, ?_, ⟨_, hrat.symm⟩, hplaces.le.trans hle, ?_, ?_⟩
  · rw [hrat, Decimal.toRat_fillTo, Decimal.toRat_roundTo]
  · refine hfull.imp (hplaces.trans ·) fun hfull => ?_
    rw [pow_succ, ← mul_assoc, hunits]
    exact_mod_cast hfull
  · rw [hunits]
    exact_mod_cast ((d.roundTo n).fillTo n hn).coefficient_lt

/--
With `D` an integer is written in plain notation, with as many digits as are asked for or more.
-/
theorem render_padded {d : Decimal} (hn : n ≤ 64) (hd : d.isIntegral = true) :
    ∃ t : Numeral, render (.padded n hn) d = .ok t.text ∧ t.toRat = d.toRat ∧ t.places = [] ∧
      n ≤ t.whole.length := by
  have hlength := Text.length_zeroPadded n d.wholePart
  have hne : Text.zeroPadded n d.wholePart ≠ [] := by
    refine List.ne_nil_of_length_pos ?_
    rw [hlength]
    exact Nat.lt_of_lt_of_le (List.length_pos_iff.mpr Nat.toDigits_ne_nil) (Nat.le_max_right _ _)
  let t : Numeral := ⟨d.negative && !d.isZero, Text.zeroPadded n d.wholePart, [], hne, fun c hc =>
    Text.isDigit_of_mem_zeroPadded (List.append_nil _ ▸ hc)⟩
  have hunsigned : t.unsigned = Text.zeroPadded n d.wholePart := List.append_nil _
  have hmagnitude : t.magnitude = d.wholePart := by
    rw [Numeral.magnitude, List.append_nil, Text.digitsValue_zeroPadded]
    exact div_one _
  refine ⟨t, ?_, ?_, rfl, hlength ▸ Nat.le_max_left _ _⟩
  · rw [render, if_pos hd, Numeral.text, hunsigned]
  · rw [Decimal.toRat_of_isIntegral hd, Numeral.toRat, hmagnitude]
    cases hzero : d.isZero with
    | true =>
      have hwhole : d.wholePart = 0 := by
        rw [Decimal.wholePart, beq_iff_eq.mp hzero, Nat.zero_div]
      simp [hwhole]
    | false =>
      simp only [t, hzero, Bool.not_false, Bool.and_true]
      split <;> simp only [Int.cast_neg, Int.cast_natCast]

/-- A number that is no integer is not written with `D`. -/
theorem render_padded_error {d : Decimal} (hn : n ≤ 64) (hd : d.isIntegral = false) :
    render (.padded n hn) d = .error ⟨n, d⟩ := by
  rw [render, if_neg (ne_true_of_eq_false hd)]

end NumberFormat

/-! ## Values -/

namespace Value

/-- The number of an integer or a decimal. -/
def number? : Value → Option ℚ
  | .integer n => some n.toInt
  | .decimal d => some d.toRat
  | _ => none

variable {v : Value} {q : ℚ}

theorem writeNumber_formatted {f : String} {nf : NumberFormat} (hf : NumberFormat.read? f = some nf)
    (plain : String) (d : Decimal) : writeNumber (some f) plain d = formatted nf d := by
  rw [writeNumber, numberFormat?, hf]
  rfl

/-- The sign bit of an integer or a decimal; zero may have one. -/
def negative : Value → Bool
  | .integer n => n < 0
  | .decimal d => d.negative
  | _ => false

/-- Integers and decimals are formatted alike, by a decimal of their number and their sign. -/
theorem exists_formatted (hv : v.number? = some q) :
    ∃ d : Decimal, d.toRat = q ∧ d.negative = v.negative ∧
    ∀ (f : String) (nf : NumberFormat), NumberFormat.read? f = some nf → ∀ dates field,
      v.encode dates field (some f) = invalidIn field (formatted nf d) := by
  cases v with
  | integer n =>
    cases hv
    refine ⟨.ofInt64 n, Integer.toRat_ofInt64 n, rfl, fun f nf hf dates field => ?_⟩
    rw [encode, writeNumber_formatted hf]
  | decimal d =>
    cases hv
    refine ⟨d, rfl, rfl, fun f nf hf dates field => ?_⟩
    rw [encode, writeNumber_formatted hf]
  | _ => cases hv

theorem number?_integer (hv : v.number? = some q) (hkind : v.kind = .integer) : ∃ k : ℤ, q = k := by
  cases v with
  | integer n => exact ⟨n.toInt, (Option.some.inj hv).symm⟩
  | _ => cases hkind

end Value

/-! ## Properties with a number format -/

namespace Codec

variable {p : Property} {format : String} {v : Value} {q : ℚ} {n : ℕ}

/--
A number in plain notation is read back from a text where there is a number format: as a decimal of
it, or as the integer that it is.
-/
theorem fromWire_numeral (codec : Codec) (hhook : p.hook = none) (hformat : p.format = some format)
    {nf : NumberFormat} (hf : NumberFormat.read? format = some nf)
    (hv : v.number? = some q) {t : Numeral}
    (ht : Decimal.Held t.toRat) (hint : v.kind = .integer → t.toRat = q) :
    ∃ v', codec.fromWire (.text t.text) v.kind p = .ok v' ∧ v'.kind = v.kind ∧
      v'.number? = some t.toRat ∧ (v.kind = .integer → v' = v) := by
  have htext : WireValue.numberText? (some format) (.text t.text) = some t.text :=
    if_pos (Option.isSome_of_eq_some hf)
  obtain ⟨d, hd, hrat⟩ := t.read?_of_held ht
  rw [fromWire_of_hook_none hhook, hformat, WireValue.arranged_text]
  cases v with
  | integer n =>
    cases hv
    refine ⟨.integer n, ?_, rfl, congrArg some (hint rfl).symm, fun _ => rfl⟩
    rw [Value.kind, WireValue.decode_integer htext, Integer.read?_numeral, hd, Option.bind_some,
      Integer.ofDecimal?_eq_some_iff.mpr (hrat.trans (hint rfl))]
  | decimal d₀ =>
    refine ⟨.decimal d, ?_, rfl, congrArg some hrat, nofun⟩
    rw [Value.kind, WireValue.decode_decimal htext, hd]
  | _ => cases hv

/-- What is written for a number is what the format makes of a decimal of this number. -/
theorem toWire_formatted (codec : Codec) (hhook : p.hook = none) (hformat : p.format = some format)
    {nf : NumberFormat} (hf : NumberFormat.read? format = some nf) (hv : v.number? = some q) :
    ∃ d : Decimal, d.toRat = q ∧ d.negative = v.negative ∧
      codec.toWire v p = Value.invalidIn p.wireName (Value.formatted nf d) := by
  obtain ⟨d, hrat, hsign, hencode⟩ := Value.exists_formatted hv
  exact ⟨d, hrat, hsign, by rw [toWire_of_hook_none hhook, hformat, hencode _ _ hf]⟩

/-- With `F` every number is written. -/
theorem toWire_fixed (codec : Codec) (hhook : p.hook = none) (hformat : p.format = some format)
    (hn : n ≤ 28) (hf : NumberFormat.Spells format 'F' n) (hv : v.number? = some q) :
    ∃ t : Numeral, codec.toWire v p = .ok (.text t.text) ∧ t.toRat = roundHalfAway q n ∧
      Decimal.Held t.toRat ∧ t.places.length ≤ n ∧
      (t.places.length = n ∨ (Decimal.bound : ℚ) ≤ |t.toRat| * 10 ^ (t.places.length + 1)) ∧
      |t.toRat| * 10 ^ t.places.length < Decimal.bound := by
  obtain ⟨d, rfl, -, hwire⟩ :=
    toWire_formatted codec hhook hformat (NumberFormat.read?_fixed hf hn) hv
  obtain ⟨t, ht, hspec⟩ := NumberFormat.render_fixed d hn
  refine ⟨t, ?_, hspec⟩
  rw [hwire, Value.formatted, ht]
  rfl

/-- With `D` the integers are written. -/
theorem toWire_padded (codec : Codec) (hhook : p.hook = none) (hformat : p.format = some format)
    (hn : n ≤ 64) (hf : NumberFormat.Spells format 'D' n) (hv : v.number? = some q) :
    ((∃ k : ℤ, q = k) → ∃ t : Numeral, codec.toWire v p = .ok (.text t.text) ∧ t.toRat = q ∧
      Decimal.Held t.toRat ∧ t.places = [] ∧ n ≤ t.whole.length) ∧
    ((¬∃ k : ℤ, q = k) → ∃ e, codec.toWire v p = .error e) := by
  obtain ⟨d, rfl, -, hwire⟩ :=
    toWire_formatted codec hhook hformat (NumberFormat.read?_padded hf hn) hv
  rw [← Decimal.isIntegral_iff, hwire, Value.formatted]
  constructor
  · intro hint
    obtain ⟨t, ht, hrat, hplaces, hlength⟩ := NumberFormat.render_padded hn hint
    exact ⟨t, by rw [ht]; rfl, hrat, ⟨d, hrat.symm⟩, hplaces, hlength⟩
  · intro hint
    rw [NumberFormat.render_padded_error hn (Bool.eq_false_iff.mpr hint)]
    exact ⟨_, rfl⟩

/--
**Formatted numbers come back.** Take an integer or a decimal and a property without hook
that has a number format.

* With `F` it is written as a text, whatever it is. Asked for its type, the text is read as the
  number that the format rounds it to, a half away from zero. So an integer is read back as it is.
* With `D` it is written if, and only if, it is an integral number. The text is a minus or
  none and digits, as many as the format asks for or more. Asked for its type, the text is
  read as the same number.
-/
theorem formatted_number_comes_back (codec : Codec) (hhook : p.hook = none)
    (hformat : p.format = some format) (hv : v.number? = some q) :
    (∀ n ≤ 28, NumberFormat.Spells format 'F' n → ∃ t v', codec.toWire v p = .ok (.text t) ∧
      codec.fromWire (.text t) v.kind p = .ok v' ∧ v'.kind = v.kind ∧
      v'.number? = some (roundHalfAway q n) ∧ (v.kind = .integer → v' = v)) ∧
    ∀ n ≤ 64, NumberFormat.Spells format 'D' n →
      ((∃ w, codec.toWire v p = .ok w) ↔ ∃ k : ℤ, q = k) ∧
      ∀ w, codec.toWire v p = .ok w → ∃ (t : Numeral) (v' : Value),
      w = .text t.text ∧ t.places = [] ∧
        n ≤ t.whole.length ∧ codec.fromWire w v.kind p = .ok v' ∧ v'.kind = v.kind ∧
        v'.number? = some q ∧ (v.kind = .integer → v' = v) := by
  constructor
  · intro n hn hf
    obtain ⟨t, hwire, hrat, hheld, -⟩ := toWire_fixed codec hhook hformat hn hf hv
    have hint : v.kind = .integer → t.toRat = q := by
      intro hkind
      obtain ⟨k, rfl⟩ := Value.number?_integer hv hkind
      rw [hrat, roundHalfAway_intCast]
    obtain ⟨v', hread, hkind, hnumber, hsame⟩ := fromWire_numeral codec hhook hformat
      (NumberFormat.read?_fixed hf hn) hv hheld hint
    exact ⟨t.text, v', hwire, hread, hkind, hrat ▸ hnumber, hsame⟩
  · intro n hn hf
    obtain ⟨hwritten, hrefused⟩ := toWire_padded codec hhook hformat hn hf hv
    have hintegral {w : WireValue} (hw : codec.toWire v p = .ok w) : ∃ k : ℤ, q = k := by
      by_contra hno
      obtain ⟨e, he⟩ := hrefused hno
      cases hw.symm.trans he
    refine ⟨⟨fun ⟨_, hw⟩ => hintegral hw, fun hq => ?_⟩, fun w hw => ?_⟩
    · obtain ⟨t, hwire, -⟩ := hwritten hq
      exact ⟨_, hwire⟩
    · obtain ⟨t, hwire, rfl, hheld, hplaces, hlength⟩ := hwritten (hintegral hw)
      cases hw.symm.trans hwire
      obtain ⟨v', hback⟩ :=
        fromWire_numeral codec hhook hformat (NumberFormat.read?_padded hf hn) hv hheld
        fun _ => rfl
      exact ⟨t, v', rfl, hplaces, hlength, hback⟩

/-- A refund of half a cent more than so many cents. -/
def refund : Value := .decimal ⟨true, 12345, 3, by decide, by decide⟩

theorem refund_number : refund.number? = some (-12345 / 1000) := by
  change some (Decimal.toRat _) = _
  rw [Decimal.toRat_eq]
  norm_num

theorem refund_rounded : roundHalfAway (-12345 / 1000) 2 = -1235 / 100 := by
  norm_num [roundHalfAway, abs_of_neg, round_eq]

/-- The refund comes back to the cent, and a rank as it is. -/
theorem refund_and_rank_come_back :
    let codec : Codec := ⟨none, .empty⟩
    let cents := (Property.plain "refund").withFormat "f2"
    let digits := (Property.plain "rank").withFormat "D6"
    (∃ t v', codec.toWire refund cents = .ok (.text t) ∧
      codec.fromWire (.text t) .decimal cents = .ok v' ∧
      v'.number? = some (-1235 / 100)) ∧
    ∃ w, codec.toWire (.integer (-42)) digits = .ok w ∧
      codec.fromWire w .integer digits = .ok (.integer (-42)) := by
  intro codec cents digits
  constructor
  · obtain ⟨t, v', hwire, hread, -, hnumber, -⟩ :=
      (codec.formatted_number_comes_back (p := cents) rfl rfl
      refund_number).1 2 (by decide) ⟨'f', ['2'], rfl, rfl, by decide, List.all_eq_true.mp rfl, rfl⟩
    exact ⟨t, v', hwire, hread, refund_rounded ▸ hnumber⟩
  · obtain ⟨hiff, hback⟩ :=
      (codec.formatted_number_comes_back (p := digits) (v := .integer (-42)) rfl rfl
      rfl).2 6 (by decide) ⟨'D', ['6'], rfl, rfl, by decide, List.all_eq_true.mp rfl, rfl⟩
    obtain ⟨w, hw⟩ := hiff.mpr ⟨-42, rfl⟩
    obtain ⟨t, v', -, -, -, hread, -, -, hsame⟩ := hback w hw
    exact ⟨w, hw, hsame rfl ▸ hread⟩

/--
**How many places a number has.** With `F` an integer or a decimal is written in plain notation,
rounded as the format asks for. It has all places of the format if, and only if, the rounded number
with these places has a coefficient of 96 bits. If it has fewer, one more would not fit.
-/
theorem fixed_places (codec : Codec) (hhook : p.hook = none) (hformat : p.format = some format)
    (hn : n ≤ 28) (hf : NumberFormat.Spells format 'F' n) (hv : v.number? = some q) :
    ∃ t : Numeral, codec.toWire v p = .ok (.text t.text) ∧ t.toRat = roundHalfAway q n ∧
      (t.places.length = n ↔ |roundHalfAway q n| * 10 ^ n < Decimal.bound) ∧
      (t.places.length ≠ n → t.places.length < n ∧
        (Decimal.bound : ℚ) ≤ |roundHalfAway q n| * 10 ^ (t.places.length + 1)) := by
  obtain ⟨t, hwire, hrat, -, hle, hfull, hfits⟩ := toWire_fixed codec hhook hformat hn hf hv
  rw [hrat] at hfull hfits
  have hfewer (hne : t.places.length ≠ n) : t.places.length < n ∧
      (Decimal.bound : ℚ) ≤ |roundHalfAway q n| * 10 ^ (t.places.length + 1) :=
    ⟨Nat.lt_of_le_of_ne hle hne, hfull.resolve_left hne⟩
  refine ⟨t, hwire, hrat, ⟨fun hall => hall ▸ hfits, fun hroom => ?_⟩, hfewer⟩
  by_contra hne
  obtain ⟨hlt, hover⟩ := hfewer hne
  have hmono : |roundHalfAway q n| * 10 ^ (t.places.length + 1) ≤ |roundHalfAway q n| * 10 ^ n :=
    mul_le_mul_of_nonneg_left (pow_le_pow_right₀ (by norm_num) hlt) (abs_nonneg _)
  linarith

/-- The refund is written with both places. -/
theorem refund_two_places :
    let codec : Codec := ⟨none, .empty⟩
    ∃ t : Numeral, codec.toWire refund ((Property.plain "refund").withFormat "f2")
      = .ok (.text t.text) ∧
      t.toRat = -1235 / 100 ∧ t.places.length = 2 := by
  intro codec
  obtain ⟨t, hwire, hrat, hplaces, -⟩ :=
    codec.fixed_places (p := (Property.plain "refund").withFormat "f2")
    (n := 2) rfl rfl (by decide) ⟨'f', ['2'], rfl, rfl, by decide,
      List.all_eq_true.mp rfl, rfl⟩ refund_number
  refine ⟨t, hwire, hrat.trans refund_rounded, hplaces.mpr ?_⟩
  rw [refund_rounded]
  norm_num [abs_of_neg, Decimal.bound]

/-- The greatest integer of 64 bits has room for nine places only. -/
theorem greatest_integer_nine_places :
    let codec : Codec := ⟨none, .empty⟩
    let t : Numeral := ⟨false, "9223372036854775807".toList, List.replicate 9 '0', by decide,
      List.all_eq_true.mp rfl⟩
    codec.toWire (.integer Int64.maxValue) ((Property.plain "n").withFormat "F10")
      = .ok (.text t.text) ∧
      t.places.length ≠ 10 := by
  intro codec t
  have hf : NumberFormat.read? "F10" = some (.fixed 10 (by decide)) :=
    NumberFormat.read?_fixed ⟨'F', ['1', '0'], rfl, rfl, by decide, List.all_eq_true.mp rfl, rfl⟩ _
  have hrender : NumberFormat.render (.fixed 10 (by decide)) (.ofInt64 Int64.maxValue)
      = .ok t.text := by
    decide +kernel
  refine ⟨?_, by decide⟩
  rw [toWire_of_hook_none rfl, Value.encode]
  change Value.invalidIn _ (Value.writeNumber (some "F10") _ _) = _
  rw [Value.writeNumber_formatted hf, Value.formatted, hrender]
  rfl

end Codec

end Clauses
