import Clauses.Proofs.NumberFormats
import Clauses.Text.Utf8

/-!
# Number texts as keys

A text in a number format stands in a key, where it is compared byte for byte. Two decimals may
differ and be of one number: in their scales, and in the sign of zero. Their texts should not.

* With `D` the text is made from the number alone. Texts of one length are in the order of their
  numbers, because a digit and its byte are in the same order.
* With `F` the scale makes no difference: zeros are added until there are enough of them or the
  coefficient is full, and it is full in one way only. The sign does: zero keeps its own.

* `Text.ofDigitChars_lt_iff` — runs of digits of one length are in the order of their numbers
* `Decimal.fixed_eq` — what rounding and filling up leave of two decimals of one number
* `NumberFormat.render_padded_eq` — the text of an integer with `D`
* `Codec.equal_numbers_one_text` — equal numbers have one text, but for the sign of zero with `F`
* `Codec.padded_texts_sorted` — with `D` natural numbers of some digits have texts in their order
-/

namespace Clauses

/-! ## Digits as bytes -/

namespace Text

theorem toNat_digit {c : Char} (h : c.isDigit = true) : 48 ≤ c.toNat ∧ c.toNat ≤ 57 :=
  Char.isDigit_iff_toNat.mp h

/-- A text of digits has one byte for each of them. -/
theorem toBytes_digits {ds : List Char} (hds : ∀ c ∈ ds, c.isDigit = true) :
    toBytes (String.ofList ds) = ds.map Char.toUInt8 := by
  rw [toBytes, String.toList_ofList]
  induction ds with
  | nil => rfl
  | cons c ds ih =>
    rw [List.forall_mem_cons] at hds
    have hle : c.val.toNat ≤ 127 := (toNat_digit hds.1).2.trans (by decide)
    rw [List.flatMap_cons, String.utf8EncodeChar_eq_singleton (Char.utf8Size_eq_one_iff.mpr hle),
      List.singleton_append, ih hds.2, List.map_cons, Char.toUInt8_val]

theorem toNat_toUInt8_digit {c : Char} (h : c.isDigit = true) : c.toUInt8.toNat = c.toNat := by
  have hle := (toNat_digit h).2
  rw [Char.toUInt8, UInt32.toNat_toUInt8]
  exact Nat.mod_eq_of_lt (by change c.toNat < 256; omega)

/--
Two numbers are put behind with equally many digits: what is in front of the digits decides first,
and then the first digit that differs.
-/
theorem ofDigitChars_lt_iff {ds es : List Char} (hlength : ds.length = es.length)
    (hds : ∀ c ∈ ds, c.isDigit = true) (hes : ∀ c ∈ es, c.isDigit = true) (m n : ℕ) :
    Nat.ofDigitChars 10 ds m < Nat.ofDigitChars 10 es n ↔
      m < n ∨ m = n ∧ ds.map Char.toUInt8 < es.map Char.toUInt8 := by
  induction ds generalizing es m n with
  | nil =>
    obtain rfl := List.eq_nil_of_length_eq_zero hlength.symm
    simp
  | cons c ds ih =>
    obtain ⟨d, es, rfl⟩ := List.exists_cons_of_length_eq_add_one hlength.symm
    rw [List.forall_mem_cons] at hds hes
    have hc := toNat_digit hds.1
    have hd := toNat_digit hes.1
    rw [Nat.ofDigitChars_cons, Nat.ofDigitChars_cons, ih (Nat.succ.inj hlength) hds.2 hes.2,
      List.map_cons, List.map_cons, List.cons_lt_cons_iff, UInt8.lt_iff_toNat_lt, ← UInt8.toNat_inj,
      toNat_toUInt8_digit hds.1, toNat_toUInt8_digit hes.1, show '0'.toNat = 48 from rfl]
    constructor
    · rintro (h | ⟨h, hrest⟩)
      · omega
      · exact .inr ⟨by omega, .inr ⟨by omega, hrest⟩⟩
    · rintro (h | ⟨rfl, h | ⟨h, hrest⟩⟩)
      · omega
      · omega
      · exact .inr ⟨by omega, hrest⟩

theorem zeroPadded_inj {width m n : ℕ} : zeroPadded width m = zeroPadded width n ↔ m = n := by
  refine ⟨fun h => ?_, fun h => h ▸ rfl⟩
  rw [← digitsValue_zeroPadded width m, h, digitsValue_zeroPadded]

end Text

/-! ## Decimals of one number -/

namespace Decimal

theorem eq_of_parts {a b : Decimal} (hnegative : a.negative = b.negative)
    (hcoefficient : a.coefficient = b.coefficient) (hscale : a.scale = b.scale) : a = b := by
  cases a
  cases b
  congr

theorem isZero_iff {d : Decimal} : d.isZero = true ↔ d.toRat = 0 := by
  rw [isZero, beq_iff_eq, ← abs_eq_zero, abs_toRat, div_eq_zero_iff]
  simp

theorem isZero_eq {a b : Decimal} (hrat : a.toRat = b.toRat) : a.isZero = b.isZero := by
  rw [Bool.eq_iff_iff, isZero_iff, isZero_iff, hrat]

theorem negative_iff_of_ne_zero {d : Decimal} (hne : d.toRat ≠ 0) :
    d.negative = true ↔ d.toRat < 0 := by
  have hcoefficient : d.coefficient ≠ 0 := fun h => hne (isZero_iff.mp (beq_iff_eq.mpr h))
  rw [toRat_neg_iff, and_iff_left hcoefficient]

/-- Only zero has a choice of signs. -/
theorem negative_eq_of_ne_zero {a b : Decimal} (hrat : a.toRat = b.toRat) (hne : a.toRat ≠ 0) :
    a.negative = b.negative := by
  rw [Bool.eq_iff_iff, negative_iff_of_ne_zero hne, negative_iff_of_ne_zero (hrat ▸ hne), hrat]

/-! ## Rounded and filled up -/

/-- A number that is rounded to zero loses its sign, but zero does not. -/
theorem negative_roundTo (d : Decimal) (places : ℕ) :
    (d.roundTo places).negative = (d.negative && (d.isZero || !(d.roundTo places).isZero)) := by
  unfold roundTo
  split
  · rfl
  · cases d.negative <;> cases d.isZero <;> rfl

/--
Where the coefficient cannot take one more zero, no decimal of the number or a greater
one has a greater scale.
-/
theorem scale_le_of_full {x y : Decimal} {places : ℕ} (hle : |y.toRat| ≤ |x.toRat|)
    (hx : x.scale ≤ places)
    (hy : y.scale = places ∨ bound ≤ y.coefficient * 10) : x.scale ≤ y.scale := by
  by_contra hlt
  obtain ⟨k, hk⟩ := Nat.exists_eq_add_of_lt (Nat.lt_of_not_le hlt)
  have hfull := hy.resolve_left (by omega)
  -- `x` has at least one zero more than `y`, for which there is no room
  have hmore : y.coefficient * 10 * 10 ^ k ≤ x.coefficient := by
    rw [abs_toRat, abs_toRat, div_le_div_iff₀ (by positivity) (by positivity), hk,
      pow_succ, pow_add] at hle
    have hunits : (y.coefficient * 10 * 10 ^ k : ℚ) ≤ x.coefficient := by
      refine le_of_mul_le_mul_right (a := (10 : ℚ) ^ y.scale)
        (le_of_eq_of_le ?_ hle) (by positivity)
      ring
    exact_mod_cast hunits
  have hle : y.coefficient * 10 ≤ x.coefficient :=
    (Nat.le_mul_of_pos_right _ (by positivity)).trans hmore
  exact absurd (hfull.trans hle) (Nat.not_le.mpr x.coefficient_lt)

variable {a b : Decimal} {places : ℕ}

/--
Two decimals of one number and one sign are the same when they have been rounded and filled up.
-/
theorem fixed_eq (hrat : a.toRat = b.toRat) (hsign : a.negative = b.negative) (h : places ≤ 28) :
    (a.roundTo places).fillTo places h = (b.roundTo places).fillTo places h := by
  have hrounded : (a.roundTo places).toRat = (b.roundTo places).toRat := by
    rw [toRat_roundTo, toRat_roundTo, hrat]
  have hfilled : ((a.roundTo places).fillTo places h).toRat
      = ((b.roundTo places).fillTo places h).toRat := by
    rw [toRat_fillTo, toRat_fillTo, hrounded]
  obtain ⟨hale, hafull⟩ := a.scale_fixed h
  obtain ⟨hble, hbfull⟩ := b.scale_fixed h
  have hscale : ((a.roundTo places).fillTo places h).scale
      = ((b.roundTo places).fillTo places h).scale :=
    Nat.le_antisymm (scale_le_of_full (congrArg abs hfilled).ge hale hbfull)
      (scale_le_of_full (congrArg abs hfilled).le hble hafull)
  refine eq_of_parts ?_ ?_ hscale
  · change (a.roundTo places).negative = (b.roundTo places).negative
    rw [negative_roundTo, negative_roundTo, hsign, isZero_eq hrat, isZero_eq hrounded]
  · have habs := congrArg abs hfilled
    rw [abs_toRat, abs_toRat, hscale, div_left_inj' (by positivity)] at habs
    exact_mod_cast habs

/-- Zero keeps its sign. -/
theorem negative_fixed_of_zero (hzero : a.toRat = 0) (h : places ≤ 28) :
    ((a.roundTo places).fillTo places h).negative = a.negative := by
  change (a.roundTo places).negative = a.negative
  rw [negative_roundTo, isZero_iff.mpr hzero, Bool.true_or, Bool.and_true]

/--
Rounded and filled up, two decimals of one number have one text if, and only if, they
are not the two zeros.
-/
theorem fixed_text_eq_iff (hrat : a.toRat = b.toRat) (h : places ≤ 28) :
    ((a.roundTo places).fillTo places h).text = ((b.roundTo places).fillTo places h).text ↔
      (a.toRat = 0 → a.negative = b.negative) := by
  constructor
  · intro htext hzero
    have hsign := congrArg (fun t : String => (splitSign t.toList).1) htext
    simp only [splitSign_text] at hsign
    rwa [negative_fixed_of_zero hzero, negative_fixed_of_zero (hrat ▸ hzero)] at hsign
  · intro hsign
    have hsame : a.negative = b.negative := by
      by_cases hzero : a.toRat = 0
      · exact hsign hzero
      · exact negative_eq_of_ne_zero hrat hzero
    rw [fixed_eq hrat hsame]

end Decimal

/-! ## Integers with `D` -/

namespace NumberFormat

/-- With `D` the text of an integer is made from the number alone. -/
theorem render_padded_eq {d : Decimal} {n : ℕ} {k : ℤ} (hn : n ≤ 64) (hd : d.toRat = k) :
    render (.padded n hn) d = .ok (String.ofList
      (if k < 0 then '-' :: Text.zeroPadded n k.natAbs else Text.zeroPadded n k.natAbs)) := by
  have hint := Decimal.isIntegral_iff.mpr ⟨k, hd⟩
  have hwhole : d.wholePart = k.natAbs := by
    have hk : (if d.negative then -d.wholePart else d.wholePart : ℤ) = k := by
      exact_mod_cast (Decimal.toRat_of_isIntegral hint).symm.trans hd
    split at hk <;> omega
  have hsign : (d.negative && !d.isZero) = true ↔ k < 0 := by
    rw [Bool.and_eq_true, Bool.not_eq_true', ← Int.cast_lt_zero (R := ℚ), ← hd,
      Decimal.toRat_neg_iff, Decimal.isZero, beq_eq_false_iff_ne]
  rw [render, if_pos hint, hwhole]
  simp only [hsign]

end NumberFormat

/-! ## Properties with a number format -/

namespace Codec

variable {p : Property} {format : String} {a b : Value} {q : ℚ} {n : ℕ}

/-- With `D` an integer is written as its digits. -/
theorem toWire_padded_eq (codec : Codec) (hhook : p.hook = none) (hformat : p.format = some format)
    (hn : n ≤ 64) (hf : NumberFormat.Spells format 'D' n) {k : ℤ} (ha : a.number? = some (k : ℚ)) :
    codec.toWire a p = .ok (.text (String.ofList
      (if k < 0 then '-' :: Text.zeroPadded n k.natAbs else Text.zeroPadded n k.natAbs))) := by
  obtain ⟨d, hd, -, hwire⟩ :=
    toWire_formatted codec hhook hformat (NumberFormat.read?_padded hf hn) ha
  rw [hwire, Value.formatted, NumberFormat.render_padded_eq hn hd]
  rfl

/--
**Equal numbers have one text.** Take two integers or decimals of one number, of any scale and sign
bit, and a property without hook that has a number format.

* With `F` both are written, and in the same way unless they are zero. Two zeros are written in the
  same way if, and only if, they have the same sign bit.
* With `D` both are written in the same way, or both are refused.
-/
theorem equal_numbers_one_text (codec : Codec) (hhook : p.hook = none)
    (hformat : p.format = some format) (ha : a.number? = some q) (hb : b.number? = some q) :
    (∀ n ≤ 28, NumberFormat.Spells format 'F' n → ∃ s t, codec.toWire a p = .ok (.text s) ∧
      codec.toWire b p = .ok (.text t) ∧ (s = t ↔ (q = 0 → a.negative = b.negative))) ∧
    ∀ n ≤ 64, NumberFormat.Spells format 'D' n →
      (∃ t, codec.toWire a p = .ok (.text t) ∧ codec.toWire b p = .ok (.text t)) ∨
      ∃ e e', codec.toWire a p = .error e ∧ codec.toWire b p = .error e' := by
  constructor
  · intro n hn hf
    have hread := NumberFormat.read?_fixed hf hn
    obtain ⟨c, rfl, hc, hawire⟩ := toWire_formatted codec hhook hformat hread ha
    obtain ⟨d, hrat, hd, hbwire⟩ := toWire_formatted codec hhook hformat hread hb
    refine ⟨_, _, hawire, hbwire, ?_⟩
    rw [← hc, ← hd]
    exact Decimal.fixed_text_eq_iff hrat.symm hn
  · intro n hn hf
    by_cases hint : ∃ k : ℤ, q = k
    · obtain ⟨k, rfl⟩ := hint
      exact .inl ⟨_, toWire_padded_eq codec hhook hformat hn hf ha,
        toWire_padded_eq codec hhook hformat hn hf hb⟩
    · obtain ⟨e, he⟩ := (toWire_padded codec hhook hformat hn hf ha).2 hint
      obtain ⟨e', he'⟩ := (toWire_padded codec hhook hformat hn hf hb).2 hint
      exact .inr ⟨e, e', he, he'⟩

/-- A discount of nothing, with the sign of one. -/
def noDiscount : Value := .decimal ⟨true, 0, 4, by decide, by decide⟩

theorem noDiscount_number : noDiscount.number? = some 0 := by
  change some (Decimal.toRat _) = _
  rw [Decimal.toRat_eq]
  norm_num

/-- Five with and without places is one key, and so is nothing with `D`. -/
theorem five_one_text :
    let codec : Codec := ⟨none, .empty⟩
    let cents := (Property.plain "price").withFormat "f2"
    let digits := (Property.plain "discount").withFormat "D4"
    let five : Value := .decimal ⟨false, 50000, 4, by decide, by decide⟩
    (∃ t, codec.toWire five cents = .ok (.text t) ∧
      codec.toWire (.integer 5) cents = .ok (.text t)) ∧
    ∃ t, codec.toWire noDiscount digits = .ok (.text t) ∧
    codec.toWire (.integer 0) digits = .ok (.text t) := by
  intro codec cents digits five
  have hfive : five.number? = some 5 := by
    change some (Decimal.toRat _) = _
    rw [Decimal.toRat_eq]
    norm_num
  constructor
  · obtain ⟨s, t, hs, ht, hsame⟩ := (codec.equal_numbers_one_text (p := cents) rfl rfl hfive
      (b := .integer 5) rfl).1 2 (by decide) ⟨'f', ['2'], rfl, rfl, by decide,
      List.all_eq_true.mp rfl, rfl⟩
    exact ⟨t, hsame.mpr (fun h => absurd h (by norm_num)) ▸ hs, ht⟩
  · refine ((codec.equal_numbers_one_text (p := digits) rfl rfl noDiscount_number
      (b := .integer 0) rfl).2 4
      (by decide) ⟨'D', ['4'], rfl, rfl, by decide, List.all_eq_true.mp rfl, rfl⟩).resolve_right ?_
    rintro ⟨-, e, -, he⟩
    cases (toWire_padded_eq codec (p := digits) (n := 4) (k := 0) rfl rfl (by decide)
      ⟨'D', ['4'], rfl, rfl, by decide, List.all_eq_true.mp rfl, rfl⟩
      (a := .integer 0) rfl).symm.trans he

/-- With `F` nothing has two texts. -/
theorem nothing_two_texts :
    let codec : Codec := ⟨none, .empty⟩
    let cents := (Property.plain "discount").withFormat "F2"
    noDiscount.number? = Value.number? (.integer 0) ∧
    codec.toWire noDiscount cents = .ok (.text "-0.00") ∧
      codec.toWire (.integer 0) cents = .ok (.text "0.00") ∧ "-0.00" ≠ "0.00" := by
  exact ⟨noDiscount_number, rfl, rfl, by decide⟩

/--
**With `D` texts are in the order of their numbers.** Two natural numbers below `10 ^ n`, integers
or decimals of any scale, are written with `D` and this `n` as texts of `n` bytes. One number is
less than the other if, and only if, its text comes first byte for byte, and the texts are the same
if, and only if, the numbers are.
-/
theorem padded_texts_sorted (codec : Codec) (hhook : p.hook = none)
    (hformat : p.format = some format)
    (hpos : 1 ≤ n) (hn : n ≤ 64) (hf : NumberFormat.Spells format 'D' n) {j k : ℕ}
    (ha : a.number? = some (j : ℚ)) (hb : b.number? = some (k : ℚ))
    (hj : j < 10 ^ n) (hk : k < 10 ^ n) :
    ∃ s t, codec.toWire a p = .ok (.text s) ∧ codec.toWire b p = .ok (.text t) ∧
      (Text.toBytes s).length = n ∧ (Text.toBytes t).length = n ∧
      (j < k ↔ Text.toBytes s < Text.toBytes t) ∧ (s = t ↔ j = k) := by
  have hdigits (m : ℕ) : ∀ c ∈ Text.zeroPadded n m, c.isDigit = true :=
    fun _ => Text.isDigit_of_mem_zeroPadded
  have hjlength := Text.length_zeroPadded_of_lt hpos hj
  have hklength := Text.length_zeroPadded_of_lt hpos hk
  refine ⟨_, _, toWire_padded_eq codec hhook hformat hn hf (k := j) ha,
    toWire_padded_eq codec hhook hformat hn hf (k := k) hb, ?_⟩
  rw [if_neg (by omega), if_neg (by omega), Int.natAbs_natCast, Int.natAbs_natCast,
    Text.toBytes_digits (hdigits j), Text.toBytes_digits (hdigits k),
    List.length_map, List.length_map,
    String.ofList_inj, Text.zeroPadded_inj]
  refine ⟨hjlength, hklength, ?_, Iff.rfl⟩
  have horder := Text.ofDigitChars_lt_iff (hjlength.trans hklength.symm) (hdigits j) (hdigits k) 0 0
  rw [← Text.digitsValue, ← Text.digitsValue, Text.digitsValue_zeroPadded,
    Text.digitsValue_zeroPadded] at horder
  simpa using horder

/-- The order of forty-two and five thousand, with and without places. -/
theorem ranks_sorted :
    let codec : Codec := ⟨none, .empty⟩
    let digits := (Property.plain "rank").withFormat "d4"
    ∃ s t, codec.toWire (.decimal ⟨false, 4200, 2, by decide, by decide⟩) digits = .ok (.text s) ∧
      codec.toWire (.integer 5000) digits = .ok (.text t) ∧ Text.toBytes s < Text.toBytes t := by
  intro codec digits
  have hrank : Value.number? (.decimal ⟨false, 4200, 2, by decide, by decide⟩)
      = some ((42 : ℕ) : ℚ) := by
    change some (Decimal.toRat _) = _
    rw [Decimal.toRat_eq]
    norm_num
  obtain ⟨s, t, hs, ht, -, -, horder, -⟩ :=
    codec.padded_texts_sorted (p := digits) (n := 4) (k := 5000)
    (b := .integer 5000) rfl rfl (by decide) (by decide)
    ⟨'d', ['4'], rfl, rfl, by decide, List.all_eq_true.mp rfl, rfl⟩ hrank rfl
      (by decide) (by decide)
  exact ⟨s, t, hs, ht, horder.mp (by decide)⟩

end Codec

end Clauses
