import Clauses.Proofs.KeyTexts
import Mathlib.Algebra.Order.Floor.Semifield

/-!
# The order of key texts with `F`

With `F` a number has as many digits in front of the point as it needs. Byte for byte, two texts are
compared by the digits that both have there. So a number of fewer digits goes by the first digits of
the other one, as if these were all: `9.00` comes behind `10.00`, but `9.00` in front of `90.00`.

Where these digits are the same, the shorter number comes first, because the point is in front of
all digits. Two numbers with the same digits in front of the point are in the order of their
places. The greater number may have fewer places, if there is no room for more, but then it is
greater in one of these.

* `Text.leadingDigits` — the first digits of a number, as many as another has
* `Decimal.unsignedText_le_iff` — two decimals without a sign are compared by their first digits
* `Codec.fixed_texts_sorted_iff` — when two texts with `F` are in the order of their numbers
-/

namespace Clauses

/-! ## Texts compared from the front -/

theorem append_lt_append_iff {α : Type} [LT α] {u v x y : List α} (hlength : u.length = v.length) :
    u ++ x < v ++ y ↔ u < v ∨ u = v ∧ x < y := by
  induction u generalizing v with
  | nil =>
    obtain rfl := List.eq_nil_of_length_eq_zero hlength.symm
    simp
  | cons a u ih =>
    obtain ⟨b, v, rfl⟩ := List.exists_cons_of_length_eq_add_one hlength.symm
    rw [List.cons_append, List.cons_append, List.cons_lt_cons_iff, ih (Nat.succ.inj hlength),
      List.cons_lt_cons_iff, List.cons.injEq]
    tauto

namespace Text

theorem toBytes_append (s t : List Char) :
    toBytes (String.ofList (s ++ t)) = toBytes (String.ofList s) ++ toBytes (String.ofList t) := by
  simp only [toBytes, String.toList_ofList, List.flatMap_append]

/-- Digits of one length are in the order of their numbers, byte for byte. -/
theorem digits_lt_iff {ds es : List Char} (hlength : ds.length = es.length)
    (hds : ∀ c ∈ ds, c.isDigit = true) (hes : ∀ c ∈ es, c.isDigit = true) (n : ℕ) :
    ds.map Char.toUInt8 < es.map Char.toUInt8
      ↔ Nat.ofDigitChars 10 ds n < Nat.ofDigitChars 10 es n := by
  rw [ofDigitChars_lt_iff hlength hds hes]
  simp

/-- So are they the same. -/
theorem digits_eq_iff {ds es : List Char} (hlength : ds.length = es.length)
    (hds : ∀ c ∈ ds, c.isDigit = true) (hes : ∀ c ∈ es, c.isDigit = true) (n : ℕ) :
    ds.map Char.toUInt8 = es.map Char.toUInt8
      ↔ Nat.ofDigitChars 10 ds n = Nat.ofDigitChars 10 es n := by
  have hlt := digits_lt_iff hlength hds hes n
  have hgt := digits_lt_iff hlength.symm hes hds n
  constructor
  · intro h
    rw [h, iff_false_left (List.lt_irrefl _)] at hlt hgt
    omega
  · intro h
    rw [h, iff_false_right (lt_irrefl _)] at hlt hgt
    exact List.le_antisymm (List.not_lt.mp hgt) (List.not_lt.mp hlt)

/-- The bytes of a point and the digits behind it. Without digits there is no point. -/
def pointedBytes : List Char → Bytes
  | [] => []
  | c :: places => 46 :: (c :: places).map Char.toUInt8

/-- The point makes no difference between digits and digits. -/
theorem pointedBytes_lt_iff {ps qs : List Char} :
    pointedBytes qs < pointedBytes ps ↔ qs.map Char.toUInt8 < ps.map Char.toUInt8 := by
  cases qs <;> cases ps <;> simp [pointedBytes, List.cons_lt_cons_iff]

/-- A point comes in front of all digits. -/
theorem not_digit_lt_pointedBytes {c : Char} (hc : c.isDigit = true)
    (rest : Bytes) (ps : List Char) :
    ¬c.toUInt8 :: rest < pointedBytes ps := by
  have hle := (toNat_digit hc).1
  cases ps with
  | nil => exact List.not_lt_nil _
  | cons p ps =>
    rw [pointedBytes, List.cons_lt_cons_iff, UInt8.lt_iff_toNat_lt, ← UInt8.toNat_inj,
      toNat_toUInt8_digit hc, show (46 : UInt8).toNat = 46 from rfl]
    omega

/-! ## The first digits of a number -/

theorem isDigit_of_mem_toDigits {n : ℕ} {c : Char} (hc : c ∈ Nat.toDigits 10 n) :
    c.isDigit = true :=
  Nat.isDigit_of_mem_toDigits (by decide) (by decide) hc

theorem length_toDigits_mono {m n : ℕ} (h : m ≤ n) :
    (Nat.toDigits 10 m).length ≤ (Nat.toDigits 10 n).length := by
  have hn := (Nat.length_toDigits_le_iff (by decide) Nat.length_toDigits_pos).mp
    (le_refl (Nat.toDigits 10 n).length)
  exact (Nat.length_toDigits_le_iff (by decide) Nat.length_toDigits_pos).mpr (h.trans_lt hn)

/-- The number that the first digits of `n` make, as many of them as `m` has. -/
def leadingDigits (n m : ℕ) : ℕ :=
  n / 10 ^ ((Nat.toDigits 10 n).length - (Nat.toDigits 10 m).length)

theorem leadingDigits_of_length_eq {m n : ℕ}
    (h : (Nat.toDigits 10 n).length = (Nat.toDigits 10 m).length) :
    leadingDigits n m = n := by
  rw [leadingDigits, h, Nat.sub_self, Nat.pow_zero, Nat.div_one]

/-- The first digits of a number stand in front of the others. -/
theorem exists_toDigits_eq_append {m n : ℕ} (h : m ≤ n) : ∃ last : List Char,
    Nat.toDigits 10 n = Nat.toDigits 10 (leadingDigits n m) ++ last ∧
    (Nat.toDigits 10 (leadingDigits n m)).length = (Nat.toDigits 10 m).length ∧
    (last = [] → leadingDigits n m = n) := by
  have hlength := length_toDigits_mono h
  have hpos := Nat.length_toDigits_pos (b := 10) (n := m)
  obtain ⟨last, hlast, hdigits⟩ := exists_zeroPadded_eq_append
    ((Nat.toDigits 10 n).length - (Nat.toDigits 10 m).length) n
  rw [zeroPadded, padLeft, Nat.sub_eq_zero_of_le (by omega), List.replicate_zero,
    List.nil_append] at hdigits
  have hsum := congrArg List.length hdigits
  rw [List.length_append, hlast] at hsum
  refine ⟨last, hdigits, by rw [leadingDigits]; omega, fun hnil => ?_⟩
  rw [hnil, List.length_nil] at hlast
  exact leadingDigits_of_length_eq (by omega)

end Text

namespace Decimal

open Text

variable {c d : Decimal} {places : ℕ}

/-- What stands in front of the point of a decimal is its number rounded down. -/
theorem floor_abs_toRat (d : Decimal) : ⌊|d.toRat|⌋₊ = d.wholePart := by
  rw [abs_toRat, wholePart, Nat.pow_eq, ← Nat.floor_div_eq_div (K := ℚ),
    Nat.cast_pow, Nat.cast_ofNat]

theorem abs_toRat_le_iff :
    |c.toRat| ≤ |d.toRat| ↔ c.coefficient * 10 ^ d.scale ≤ d.coefficient * 10 ^ c.scale := by
  rw [abs_toRat, abs_toRat, div_le_div_iff₀ (by positivity) (by positivity)]
  exact_mod_cast Iff.rfl

/-- What stands in front of the point grows with the number. -/
theorem wholePart_mono (hle : |c.toRat| ≤ |d.toRat|) : c.wholePart ≤ d.wholePart := by
  rw [← floor_abs_toRat, ← floor_abs_toRat]
  exact Nat.floor_mono hle

/-! ## Places -/

/--
The decimal has all places that are asked for, or a coefficient that cannot take one more zero.
-/
def Filled (places : ℕ) (d : Decimal) : Prop :=
  d.scale ≤ places ∧ (d.scale = places ∨ bound ≤ d.coefficient * 10)

/-- The greater number has no more places. -/
theorem Filled.scale_le (hc : Filled places c) (hd : Filled places d)
    (hle : |c.toRat| ≤ |d.toRat|) :
    d.scale ≤ c.scale := scale_le_of_full hle hd.1 hc.2

/--
With the same digits in front of the point, the greater number does not come first by its places.
-/
theorem places_not_lt (hc : Filled places c) (hd : Filled places d) (hle : |c.toRat| ≤ |d.toRat|)
    (hwhole : c.wholePart = d.wholePart) {ps qs : List Char} (hps : ∀ x ∈ ps, x.isDigit = true)
    (hqs : ∀ x ∈ qs, x.isDigit = true) (hpslength : ps.length = c.scale)
    (hqslength : qs.length = d.scale)
    (hpsvalue : Nat.ofDigitChars 10 ps c.wholePart = c.coefficient)
    (hqsvalue : Nat.ofDigitChars 10 qs d.wholePart = d.coefficient) :
    ¬qs.map Char.toUInt8 < ps.map Char.toUInt8 := by
  have hscale := hc.scale_le hd hle
  -- the places of `c` are as many as `d` has and then some more
  have hsplit := List.take_append_drop d.scale ps
  have htake : (ps.take d.scale).length = qs.length := by rw [List.length_take]; omega
  have hdigits : ∀ x ∈ ps.take d.scale, x.isDigit = true :=
    fun x hx => hps x (List.mem_of_mem_take hx)
  rw [← hsplit, Nat.ofDigitChars_append] at hpsvalue
  generalize hunits : Nat.ofDigitChars 10 (ps.take d.scale) c.wholePart = units at hpsvalue
  have hpow : 10 ^ (ps.drop d.scale).length * 10 ^ d.scale = 10 ^ c.scale := by
    rw [← Nat.pow_add, List.length_drop]
    congr 1
    omega
  have hfloor : units * 10 ^ c.scale ≤ c.coefficient * 10 ^ d.scale := by
    rw [← hpsvalue, Nat.ofDigitChars_eq_ofDigitChars_zero, ← hpow, Nat.add_mul]
    refine Nat.le_add_right_of_le (le_of_eq ?_)
    ring
  have hle' := abs_toRat_le_iff.mp hle
  have hunitsle : units ≤ d.coefficient :=
    Nat.le_of_mul_le_mul_right (hfloor.trans hle') (Nat.pow_pos (by decide))
  rw [← hsplit, List.map_append, ← List.append_nil (qs.map _),
    append_lt_append_iff (by simpa using htake.symm),
    digits_lt_iff htake.symm hqs hdigits d.wholePart,
    digits_eq_iff htake.symm hqs hdigits d.wholePart, hqsvalue, ← hwhole, hunits]
  rintro (hlt | ⟨heq, hmore⟩)
  · omega
  · -- nothing of the greater number is left: both are the same, with the same number of places
    have hback : |d.toRat| ≤ |c.toRat| := abs_toRat_le_iff.mpr (heq ▸ hfloor)
    have hback := hd.scale_le hc hback
    rw [List.drop_eq_nil_of_le (by omega)] at hmore
    exact List.lt_irrefl _ hmore

/-! ## Texts without a sign -/

/--
The bytes of a decimal without its sign: the digits in front of the point, and the point and its
places.
-/
theorem toBytes_unsignedText (d : Decimal) : ∃ places : List Char, places.length = d.scale ∧
    (∀ x ∈ places, x.isDigit = true) ∧ Nat.ofDigitChars 10 places d.wholePart = d.coefficient ∧
    toBytes (String.ofList d.unsignedText) =
      (Nat.toDigits 10 d.wholePart).map Char.toUInt8 ++ pointedBytes places := by
  obtain ⟨places, hlength, hdigits, hvalue, htext⟩ := d.exists_unsignedText_eq
  refine ⟨places, hlength, hdigits, hvalue, ?_⟩
  rw [htext, toBytes_append, toBytes_digits fun _ => isDigit_of_mem_toDigits, ← hlength]
  cases places with
  | nil => rfl
  | cons c places =>
    rw [if_neg (show (c :: places).length ≠ 0 from Nat.succ_ne_zero _), ← List.singleton_append,
      toBytes_append, toBytes_digits hdigits]
    rfl

/-- Two decimals without a sign, the greater one second, are compared by their first digits. -/
theorem unsignedText_le_iff (hc : Filled places c) (hd : Filled places d)
    (hle : |c.toRat| ≤ |d.toRat|) :
    toBytes (String.ofList c.unsignedText) ≤ toBytes (String.ofList d.unsignedText) ↔
      c.wholePart ≤ leadingDigits d.wholePart c.wholePart := by
  obtain ⟨ps, hpslength, hps, hpsvalue, hctext⟩ := c.toBytes_unsignedText
  obtain ⟨qs, hqslength, hqs, hqsvalue, hdtext⟩ := d.toBytes_unsignedText
  obtain ⟨last, hlast, hlength, hall⟩ := exists_toDigits_eq_append (wholePart_mono hle)
  have hdigits (n : ℕ) : ∀ x ∈ Nat.toDigits 10 n, x.isDigit = true :=
    fun _ => isDigit_of_mem_toDigits
  have hvalue (n : ℕ) : Nat.ofDigitChars 10 (Nat.toDigits 10 n) 0 = n :=
    Nat.ofDigitChars_ten_toDigits
  -- where the first digits are the same, the text of `d` goes on with a digit or with its point
  have hrest (hsame : leadingDigits d.wholePart c.wholePart = c.wholePart) :
      ¬last.map Char.toUInt8 ++ pointedBytes qs < pointedBytes ps := by
    cases last with
    | cons x last =>
      have hx := hdigits d.wholePart x (hlast ▸ List.mem_append_right _ List.mem_cons_self)
      exact not_digit_lt_pointedBytes hx _ ps
    | nil =>
      have hwhole : c.wholePart = d.wholePart := hsame.symm.trans (hall rfl)
      rw [List.map_nil, List.nil_append, pointedBytes_lt_iff]
      exact places_not_lt hc hd hle hwhole hps hqs hpslength hqslength hpsvalue hqsvalue
  rw [hctext, hdtext, hlast, List.map_append, List.append_assoc, ← List.not_lt,
    append_lt_append_iff (by simpa using hlength), digits_lt_iff hlength (hdigits _) (hdigits _) 0,
    digits_eq_iff hlength (hdigits _) (hdigits _) 0, hvalue, hvalue, ← Nat.not_lt, not_iff_not,
    or_iff_left fun h => hrest h.1 h.2]

/-- A minus comes in front of all digits. -/
theorem minus_lt_unsignedText (c d : Decimal) :
    toBytes (String.ofList ('-' :: c.unsignedText)) < toBytes (String.ofList d.unsignedText) := by
  obtain ⟨qs, -, -, -, htext⟩ := d.toBytes_unsignedText
  obtain ⟨x, xs, hx⟩ :=
    List.exists_cons_of_ne_nil (Nat.toDigits_ne_nil (b := 10) (n := d.wholePart))
  have hdigit : x.isDigit = true := isDigit_of_mem_toDigits (hx ▸ List.mem_cons_self)
  have hle := (toNat_digit hdigit).1
  have hminus : (45 : UInt8) < x.toUInt8 := by
    rw [UInt8.lt_iff_toNat_lt, toNat_toUInt8_digit hdigit, show (45 : UInt8).toNat = 45 from rfl]
    omega
  rw [htext, hx, List.map_cons, List.cons_append, ← List.singleton_append, toBytes_append]
  exact List.cons_lt_cons_iff.mpr (.inl hminus)

/-! ## Rounded and filled up -/

theorem filled_fixed (d : Decimal) (h : places ≤ 28) :
    Filled places ((d.roundTo places).fillTo places h) :=
  d.scale_fixed h

theorem toRat_fixed (d : Decimal) (h : places ≤ 28) :
    ((d.roundTo places).fillTo places h).toRat = roundHalfAway d.toRat places := by
  rw [toRat_fillTo, toRat_roundTo]

/-- Only zero has a sign without being below zero. -/
theorem toRat_eq_zero_of_negative (hnonneg : 0 ≤ d.toRat) (hsign : d.negative = true) :
    d.toRat = 0 := by
  by_contra hne
  exact absurd ((negative_iff_of_ne_zero hne).mp hsign) (not_lt.mpr hnonneg)

/-- What is not below zero keeps its sign bit. -/
theorem negative_fixed_of_nonneg (hnonneg : 0 ≤ d.toRat) (h : places ≤ 28) :
    ((d.roundTo places).fillTo places h).negative = d.negative := by
  cases hsign : d.negative with
  | true => rw [negative_fixed_of_zero (toRat_eq_zero_of_negative hnonneg hsign), hsign]
  | false =>
    change (d.roundTo places).negative = false
    rw [negative_roundTo, hsign, Bool.false_and]

end Decimal

/-! ## Rounding and order -/

section Rounding

variable {q r : ℚ} {places : ℕ}

/-- What is not below zero is rounded by adding half a unit and rounding down. -/
theorem roundHalfAway_of_nonneg (hq : 0 ≤ q) :
    roundHalfAway q places = ⌊q * 10 ^ places + 1 / 2⌋ / 10 ^ places := by
  rw [roundHalfAway, if_neg (not_lt.mpr hq), abs_of_nonneg hq, round_eq]

theorem roundHalfAway_zero : roundHalfAway 0 places = 0 := by
  exact_mod_cast roundHalfAway_intCast 0 places

theorem roundHalfAway_mono (hq : 0 ≤ q) (hle : q ≤ r) :
    roundHalfAway q places ≤ roundHalfAway r places := by
  rw [roundHalfAway_of_nonneg hq, roundHalfAway_of_nonneg (hq.trans hle)]
  gcongr

theorem roundHalfAway_nonneg (hq : 0 ≤ q) : 0 ≤ roundHalfAway q places :=
  roundHalfAway_zero.symm.trans_le (roundHalfAway_mono le_rfl hq)

end Rounding

namespace Decimal

open Text

variable {c d : Decimal} {places : ℕ}

/--
The texts of two decimals with `F` are in the order of their numbers if, and only if, the first
digits are, and zero with a sign does not stand behind zero without one.
-/
theorem fixed_text_le_iff (hnonneg : 0 ≤ c.toRat) (hle : c.toRat ≤ d.toRat) (h : places ≤ 28) :
    toBytes ((c.roundTo places).fillTo places h).text
      ≤ toBytes ((d.roundTo places).fillTo places h).text ↔
      (d.negative = true → c.negative = true) ∧ ⌊roundHalfAway c.toRat places⌋₊ ≤
        leadingDigits ⌊roundHalfAway d.toRat places⌋₊ ⌊roundHalfAway c.toRat places⌋₊ := by
  have hnonneg' := hnonneg.trans hle
  rw [text, text, negative_fixed_of_nonneg hnonneg, negative_fixed_of_nonneg hnonneg']
  cases hc : c.negative with
  | true =>
    have hzero := toRat_eq_zero_of_negative hnonneg hc
    rw [hzero, roundHalfAway_zero, Nat.floor_zero, if_pos rfl]
    refine iff_of_true ?_ ⟨fun _ => rfl, Nat.zero_le _⟩
    cases hd : d.negative with
    | true =>
      have hrat : c.toRat = d.toRat := hzero.trans (toRat_eq_zero_of_negative hnonneg' hd).symm
      rw [if_pos rfl, fixed_eq hrat (hc.trans hd.symm)]
      exact List.le_refl _
    | false => exact List.le_of_lt (minus_lt_unsignedText _ _)
  | false =>
    rw [if_neg Bool.false_ne_true]
    cases hd : d.negative with
    | true =>
      refine iff_of_false (List.not_le.mpr (minus_lt_unsignedText _ _)) fun hboth => ?_
      exact Bool.false_ne_true (hboth.1 rfl)
    | false =>
      have hround : 0 ≤ roundHalfAway c.toRat places := roundHalfAway_nonneg hnonneg
      have hround' : 0 ≤ roundHalfAway d.toRat places := roundHalfAway_nonneg hnonneg'
      have habs : |((c.roundTo places).fillTo places h).toRat|
          ≤ |((d.roundTo places).fillTo places h).toRat| := by
        rw [toRat_fixed, toRat_fixed, abs_of_nonneg hround, abs_of_nonneg hround']
        exact roundHalfAway_mono hnonneg hle
      rw [if_neg Bool.false_ne_true, unsignedText_le_iff (c.filled_fixed h) (d.filled_fixed h) habs,
        ← floor_abs_toRat, ← floor_abs_toRat, toRat_fixed, toRat_fixed, abs_of_nonneg hround,
        abs_of_nonneg hround']
      simp

end Decimal

/-! ## Properties with a number format -/

namespace Codec

variable {p : Property} {format : String} {a b : Value} {q r : ℚ} {n : ℕ}

/--
**With `F` texts are compared by their first digits.** Two integers or decimals that are not
below zero are written with `F`, the greater one second. Their texts are in this order byte
for byte if, and only if,

* the first number, rounded and without its places, is not above the number that the first digits
  of the second make, as many of them as the first has; so numbers with as many digits in front of
  the point are in order;
* zero with a sign bit, which has a minus in front, does not stand behind zero without one.
-/
theorem fixed_texts_sorted_iff (codec : Codec) (hhook : p.hook = none)
    (hformat : p.format = some format)
    (hn : n ≤ 28) (hf : NumberFormat.Spells format 'F' n) (ha : a.number? = some q)
    (hb : b.number? = some r) (hq : 0 ≤ q) (hle : q ≤ r) :
    ∃ s t, codec.toWire a p = .ok (.text s) ∧ codec.toWire b p = .ok (.text t) ∧
      (Text.toBytes s ≤ Text.toBytes t ↔ (b.negative = true → a.negative = true) ∧
        ⌊roundHalfAway q n⌋₊ ≤ Text.leadingDigits ⌊roundHalfAway r n⌋₊ ⌊roundHalfAway q n⌋₊) := by
  have hread := NumberFormat.read?_fixed hf hn
  obtain ⟨c, rfl, hc, hawire⟩ := toWire_formatted codec hhook hformat hread ha
  obtain ⟨d, rfl, hd, hbwire⟩ := toWire_formatted codec hhook hformat hread hb
  exact ⟨_, _, hawire, hbwire, hc ▸ hd ▸ Decimal.fixed_text_le_iff hq hle hn⟩

/-- Nine and a half comes in front of ninety, which starts with a nine as well. -/
theorem half_past_nine_before_ninety :
    let codec : Codec := ⟨none, .empty⟩
    let cents := (Property.plain "price").withFormat "f2"
    ∃ s t, codec.toWire (.decimal ⟨false, 95, 1, by decide, by decide⟩) cents = .ok (.text s) ∧
      codec.toWire (.integer 90) cents = .ok (.text t) ∧ Text.toBytes s ≤ Text.toBytes t := by
  intro codec cents
  have hprice : Value.number? (.decimal ⟨false, 95, 1, by decide, by decide⟩) = some (95 / 10) := by
    change some (Decimal.toRat _) = _
    rw [Decimal.toRat_eq]
    norm_num
  have hround : roundHalfAway (95 / 10) 2 = 95 / 10 := by
    have hunits : |(95 / 10 : ℚ)| * 10 ^ 2 = (950 : ℤ) := by norm_num [abs_of_pos]
    exact roundHalfAway_eq_self hunits
  have hwhole : ⌊(95 / 10 : ℚ)⌋₊ = 9 := by norm_num [Nat.floor_eq_iff]
  have hninety : ⌊roundHalfAway ((90 : ℤ) : ℚ) 2⌋₊ = 90 := by
    rw [roundHalfAway_intCast]
    norm_num
  obtain ⟨s, t, hs, ht, horder⟩ :=
    codec.fixed_texts_sorted_iff (p := cents) (n := 2) (b := .integer 90)
    (r := ((90 : ℤ) : ℚ)) rfl rfl (by decide) ⟨'f', ['2'], rfl, rfl, by decide,
      List.all_eq_true.mp rfl, rfl⟩
    hprice rfl (by norm_num) (by norm_num)
  refine ⟨s, t, hs, ht, horder.mpr ⟨nofun, ?_⟩⟩
  rw [hround, hwhole, hninety]
  decide

/-- Nine comes behind ten, by its first digit. -/
theorem nine_behind_ten :
    let codec : Codec := ⟨none, .empty⟩
    let cents := (Property.plain "price").withFormat "F2"
    codec.toWire (.integer 9) cents = .ok (.text "9.00") ∧
    codec.toWire (.integer 10) cents = .ok (.text "10.00") ∧
      Text.toBytes "10.00" < Text.toBytes "9.00" := by
  exact ⟨rfl, rfl, by decide⟩

end Codec

end Clauses
