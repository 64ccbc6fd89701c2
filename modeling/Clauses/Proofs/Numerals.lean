import Clauses.Codec.Sealed
import Clauses.Proofs.Numbers
import Mathlib.Algebra.Order.Field.Rat
import Mathlib.Algebra.Order.Round
import Mathlib.Data.List.TakeWhile
import Mathlib.Tactic.FieldSimp
import Mathlib.Tactic.Linarith
import Mathlib.Tactic.Positivity
import Mathlib.Tactic.Ring

/-!
# Numbers in plain notation are read

A number in plain notation may have any number of digits, but a decimal holds only 96 bits of
them, and no more than 28 places. The reader takes digits as long as they fit. If one behind
the point does not, it looks at this digit alone: from five on it goes up by one in the last
place that it has taken.

* `Numeral` — a number in plain notation, with its text and the number that it denotes
* `Decimal.toRat`, `Decimal.Held` — the number of a decimal, and the numbers that decimals can hold
* `Decimal.Taken`, `Decimal.exists_taken` — what the reader has taken when it stops, and what is
  left
* `Codec.plain_number_decoded` — a number that a decimal can hold is read as it is, or refused where
  it is no integer of 64 bits; any other is off by up to half a unit in its last place
-/

namespace Clauses

/-! ## Numbers as rationals -/

namespace Decimal

/-- The number that a decimal stands for. -/
def toRat (d : Decimal) : ℚ := d.signed / 10 ^ d.scale

/-- There is a decimal of this number. -/
def Held (q : ℚ) : Prop := ∃ d : Decimal, d.toRat = q

/-- The parts of a decimal make its number, with a sign. -/
theorem toRat_eq (d : Decimal) :
    d.toRat = if d.negative then -(d.coefficient / 10 ^ d.scale : ℚ)
    else d.coefficient / 10 ^ d.scale := by
  rw [toRat, signed]
  split
  · rw [Int.cast_neg, Int.cast_natCast, neg_div]
  · rw [Int.cast_natCast]

theorem abs_toRat (d : Decimal) : |d.toRat| = d.coefficient / 10 ^ d.scale := by
  have hpos : (0 : ℚ) ≤ d.coefficient / 10 ^ d.scale := by positivity
  rw [toRat_eq]
  split
  · rw [abs_neg, abs_of_nonneg hpos]
  · exact abs_of_nonneg hpos

/-- The number of an integral decimal is what stands in front of its point. -/
theorem toRat_of_isIntegral {d : Decimal} (h : d.isIntegral = true) :
    d.toRat = ((if d.negative then -d.wholePart else d.wholePart : ℤ) : ℚ) := by
  have hwhole : (d.coefficient / 10 ^ d.scale : ℚ) = d.wholePart := by
    rw [div_eq_iff (by positivity)]
    exact_mod_cast (Nat.div_mul_cancel (Nat.dvd_of_mod_eq_zero (beq_iff_eq.mp h))).symm
  rw [toRat_eq, hwhole]
  split <;> simp only [Int.cast_neg, Int.cast_natCast]

theorem isIntegral_iff {d : Decimal} : d.isIntegral = true ↔ ∃ k : ℤ, d.toRat = k := by
  constructor
  · exact fun h => ⟨_, toRat_of_isIntegral h⟩
  · rintro ⟨k, hk⟩
    have hcoefficient : d.coefficient = k.natAbs * 10 ^ d.scale := by
      have habs := congrArg abs hk
      rw [abs_toRat, div_eq_iff (by positivity), ← Int.cast_abs, ← Nat.cast_natAbs] at habs
      exact_mod_cast habs
    rw [isIntegral, hcoefficient]
    exact beq_iff_eq.mpr (Nat.mul_mod_left _ _)

end Decimal

/-! ## Plain notation -/

/-- A number in plain notation: a minus or none, digits, and digits behind a point or no point. -/
structure Numeral where
  negative : Bool
  whole : List Char
  places : List Char
  whole_ne_nil : whole ≠ []
  isDigit_of_mem : ∀ c ∈ whole ++ places, c.isDigit = true

namespace Numeral

/-- The digits and the point. -/
def unsigned (t : Numeral) : List Char :=
  t.whole ++ if t.places = [] then [] else '.' :: t.places

/-- The number as it is written. -/
def text (t : Numeral) : String :=
  String.ofList (if t.negative then '-' :: t.unsigned else t.unsigned)

/-- The number without its sign. -/
def magnitude (t : Numeral) : ℚ := Text.digitsValue (t.whole ++ t.places) / 10 ^ t.places.length

/-- The number that is denoted. -/
def toRat (t : Numeral) : ℚ := if t.negative then -t.magnitude else t.magnitude

end Numeral

/-! ## Digits behind others -/

namespace Decimal

/--
The number of which `coefficient` and `scale` are made already, and `digits` are still to come.
-/
def continued (coefficient scale : ℕ) (digits : List Char) : ℚ :=
  Nat.ofDigitChars 10 digits coefficient / 10 ^ (scale + digits.length)

variable {coefficient scale : ℕ} {digits : List Char}

theorem continued_nil : continued coefficient scale [] = coefficient / 10 ^ scale := rfl

theorem continued_cons (c : Char) : continued coefficient scale (c :: digits)
    = continued (coefficient * 10 + (c.toNat - 48)) (scale + 1) digits := by
  rw [continued, continued, Nat.ofDigitChars_cons, Nat.mul_comm, List.length_cons,
    Nat.add_right_comm scale 1, Nat.add_assoc scale]
  rfl

theorem digit_le {c : Char} (h : c.isDigit = true) : c.toNat - 48 ≤ 9 := by
  have hle : c.toNat ≤ 57 := (Char.isDigit_iff_toNat.mp h).2
  omega

/-- The digits to come make less than one unit of what is made already. -/
theorem continued_bounds (hdigits : ∀ c ∈ digits, c.isDigit = true) :
    (coefficient : ℚ) ≤ continued coefficient scale digits * 10 ^ scale ∧
      continued coefficient scale digits * 10 ^ scale < coefficient + 1 := by
  induction digits generalizing coefficient scale with
  | nil => simp [continued_nil]
  | cons c rest ih =>
    rw [List.forall_mem_cons] at hdigits
    have hdigit : ((c.toNat - 48 : ℕ) : ℚ) ≤ 9 := by exact_mod_cast digit_le hdigits.1
    obtain ⟨hle, hlt⟩ := @ih (coefficient * 10 + (c.toNat - 48)) (scale + 1) hdigits.2
    rw [← continued_cons, pow_succ, ← mul_assoc] at hle hlt
    push_cast at hle hlt
    have hnonneg : (0 : ℚ) ≤ (c.toNat - 48 : ℕ) := Nat.cast_nonneg _
    constructor <;> linarith

/-! ## Where the reader stops -/

/--
What has been taken of the digits behind the point, and what is left: nothing, or a digit that does
not fit any more with all that is behind it.
-/
structure Taken (number : ℚ) (result : Option (ℕ × ℕ)) (coefficient scale : ℕ) (rest : List Char) :
    Prop where
  coefficient_lt : coefficient < bound
  scale_le : scale ≤ maxScale
  digits : ∀ c ∈ rest, c.isDigit = true
  number_eq : number = continued coefficient scale rest
  result_eq : result = match rest with
    | [] => some (coefficient, scale)
    | c :: rest => roundOff coefficient scale (c.toNat - 48) rest
  full : ∀ c ∈ rest.head?, scale = maxScale ∨ bound ≤ coefficient * 10 + (c.toNat - 48)

/-- The reader takes digits until one does not fit. -/
theorem exists_taken (hc : coefficient < bound) (hs : scale ≤ maxScale)
    (hdigits : ∀ c ∈ digits, c.isDigit = true) : ∃ coefficient' scale' rest,
      Taken (continued coefficient scale digits) (readDigits true true coefficient scale digits)
        coefficient' scale' rest := by
  induction digits generalizing coefficient scale with
  | nil => exact ⟨coefficient, scale, [], hc, hs, hdigits, rfl, rfl, fun _ h => nomatch h⟩
  | cons c rest ih =>
    obtain ⟨hdigit, hrest⟩ := List.forall_mem_cons.mp hdigits
    by_cases hfits : coefficient * 10 + (c.toNat - 48) < bound ∧ scale ≠ maxScale
    · have hstep : readDigits true true coefficient scale (c :: rest)
          = readDigits true true (coefficient * 10 + (c.toNat - 48)) (scale + 1) rest := by
        rw [readDigits, if_pos hdigit, if_pos (by simpa using hfits), if_pos rfl]
      rw [hstep, continued_cons]
      exact ih hfits.1 (by omega) hrest
    · refine ⟨coefficient, scale, c :: rest, hc, hs, hdigits, rfl, ?_, fun d hd => ?_⟩
      · rw [readDigits, if_pos hdigit, if_neg (by simpa using hfits), if_pos rfl]
      · cases hd
        omega

/--
The digit that is dropped decides: below five nothing changes, and from there on the last place goes
up by one. Where it cannot, the place before it is the last one.
-/
theorem roundOff_eq {digit : ℕ} {rest : List Char} (hrest : ∀ c ∈ rest, c.isDigit = true) :
    roundOff coefficient scale digit rest =
      if digit < 5 then some (coefficient, scale)
      else if coefficient + 1 < bound then some (coefficient + 1, scale)
      else if scale = 0 then none
      else some ((coefficient + 5) / 10, scale - 1) := by
  refine if_pos (List.all_eq_true.mpr fun c hc => ?_)
  rw [isSpareDigit, hrest c hc, Bool.true_or]

namespace Taken

variable {number : ℚ} {result : Option (ℕ × ℕ)} {rest : List Char}

theorem bounds (h : Taken number result coefficient scale rest) :
    (coefficient : ℚ) ≤ number * 10 ^ scale ∧ number * 10 ^ scale < coefficient + 1 :=
  h.number_eq ▸ continued_bounds h.digits

/-- The first digit that is left tells in which tenth of a unit the number is. -/
theorem tenths {c : Char} (h : Taken number result coefficient scale (c :: rest)) :
    (coefficient : ℚ) + (c.toNat - 48 : ℕ) / 10 ≤ number * 10 ^ scale ∧
      number * 10 ^ scale < coefficient + ((c.toNat - 48 : ℕ) + 1) / 10 := by
  have hrest : ∀ d ∈ rest, d.isDigit = true := fun d hd => h.digits d (List.mem_cons_of_mem c hd)
  have hbounds := @continued_bounds (coefficient * 10 + (c.toNat - 48)) (scale + 1) rest hrest
  rw [← continued_cons, ← h.number_eq, pow_succ, ← mul_assoc] at hbounds
  push_cast at hbounds
  constructor <;> linarith [hbounds.1, hbounds.2]

/--
What comes out is what has been taken, unless half a unit or more is left. Then the last place goes
up by one; where it cannot, the place before it is the last one.
-/
theorem result_cases (h : Taken number result coefficient scale rest) :
    (number * 10 ^ scale < coefficient + 1 / 2 ∧ result = some (coefficient, scale)) ∨
    ((coefficient : ℚ) + 1 / 2 ≤ number * 10 ^ scale ∧ result =
      if coefficient + 1 < bound then some (coefficient + 1, scale)
      else if scale = 0 then none
      else some ((coefficient + 5) / 10, scale - 1)) := by
  cases rest with
  | nil =>
    refine .inl ⟨?_, h.result_eq⟩
    rw [h.number_eq, continued_nil, div_mul_cancel₀ _ (by positivity)]
    linarith
  | cons c rest =>
    obtain ⟨hle, hbelow⟩ := h.tenths
    have hresult := h.result_eq.trans (roundOff_eq fun d hd =>
      h.digits d (List.mem_cons_of_mem c hd))
    by_cases hdigit : c.toNat - 48 < 5
    · have hlow : ((c.toNat - 48 : ℕ) : ℚ) + 1 ≤ 5 := by exact_mod_cast hdigit
      rw [if_pos hdigit] at hresult
      exact .inl ⟨by linarith, hresult⟩
    · have hhigh : (5 : ℚ) ≤ (c.toNat - 48 : ℕ) := by exact_mod_cast Nat.le_of_not_lt hdigit
      rw [if_neg hdigit] at hresult
      exact .inr ⟨by linarith, hresult⟩

theorem number_nonneg (h : Taken number result coefficient scale rest) : 0 ≤ number := by
  rw [h.number_eq, continued]
  positivity

/-- More places make a number more units. -/
theorem mul_pow_mono (h : Taken number result coefficient scale rest) {m n : ℕ} (hmn : m ≤ n) :
    number * 10 ^ m ≤ number * 10 ^ n :=
  mul_le_mul_of_nonneg_left (pow_le_pow_right₀ (by norm_num) hmn) h.number_nonneg

/--
Nothing comes out if, and only if, the number is beyond the greatest decimal even when it is
rounded.
-/
theorem result_eq_none_iff (h : Taken number result coefficient scale rest) :
    result = none ↔ (bound : ℚ) ≤ number + 1 / 2 := by
  have hmono := h.mul_pow_mono (Nat.zero_le scale)
  rw [pow_zero, mul_one] at hmono
  rcases h.result_cases with ⟨hdown, hresult⟩ | ⟨hup, hresult⟩
  · have hlt : (coefficient : ℚ) + 1 ≤ bound := by exact_mod_cast h.coefficient_lt
    rw [hresult]
    simp only [reduceCtorEq, false_iff, not_le]
    linarith
  · rw [hresult]
    split
    · next hroom =>
      have hroom : (coefficient : ℚ) + 1 + 1 ≤ bound := by exact_mod_cast hroom
      simp only [reduceCtorEq, false_iff, not_le]
      linarith [h.bounds.2]
    · next hlast =>
      have hlast : (bound : ℚ) ≤ coefficient + 1 := by exact_mod_cast Nat.le_of_not_lt hlast
      split
      · next hscale =>
        rw [hscale, pow_zero, mul_one] at hup
        simp only [true_iff]
        linarith
      · next hscale =>
        -- with a place behind the point the number is far below the bound
        have hten := h.mul_pow_mono (Nat.one_le_iff_ne_zero.mpr hscale)
        have hlt : (coefficient : ℚ) + 1 ≤ bound := by exact_mod_cast h.coefficient_lt
        have hbound : (10 : ℚ) ≤ bound := by norm_num [bound]
        simp only [reduceCtorEq, false_iff, not_le]
        linarith [h.bounds.2]

/-- A distance counted in units of the last place. -/
theorem abs_sub_le_iff {c s : ℕ} : |(c : ℚ) / 10 ^ s - number| ≤ 1 / 2 / 10 ^ s ↔
    |(c : ℚ) - number * 10 ^ s| ≤ 1 / 2 := by
  have hpos : (0 : ℚ) < 10 ^ s := by positivity
  rw [le_div_iff₀ hpos, ← abs_of_pos hpos, ← abs_mul, sub_mul, abs_of_pos hpos,
    div_mul_cancel₀ _ hpos.ne']

/-- What comes out is off by no more than half a unit in its last place. -/
theorem near (h : Taken number result coefficient scale rest) {coefficient' scale' : ℕ}
    (hr : result = some (coefficient', scale')) : coefficient' < bound ∧ scale' ≤ maxScale ∧
      |(coefficient' : ℚ) / 10 ^ scale' - number| ≤ 1 / 2 / 10 ^ scale' := by
  rw [abs_sub_le_iff]
  obtain ⟨hle, hless⟩ := h.bounds
  rcases h.result_cases with ⟨hdown, hresult⟩ | ⟨hup, hresult⟩
  · cases hresult.symm.trans hr
    exact ⟨h.coefficient_lt, h.scale_le, abs_le.mpr ⟨by linarith, by linarith⟩⟩
  · rw [hresult] at hr
    split at hr
    · next hroom =>
      cases hr
      refine ⟨hroom, h.scale_le, abs_le.mpr ?_⟩
      push_cast
      constructor <;> linarith
    · next hlimit =>
      split at hr
      · cases hr
      · next hscale =>
        cases hr
        obtain ⟨k, rfl⟩ := Nat.exists_eq_add_one_of_ne_zero hscale
        have hlast : coefficient = 79228162514264337593543950335 := by
          have := h.coefficient_lt
          norm_num [bound] at this hlimit
          omega
        -- the coefficient is the greatest, and ends with a five: it makes one ten with what is
        -- dropped
        rw [pow_succ, ← mul_assoc, hlast] at hup hless
        rw [hlast, Nat.add_sub_cancel]
        refine ⟨by norm_num [bound], Nat.le_of_succ_le h.scale_le, abs_le.mpr ?_⟩
        norm_num at hup hless ⊢
        constructor <;> linarith

/-- A number that a decimal can hold comes out as it is. -/
theorem exact_of_held (h : Taken number result coefficient scale rest) {coefficient₀ scale₀ : ℕ}
    (hc : coefficient₀ < bound) (hs : scale₀ ≤ maxScale)
    (hn : number = coefficient₀ / 10 ^ scale₀) :
    result = some (coefficient, scale) ∧ number = coefficient / 10 ^ scale := by
  cases rest with
  | nil => exact ⟨h.result_eq, h.number_eq.trans continued_nil⟩
  | cons c rest =>
    have hle := h.tenths.1
    have hunits : number * 10 ^ scale₀ = coefficient₀ := by
      rw [hn, div_mul_cancel₀ _ (by positivity)]
    have hscale : scale₀ ≤ scale := by
      rcases h.full c rfl with hfull | hfull
      · omega
      · -- one place more would make more units than a coefficient has
        by_contra hlt
        have hmore := h.mul_pow_mono (Nat.succ_le_of_lt (Nat.lt_of_not_le hlt))
        have hfull : (bound : ℚ) ≤ coefficient * 10 + (c.toNat - 48 : ℕ) := by exact_mod_cast hfull
        have hc : (coefficient₀ : ℚ) < bound := by exact_mod_cast hc
        rw [Nat.succ_eq_add_one, pow_succ, ← mul_assoc, hunits] at hmore
        linarith
    have hwhole : number * 10 ^ scale = (coefficient₀ * 10 ^ (scale - scale₀) : ℕ) := by
      rw [← Nat.add_sub_of_le hscale, pow_add, ← mul_assoc, hunits, Nat.add_sub_cancel_left]
      push_cast
      rfl
    have hunit : coefficient₀ * 10 ^ (scale - scale₀) = coefficient := by
      have hlt := h.bounds
      rw [hwhole] at hlt
      have h1 : coefficient ≤ coefficient₀ * 10 ^ (scale - scale₀) := by exact_mod_cast hlt.1
      have h2 : coefficient₀ * 10 ^ (scale - scale₀) < coefficient + 1 := by exact_mod_cast hlt.2
      omega
    rw [hunit] at hwhole
    refine ⟨?_, (eq_div_iff (by positivity)).mpr hwhole⟩
    rcases h.result_cases with ⟨-, hresult⟩ | ⟨hup, -⟩
    · exact hresult
    · linarith

end Taken

/-! ## From parts to a decimal -/

/-- Parts that fit make a decimal of their number. -/
theorem exists_ofParts? (negative : Bool) (hc : coefficient < bound) (hs : scale ≤ maxScale) :
    ∃ d, ofParts? negative coefficient scale = some d ∧ d.scale = scale ∧
      d.toRat = if negative then -(coefficient / 10 ^ scale : ℚ) else coefficient / 10 ^ scale := by
  refine ⟨_, dif_pos ⟨hc, hs⟩, rfl, ?_⟩
  rw [toRat_eq]
  rcases Nat.eq_zero_or_pos coefficient with h0 | hpos
  · simp [h0]
  · simp [hpos.ne']

end Decimal

namespace Numeral

variable (t : Numeral)

theorem isDigit_whole {c : Char} (hc : c ∈ t.whole) : c.isDigit = true :=
  t.isDigit_of_mem c (List.mem_append_left _ hc)

theorem isDigit_places {c : Char} (hc : c ∈ t.places) : c.isDigit = true :=
  t.isDigit_of_mem c (List.mem_append_right _ hc)

theorem magnitude_eq :
    t.magnitude = Decimal.continued (Text.digitsValue t.whole) 0 t.places := by
  rw [magnitude, Decimal.continued, Text.digitsValue, Nat.ofDigitChars_append, Nat.zero_add]
  rfl

theorem magnitude_nonneg : 0 ≤ t.magnitude := by
  rw [magnitude]
  positivity

theorem abs_toRat : |t.toRat| = t.magnitude := by
  rw [toRat]
  split
  · rw [abs_neg, abs_of_nonneg t.magnitude_nonneg]
  · exact abs_of_nonneg t.magnitude_nonneg

/-! ## Reading -/

/-- Digits before the point that do not fit are refused. -/
theorem readDigits_overflow (started : Bool) {coefficient scale : ℕ} {digits : List Char}
    (hdigits : ∀ c ∈ digits, c.isDigit = true) (rest : List Char) (hc : coefficient < Decimal.bound)
    (hover : Decimal.bound ≤ Nat.ofDigitChars 10 digits coefficient) :
    Decimal.readDigits false started coefficient scale (digits ++ rest) = none := by
  induction digits generalizing started coefficient with
  | nil => exact absurd hover (Nat.not_le.mpr hc)
  | cons c digits ih =>
    obtain ⟨hdigit, hrest⟩ := List.forall_mem_cons.mp hdigits
    rw [Nat.ofDigitChars_cons, Nat.mul_comm] at hover
    rw [List.cons_append, Decimal.readDigits, if_pos hdigit]
    by_cases hfits : coefficient * 10 + (c.toNat - 48) < Decimal.bound
    · rw [if_pos (by simpa using hfits)]
      exact ih true hrest hfits hover
    · rw [if_neg (by simpa using hfits)]
      rfl

/--
The digits before the point are taken all together or refused, and so it is known what is taken
of the digits behind it.
-/
theorem readDigits_unsigned :
    (∃ coefficient scale rest,
      Decimal.Taken t.magnitude (Decimal.readDigits false false 0 0 t.unsigned)
      coefficient scale rest) ∨
    (Decimal.bound : ℚ) ≤ t.magnitude ∧ Decimal.readDigits false false 0 0 t.unsigned = none := by
  rw [magnitude_eq]
  have hwhole : ∀ c ∈ t.whole, c.isDigit = true := fun _ => t.isDigit_whole
  have hplaces : ∀ c ∈ t.places, c.isDigit = true := fun _ => t.isDigit_places
  by_cases hb : Text.digitsValue t.whole < Decimal.bound
  · have hread : Decimal.readDigits false false 0 0 t.unsigned
        = Decimal.readDigits true true (Text.digitsValue t.whole) 0 t.places := by
      rw [unsigned, Decimal.readDigits_run false false 0 0 hwhole _ hb (nomatch ·),
        List.isEmpty_eq_false_iff.mpr t.whole_ne_nil, if_neg Bool.false_ne_true]
      split
      · next hnone =>
        rw [hnone]
        rfl
      · rw [Decimal.readDigits, if_neg (by decide), if_pos (by decide)]
        rfl
    rw [hread]
    exact .inl (Decimal.exists_taken hb (Nat.zero_le _) hplaces)
  · refine .inr ⟨?_, readDigits_overflow false hwhole _ (by decide) (Nat.le_of_not_lt hb)⟩
    have hle := (@Decimal.continued_bounds (Text.digitsValue t.whole) 0 t.places hplaces).1
    rw [pow_zero, mul_one] at hle
    exact (Nat.cast_le.mpr (Nat.le_of_not_lt hb)).trans hle

theorem splitSign_text :
    Decimal.splitSign t.text.toList = (t.negative, t.unsigned) := by
  rw [text, String.toList_ofList]
  cases t.negative with
  | true => rfl
  | false =>
    refine Decimal.splitSign_digits fun c hc => ?_
    obtain ⟨d, rest, hd⟩ := List.exists_cons_of_ne_nil t.whole_ne_nil
    rw [if_neg Bool.false_ne_true, unsigned, hd] at hc
    exact Option.some.inj hc ▸ t.isDigit_whole (hd ▸ List.mem_cons_self)

/-- Plain notation has no exponent. -/
theorem isExponentMark_eq_false {c : Char} (hc : c ∈ t.text.toList) :
    Decimal.isExponentMark c = false := by
  have hdigit {c : Char} (h : c.isDigit = true) : Decimal.isExponentMark c = false := by
    rw [Decimal.isExponentMark, Bool.or_eq_false_iff, beq_eq_false_iff_ne, beq_eq_false_iff_ne]
    constructor <;> rintro rfl <;> exact absurd h (by decide)
  have hunsigned : ∀ c ∈ t.unsigned, Decimal.isExponentMark c = false := by
    intro c hc
    rcases List.mem_append.mp hc with hw | hp
    · exact hdigit (t.isDigit_whole hw)
    · split at hp
      · cases hp
      · rcases List.mem_cons.mp hp with rfl | hp
        · decide
        · exact hdigit (t.isDigit_places hp)
  rw [text, String.toList_ofList] at hc
  split at hc
  · rcases List.mem_cons.mp hc with rfl | hc
    · decide
    · exact hunsigned c hc
  · exact hunsigned c hc

/-- The text is read by its digits. -/
theorem read?_text : Decimal.read? t.text = (Decimal.readDigits false false 0 0 t.unsigned).bind
    fun parts => Decimal.ofParts? t.negative parts.1 parts.2 := by
  have hplain : Decimal.ofPlain? t.text.toList
    = (Decimal.readDigits false false 0 0 t.unsigned).bind
      fun parts => Decimal.ofParts? t.negative parts.1 parts.2 := by
    rw [Decimal.ofPlain?, splitSign_text]
  have hscientific : Decimal.ofScientific? t.text.toList = none := by
    have hnone : t.text.toList.dropWhile (fun c => !Decimal.isExponentMark c) = [] :=
      List.dropWhile_eq_nil_iff.mpr fun c hc => by rw [t.isExponentMark_eq_false hc, Bool.not_false]
    rw [Decimal.ofScientific?, hnone]
  rw [Decimal.read?, hplain, hscientific]
  cases (Decimal.readDigits false false 0 0 t.unsigned).bind _ <;> rfl

/--
A number is refused if, and only if, it is beyond the greatest decimal even when it is rounded.
-/
theorem read?_eq_none_iff :
    Decimal.read? t.text = none ↔ (Decimal.bound : ℚ) ≤ |t.toRat| + 1 / 2 := by
  rw [read?_text, abs_toRat]
  rcases t.readDigits_unsigned with ⟨c, s, rest, h⟩ | ⟨hover, hnone⟩
  · rw [← h.result_eq_none_iff]
    cases hr : Decimal.readDigits false false 0 0 t.unsigned with
    | none => exact iff_of_true rfl rfl
    | some parts =>
      obtain ⟨hc, hs, -⟩ := h.near hr
      obtain ⟨d, hd, -⟩ := Decimal.exists_ofParts? t.negative hc hs
      rw [Option.bind_some, hd]
      exact iff_of_false (Option.some_ne_none d) (Option.some_ne_none parts)
  · rw [hnone]
    exact iff_of_true rfl (by linarith)

/-- What is read is off by no more than half a unit in its last place. -/
theorem near_of_read? {d : Decimal} (h : Decimal.read? t.text = some d) :
    |d.toRat - t.toRat| ≤ 1 / 2 / 10 ^ d.scale := by
  rw [read?_text] at h
  obtain ⟨⟨coefficient, scale⟩, hparts, hd⟩ := Option.bind_eq_some_iff.mp h
  rcases t.readDigits_unsigned with ⟨c, s, rest, htaken⟩ | ⟨-, hnone⟩
  · obtain ⟨hc, hs, hnear⟩ := htaken.near hparts
    obtain ⟨d', hd', rfl, hrat⟩ := Decimal.exists_ofParts? t.negative hc hs
    cases hd.symm.trans hd'
    rw [hrat, toRat]
    split
    · rwa [neg_sub_neg, abs_sub_comm]
    · exact hnear
  · rw [hnone] at hparts
    cases hparts

/-- A number that a decimal can hold is read as it is. -/
theorem read?_of_held (h : Decimal.Held t.toRat) :
    ∃ d, Decimal.read? t.text = some d ∧ d.toRat = t.toRat := by
  obtain ⟨d₀, hd₀⟩ := h
  have hmagnitude : t.magnitude = d₀.coefficient / 10 ^ d₀.scale := by
    rw [← abs_toRat, ← hd₀, Decimal.abs_toRat]
  rcases t.readDigits_unsigned with ⟨c, s, rest, htaken⟩ | ⟨hover, -⟩
  · obtain ⟨hr, hexact⟩ := htaken.exact_of_held d₀.coefficient_lt d₀.scale_le hmagnitude
    obtain ⟨d, hd, -, hrat⟩ :=
      Decimal.exists_ofParts? t.negative htaken.coefficient_lt htaken.scale_le
    refine ⟨d, ?_, ?_⟩
    · rw [read?_text, hr]
      exact hd
    · rw [hrat, toRat, hexact]
  · -- a number of the bound or more is that of no decimal
    have hlt : (d₀.coefficient : ℚ) < Decimal.bound := by exact_mod_cast d₀.coefficient_lt
    have hle : t.magnitude ≤ d₀.coefficient := by
      rw [hmagnitude]
      exact div_le_self (Nat.cast_nonneg _) (one_le_pow₀ (by norm_num))
    linarith

end Numeral

/-! ## Integers -/

namespace Integer

theorem toRat_ofInt64 (n : Int64) : (Decimal.ofInt64 n).toRat = n.toInt := by
  have hneg : (n < 0) ↔ n.toInt < 0 := Int64.lt_iff_toInt_lt
  have hsigned : (Decimal.ofInt64 n).signed = n.toInt := by
    rw [Decimal.signed, Decimal.ofInt64]
    simp only [decide_eq_true_eq, hneg]
    split <;> omega
  rw [Decimal.toRat, hsigned]
  exact div_one _

/-- A decimal is taken as an integer if it is one of 64 bits. -/
theorem ofDecimal?_eq_some_iff {d : Decimal} {n : Int64} :
    ofDecimal? d = some n ↔ d.toRat = n.toInt := by
  rw [ofDecimal?]
  cases hint : d.isIntegral with
  | false =>
    rw [if_neg Bool.false_ne_true]
    refine iff_of_false (Option.some_ne_none n).symm fun h => ?_
    exact absurd (Decimal.isIntegral_iff.mpr ⟨_, h⟩) (ne_true_of_eq_false hint)
  | true =>
    rw [if_pos rfl, Decimal.toRat_of_isIntegral hint, Int.cast_inj]
    exact ⟨fun h => (toInt_of_ofInt? h).symm, fun h => (congrArg ofInt? h).trans (ofInt?_toInt n)⟩

/-- Digits that are read as an integer make this integer. -/
theorem ofDigits?_numeral {t : Numeral} {n : Int64} (h : ofDigits? t.text.toList = some n) :
    t.toRat = n.toInt := by
  rw [ofDigits?, t.splitSign_text] at h
  dsimp only at h
  split at h
  · cases h
  · next hdigits =>
    have hall : t.unsigned.all Char.isDigit = true := by
      simp only [Bool.or_eq_true, not_or, Bool.not_eq_true, Bool.not_eq_false'] at hdigits
      exact hdigits.2
    have hplaces : t.places = [] := by
      by_contra hne
      rw [Numeral.unsigned, if_neg hne, List.all_append, List.all_cons] at hall
      exact absurd hall (by simp [show Char.isDigit '.' = false by decide])
    have hunsigned : t.unsigned = t.whole := by
      rw [Numeral.unsigned, if_pos hplaces, List.append_nil]
    have hmagnitude : t.magnitude = Text.digitsValue t.unsigned := by
      rw [Numeral.magnitude, hplaces, hunsigned, List.append_nil]
      exact div_one _
    rw [toInt_of_ofInt? h, Numeral.toRat, hmagnitude]
    split <;> push_cast <;> rfl

/-- An integer in plain notation is read as a decimal that is one. -/
theorem read?_numeral (t : Numeral) : read? t.text = (Decimal.read? t.text).bind ofDecimal? := by
  rw [read?]
  cases h : ofDigits? t.text.toList with
  | none => rfl
  | some n =>
    obtain ⟨d, hd, hrat⟩ :=
      t.read?_of_held ⟨.ofInt64 n, (toRat_ofInt64 n).trans (ofDigits?_numeral h).symm⟩
    rw [hd, Option.bind_some, ofDecimal?_eq_some_iff.mpr (hrat.trans (ofDigits?_numeral h))]
    rfl

end Integer

/-! ## Numbers of the wire -/

namespace WireValue

variable {dates format : Option String} {field t : String} {w : WireValue}

/-- The digits of a number are read as a decimal, and otherwise refused. -/
theorem decode_decimal (h : numberText? format w = some t) :
    w.decode dates field format .decimal = match Decimal.read? t with
      | some d => .ok (.decimal d)
      | none => .error (.invalidValue field (.notOfKind t .decimal)) := by
  have hscalar : decodeScalar dates format .decimal w = (readDecimal t).map some := by
    rw [decodeScalar, h]
    rfl
  rw [decode_of_scalar hscalar, readDecimal]
  cases Decimal.read? t <;> rfl

/-- So are those of an integer. -/
theorem decode_integer (h : numberText? format w = some t) :
    w.decode dates field format .integer = match Integer.read? t with
      | some n => .ok (.integer n)
      | none => .error (.invalidValue field (.notOfKind t .integer)) := by
  have hscalar : decodeScalar dates format .integer w = (readInteger t).map some := by
    rw [decodeScalar, h]
    rfl
  rw [decode_of_scalar hscalar, readInteger]
  cases Integer.read? t <;> rfl

end WireValue

namespace Codec

variable {p : Property} {t : Numeral} {d : Decimal}

/-- A number of the wire is read as this decimal, and as an integer if it is one of 64 bits. -/
structure ReadsAs (codec : Codec) (p : Property) (t : String) (d : Decimal) : Prop where
  decimal : codec.fromWire (.number t) .decimal p = .ok (.decimal d)
  integer (n : Int64) : d.toRat = n.toInt → codec.fromWire (.number t) .integer p = .ok (.integer n)
  noInteger : (∀ n : Int64, d.toRat ≠ n.toInt) →
    codec.fromWire (.number t) .integer p
      = .error (.invalidValue p.wireName (.notOfKind t .integer))

theorem readsAs_of_read? (codec : Codec) (hhook : p.hook = none)
    (h : Decimal.read? t.text = some d) :
    codec.ReadsAs p t.text d where
  decimal := by
    rw [fromWire_of_hook_none hhook, WireValue.decode_decimal rfl, h]
  integer n hn := by
    rw [fromWire_of_hook_none hhook, WireValue.decode_integer rfl, Integer.read?_numeral, h,
      Option.bind_some, Integer.ofDecimal?_eq_some_iff.mpr hn]
  noInteger hno := by
    have hnone : Integer.ofDecimal? d = none :=
      Option.eq_none_iff_forall_ne_some.mpr fun n hn => hno n (Integer.ofDecimal?_eq_some_iff.mp hn)
    rw [fromWire_of_hook_none hhook, WireValue.decode_integer rfl, Integer.read?_numeral, h,
      Option.bind_some, hnone]

/--
**Numbers of the wire that a decimal can hold are read exactly, or refused.** Take a number in
plain notation, however long, and a property without hook. If the number is beyond the greatest
decimal even when it is rounded, it is refused as a decimal and as an integer. Any other is read as
a decimal, and as an integer exactly if this decimal is one of 64 bits. The decimal is the number
itself if there is a decimal of this number; if there is none, it is off by no more than half a
unit in its last place.
-/
theorem plain_number_decoded (codec : Codec) {p : Property} (hhook : p.hook = none) (t : Numeral) :
    ((Decimal.bound : ℚ) ≤ |t.toRat| + 1 / 2 → ∀ kind ∈ [ValueKind.decimal, .integer],
      codec.fromWire (.number t.text) kind p
        = .error (.invalidValue p.wireName (.notOfKind t.text kind))) ∧
    (|t.toRat| + 1 / 2 < Decimal.bound → ∃ d, codec.ReadsAs p t.text d ∧
      (Decimal.Held t.toRat → d.toRat = t.toRat) ∧ |d.toRat - t.toRat| ≤ 1 / 2 / 10 ^ d.scale) := by
  constructor
  · intro hover
    have hnone := t.read?_eq_none_iff.mpr hover
    rw [List.forall_mem_cons, List.forall_mem_singleton]
    constructor
    · rw [fromWire_of_hook_none hhook, WireValue.decode_decimal rfl, hnone]
    · rw [fromWire_of_hook_none hhook, WireValue.decode_integer rfl, Integer.read?_numeral, hnone]
      rfl
  · intro hlt
    obtain ⟨d, hd⟩ := Option.ne_none_iff_exists'.mp fun hnone =>
      absurd (t.read?_eq_none_iff.mp hnone) (not_le.mpr hlt)
    refine ⟨d, readsAs_of_read? codec hhook hd, fun hheld => ?_, t.near_of_read? hd⟩
    obtain ⟨d', hd', hrat⟩ := t.read?_of_held hheld
    cases hd.symm.trans hd'
    exact hrat

/--
Thirty zeros behind the point are more places than a decimal holds, but the number is one of it.
-/
theorem padded_answer_decoded :
    let codec : Codec := ⟨none, .empty⟩
    let t : Numeral := ⟨true, ['4', '2'], List.replicate 30 '0', by decide, List.all_eq_true.mp rfl⟩
    t.text = "-42.000000000000000000000000000000" ∧
      codec.fromWire (.number t.text) .integer (.plain "answer") = .ok (.integer (-42)) ∧
      ∃ d, codec.fromWire (.number t.text) .decimal (.plain "answer") = .ok (.decimal d) ∧
        d.toRat = -42 := by
  intro codec t
  have hrat : t.toRat = -42 := by
    have hdigits : Text.digitsValue (t.whole ++ t.places) = 42 * 10 ^ 30 := by decide +kernel
    have hlength : t.places.length = 30 := rfl
    rw [Numeral.toRat, if_pos rfl, Numeral.magnitude, hdigits, hlength]
    norm_num
  have hheld : Decimal.Held t.toRat :=
    ⟨.ofInt64 (-42), by rw [Integer.toRat_ofInt64, hrat]; rfl⟩
  have hlt : |t.toRat| + 1 / 2 < Decimal.bound := by
    rw [hrat]
    norm_num [Decimal.bound]
  obtain ⟨d, hreads, hexact, -⟩ := (codec.plain_number_decoded (p := .plain "answer") rfl t).2 hlt
  have hd : d.toRat = -42 := (hexact hheld).trans hrat
  exact ⟨by decide +kernel, hreads.integer (-42) hd, d, hreads.decimal, hd⟩

/--
Twenty-nine nines behind the point are more places than are looked at: the number is read as the
integer after it, and as a decimal of another number.
-/
theorem nines_rounded_away :
    let codec : Codec := ⟨none, .empty⟩
    let t : Numeral := ⟨false, ['4', '2'], List.replicate 29 '9', by decide,
      List.all_eq_true.mp rfl⟩
    t.text = "42.99999999999999999999999999999" ∧ t.toRat ≠ 43 ∧
      codec.fromWire (.number t.text) .integer (.plain "num") = .ok (.integer 43) ∧
      ∃ d, codec.fromWire (.number t.text) .decimal (.plain "num") = .ok (.decimal d) ∧
        d.toRat ≠ t.toRat := by
  intro codec t
  have hrat : t.toRat ≠ 43 := by
    have hdigits : Text.digitsValue (t.whole ++ t.places) = 43 * 10 ^ 29 - 1 := by decide +kernel
    have hlength : t.places.length = 29 := rfl
    rw [Numeral.toRat, if_neg Bool.false_ne_true, Numeral.magnitude, hdigits, hlength]
    norm_num
  have hread : Decimal.read? t.text = some ⟨false, 43 * 10 ^ 27, 27, by decide, by decide⟩ := by
    decide +kernel
  have hreads := readsAs_of_read? codec (p := .plain "num") rfl hread
  have hd : Decimal.toRat ⟨false, 43 * 10 ^ 27, 27, by decide, by decide⟩ = 43 := by
    rw [Decimal.toRat_eq]
    norm_num
  exact ⟨by decide +kernel, hrat, hreads.integer 43 hd, _, hreads.decimal, fun h =>
    hrat (h.symm.trans hd)⟩

end Codec

end Clauses
