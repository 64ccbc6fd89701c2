import Clauses.Decimal.Integer
import Mathlib.Algebra.Group.Nat.Defs

/-!
# Numbers are read back

A decimal is written with as many digits as its coefficient has, and a zero in front of the point if
there is none. The reader takes these digits one by one. None of them is ever dropped: what has been
read so far is at most the coefficient, and no more than 28 digits stand behind the point.

* `Decimal.read?_text` — a decimal is read back, but for the sign of zero
* `Integer.ofDigits?_text` — an integer is read back
-/

namespace Clauses

/-! ## Runs of digits -/

namespace Text

theorem isDigit_of_mem_zeroPadded {width n : Nat} {c : Char} (hc : c ∈ zeroPadded width n) :
    c.isDigit = true := by
  rcases List.mem_append.mp hc with h | h
  · rw [List.eq_of_mem_replicate h]
    decide
  · exact Nat.isDigit_of_mem_toDigits (by decide) (by decide) h

theorem digitsValue_zeroPadded (width n : Nat) : digitsValue (zeroPadded width n) = n := by
  rw [digitsValue, zeroPadded, padLeft, Nat.ofDigitChars_append, Nat.ofDigitChars_replicate_zero,
    Nat.mul_zero, Nat.ofDigitChars_ten_toDigits]

theorem length_zeroPadded (width n : Nat) :
    (zeroPadded width n).length = max width (Nat.toDigits 10 n).length :=
  length_padLeft _ _ _

/-- A number below this power of ten has no more digits than it is filled up to. -/
theorem length_zeroPadded_of_lt {width n : Nat} (hwidth : 0 < width) (hn : n < 10 ^ width) :
    (zeroPadded width n).length = width := by
  rw [length_zeroPadded]
  exact Nat.max_eq_left ((Nat.length_toDigits_le_iff (by decide) hwidth).mpr hn)

/-- Filling up goes digit by digit from the end, where there are two digits or more. -/
theorem zeroPadded_add_two (width n : Nat) :
    zeroPadded (width + 2) n = zeroPadded (width + 1) (n / 10) ++ [(n % 10).digitChar] := by
  rcases Nat.lt_or_ge n 10 with hlt | hge
  · rw [Nat.mod_eq_of_lt hlt, Nat.div_eq_of_lt hlt, zeroPadded, zeroPadded,
      Nat.toDigits_of_lt_base hlt, Nat.toDigits_of_lt_base (show 0 < 10 by decide),
      padLeft, padLeft]
    exact congrArg (· ++ _) List.replicate_succ'
  · have hwidth (k : Nat) : width + 2 - (k + 1) = width + 1 - k := by omega
    rw [zeroPadded, zeroPadded, Nat.toDigits_of_base_le (by decide) hge, padLeft, padLeft,
      List.length_append, List.length_singleton, hwidth, List.append_assoc]

/--
The last digits of a number are cut off. What stands in front of them is the quotient, written out.
-/
theorem exists_zeroPadded_eq_append (places n : Nat) : ∃ last : List Char, last.length = places ∧
    zeroPadded (places + 1) n = Nat.toDigits 10 (n / 10 ^ places) ++ last := by
  induction places generalizing n with
  | zero =>
    have hpos := Nat.length_toDigits_pos (b := 10) (n := n)
    refine ⟨[], rfl, ?_⟩
    rw [zeroPadded, padLeft, Nat.sub_eq_zero_of_le hpos, Nat.pow_zero, Nat.div_one, List.append_nil]
    rfl
  | succ places ih =>
    obtain ⟨last, hlength, hlast⟩ := ih (n / 10)
    refine ⟨last ++ [(n % 10).digitChar], by rw [List.length_append, hlength]; rfl, ?_⟩
    rw [zeroPadded_add_two, hlast, List.append_assoc, Nat.pow_succ', Nat.div_div_eq_div_mul]

/-- Digits can be cut where so many are left, and the two parts make the number. -/
theorem exists_cut (places n : Nat) : ∃ last : List Char, last.length = places ∧
    (∀ c ∈ last, c.isDigit = true) ∧ Nat.ofDigitChars 10 last (n / 10 ^ places) = n ∧
    zeroPadded (places + 1) n = Nat.toDigits 10 (n / 10 ^ places) ++ last ∧
    (zeroPadded (places + 1) n).take ((zeroPadded (places + 1) n).length - places)
      = Nat.toDigits 10 (n / 10 ^ places) ∧
    (zeroPadded (places + 1) n).drop ((zeroPadded (places + 1) n).length - places) = last := by
  obtain ⟨last, hlength, hpadded⟩ := exists_zeroPadded_eq_append places n
  have hvalue := digitsValue_zeroPadded (places + 1) n
  rw [hpadded, digitsValue, Nat.ofDigitChars_append, Nat.ofDigitChars_ten_toDigits] at hvalue
  have hwhole : (Nat.toDigits 10 (n / 10 ^ places) ++ last).length - places
      = (Nat.toDigits 10 (n / 10 ^ places)).length := by
    rw [List.length_append, hlength, Nat.add_sub_cancel]
  refine ⟨last, hlength, fun c hc => ?_, hvalue, hpadded, ?_, ?_⟩
  · exact isDigit_of_mem_zeroPadded (hpadded ▸ List.mem_append_right _ hc)
  · rw [hpadded, hwhole, List.take_left]
  · rw [hpadded, hwhole, List.drop_left]

/-- What a run of digits is put behind is at most the whole number. -/
theorem le_ofDigitChars (ds : List Char) (c : Nat) : c ≤ Nat.ofDigitChars 10 ds c := by
  rw [Nat.ofDigitChars_eq_ofDigitChars_zero]
  have := Nat.le_mul_of_pos_left c (Nat.pow_pos (n := ds.length) (show 0 < 10 by decide))
  omega

end Text

/-! ## Decimals -/

namespace Decimal

/-- Digits that a decimal can hold are taken, whatever follows. -/
theorem readDigits_run (pointed started : Bool) (coefficient scale : Nat) {ds : List Char}
    (hds : ∀ c ∈ ds, c.isDigit = true) (rest : List Char)
    (hb : Nat.ofDigitChars 10 ds coefficient < bound)
    (hs : pointed = true → scale + ds.length ≤ maxScale) :
    readDigits pointed started coefficient scale (ds ++ rest)
      = readDigits pointed (started || !ds.isEmpty) (Nat.ofDigitChars 10 ds coefficient)
          (if pointed then scale + ds.length else scale) rest := by
  induction ds generalizing started coefficient scale with
  | nil => simp
  | cons c ds ih =>
    rw [Nat.ofDigitChars_cons, Nat.mul_comm, show '0'.toNat = 48 from rfl] at hb ⊢
    have hnext : coefficient * 10 + (c.toNat - 48) < bound :=
      Nat.lt_of_le_of_lt (Text.le_ofDigitChars ds _) hb
    have hroom : (pointed && scale == maxScale) = false := by
      cases pointed with
      | false => rfl
      | true =>
        have := hs rfl
        rw [List.length_cons] at this
        rw [Bool.true_and, beq_eq_false_iff_ne]
        omega
    rw [List.cons_append, readDigits, if_pos (hds c List.mem_cons_self),
      if_pos (by simp [hnext, hroom]),
      ih true _ _ (fun d hd => hds d (List.mem_cons_of_mem c hd)) hb (fun hp => ?_)]
    · cases pointed with
      | false => simp
      | true => simp [Nat.add_comm, Nat.add_left_comm]
    · have := hs hp
      rw [List.length_cons] at this
      rw [if_pos hp]
      omega

/-- In front of the point of a decimal stands its whole part, and behind it are `scale` digits. -/
theorem exists_unsignedText_eq (d : Decimal) : ∃ places : List Char, places.length = d.scale ∧
    (∀ c ∈ places, c.isDigit = true) ∧ Nat.ofDigitChars 10 places d.wholePart = d.coefficient ∧
    d.unsignedText = Nat.toDigits 10 d.wholePart ++ if d.scale = 0 then [] else '.' :: places := by
  obtain ⟨places, hlength, hdigits, hvalue, hpadded, htake, hdrop⟩ :=
    Text.exists_cut d.scale d.coefficient
  refine ⟨places, hlength, hdigits, hvalue, ?_⟩
  unfold unsignedText
  dsimp only
  rw [htake, hdrop, hpadded]
  split
  · next h0 => rw [List.eq_nil_of_length_eq_zero (hlength.trans h0)]; rfl
  · rfl

/--
A decimal is spelled with digits for its coefficient, the last `scale` of them behind a point.
-/
theorem unsignedText_spelled (d : Decimal) : ∃ whole places : List Char,
    whole ≠ [] ∧ (∀ c ∈ whole ++ places, c.isDigit = true) ∧ places.length = d.scale ∧
      Nat.ofDigitChars 10 places (Nat.ofDigitChars 10 whole 0) = d.coefficient ∧
      d.unsignedText = whole ++ if d.scale = 0 then [] else '.' :: places := by
  obtain ⟨places, hlength, hdigits, hvalue, htext⟩ := d.exists_unsignedText_eq
  refine ⟨_, places, Nat.toDigits_ne_nil, fun c hc => ?_, hlength, ?_, htext⟩
  · exact (List.mem_append.mp hc).elim
      (Nat.isDigit_of_mem_toDigits (by decide) (by decide)) (hdigits c)
  · rwa [Nat.ofDigitChars_ten_toDigits]

/-- The digits of a decimal are its coefficient and its scale. -/
theorem readDigits_unsignedText (d : Decimal) :
    readDigits false false 0 0 d.unsignedText = some (d.coefficient, d.scale) := by
  obtain ⟨whole, places, hne, hdigits, hplaces, hvalue, htext⟩ := d.unsignedText_spelled
  have hb : Nat.ofDigitChars 10 places (Nat.ofDigitChars 10 whole 0) < bound :=
    hvalue ▸ d.coefficient_lt
  have hwhole (rest : List Char) : readDigits false false 0 0 (whole ++ rest)
      = readDigits false true (Nat.ofDigitChars 10 whole 0) 0 rest := by
    rw [readDigits_run false false 0 0 (fun c hc => hdigits c (List.mem_append_left _ hc)) rest
      (Nat.lt_of_le_of_lt (Text.le_ofDigitChars _ _) hb) (nomatch ·),
      List.isEmpty_eq_false_iff.mpr hne, if_neg Bool.false_ne_true]
    rfl
  rw [htext, hwhole]
  split
  · next h0 =>
    rw [List.eq_nil_of_length_eq_zero (hplaces.trans h0), Nat.ofDigitChars_nil] at hvalue
    rw [readDigits, if_pos rfl, hvalue, h0]
  · -- behind the point the reader goes on with the number in front of it
    have hrest := readDigits_run true true _ 0 (fun c hc =>
      hdigits c (List.mem_append_right _ hc)) []
      hb (fun _ => by rw [hplaces, Nat.zero_add]; exact d.scale_le)
    rw [List.append_nil] at hrest
    rw [readDigits, if_neg (by decide), if_pos (by decide), hrest, hvalue, hplaces]
    simp [readDigits]

/-- The parts of a decimal make it again; only zero loses its sign. -/
theorem ofParts?_self (d : Decimal) : ∃ d' : Decimal,
    ofParts? d.negative d.coefficient d.scale = some d' ∧ d'.SameNumber d ∧ d'.scale = d.scale := by
  unfold ofParts?
  rw [dif_pos ⟨d.coefficient_lt, d.scale_le⟩]
  refine ⟨_, rfl, ?_, rfl⟩
  unfold SameNumber signed
  congr 1
  dsimp only
  rcases Nat.eq_zero_or_pos d.coefficient with h0 | hpos
  · simp [h0]
  · simp [show d.coefficient ≠ 0 by omega]

/-- No sign is taken off a text that starts with a digit. -/
theorem splitSign_digits {ds : List Char} (hds : ∀ c ∈ ds.head?, c.isDigit = true) :
    splitSign ds = (false, ds) := by
  unfold splitSign
  split
  · exact absurd (hds '-' rfl) (by decide)
  · exact absurd (hds '+' rfl) (by decide)
  · rfl

theorem splitSign_unsignedText (d : Decimal) :
    splitSign d.unsignedText = (false, d.unsignedText) := by
  obtain ⟨whole, places, hne, hdigits, -, -, htext⟩ := d.unsignedText_spelled
  obtain ⟨c, rest, rfl⟩ := List.exists_cons_of_ne_nil hne
  rw [htext]
  exact splitSign_digits fun b hb => Option.some.inj hb ▸ hdigits c List.mem_cons_self

/-- The sign of a decimal stands in front of its text. -/
theorem splitSign_text (d : Decimal) : splitSign d.text.toList = (d.negative, d.unsignedText) := by
  rw [text, String.toList_ofList]
  cases d.negative with
  | true => rfl
  | false => exact d.splitSign_unsignedText

/-- A decimal is read back with its scale, and it is the same number. -/
theorem read?_text (d : Decimal) :
    ∃ d', read? d.text = some d' ∧ d'.SameNumber d ∧ d'.scale = d.scale := by
  obtain ⟨d', hd', hsame⟩ := d.ofParts?_self
  refine ⟨d', ?_, hsame⟩
  have hplain : ofPlain? d.text.toList = some d' := by
    rw [ofPlain?, splitSign_text]
    dsimp only
    rw [readDigits_unsignedText]
    exact hd'
  rw [read?, hplain]
  rfl

end Decimal

/-! ## Integers -/

namespace Integer

theorem ofInt?_toInt (n : Int64) : ofInt? n.toInt = some n := by
  have hmin := n.le_toInt
  have hmax := n.toInt_lt
  unfold ofInt?
  rw [if_pos (by rw [Int64.toInt_minValue, Int64.toInt_maxValue]; omega), Int64.ofInt_toInt]

/-- An integer is read back from its digits. -/
theorem ofDigits?_text (n : Int64) : ofDigits? (text n.toInt).toList = some n := by
  have hdigits (m : Nat) : ∀ c ∈ Nat.toDigits 10 m, c.isDigit = true :=
    fun c hc => Nat.isDigit_of_mem_toDigits (by decide) (by decide) hc
  have hsign : Decimal.splitSign (text n.toInt).toList
      = (decide (n.toInt < 0), Nat.toDigits 10 n.toInt.natAbs) := by
    rw [text, String.toList_ofList]
    split
    · next h => rw [Decimal.splitSign, decide_eq_true h]
    · next h =>
      rw [decide_eq_false h]
      exact Decimal.splitSign_digits fun c hc => hdigits _ c (List.mem_of_mem_head? hc)
  unfold ofDigits?
  rw [hsign]
  dsimp only
  rw [if_neg (by simpa [Nat.toDigits_ne_nil] using hdigits _), Text.digitsValue,
    Nat.ofDigitChars_ten_toDigits]
  have habs : (if decide (n.toInt < 0) = true then -(n.toInt.natAbs : Int) else n.toInt.natAbs)
      = n.toInt := by
    split
    · next h => have := of_decide_eq_true h; omega
    · next h => have := of_decide_eq_false (Bool.eq_false_iff.mpr h); omega
  rw [habs]
  exact ofInt?_toInt n

theorem read?_text (n : Int64) : read? (text n.toInt) = some n := by
  rw [read?, ofDigits?_text]
  rfl

end Integer

end Clauses
