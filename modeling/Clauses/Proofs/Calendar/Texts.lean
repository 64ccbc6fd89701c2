import Clauses.Calendar.Reader
import Clauses.Proofs.Calendar.Days
import Clauses.Proofs.Numbers

/-!
# Dates are read back

A date and an instant are written as numbers of a fixed width with signs between them. A reader of
numbers takes digits until it has as many as it may or a character is none. So each number is read
back where it stands, in front of whatever does not go on with it.

* `Calendar.scanNumber_run` — a run of digits is read as its number
* `Date.readDate_text` — a date is read back, whatever its year is
* `Instant.readIsoInstant_isoText` — so is an instant of the years from 0 to 9999
-/

namespace Clauses

namespace Text

theorem length_le_byteLength (s : List Char) : s.length ≤ byteLength s := by
  induction s with
  | nil => exact Nat.le_refl 0
  | cons c s ih =>
    have hpos := c.utf8Size_pos
    rw [List.length_cons, byteLength_cons]
    omega

/-- A digit is no white space. -/
theorem isBlank_of_isDigit {c : Char} (h : c.isDigit = true) : isBlank c = false := by
  have hbounds : 48 ≤ c.toNat ∧ c.toNat ≤ 57 := Char.isDigit_iff_toNat.mp h
  simp only [isBlank, Bool.or_eq_false_iff, Bool.and_eq_false_iff, decide_eq_false_iff_not,
    beq_eq_false_iff_ne]
  omega

theorem dropBlanks_cons {c : Char} (h : isBlank c = false) (s : List Char) :
    dropBlanks (c :: s) = c :: s :=
  List.dropWhile_cons_of_neg (ne_true_of_eq_false h)

/-- A number starts with a digit. -/
theorem exists_zeroPadded_eq_cons (width n : Nat) :
    ∃ c ds, zeroPadded width n = c :: ds ∧ c.isDigit = true := by
  have hne : zeroPadded width n ≠ [] := by
    have hpos := Nat.length_toDigits_pos (b := 10) (n := n)
    refine List.ne_nil_of_length_pos ?_
    rw [length_zeroPadded]
    omega
  obtain ⟨c, ds, h⟩ := List.exists_cons_of_ne_nil hne
  exact ⟨c, ds, h, isDigit_of_mem_zeroPadded (h ▸ List.mem_cons_self)⟩

end Text

namespace Calendar

/-! ## Numbers -/

/-- The text does not go on with a number in front of it. -/
def NoDigit (rest : List Char) : Prop := ∀ c ∈ rest.head?, c.isDigit = false

theorem NoDigit.cons {c : Char} (h : c.isDigit = false) (rest : List Char) : NoDigit (c :: rest) :=
  fun _ hc => Option.some.inj hc ▸ h

variable {ds rest : List Char}

/-- Digits are taken one by one, behind those that make `n` already. -/
theorem scanNumber_go_run {least taken room : Nat} (n : Nat) (hds : ∀ c ∈ ds, c.isDigit = true)
    (hleast : least ≤ taken + ds.length) (hroom : ds.length ≤ room)
    (hend : ds.length = room ∨ NoDigit rest)
    (hvalue : Nat.ofDigitChars 10 ds n ≤ 9223372036854775807) :
    scanNumber.go least taken room n (ds ++ rest) = .ok (Nat.ofDigitChars 10 ds n, rest) := by
  induction ds generalizing taken room n with
  | nil =>
    cases room with
    | zero => rfl
    | succ room =>
      have hend := hend.resolve_left (Nat.succ_ne_zero room).symm
      cases rest with
      | nil => rfl
      | cons c rest =>
        rw [List.nil_append, scanNumber.go, if_neg (ne_true_of_eq_false (hend c rfl)),
          if_neg (show ¬taken < least from Nat.not_lt.mpr hleast)]
        rfl
  | cons c ds ih =>
    rw [List.forall_mem_cons] at hds
    rw [List.length_cons] at hleast hroom hend
    obtain ⟨room, rfl⟩ := Nat.exists_eq_add_one_of_ne_zero (show room ≠ 0 by omega)
    rw [Nat.ofDigitChars_cons, Nat.mul_comm, show '0'.toNat = 48 from rfl] at hvalue ⊢
    have hle := Text.le_ofDigitChars ds (n * 10 + (c.toNat - 48))
    have hnext : scanNumber.go least (taken + 1) room ((n * 10 + (c.toNat - 48) : Nat) : Int)
        (ds ++ rest) = _ :=
      ih _ hds.2 (by omega) (by omega) (hend.imp_left (by omega)) hvalue
    rw [List.cons_append, scanNumber.go, if_pos hds.1]
    dsimp only
    rw [if_neg (by rw [Fields.maxInt64]; omega), ← hnext, Int.natCast_add, Int.natCast_mul]
    rfl

/-- A run of digits is read as its number, in front of what does not go on with it. -/
theorem scanNumber_run {least most : Nat} (hds : ∀ c ∈ ds, c.isDigit = true)
    (hleast : least ≤ ds.length) (hmost : ds.length ≤ most) (hend : ds.length = most ∨ NoDigit rest)
    (hvalue : Text.digitsValue ds ≤ 9223372036854775807) :
    scanNumber least most (ds ++ rest) = .ok (Text.digitsValue ds, rest) := by
  have hlong : ¬Text.byteLength (ds ++ rest) < least := by
    have hbytes := Text.length_le_byteLength ds
    rw [Text.byteLength_append]
    omega
  rw [scanNumber, if_neg hlong]
  exact scanNumber_go_run 0 hds (by omega) hmost hend hvalue

/-- A number of this width is read where it may have as many digits. -/
theorem scanNumber_zeroPadded {least most width n : Nat} (hn : n < 10 ^ width) (hpos : 0 < width)
    (hleast : least ≤ width) (hmost : width ≤ most) (hend : width = most ∨ NoDigit rest)
    (hvalue : n ≤ 9223372036854775807) :
    scanNumber least most (Text.zeroPadded width n ++ rest) = .ok (n, rest) := by
  have hlength := Text.length_zeroPadded_of_lt hpos hn
  rw [scanNumber_run (fun _ => Text.isDigit_of_mem_zeroPadded) (by omega) (by omega)
    (by rwa [hlength]) (by rwa [Text.digitsValue_zeroPadded]), Text.digitsValue_zeroPadded]

/-- So it is where it must have as many. -/
theorem scanDigits_run (n : Nat) (hds : ∀ c ∈ ds, c.isDigit = true) :
    scanDigits ds.length n (ds ++ rest) = .ok (Nat.ofDigitChars 10 ds n, rest) := by
  induction ds generalizing n with
  | nil => rfl
  | cons c ds ih =>
    rw [List.forall_mem_cons] at hds
    rw [List.length_cons, List.cons_append, scanDigits, if_pos hds.1, ih _ hds.2,
      Nat.ofDigitChars_cons, Nat.mul_comm]
    rfl

theorem scanDigits_zeroPadded {width n : Nat} (hn : n < 10 ^ width) (hpos : 0 < width) :
    scanDigits width 0 (Text.zeroPadded width n ++ rest) = .ok (n, rest) := by
  have hrun : scanDigits (Text.zeroPadded width n).length 0 (Text.zeroPadded width n ++ rest) = _ :=
    scanDigits_run 0 fun _ => Text.isDigit_of_mem_zeroPadded
  rw [Text.length_zeroPadded_of_lt hpos hn, ← Text.digitsValue, Text.digitsValue_zeroPadded] at hrun
  exact hrun

/-! ## What is written -/

theorem twoPlaces_zeros {n : Nat} (hn : n < 100) : twoPlaces .zeros n = Text.zeroPadded 2 n := by
  have hall : ∀ m < 100, twoPlaces .zeros m = Text.zeroPadded 2 m := by decide +kernel
  exact hall n hn

/-- A year is written with a sign, unless it has four digits. -/
theorem yearText_zeros (year : Int) : yearText .zeros year =
    (if 0 ≤ year ∧ year ≤ 9999 then [] else if year < 0 then ['-'] else ['+'])
      ++ Text.zeroPadded 4 year.natAbs := by
  unfold yearText
  split
  · next h => rw [filled, if_neg (Int.not_lt.mpr h.1)]; rfl
  · split
    · next h => rw [filled, if_pos h]; rfl
    · next h => rw [filled, if_neg h]; rfl

/-! ## Years -/

/-- A year without a sign has at most four digits. -/
theorem scanYear_unsigned {c : Char} (h : c.isDigit = true) (s : List Char) :
    scanYear (c :: s) = scanNumber 1 4 (c :: s) := by
  unfold scanYear
  split
  · next heq =>
    cases heq
    exact absurd h (by decide)
  · next heq =>
    cases heq
    exact absurd h (by decide)
  · rfl

/-- A year is read back, in front of what does not go on with it. -/
theorem scanYear_yearText {year : Int} (hyear : year.natAbs ≤ 9223372036854775807)
    (hrest : NoDigit rest) :
    scanYear (yearText .zeros year ++ rest) = .ok (year, rest) := by
  have hlength := Text.length_zeroPadded 4 year.natAbs
  have hunlimited : scanNumber 1 (unlimited (Text.zeroPadded 4 year.natAbs ++ rest))
      (Text.zeroPadded 4 year.natAbs ++ rest) = .ok (year.natAbs, rest) := by
    rw [scanNumber_run (fun _ => Text.isDigit_of_mem_zeroPadded) (by omega)
      (by rw [unlimited, List.length_append]; omega) (.inr hrest)
      (by rwa [Text.digitsValue_zeroPadded]),
      Text.digitsValue_zeroPadded]
  rw [yearText_zeros]
  split
  · next hfour =>
    obtain ⟨c, ds, hcons, hdigit⟩ := Text.exists_zeroPadded_eq_cons 4 year.natAbs
    have hread : scanNumber 1 4 (Text.zeroPadded 4 year.natAbs ++ rest) = .ok (year.natAbs, rest) :=
      scanNumber_zeroPadded (by omega) (by decide) (by decide) (Nat.le_refl 4) (.inl rfl) hyear
    rw [List.nil_append, hcons, List.cons_append, scanYear_unsigned hdigit, ← List.cons_append,
      ← hcons, hread, Int.natAbs_of_nonneg hfour.1]
  · split
    · next hneg =>
      rw [List.singleton_append, List.cons_append, scanYear, hunlimited, Except.map,
        Int.ofNat_natAbs_of_nonpos (Int.le_of_lt hneg)]
      dsimp only
      rw [Int.neg_neg]
    · next hpos =>
      rw [List.singleton_append, List.cons_append, scanYear, hunlimited,
        Int.natAbs_of_nonneg (Int.not_lt.mp hpos)]

/-- A year does not start with white space. -/
theorem dropBlanks_yearText (year : Int) (rest : List Char) :
    Text.dropBlanks (yearText .zeros year ++ rest) = yearText .zeros year ++ rest := by
  obtain ⟨c, ds, hcons, hdigit⟩ := Text.exists_zeroPadded_eq_cons 4 year.natAbs
  rw [yearText_zeros, hcons]
  split
  · exact Text.dropBlanks_cons (Text.isBlank_of_isDigit hdigit) _
  · split
    · exact Text.dropBlanks_cons (by decide) _
    · exact Text.dropBlanks_cons (by decide) _

theorem dropBlanks_zeroPadded (width n : Nat) (rest : List Char) :
    Text.dropBlanks (Text.zeroPadded width n ++ rest) = Text.zeroPadded width n ++ rest := by
  obtain ⟨c, ds, hcons, hdigit⟩ := Text.exists_zeroPadded_eq_cons width n
  rw [hcons]
  exact Text.dropBlanks_cons (Text.isBlank_of_isDigit hdigit) _

/-! ## Fractions -/

/-- A fraction is read back in nanoseconds. -/
theorem scanFraction_zeroPadded {width n : Nat} (hn : n < 10 ^ width) (hpos : 0 < width)
    (hwidth : width ≤ 9) (hrest : NoDigit rest) :
    scanFraction (Text.zeroPadded width n ++ rest) = .ok ((n * 10 ^ (9 - width) : Nat), rest) := by
  have hvalue : n ≤ 9223372036854775807 :=
    Nat.le_of_lt (Nat.lt_of_lt_of_le hn
      (Nat.le_trans (Nat.pow_le_pow_right (by decide) hwidth) (by decide)))
  have hscan : scanNumber 1 9 (Text.zeroPadded width n ++ rest) = .ok (n, rest) :=
    scanNumber_zeroPadded hn hpos hpos hwidth (.inr hrest) hvalue
  have hdigits : (Text.zeroPadded width n ++ rest).length - rest.length = width := by
    rw [List.length_append, Text.length_zeroPadded_of_lt hpos hn, Nat.add_sub_cancel]
  have hdrop : rest.dropWhile Char.isDigit = rest := by
    cases rest with
    | nil => rfl
    | cons c rest => exact List.dropWhile_cons_of_neg (ne_true_of_eq_false (hrest c rfl))
  simp only [scanFraction, hscan, hdigits, hdrop, bind, Except.bind, pure, Except.pure]
  rw [Int.natCast_mul, Int.natCast_pow]
  rfl

/-- A fraction of a second is written in so many digits that nothing is left. -/
theorem fractionText_cases {nano : Nat} (h : nano < billion) :
    nano = 0 ∧ fractionText nano = [] ∨
      ∃ width n, fractionText nano = '.' :: Text.zeroPadded width n ∧
      n < 10 ^ width ∧ 0 < width ∧ width ≤ 9 ∧ n * 10 ^ (9 - width) = nano := by
  rw [billion] at h
  unfold fractionText
  split
  · next h0 => exact .inl ⟨h0, rfl⟩
  · refine .inr ?_
    split
    · exact ⟨3, nano / 1000000, rfl, by omega, by decide, by decide, by omega⟩
    · split
      · exact ⟨6, nano / 1000, rfl, by omega, by decide, by decide, by omega⟩
      · exact ⟨9, nano / 1, rfl, by omega, by decide, by decide, by omega⟩

/-! ## Items -/

variable {f f' : Fields}

theorem agree_none {lo hi v : Int} (h : lo ≤ v ∧ v ≤ hi) :
    Fields.agree none lo hi v = .ok (some v) := by
  rw [Fields.agree, if_neg (by omega)]

/-- An item is read, and then the others. -/
theorem readFrom_cons {item : Item} {pattern : Pattern} {s : List Char}
    (h : item.read f s = .ok (f', rest)) :
    Pattern.readFrom f (item :: pattern) s = Pattern.readFrom f' pattern rest := by
  rw [Pattern.readFrom, h]
  rfl

theorem read_literal (literal rest : List Char) :
    (Item.literal literal).read f (literal ++ rest) = .ok (f, rest) := by
  rw [Item.read, scanLiteral, if_neg (by rw [Text.byteLength_append]; omega), Text.dropText?_append]
  rfl

theorem read_year {year : Int} (hf : f.year = none) (hyear : -2147483648 ≤ year ∧ year ≤ 2147483647)
    (hrest : NoDigit rest) : (Pattern.zeroed .year).read f (yearText .zeros year ++ rest)
      = .ok ({ f with year := some year }, rest) := by
  have hscan : scanYear (yearText .zeros year ++ rest) = .ok (year, rest) :=
    scanYear_yearText (by omega) hrest
  have hset : f.setYear year = .ok { f with year := some year } := by
    rw [Fields.setYear, hf, agree_none (by rw [Fields.maxInt32]; omega)]
    rfl
  rw [Pattern.zeroed, Item.read, Numeral.read, dropBlanks_yearText]
  simp only [hscan, Numeral.set, hset, bind, Except.bind, pure, Except.pure]

/-- A number of two digits is read back and put into its field. -/
theorem read_twoPlaces {n : Numeral} {value : Nat} (hyear : n ≠ .year) (hisoYear : n ≠ .isoYear)
    (hwidth : ∀ s, n.width s = 2) (hvalue : value < 100) (hset : n.set f value = .ok f') :
    (Pattern.zeroed n).read f (Text.zeroPadded 2 value ++ rest) = .ok (f', rest) := by
  have hscan : scanNumber 1 2 (Text.zeroPadded 2 value ++ rest) = .ok (value, rest) :=
    scanNumber_zeroPadded hvalue (by decide) (by decide) (Nat.le_refl 2) (.inl rfl) (by omega)
  rw [Pattern.zeroed, Item.read, Numeral.read, dropBlanks_zeroPadded]
  simp only [hwidth, hscan, hset, bind, Except.bind, pure, Except.pure]
  · exact hyear
  · exact hisoYear

theorem read_month {month : Nat} (hf : f.month = none) (hmonth : 1 ≤ month ∧ month ≤ 12) :
    (Pattern.zeroed .month).read f (Text.zeroPadded 2 month ++ rest)
      = .ok ({ f with month := some month }, rest) := by
  refine read_twoPlaces (by decide) (by decide) (fun _ => rfl) (by omega) ?_
  rw [Numeral.set, Fields.setMonth, hf, agree_none (by omega)]
  rfl

theorem read_day {day : Nat} (hf : f.day = none) (hday : 1 ≤ day ∧ day ≤ 31) :
    (Pattern.zeroed .day).read f (Text.zeroPadded 2 day ++ rest)
      = .ok ({ f with day := some day }, rest) := by
  refine read_twoPlaces (by decide) (by decide) (fun _ => rfl) (by omega) ?_
  rw [Numeral.set, Fields.setDay, hf, agree_none (by omega)]
  rfl

end Calendar

open Calendar

/-! ## Dates -/

namespace Date

variable (d : Date)

theorem text_eq : d.text = yearText .zeros d.year ++ '-' :: (Text.zeroPadded 2 d.month ++
    '-' :: Text.zeroPadded 2 d.day) := by
  have := d.month_le
  have := d.day_le_thirtyOne
  rw [text, twoPlaces_zeros (by omega), twoPlaces_zeros (by omega),
    List.append_assoc, List.cons_append]

/-- The fields of a date name it. -/
theorem date_fields :
    ({ year := some d.year, month := some d.month, day := some d.day } : Fields).date = .ok d := by
  simp [Fields.date, Fields.namedDate, Fields.wholeYear, Fields.confirm, ofParts?_self,
    Fields.agreesIsoWeek, Fields.agreesOrdinal, Fields.agrees, Fields.agreesFrom, bind,
    Except.bind, pure, Except.pure]

/-- A date is read back from its text, whatever its year is. -/
theorem readDate_text : Pattern.isoDate.readDate (String.ofList d.text) = .ok d := by
  obtain ⟨hmin, hmax, hdaypos, -⟩ := d.valid
  rw [minYear] at hmin
  rw [maxYear] at hmax
  have hyear (rest : List Char) :
      (Pattern.zeroed .year).read {} (yearText .zeros d.year ++ '-' :: rest) = _ :=
    read_year rfl (by omega) (NoDigit.cons (by decide) rest)
  have hmonth (rest : List Char) :
      (Pattern.zeroed .month).read { year := some d.year }
        (Text.zeroPadded 2 d.month ++ rest) = _ :=
    read_month rfl ⟨d.month_pos, d.month_le⟩
  have hday : (Pattern.zeroed .day).read { year := some d.year, month := some d.month }
      (Text.zeroPadded 2 d.day ++ []) = _ :=
    read_day rfl ⟨hdaypos, d.day_le_thirtyOne⟩
  have hdash (f : Fields) (rest : List Char) :
      (Item.literal ['-']).read f ('-' :: rest) = .ok (f, rest) :=
    read_literal ['-'] rest
  rw [List.append_nil] at hday
  rw [Pattern.readDate, Pattern.fields, String.toList_ofList, text_eq, Pattern.isoDate,
    readFrom_cons (hyear _), readFrom_cons (hdash _ _), readFrom_cons (hmonth _),
    readFrom_cons (hdash _ _),
    readFrom_cons hday]
  exact d.date_fields

end Date

/-! ## Instants -/

namespace TimeOfDay

variable (t : TimeOfDay)

theorem shownSecond_le : t.shownSecond ≤ 60 := by
  obtain ⟨-, -, hsecond, hnano, -⟩ := t.valid
  rw [billion] at hnano
  rw [shownSecond, billion]
  omega

theorem shownNano_lt : t.shownNano < billion := Nat.mod_lt _ (by decide)

/-- A time is found again from what clocks show: the second 60 is a leap second. -/
theorem ofParts?_shown : ofParts? t.hour t.minute (if t.shownSecond = 60 then 59 else t.shownSecond)
    (t.shownNano + if t.shownSecond = 60 then billion else 0) = some t := by
  obtain ⟨-, -, hsecond, hnano, hleap⟩ := t.valid
  rw [billion] at hnano hleap
  have hsecond' : (if t.shownSecond = 60 then 59 else t.shownSecond) = t.second := by
    rw [shownSecond, billion]
    split <;> omega
  have hnano' : (t.shownNano + if t.shownSecond = 60 then billion else 0) = t.nano := by
    rw [shownNano, shownSecond, billion]
    split <;> omega
  rw [hsecond', hnano', ofParts?_self]

end TimeOfDay

namespace Instant

variable (t : Instant)

/-- The numbers and signs of an instant of the years from 0 to 9999. -/
theorem toList_isoText (hyear : 0 ≤ t.date.year ∧ t.date.year ≤ 9999) : t.isoText.toList =
    Text.zeroPadded 4 t.date.year.natAbs ++ '-' :: (Text.zeroPadded 2 t.date.month ++ '-' ::
      (Text.zeroPadded 2 t.date.day ++ 'T' :: (Text.zeroPadded 2 t.time.hour ++ ':' ::
        (Text.zeroPadded 2 t.time.minute ++ ':' :: (Text.zeroPadded 2 t.time.shownSecond ++
          (fractionText t.time.shownNano ++ ['Z'])))))) := by
  obtain ⟨hhour, hminute, -⟩ := t.time.valid
  have hsecond := t.time.shownSecond_le
  rw [isoText, String.toList_ofList, Date.text_eq, yearText_zeros, if_pos hyear, TimeOfDay.text,
    twoPlaces_zeros (by omega), twoPlaces_zeros (by omega), twoPlaces_zeros (by omega)]
  simp only [List.append_assoc, List.cons_append, List.nil_append]

/-- An instant is read back from its text, leap seconds included. -/
theorem readIsoInstant_isoText (hyear : 0 ≤ t.date.year ∧ t.date.year ≤ 9999) :
    readIsoInstant t.isoText = .ok t := by
  have htext := t.toList_isoText hyear
  have hlong : ¬Text.byteLength t.isoText.toList < 19 := by
    have hbytes := Text.length_le_byteLength t.isoText.toList
    have hlength : 19 ≤ t.isoText.toList.length := by
      simp only [htext, List.length_append, List.length_cons, Text.length_zeroPadded]
      omega
    omega
  have hfour (rest : List Char) :
      scanDigits 4 0 (Text.zeroPadded 4 t.date.year.natAbs ++ rest)
        = .ok (t.date.year.natAbs, rest) :=
    scanDigits_zeroPadded (by omega) (by decide)
  have htwo {n : Nat} (hn : n ≤ 60) (rest : List Char) :
      scanDigits 2 0 (Text.zeroPadded 2 n ++ rest) = .ok (n, rest) :=
    scanDigits_zeroPadded (by omega) (by decide)
  have hsign (c : Char) (choices : List Char) (hc : choices.contains c = true) (rest : List Char) :
      scanOneOf choices (c :: rest) = .ok rest := if_pos hc
  have hmonth := t.date.month_le
  have hday := t.date.day_le_thirtyOne
  obtain ⟨hhour, hminute, -⟩ := t.time.valid
  have hdate : Date.ofParts? t.date.year.natAbs t.date.month t.date.day = some t.date := by
    rw [Int.natAbs_of_nonneg hyear.1, Date.ofParts?_self]
  have htime := t.time.ofParts?_shown
  have hshift : (Instant.mk t.date t.time).shift? (-0) = some t := t.shift?_zero
  have hzone : scanOffset .one false ['Z'] = .ok (0, []) := rfl
  -- the numbers and signs are read one after the other, as far as the fraction and the zone
  rw [readIsoInstant]
  dsimp only
  rw [if_neg hlong, htext]
  simp only [hfour, htwo (Nat.le_trans hmonth (by decide)), htwo (Nat.le_trans hday (by decide)),
    htwo (Nat.le_trans (Nat.le_of_lt hhour) (by decide)), htwo (Nat.le_of_lt hminute),
    htwo t.time.shownSecond_le, hsign '-' ['-'] rfl, hsign 'T' ['t', 'T', ' '] rfl,
    hsign ':' [':'] rfl, hdate,
    bind, Except.bind, pure, Except.pure]
  rcases fractionText_cases t.time.shownNano_lt with
    ⟨hzero, hnone⟩ | ⟨width, n, hdigits, hn, hpos, hwidth, hnano⟩
  · rw [hzero] at htime
    rw [hnone, List.nil_append]
    split
    · next hdot => exact absurd (List.cons.inj hdot).1 (by decide)
    · simp only [Int.toNat_zero, htime, hzone, hshift]
      rfl
  · have hfraction := scanFraction_zeroPadded hn hpos hwidth
      (NoDigit.cons (c := 'Z') (by decide) [])
    rw [hnano] at hfraction
    simp only [hdigits, List.cons_append, hfraction, Int.toNat_natCast, htime, hzone, hshift]
    rfl

end Instant

end Clauses
