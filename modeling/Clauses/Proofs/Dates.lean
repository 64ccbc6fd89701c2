import Clauses.Codec.Sealed
import Clauses.Proofs.Calendar.Texts
import Mathlib.Data.Int.Notation
import Mathlib.Data.Nat.Notation
import Mathlib.Order.Bounds.Defs
import Mathlib.Order.Defs.PartialOrder

/-!
# Dates and instants come back from the wire

In the ISO form they are read back as they are: dates of any year, and instants of the years from 0
to 9999, leap seconds included. A format for epochs counts whole units from the start of the epoch,
so that an instant is rounded down to one of them, before the epoch as well as behind it. A date
starts with a whole unit.

* `Instant.isGreatest_floor` — rounding down gives the latest instant of whole units that is not
  later
* `DateFormat.exists_counted`, `DateFormat.exists_counted_date` — what is written as a
  number, and read from it
* `Codec.iso_dates_come_back` — dates and instants without a format
* `Codec.epochs_rounded_down` — dates and instants with a format for epochs
-/

namespace Clauses

/-! ## The order of time -/

namespace TimeOfDay

/-- The time rounded down to a unit of so many nanoseconds. -/
def floor (unit : ℕ) (t : TimeOfDay) : TimeOfDay where
  hour := t.hour
  minute := t.minute
  second := t.second
  nano := t.nano / unit * unit
  valid := by
    obtain ⟨hhour, hminute, hsecond, hnano, hleap⟩ := t.valid
    have hle := Nat.div_mul_le_self t.nano unit
    exact ⟨hhour, hminute, hsecond, by omega, fun h => hleap (by omega)⟩

end TimeOfDay

namespace Instant

/--
Instants are in the order of their seconds, and in one second of their nanoseconds. So a leap second
comes behind the second that it is counted with.
-/
instance : LE Instant where
  le s t := s.epochSeconds < t.epochSeconds ∨
    s.epochSeconds = t.epochSeconds ∧ s.time.nano ≤ t.time.nano

theorem le_iff {s t : Instant} : s ≤ t ↔ s.epochSeconds < t.epochSeconds ∨
    s.epochSeconds = t.epochSeconds ∧ s.time.nano ≤ t.time.nano :=
  Iff.rfl

theorem eq_of_parts {s t : Instant} (hseconds : s.epochSeconds = t.epochSeconds)
    (hnano : s.time.nano = t.time.nano) : s = t := by
  have hs := s.ofEpoch?_self
  rw [hseconds, hnano, t.ofEpoch?_self] at hs
  exact (Option.some.inj hs).symm

instance : PartialOrder Instant where
  le_refl t := .inr ⟨rfl, Nat.le_refl _⟩
  le_trans s t u hst htu := by
    rw [le_iff] at hst htu ⊢
    omega
  le_antisymm s t hst hts := by
    rw [le_iff] at hst hts
    exact eq_of_parts (by omega) (by omega)

/-- The instant is a whole number of units of so many nanoseconds behind the start of its second. -/
def OnWhole (unit : ℕ) (t : Instant) : Prop := t.time.nano % unit = 0

/-- The instant rounded down to a unit of so many nanoseconds. -/
def floor (unit : ℕ) (t : Instant) : Instant := ⟨t.date, t.time.floor unit⟩

/-- Rounding down gives the latest instant of whole units that is not later. -/
theorem isGreatest_floor (unit : ℕ) (t : Instant) :
    IsGreatest {s | s ≤ t ∧ s.OnWhole unit} (t.floor unit) := by
  refine ⟨⟨le_iff.mpr (.inr ⟨rfl, Nat.div_mul_le_self _ _⟩), Nat.mul_mod_left _ _⟩, ?_⟩
  rintro s ⟨hle, hwhole⟩
  rcases le_iff.mp hle with hlt | ⟨heq, hnano⟩
  · exact le_iff.mpr (.inl hlt)
  · -- in one second the nanoseconds are rounded down, and `s` has no others
    have hs : s.time.nano = s.time.nano / unit * unit :=
      (Nat.div_mul_cancel (Nat.dvd_of_mod_eq_zero hwhole)).symm
    have hmono : s.time.nano / unit * unit ≤ t.time.nano / unit * unit :=
      Nat.mul_le_mul_right _ (Nat.div_le_div_right hnano)
    exact le_iff.mpr (.inr ⟨heq, hs ▸ hmono⟩)

/-- Seconds and the whole units behind them are those of the instant rounded down. -/
theorem ofEpoch?_floor (unit : ℕ) (t : Instant) :
    ofEpoch? t.epochSeconds (t.time.nano / unit * unit) = some (t.floor unit) := by
  rw [ofEpoch?_epochSeconds]
  exact congrArg (Option.map (Instant.mk t.date)) (t.time.floor unit).ofParts?_self

/-! ## Numbers of seconds and milliseconds -/

variable (t : Instant)

theorem epochSeconds_bounds : -10000000000000 < t.epochSeconds ∧
    t.epochSeconds < 10000000000000 := by
  have hday := t.date.dayNumber_bounds
  have hlt := t.time.seconds_lt
  rw [epochSeconds, dayLength]
  omega

theorem ofEpoch?_seconds (h : t.time.nano < billion) :
    ofEpoch? t.epochSeconds 0 = some (t.floor billion) := by
  have hwhole := ofEpoch?_floor billion t
  rwa [Nat.div_eq_of_lt h, Nat.zero_mul] at hwhole

/-- Outside of leap seconds the milliseconds of an instant go on in those of its second. -/
theorem ofEpochMillis?_epochMillis (h : t.time.nano < billion) :
    ofEpochMillis? t.epochMillis = some (t.floor 1000000) := by
  rw [billion] at h
  have hseconds : t.epochMillis / 1000 = t.epochSeconds := by rw [epochMillis]; omega
  have hmillis : (t.epochMillis % 1000).toNat = t.time.nano / 1000000 := by rw [epochMillis]; omega
  rw [ofEpochMillis?, hseconds, hmillis, ofEpoch?_floor]

end Instant

namespace Integer

/-- A number of 64 bits is read back from its digits. -/
theorem ofDigits?_text_of_bounds {n : ℤ} (hmin : -9223372036854775808 ≤ n)
    (hmax : n < 9223372036854775808) :
    ∃ m : Int64, ofDigits? (text n).toList = some m ∧ m.toInt = n := by
  have hint : (Int64.ofInt n).toInt = n := Int64.toInt_ofInt_of_le hmin hmax
  have hread := ofDigits?_text (Int64.ofInt n)
  rw [hint] at hread
  exact ⟨_, hread, hint⟩

end Integer

/-! ## Formats for epochs -/

namespace DateFormat

theorem epochNumber_text {n : ℤ} (hmin : -9223372036854775808 ≤ n)
    (hmax : n < 9223372036854775808) :
    epochNumber (Integer.text n) = .ok n := by
  obtain ⟨m, hread, rfl⟩ := Integer.ofDigits?_text_of_bounds hmin hmax
  rw [epochNumber, hread]

/--
The format is a word for an epoch, in any letter case. It counts units of so many nanoseconds.
-/
def Counts (format : String) (unit : ℕ) : Prop :=
  Text.sameFolded format.toList "epoch".toList = true ∧ unit = 1000000000 ∨
    Text.sameFolded format.toList "epoch_millis".toList = true ∧ unit = 1000000

variable {format : String} {unit : ℕ}

theorem ofText_of_counts (h : Counts format unit) :
    ofText (some format) = .epoch ∧ unit = 1000000000 ∨
      ofText (some format) = .epochMillis ∧ unit = 1000000 := by
  rcases h with ⟨hword, hunit⟩ | ⟨hword, hunit⟩
  · exact .inl ⟨if_pos hword, hunit⟩
  · have hother : ¬Text.sameFolded format.toList "epoch".toList = true := by
      rw [Text.sameFolded, beq_iff_eq.mp hword]
      decide
    exact .inr ⟨(if_neg hother).trans (if_pos hword), hunit⟩

/--
An instant is written as a number, and read from it rounded down, unless it is in a leap second.
-/
theorem exists_counted (h : Counts format unit) (t : Instant) : ∃ n : String,
    (ofText (some format)).writeInstant t = .ok (.number n) ∧
      (t.time.nano < billion → (ofText (some format)).readInstant n = .ok (t.floor unit)) := by
  obtain ⟨hmin, hmax⟩ := t.epochSeconds_bounds
  rcases ofText_of_counts h with ⟨hformat, rfl⟩ | ⟨hformat, rfl⟩
  · refine ⟨_, by rw [hformat, writeInstant], fun hnano => ?_⟩
    rw [hformat, readInstant, readEpoch, epochNumber_text (by omega) (by omega)]
    simp only [bind, Except.bind, t.ofEpoch?_seconds hnano]
    rfl
  · have hmillis : t.epochMillis < 9223372036854775808 ∧ -9223372036854775808 ≤ t.epochMillis := by
      have hnano := t.time.valid.2.2.2.1
      rw [billion] at hnano
      rw [Instant.epochMillis]
      omega
    refine ⟨_, by rw [hformat, writeInstant], fun hnano => ?_⟩
    rw [hformat, readInstant, readEpochMillis, epochNumber_text (by omega) (by omega)]
    simp only [bind, Except.bind, t.ofEpochMillis?_epochMillis hnano]

/-- A date goes by the instant that it starts with. -/
theorem dates_of_counts (h : Counts format unit) :
    (∀ d, (ofText (some format)).writeDate d = (ofText (some format)).writeInstant (.startOf d)) ∧
      ∀ n, (ofText (some format)).readDate n
        = ((ofText (some format)).readInstant n).map Instant.date := by
  rcases ofText_of_counts h with ⟨hformat, -⟩ | ⟨hformat, -⟩ <;> rw [hformat] <;>
    exact ⟨fun _ => rfl, fun _ => rfl⟩

/-- A date starts with a whole unit. -/
theorem exists_counted_date (h : Counts format unit) (d : Date) : ∃ n : String,
    (ofText (some format)).writeDate d = .ok (.number n) ∧
    (ofText (some format)).readDate n = .ok d := by
  obtain ⟨n, hwrite, hread⟩ := exists_counted h (.startOf d)
  obtain ⟨hwrites, hreads⟩ := dates_of_counts h
  refine ⟨n, (hwrites d).trans hwrite, ?_⟩
  rw [hreads, hread (show 0 < billion by decide)]
  rfl

end DateFormat

/-! ## Dates and instants of the wire -/

namespace WireValue

variable {dates format : Option String} {field t : String} {w : WireValue}

/-- The text of a text or a number is read as an instant. -/
theorem decode_timestamp (h : w.plainText? = some t) : w.decode dates field format .timestamp =
    (((DateFormat.ofText (format <|> dates)).readInstant t).map .timestamp).mapError
    (.invalidValue field) := by
  refine decode_of_scalar ?_
  rw [decodeScalar, h]
  cases hread : (DateFormat.ofText (format <|> dates)).readInstant t <;>
    simp only [Option.mapM_some, hread] <;> rfl

/-- So it is as a date. -/
theorem decode_date (h : w.plainText? = some t) : w.decode dates field format .date =
    (((DateFormat.ofText (format <|> dates)).readDate t).map .date).mapError
    (.invalidValue field) := by
  refine decode_of_scalar ?_
  rw [decodeScalar, h]
  cases hread : (DateFormat.ofText (format <|> dates)).readDate t <;>
    simp only [Option.mapM_some, hread] <;> rfl

end WireValue

/-! ## Properties of dates and instants -/

namespace Codec

variable {p : Property} {format : String} {unit : ℕ}

/--
**Dates and instants come back.** Take a property without hook and without format, and no default
format for dates. A date of any year is written, and read back as it is. So is an instant of the
years from 0 to 9999, with all its nanoseconds, in a leap second as well.
-/
theorem iso_dates_come_back (codec : Codec) (hhook : p.hook = none) (hformat : p.format = none)
    (hdates : codec.dateFormat = none) :
    (∀ d : Date, ∃ w, codec.toWire (.date d) p = .ok w ∧ codec.fromWire w .date p = .ok (.date d)) ∧
    ∀ t : Instant, 0 ≤ t.date.year → t.date.year ≤ 9999 →
      ∃ w, codec.toWire (.timestamp t) p = .ok w ∧
      codec.fromWire w .timestamp p = .ok (.timestamp t) := by
  constructor
  · intro d
    refine ⟨.text (String.ofList d.text), ?_, ?_⟩
    · rw [toWire_of_hook_none hhook, hformat, hdates]
      rfl
    · rw [fromWire_of_hook_none hhook, hformat, hdates, WireValue.decode_date rfl]
      change (((Calendar.Pattern.isoDate.readDate _).mapError _).map _).mapError _ = _
      rw [d.readDate_text]
      rfl
  · intro t hmin hmax
    refine ⟨.text t.isoText, ?_, ?_⟩
    · rw [toWire_of_hook_none hhook, hformat, hdates]
      rfl
    · rw [fromWire_of_hook_none hhook, hformat, hdates, WireValue.decode_timestamp rfl]
      change (((Calendar.readIsoInstant _).mapError _).map _).mapError _ = _
      rw [t.readIsoInstant_isoText ⟨hmin, hmax⟩]
      rfl

/-- The middle of the last leap second, and a day of a year with five digits before the year 0. -/
theorem leap_second_comes_back :
    let codec : Codec := ⟨none, .empty⟩
    let p := Property.plain "at"
    let leap : Instant := ⟨⟨2016, 12, 31, by decide⟩, ⟨23, 59, 59, 1500000000, by decide⟩⟩
    let early : Date := ⟨-12345, 2, 28, by decide⟩
    (∃ w, codec.toWire (.timestamp leap) p = .ok w ∧
      codec.fromWire w .timestamp p = .ok (.timestamp leap)) ∧
      ∃ w, codec.toWire (.date early) p = .ok w ∧ codec.fromWire w .date p = .ok (.date early) := by
  intro codec p leap early
  obtain ⟨hdates, hinstants⟩ := codec.iso_dates_come_back (p := p) rfl rfl rfl
  exact ⟨hinstants leap (by decide) (by decide), hdates early⟩

/--
**Formats for epochs round down and nothing else.** Take a property without hook whose
format, or else the default format for dates, is the word for an epoch of seconds or of
milliseconds, in any letter case.

* A date of any year is written as a number, and read back as it is.
* An instant is written as a number. It is read back, unless it is in a leap second, as the latest
  instant of whole seconds, or of whole milliseconds, that is not later.
-/
theorem epochs_rounded_down (codec : Codec) (hhook : p.hook = none)
    (hformat : (p.format <|> codec.dateFormat) = some format)
    (hunit : DateFormat.Counts format unit) :
    (∀ d : Date, ∃ n, codec.toWire (.date d) p = .ok (.number n) ∧
      codec.fromWire (.number n) .date p = .ok (.date d)) ∧
    ∀ t : Instant, ∃ n, codec.toWire (.timestamp t) p = .ok (.number n) ∧
      (t.time.nano < billion → ∃ t', codec.fromWire (.number n) .timestamp p = .ok (.timestamp t') ∧
        IsGreatest {s | s ≤ t ∧ s.OnWhole unit} t') := by
  constructor
  · intro d
    obtain ⟨n, hwrite, hread⟩ := DateFormat.exists_counted_date hunit d
    refine ⟨n, ?_, ?_⟩
    · rw [toWire_of_hook_none hhook, Value.encode, hformat, hwrite]
      rfl
    · rw [fromWire_of_hook_none hhook, WireValue.decode_date rfl, hformat, hread]
      rfl
  · intro t
    obtain ⟨n, hwrite, hread⟩ := DateFormat.exists_counted hunit t
    refine ⟨n, ?_, fun hnano => ⟨t.floor unit, ?_, t.isGreatest_floor unit⟩⟩
    · rw [toWire_of_hook_none hhook, Value.encode, hformat, hwrite]
      rfl
    · rw [fromWire_of_hook_none hhook, WireValue.decode_timestamp rfl, hformat, hread hnano]
      rfl

/--
Shortly before the start of the epoch, in milliseconds by the format of the property, and in seconds
by the default format.
-/
theorem before_epoch_rounded_down :
    let codec : Codec := ⟨some "EPOCH", .empty⟩
    let before : Instant := ⟨⟨1969, 12, 31, by decide⟩, ⟨23, 59, 59, 999999999, by decide⟩⟩
    (∃ n t, codec.toWire (.timestamp before) ((Property.plain "at").withFormat "Epoch_Millis")
      = .ok (.number n) ∧
      codec.fromWire (.number n) .timestamp ((Property.plain "at").withFormat "Epoch_Millis")
        = .ok (.timestamp t) ∧ IsGreatest {s | s ≤ before ∧ s.OnWhole 1000000} t) ∧
    ∃ n t, codec.toWire (.timestamp before) (Property.plain "at") = .ok (.number n) ∧
      codec.fromWire (.number n) .timestamp (Property.plain "at") = .ok (.timestamp t) ∧
      IsGreatest {s | s ≤ before ∧ s.OnWhole 1000000000} t := by
  intro codec before
  have hnano : before.time.nano < billion := by decide
  constructor
  · have hmillis : DateFormat.Counts "Epoch_Millis" 1000000 := .inr ⟨by decide, rfl⟩
    obtain ⟨n, hwrite, hread⟩ := (codec.epochs_rounded_down
      (p := (Property.plain "at").withFormat "Epoch_Millis") rfl rfl hmillis).2 before
    obtain ⟨t, ht, hgreatest⟩ := hread hnano
    exact ⟨n, t, hwrite, ht, hgreatest⟩
  · have hseconds : DateFormat.Counts "EPOCH" 1000000000 := .inl ⟨by decide, rfl⟩
    obtain ⟨n, hwrite, hread⟩ :=
      (codec.epochs_rounded_down (p := Property.plain "at") rfl rfl hseconds).2 before
    obtain ⟨t, ht, hgreatest⟩ := hread hnano
    exact ⟨n, t, hwrite, ht, hgreatest⟩

end Codec

end Clauses
