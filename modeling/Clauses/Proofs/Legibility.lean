import Clauses.Proofs.Dates
import Clauses.Proofs.FloatTexts
import Clauses.Proofs.RoundTrip

/-!
# What is written and cannot be read

A value is written by its own type, but read by the type that is asked for, or inside a list or a
map by the type that the wire value suggests. The two do not always fit together.

* The reader of instants takes years of four digits only. Instants of other years are written with a
  sign in front of the year.
* A number inside a list or a map is read as an integer or a decimal, also where it was written from
  a floating point number. Decimals end below `2 ^ 96`.

There is no third case. A value is *legible* if none of the two lies in it.

* `Instant.exists_readIsoInstant_iff` — of which years instants are read from their text
* `Value.exists_decode_part_iff` — what is read inside a list or a map, at any depth
* `Codec.read_iff_legible` — what is written without format is read exactly if it is legible
-/

namespace Clauses

namespace Except

variable {ε α β γ : Type} {x : Except ε α} {y : Except ε β}

theorem exists_map_ok_iff {f : α → γ} :
    (∃ c, (x.bind fun a => .ok (f a)) = .ok c) ↔ ∃ a, x = .ok a := by
  cases x <;> simp [Except.bind]

/-- Two computations go through one after the other if, and only if, each of them does. -/
theorem exists_bind_ok_iff {f : α → β → γ} :
    (∃ c, (x.bind fun a => y.bind fun b => .ok (f a b)) = .ok c) ↔
    (∃ a, x = .ok a) ∧ ∃ b, y = .ok b := by
  cases x <;> cases y <;> simp [Except.bind]

end Except

/-! ## Instants -/

namespace Instant

open Calendar

/-- An instant of another year starts with a sign, which is no digit. -/
theorem exists_isoText_eq_cons {t : Instant} (h : ¬(0 ≤ t.date.year ∧ t.date.year ≤ 9999)) :
    ∃ c rest, t.isoText.toList = c :: rest ∧ c.isDigit = false := by
  rw [isoText, String.toList_ofList, Date.text_eq, yearText_zeros, if_neg h]
  split
  · exact ⟨'-', _, rfl, by decide⟩
  · exact ⟨'+', _, rfl, by decide⟩

/-- An instant is read from its text if, and only if, its year has four digits. -/
theorem exists_readIsoInstant_iff (t : Instant) :
    (∃ t', readIsoInstant t.isoText = .ok t') ↔ 0 ≤ t.date.year ∧ t.date.year ≤ 9999 := by
  constructor
  · rintro ⟨t', hread⟩
    by_contra hyear
    obtain ⟨c, rest, htext, hsign⟩ := exists_isoText_eq_cons hyear
    have hscan : scanDigits 4 0 (c :: rest) = .error .invalid := if_neg (ne_true_of_eq_false hsign)
    rw [readIsoInstant, htext] at hread
    dsimp only at hread
    split at hread
    · cases hread
    · rw [hscan] at hread
      cases hread
  · exact fun hyear => ⟨t, t.readIsoInstant_isoText hyear⟩

end Instant

/-! ## Numbers without a type -/

namespace WireValue

variable {dates : Option String} {field t : String}

/--
Where nothing says which type a number has, it is read if a decimal is read from its text, or an
integer.
-/
theorem exists_decode_number_iff :
    (∃ v, (number t).decode dates field none (number t).naturalKind = .ok v) ↔
    (∃ n, Integer.ofDigits? t.toList = some n) ∨ ∃ d, Decimal.read? t = some d := by
  rw [naturalKind]
  cases hn : Integer.ofDigits? t.toList with
  | some n =>
    have hread : Integer.read? t = some n := by rw [Integer.read?, hn]; rfl
    rw [Option.isSome_some, if_pos rfl, decode_integer rfl, hread]
    exact iff_of_true ⟨_, rfl⟩ (.inl ⟨n, rfl⟩)
  | none =>
    rw [Option.isSome_none, if_neg Bool.false_ne_true, decode_decimal rfl]
    cases Decimal.read? t with
    | some d => exact iff_of_true ⟨_, rfl⟩ (.inr ⟨d, rfl⟩)
    | none => simp

/-- For a numeral the decimal decides. -/
theorem exists_decode_numeral_iff (t : Numeral) :
    (∃ v, (number t.text).decode dates field none (number t.text).naturalKind = .ok v) ↔
      ∃ d, Decimal.read? t.text = some d := by
  rw [exists_decode_number_iff]
  refine or_iff_right_of_imp ?_
  rintro ⟨n, hn⟩
  obtain ⟨d, hd, -⟩ := t.read?_of_held
    ⟨.ofInt64 n, (Integer.toRat_ofInt64 n).trans (Integer.ofDigits?_numeral hn).symm⟩
  exact ⟨d, hd⟩

end WireValue

namespace Value

/-! ## Legible values -/

mutual

/-- Inside a list or a map no floating point number is beyond the decimals. -/
def LegiblePart : Value → Prop
  | .float x => (Binary64.ofFloat x).toRat < Decimal.bound
  | .list items => LegibleItems items
  | .map entries => LegibleEntries entries
  | _ => True

/-- None is among the items of a list. -/
def LegibleItems : List Value → Prop
  | [] => True
  | v :: rest => LegiblePart v ∧ LegibleItems rest

/-- None is behind the keys of a map. -/
def LegibleEntries : List (String × Value) → Prop
  | [] => True
  | (_, v) :: rest => LegiblePart v ∧ LegibleEntries rest

end

/--
What is written can be read: it is no instant of a year that has not four digits, and none of its
parts is a floating point number beyond the decimals.
-/
def Legible : Value → Prop
  | .timestamp t => 0 ≤ t.date.year ∧ t.date.year ≤ 9999
  | .list items => LegibleItems items
  | .map entries => LegibleEntries entries
  | _ => True

/-! ## Parts -/

/-- What is finite is written, and nothing else. -/
theorem writeFloat_none_ok {x : Float} {w : WireValue} :
    writeFloat none x = .ok w ↔ Binary64.isFinite x = true ∧ w = .number (floatText x) := by
  rw [writeFloat]
  cases Binary64.isFinite x with
  | true => exact ⟨fun h => ⟨rfl, (Except.ok.inj h).symm⟩, fun h => congrArg Except.ok h.2.symm⟩
  | false => exact ⟨(nomatch ·), fun h => nomatch h.1⟩

theorem encode_float {x : Float} (h : Binary64.isFinite x = true) (field : String) :
    (Value.float x).encode none field none = .ok (.number (floatText x)) :=
  invalidIn_ok.mpr (writeFloat_none_ok.mpr ⟨h, rfl⟩)

mutual

/-- What is written inside a list or a map is read there exactly if it is legible. -/
theorem exists_decode_part_iff : ∀ (v : Value) (field : String) {w : WireValue},
    v.encode none field none = .ok w →
      ((∃ v', w.decode none field none w.naturalKind = .ok v') ↔ v.LegiblePart)
  | .null, _, _, h | .bool _, _, _, h | .text _, _, _, h | .binary _, _, _, h
  | .timestamp _, _, _, h
  | .date _, _, _, h => by
    cases h
    exact iff_of_true ⟨_, rfl⟩ trivial
  | .integer n, _, _, h => by
    cases h
    exact iff_of_true (WireValue.exists_decode_number_iff.mpr
      (.inl ⟨n, Integer.ofDigits?_text n⟩)) trivial
  | .decimal d, _, _, h => by
    cases h
    obtain ⟨d', hd, -⟩ := d.read?_text
    exact iff_of_true (WireValue.exists_decode_number_iff.mpr (.inr ⟨d', hd⟩)) trivial
  | .float x, _, _, h => by
    obtain ⟨hfinite, rfl⟩ := writeFloat_none_ok.mp (invalidIn_ok.mp h)
    obtain ⟨t, htext, -⟩ := Binary64.exists_floatText hfinite
    rw [LegiblePart, ← Binary64.exists_decimal_floatText_iff hfinite, ← htext]
    exact WireValue.exists_decode_numeral_iff t
  | .textSet _, _, _, h | .binarySet _, _, _, h => by
    obtain ⟨rfl, -⟩ := nonempty_ok h
    exact iff_of_true ⟨_, rfl⟩ trivial
  | .numberSet _, _, _, h => by
    obtain ⟨rfl, -⟩ := nonempty_ok h
    obtain ⟨members, hscalar, -⟩ := decodeScalar_numberSet none (keepFirst Decimal.sameNumber _)
    exact iff_of_true ⟨_, WireValue.decode_of_scalar
      (r := .ok (.numberSet members)) hscalar⟩ trivial
  | .list items, field, _, h => by
    obtain ⟨ws, hws, h⟩ := Except.bind_ok.mp h
    obtain ⟨rfl, -⟩ := nonempty_ok h
    rw [LegiblePart, ← exists_decodeItems_iff items 0 field hws]
    exact Except.exists_map_ok_iff
  | .map entries, field, _, h => by
    obtain ⟨ws, hws, h⟩ := Except.bind_ok.mp h
    obtain ⟨rfl, -⟩ := nonempty_ok h
    rw [LegiblePart, ← exists_decodeEntries_iff entries field hws]
    exact Except.exists_map_ok_iff

/-- So are the items of a list. -/
theorem exists_decodeItems_iff : ∀ (items : List Value) (i : Nat) (field : String)
    {ws : List WireValue},
    encodeItems none field none i items = .ok ws →
      ((∃ vs, WireValue.decodeItems none field i ws = .ok vs) ↔ LegibleItems items)
  | [], i, field, ws, h => by
    cases h
    exact iff_of_true ⟨[], rfl⟩ trivial
  | v :: rest, i, field, ws, h => by
    obtain ⟨w, hw, h⟩ := Except.bind_ok.mp h
    obtain ⟨ws, hws, h⟩ := Except.bind_ok.mp h
    cases h
    rw [LegibleItems, ← exists_decode_part_iff v _ hw, ← exists_decodeItems_iff rest _ field hws]
    exact Except.exists_bind_ok_iff

/-- So is what is behind the keys of a map. -/
theorem exists_decodeEntries_iff : ∀ (entries : List (String × Value)) (field : String)
    {ws : List (String × WireValue)}, encodeEntries none field none entries = .ok ws →
      ((∃ vs, WireValue.decodeEntries none field ws = .ok vs) ↔ LegibleEntries entries)
  | [], field, ws, h => by
    cases h
    exact iff_of_true ⟨[], rfl⟩ trivial
  | (k, v) :: rest, field, ws, h => by
    obtain ⟨w, hw, h⟩ := Except.bind_ok.mp h
    obtain ⟨ws, hws, h⟩ := Except.bind_ok.mp h
    cases h
    rw [LegibleEntries, ← exists_decode_part_iff v _ hw, ← exists_decodeEntries_iff rest field hws]
    exact Except.exists_bind_ok_iff

end

/-! ## Values of a type -/

/-- What is written is read with its own type exactly if it is legible. -/
theorem exists_decode_iff {v : Value} {field : String} {w : WireValue}
    (h : v.encode none field none = .ok w) :
    (∃ v', w.decode none field none v.kind = .ok v') ↔ v.Legible := by
  -- except for numbers, dates and instants the wire value suggests the type that is asked for
  have hpart (hkind : w.naturalKind = v.kind) : (∃ v', w.decode none field none v.kind = .ok v')
      ↔ v.LegiblePart :=
    hkind ▸ exists_decode_part_iff v field h
  have hiso : DateFormat.ofText (none <|> none) = .iso := rfl
  cases v with
  | null | bool | text | binary =>
    cases h
    exact hpart rfl
  | integer n =>
    cases h
    rw [kind, WireValue.decode_integer rfl, Integer.read?_text]
    exact iff_of_true ⟨_, rfl⟩ trivial
  | decimal d =>
    cases h
    obtain ⟨d', hd, -⟩ := d.read?_text
    rw [kind, WireValue.decode_decimal rfl, hd]
    exact iff_of_true ⟨_, rfl⟩ trivial
  | float x =>
    obtain ⟨hfinite, rfl⟩ := writeFloat_none_ok.mp (invalidIn_ok.mp h)
    obtain ⟨x', hx⟩ := Binary64.exists_read?_floatText hfinite
    have hscalar : WireValue.decodeScalar none none .float (.number (floatText x))
        = (Except.ok (.float x')).map some := by
      change (WireValue.readFloat _).map some = _
      rw [WireValue.readFloat, hx]
    exact iff_of_true ⟨_, WireValue.decode_of_scalar hscalar⟩ trivial
  | timestamp t =>
    cases h
    rw [kind, WireValue.decode_timestamp rfl, hiso, DateFormat.readInstant, Legible,
      ← t.exists_readIsoInstant_iff]
    cases Calendar.readIsoInstant t.isoText <;> simp [Except.map, Except.mapError]
  | date d =>
    cases h
    rw [kind, WireValue.decode_date rfl, hiso, DateFormat.readDate, d.readDate_text]
    exact iff_of_true ⟨.date d, rfl⟩ trivial
  | textSet | numberSet | binarySet =>
    obtain ⟨rfl, -⟩ := nonempty_ok h
    exact hpart rfl
  | list | map =>
    obtain ⟨ws, -, h⟩ := Except.bind_ok.mp h
    obtain ⟨rfl, -⟩ := nonempty_ok h
    exact hpart rfl

end Value

/-! ## Properties without format and hook -/

namespace Codec

/--
**What is written is read exactly if it is legible.** Take a property without hook and without
format, and no default format for dates. A value of any type that is written is read back with its
type, unless it is an instant of a year below 0 or above 9999, or a floating point number of `2 ^
96` or more lies in it as a part of a list or a map, at any depth.
-/
theorem read_iff_legible (codec : Codec) {p : Property} (hhook : p.hook = none)
    (hformat : p.format = none)
    (hdates : codec.dateFormat = none) {v : Value} {w : WireValue} (h : codec.toWire v p = .ok w) :
    (∃ v', codec.fromWire w v.kind p = .ok v') ↔ v.Legible := by
  rw [toWire_of_hook_none hhook, hformat, hdates] at h
  rw [fromWire_of_hook_none hhook, hformat, hdates]
  simp only [WireValue.decode_arranged_ok_iff]
  exact Value.exists_decode_iff h

/--
A sample at a late instant, which is a text inside a list, with the greatest floating point number
below `2 ^ 96`. With a greater one it is written as well, but not read.
-/
theorem sample_read :
    let codec : Codec := ⟨none, .empty⟩
    let p := Property.plain "samples"
    let late : Instant := ⟨⟨10000, 1, 1, by decide⟩, .midnight⟩
    let samples (x : Float) : Value := .map [("first", .list [.timestamp late, .float x])]
    let written (x : Float) : WireValue :=
      .map [("first", .list [.text late.isoText, .number (Value.floatText x)])]
    (codec.toWire (samples 7.9228162514264328e28) p = .ok (written 7.9228162514264328e28) ∧
      ∃ v, codec.fromWire (written 7.9228162514264328e28) .map p = .ok v) ∧
    codec.toWire (samples 1e30) p = .ok (written 1e30) ∧
      ¬∃ v, codec.fromWire (written 1e30) .map p = .ok v := by
  intro codec p late samples written
  have hwritten (x : Float) (hx : Binary64.isFinite x = true) :
      codec.toWire (samples x) p = .ok (written x) := by
    rw [toWire_of_hook_none rfl]
    have hitems (field : String) : Value.encodeItems none field none 0 [.timestamp late, .float x]
        = .ok [.text late.isoText, .number (Value.floatText x)] :=
      Except.bind_ok.mpr ⟨_, rfl, Except.bind_ok.mpr ⟨_, Except.bind_ok.mpr
        ⟨_, Value.encode_float hx _, rfl⟩, rfl⟩⟩
    exact Except.bind_ok.mpr ⟨_,
      Except.bind_ok.mpr ⟨_, Except.bind_ok.mpr ⟨_, hitems _, rfl⟩, rfl⟩, rfl⟩
  have hbelow : Binary64.ofFloat 7.9228162514264328e28 = ⟨2 ^ 53 - 1, 43, false⟩ := by
    decide +kernel
  have habove : Binary64.ofFloat 1e30 = ⟨7105427357601002, 47, false⟩ := by decide +kernel
  have hfirst := hwritten 7.9228162514264328e28 (by decide +kernel)
  have hsecond := hwritten 1e30 (by decide +kernel)
  refine ⟨⟨hfirst, (codec.read_iff_legible rfl rfl rfl hfirst).mpr
    ⟨⟨trivial, ?_, trivial⟩, trivial⟩⟩,
    hsecond, fun hread => ?_⟩
  · rw [Value.LegiblePart, hbelow, Binary64.toRat, Decimal.bound, Nat.pow_eq]
    norm_num
  · have hlt := ((codec.read_iff_legible rfl rfl rfl hsecond).mp hread).1.2.1
    rw [Value.LegiblePart, habove, Binary64.toRat, Decimal.bound, Nat.pow_eq] at hlt
    norm_num at hlt

/--
An instant of the year 10000 is written with a sign that the reader does not take. A floating point
number is written in a list, and is read there as a decimal that does not exist.
-/
theorem late_and_great_unread :
    let codec : Codec := ⟨none, .empty⟩
    let p := Property.plain "p"
    let late : Instant := ⟨⟨10000, 1, 1, by decide⟩, .midnight⟩
    let great := String.ofList ('1' :: List.replicate 30 '0')
    (codec.toWire (.timestamp late) p = .ok (.text "+10000-01-01T00:00:00Z") ∧
      ¬∃ v, codec.fromWire (.text "+10000-01-01T00:00:00Z") .timestamp p = .ok v) ∧
    codec.toWire (.list [.float 1e30]) p = .ok (.list [.number great]) ∧
      ¬∃ v, codec.fromWire (.list [.number great]) .list p = .ok v := by
  intro codec p late great
  have hlate : (Value.timestamp late).encode none "p" none
      = .ok (.text "+10000-01-01T00:00:00Z") := by
    have htext : late.isoText = "+10000-01-01T00:00:00Z" := by decide +kernel
    rw [← htext]
    rfl
  have hgreat : (Value.list [.float 1e30]).encode none "p" none = .ok (.list [.number great]) := by
    have htext : Value.floatText 1e30 = great := by decide +kernel
    rw [← htext]
    refine Except.bind_ok.mpr ⟨_, Except.bind_ok.mpr ⟨_, Value.encode_float ?_ _, rfl⟩, rfl⟩
    decide +kernel
  refine ⟨⟨(toWire_of_hook_none rfl _).trans hlate, fun hread => ?_⟩,
    (toWire_of_hook_none rfl _).trans hgreat, fun hread => ?_⟩
  · rw [fromWire_of_hook_none rfl] at hread
    exact absurd ((Value.exists_decode_iff hlate).mp hread).2 (by decide)
  · rw [fromWire_of_hook_none rfl] at hread
    simp only [WireValue.decode_arranged_ok_iff] at hread
    have hlt := ((Value.exists_decode_iff hgreat).mp hread).1
    have habove : Binary64.ofFloat 1e30 = ⟨7105427357601002, 47, false⟩ := by decide +kernel
    rw [Value.LegiblePart, habove, Binary64.toRat, Decimal.bound, Nat.pow_eq] at hlt
    norm_num at hlt

end Codec

end Clauses
