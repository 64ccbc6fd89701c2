import Clauses.Proofs.Arranging
import Clauses.Proofs.Encoding
import Clauses.Proofs.Numbers

/-!
# Values are read back

The wire has fewer types than a program, so that a value is read back as a value of the type
that is asked for. Inside a list or a map nothing is asked for: there the type is the one
that the wire value suggests. A value is *self-describing* if its wire form suggests the type
that it has, at any depth.

* An integer and a decimal are both a number of the wire. It suggests a decimal only if the text is
  none of a 64-bit integer.
* A member of a set is written once. It stands where it comes first.

* `Value.encode_decode` — what is self-describing is written and read back, at any depth
* `Codec.plain_round_trip` — the same for the values of a property without format and hook
-/

namespace Clauses

/-! ## Repeated members -/

section KeepFirst

variable {α : Type} {same : α → α → Bool}

/-- Members that are told apart alike can be dropped before or after the repeated ones. -/
theorem keepFirst_filter (l : List α) {keep : α → Bool}
    (hkeep : ∀ a b, same a b = true → keep a = keep b) :
    (keepFirst same l).filter keep = keepFirst same (l.filter keep) := by
  induction l with
  | nil => rfl
  | cons a rest ih =>
    rw [keepFirst, List.filter_cons, List.filter_cons]
    cases ha : keep a with
    | true =>
      rw [if_pos rfl, if_pos rfl, keepFirst, ← ih, List.filter_comm]
    | false =>
      rw [if_neg Bool.false_ne_true, if_neg Bool.false_ne_true, ← ih, List.filter_filter]
      refine List.filter_congr fun b _ => ?_
      cases hb : keep b with
      | false => rfl
      | true =>
        cases hab : same a b with
        | false => rfl
        | true => rw [hkeep a b hab, hb] at ha; cases ha

/-- The first of equal members is the one that stays, where equality is one. -/
theorem keepFirst_eq_eraseDupsBy (hsymm : ∀ a b, same a b = same b a)
    (htrans : ∀ a b c, same a b = true → same b c = true → same a c = true) (l : List α) :
    keepFirst same l = l.eraseDupsBy same := by
  have hkeep (a b c : α) (h : same b c = true) : (!same a b) = (!same a c) := by
    congr 1
    rw [Bool.eq_iff_iff]
    exact ⟨fun hab => htrans a b c hab h, fun hac => htrans a c b hac (hsymm b c ▸ h)⟩
  induction hn : l.length using Nat.strongRecOn generalizing l with
  | ind n ih =>
    cases l with
    | nil => rfl
    | cons a rest =>
      have hlt : (rest.filter fun b => !same a b).length < n :=
        Nat.lt_of_le_of_lt (List.length_filter_le _ rest) (by rw [← hn, List.length_cons]; omega)
      rw [keepFirst, keepFirst_filter rest (hkeep a), ih _ hlt _ rfl, List.eraseDupsBy_cons]
      simp only [hsymm a, Bool.decide_eq_false]

end KeepFirst

theorem keepFirst_beq {α : Type} [BEq α] [LawfulBEq α] (l : List α) :
    keepFirst (· == ·) l = l.eraseDups := by
  refine keepFirst_eq_eraseDupsBy (fun a b => ?_) (fun a b c hab hbc => ?_) l
  · exact BEq.comm
  · exact BEq.trans hab hbc

namespace Decimal

theorem pow_ten_ne_zero (n : Nat) : Int.pow 10 n ≠ 0 := by
  induction n with
  | zero => decide
  | succ n ih => exact Int.mul_ne_zero ih (show (10 : Int) ≠ 0 by decide)

theorem SameNumber.trans {a b c : Decimal} (hab : a.SameNumber b) (hbc : b.SameNumber c) :
    a.SameNumber c := by
  unfold SameNumber at *
  refine Int.eq_of_mul_eq_mul_right (pow_ten_ne_zero b.scale) ?_
  calc a.signed * Int.pow 10 c.scale * Int.pow 10 b.scale
      = a.signed * Int.pow 10 b.scale * Int.pow 10 c.scale := Int.mul_right_comm _ _ _
    _ = b.signed * Int.pow 10 a.scale * Int.pow 10 c.scale := by rw [hab]
    _ = b.signed * Int.pow 10 c.scale * Int.pow 10 a.scale := Int.mul_right_comm _ _ _
    _ = c.signed * Int.pow 10 b.scale * Int.pow 10 a.scale := by rw [hbc]
    _ = c.signed * Int.pow 10 a.scale * Int.pow 10 b.scale := Int.mul_right_comm _ _ _

/-- Decimals of one number, as a test. -/
def sameNumber (a b : Decimal) : Bool := decide (a.SameNumber b)

theorem keepFirst_sameNumber (l : List Decimal) :
    keepFirst sameNumber l = l.eraseDupsBy sameNumber := by
  refine keepFirst_eq_eraseDupsBy (fun a b => ?_) (fun a b c hab hbc => ?_) l
  · exact decide_eq_decide.mpr ⟨SameNumber.symm, SameNumber.symm⟩
  · exact decide_eq_true ((of_decide_eq_true hab).trans (of_decide_eq_true hbc))

end Decimal

namespace Value

/-! ## What comes back -/

mutual

/-- The wire form suggests the type of the value, at any depth. -/
def SelfDescribing : Value → Prop
  | .null | .bool _ | .text _ | .integer _ | .binary _ => True
  | .decimal d => Integer.ofDigits? d.text.toList = none
  | .textSet members => members ≠ []
  | .numberSet members => members ≠ []
  | .binarySet members => members ≠ []
  | .list items => items ≠ [] ∧ ItemsSelfDescribing items
  | .map entries => entries ≠ [] ∧ EntriesSelfDescribing entries
  | .float _ | .timestamp _ | .date _ => False

/-- So do those of all items of a list. -/
def ItemsSelfDescribing : List Value → Prop
  | [] => True
  | v :: rest => SelfDescribing v ∧ ItemsSelfDescribing rest

/-- So do those of all that is behind the keys of a map. -/
def EntriesSelfDescribing : List (String × Value) → Prop
  | [] => True
  | (_, v) :: rest => SelfDescribing v ∧ EntriesSelfDescribing rest

end

mutual

/--
The value without repeated members in any of its sets, and with all maps in order. Decimals
are compared as numbers.
-/
def distinct : Value → Value
  | .textSet members => .textSet members.eraseDups
  | .numberSet members => .numberSet (members.eraseDupsBy Decimal.sameNumber)
  | .binarySet members => .binarySet members.eraseDups
  | .list items => .list (distinctItems items)
  | .map entries => .map (Keyed.ofList (distinctEntries entries))
  | v => v

/-- The items of a list without repeated members. -/
def distinctItems : List Value → List Value
  | [] => []
  | v :: rest => distinct v :: distinctItems rest

/-- What is behind the keys of a map without repeated members. -/
def distinctEntries : List (String × Value) → List (String × Value)
  | [] => []
  | (k, v) :: rest => (k, distinct v) :: distinctEntries rest

end

variable {dates : Option String} {field : String}

theorem nonempty_of {w : WireValue} (h : w.isEmptyCollection = false) :
    nonempty field w = .ok w := by
  rw [nonempty, WireValue.checked, if_neg (ne_true_of_eq_false h)]
  rfl

theorem keepFirst_isEmpty {α : Type} {same : α → α → Bool} {l : List α} (h : l ≠ []) :
    (keepFirst same l).isEmpty = false := by
  cases l with
  | nil => exact absurd rfl h
  | cons a rest => rfl

/-- The type of a self-describing value is the one that its wire form suggests. -/
theorem encode_naturalKind {v : Value} (hv : v.SelfDescribing) {w : WireValue}
    (h : v.encode dates field none = .ok w) : w.naturalKind = v.kind := by
  cases v with
  | null | bool | text | binary => cases h; rfl
  | integer n =>
    cases h
    rw [WireValue.naturalKind, Integer.ofDigits?_text]
    rfl
  | decimal d =>
    cases h
    rw [SelfDescribing] at hv
    rw [WireValue.naturalKind, hv]
    rfl
  | float | timestamp | date => exact absurd hv id
  | textSet | numberSet | binarySet =>
    obtain ⟨rfl, -⟩ := nonempty_ok h
    rfl
  | list | map =>
    obtain ⟨ws, -, h⟩ := Except.bind_ok.mp h
    obtain ⟨rfl, -⟩ := nonempty_ok h
    rfl

/-- What is put under the same keys alike makes maps that are alike. -/
theorem sameEntries_insert (k : String) {v v' : Value} (hv : v.same v' = true) :
    ∀ {m m' : Keyed Value}, sameEntries m m' = true →
      sameEntries (m.insert k v) (m'.insert k v') = true
  | [], [], _ => by simp [Keyed.insert, sameEntries, hv]
  | (l, a) :: m, (l', a') :: m', h => by
    simp only [sameEntries, Bool.and_eq_true, beq_iff_eq] at h
    obtain ⟨⟨rfl, ha⟩, hm⟩ := h
    simp only [Keyed.insert]
    split
    · simp [sameEntries, hv, ha, hm]
    · split
      · simp [sameEntries, hv, hm]
      · simp [sameEntries, ha, sameEntries_insert k hv hm]

theorem sameEntries_extend : ∀ {entries entries' : List (String × Value)} {m m' : Keyed Value},
    sameEntries entries entries' = true → sameEntries m m' = true →
      sameEntries (m.extend entries) (m'.extend entries') = true
  | [], [], _, _, _, hm => hm
  | (k, v) :: rest, (k', v') :: rest', m, m', h, hm => by
    simp only [sameEntries, Bool.and_eq_true, beq_iff_eq] at h
    obtain ⟨⟨rfl, hv⟩, hrest⟩ := h
    change sameEntries ((m.insert k v).extend rest) ((m'.insert k v').extend rest') = true
    exact sameEntries_extend hrest (sameEntries_insert k hv hm)

/-- Numbers that are written as members of a set are read back as the same numbers. -/
theorem readNumbers_text (members : List Decimal) : ∃ members',
    WireValue.readNumbers (members.map Decimal.text) = .ok members' ∧
      sameNumbers members' members = true := by
  induction members with
  | nil => exact ⟨[], rfl, rfl⟩
  | cons d rest ih =>
    obtain ⟨rest', hrest, hsame⟩ := ih
    obtain ⟨d', hd, hdd, -⟩ := d.read?_text
    refine ⟨d' :: rest', ?_, ?_⟩
    · rw [List.map_cons, WireValue.readNumbers, hd]
      dsimp only
      rw [hrest]
      rfl
    · rw [sameNumbers, decide_eq_true hdd, hsame]
      rfl

/-- So is the set. -/
theorem decodeScalar_numberSet (dates : Option String) (members : List Decimal) : ∃ members',
    WireValue.decodeScalar dates none .numberSet (.numberSet (members.map Decimal.text))
      = .ok (some (.numberSet members')) ∧ sameNumbers members' members = true := by
  obtain ⟨members', hread, hsame⟩ := readNumbers_text members
  refine ⟨members', ?_, hsame⟩
  change (WireValue.readNumbers _).bind _ = _
  rw [hread]
  rfl

/-- The value is written, and asked for its type it is read back without repeated members. -/
def ReadBack (dates : Option String) (field : String) (v : Value) : Prop :=
  ∃ w v', v.encode dates field none = .ok w ∧ w.decode dates field none v.kind = .ok v' ∧
    v'.same v.distinct = true

/-- A value without parts is read back if it is written and read as such. -/
theorem ReadBack.of_scalar {v v' : Value} {w : WireValue} (hw : v.encode dates field none = .ok w)
    (hv : WireValue.decodeScalar dates none v.kind w = .ok (some v'))
    (hs : v'.same v.distinct = true) :
    ReadBack dates field v := by
  exact ⟨w, v', hw, WireValue.decode_of_scalar (r := .ok v') hv, hs⟩

/-- A decimal is read back, also where its wire form suggests an integer. -/
theorem decimal_readBack (d : Decimal) : ReadBack dates field (.decimal d) := by
  obtain ⟨d', hd, hsame, -⟩ := d.read?_text
  have hread : WireValue.decodeScalar dates none .decimal (.number d.text)
      = .ok (some (.decimal d')) := by
    change (WireValue.readDecimal d.text).map some = _
    rw [WireValue.readDecimal, hd]
    rfl
  exact .of_scalar rfl hread (decide_eq_true hsame)

mutual

/--
 **A self-describing value is read back.** It has the same parts, but no repeated members in any of
its sets. 
-/
theorem encode_decode : ∀ (v : Value) (field : String), v.SelfDescribing → ReadBack dates field v
  | .null, _, _ => ⟨.null true, .null, rfl, rfl, rfl⟩
  | .bool flag, _, _ => .of_scalar rfl rfl (beq_self_eq_true flag)
  | .text t, _, _ => .of_scalar rfl rfl (beq_self_eq_true t)
  | .binary bytes, _, _ => .of_scalar rfl rfl (beq_self_eq_true bytes)
  | .integer n, _, _ => by
    have hread : WireValue.decodeScalar dates none .integer (.number (Integer.text n.toInt))
        = .ok (some (.integer n)) := by
      change (WireValue.readInteger _).map some = _
      rw [WireValue.readInteger, Integer.read?_text]
      rfl
    exact .of_scalar rfl hread (beq_self_eq_true n)
  | .decimal d, _, _ => decimal_readBack d
  | .float _, _, h | .timestamp _, _, h | .date _, _, h => absurd h id
  | .textSet members, _, h => by
    refine .of_scalar (nonempty_of (keepFirst_isEmpty h)) rfl ?_
    exact beq_iff_eq.mpr (keepFirst_beq members)
  | .binarySet members, _, h => by
    refine .of_scalar (nonempty_of (keepFirst_isEmpty h)) rfl ?_
    exact beq_iff_eq.mpr (keepFirst_beq members)
  | .numberSet members, field, h => by
    obtain ⟨members', hscalar, hsame⟩ :=
      decodeScalar_numberSet dates (keepFirst Decimal.sameNumber members)
    have hne : ((keepFirst Decimal.sameNumber members).map Decimal.text).isEmpty = false := by
      rw [List.isEmpty_map]
      exact keepFirst_isEmpty h
    refine .of_scalar (nonempty_of hne) hscalar ?_
    rw [distinct, ← Decimal.keepFirst_sameNumber]
    exact hsame
  | .list items, field, h => by
    obtain ⟨ws, vs, hws, hvs, hempty, hsame⟩ := encodeItems_decodeItems items 0 field h.2
    have hne : ws.isEmpty = false := hempty.trans (List.isEmpty_eq_false_iff.mpr h.1)
    refine ⟨.list ws, .list vs, Except.bind_ok.mpr ⟨ws, hws, nonempty_of hne⟩, ?_, hsame⟩
    exact Except.bind_ok.mpr ⟨vs, hvs, rfl⟩
  | .map entries, field, h => by
    obtain ⟨ws, vs, hws, hvs, hempty, hsame⟩ := encodeEntries_decodeEntries entries field h.2
    have hne : ws.isEmpty = false := hempty.trans (List.isEmpty_eq_false_iff.mpr h.1)
    refine ⟨.map ws, .map (Keyed.ofList vs), Except.bind_ok.mpr ⟨ws, hws, nonempty_of hne⟩, ?_,
      sameEntries_extend hsame rfl⟩
    exact Except.bind_ok.mpr ⟨vs, hvs, rfl⟩

/-- So are the items of a list, where nothing says of which type they are. -/
theorem encodeItems_decodeItems : ∀ (items : List Value) (i : Nat) (field : String),
    ItemsSelfDescribing items → ∃ ws vs, encodeItems dates field none i items = .ok ws ∧
      WireValue.decodeItems dates field i ws = .ok vs ∧ ws.isEmpty = items.isEmpty ∧
      sameItems vs (distinctItems items) = true
  | [], _, _, _ => ⟨[], [], rfl, rfl, rfl, rfl⟩
  | v :: rest, i, field, h => by
    obtain ⟨w, v', hw, hv, hs⟩ := encode_decode v (field ++ WireValue.indexStep i) h.1
    obtain ⟨ws, vs, hws, hvs, -, hss⟩ := encodeItems_decodeItems rest (i + 1) field h.2
    refine ⟨w :: ws, v' :: vs, ?_, ?_, rfl, ?_⟩
    · exact Except.bind_ok.mpr ⟨w, hw, Except.bind_ok.mpr ⟨ws, hws, rfl⟩⟩
    · rw [← encode_naturalKind h.1 hw] at hv
      exact Except.bind_ok.mpr ⟨v', hv, Except.bind_ok.mpr ⟨vs, hvs, rfl⟩⟩
    · rw [distinctItems, sameItems, hs, hss]
      rfl

/-- So is what is behind the keys of a map. -/
theorem encodeEntries_decodeEntries : ∀ (entries : List (String × Value)) (field : String),
    EntriesSelfDescribing entries → ∃ ws vs, encodeEntries dates field none entries = .ok ws ∧
      WireValue.decodeEntries dates field ws = .ok vs ∧ ws.isEmpty = entries.isEmpty ∧
      sameEntries vs (distinctEntries entries) = true
  | [], _, _ => ⟨[], [], rfl, rfl, rfl, rfl⟩
  | (k, v) :: rest, field, h => by
    obtain ⟨w, v', hw, hv, hs⟩ := encode_decode v (field ++ WireValue.keyStep k) h.1
    obtain ⟨ws, vs, hws, hvs, -, hss⟩ := encodeEntries_decodeEntries rest field h.2
    refine ⟨(k, w) :: ws, (k, v') :: vs, ?_, ?_, rfl, ?_⟩
    · exact Except.bind_ok.mpr ⟨w, hw, Except.bind_ok.mpr ⟨ws, hws, rfl⟩⟩
    · rw [← encode_naturalKind h.1 hw] at hv
      exact Except.bind_ok.mpr ⟨v', hv, Except.bind_ok.mpr ⟨vs, hvs, rfl⟩⟩
    · rw [distinctEntries, sameEntries, beq_self_eq_true, hs, hss]
      rfl

end

end Value

/-! ## Properties without format and hook -/

namespace Codec

/--
**What goes over plainly comes back.** A self-describing value, or any decimal, is written for a
property without format and hook, and asked for its type it is read back: the same value without
repeated members in any of its sets, however deep.
-/
theorem plain_round_trip (codec : Codec) {p : Property} (hformat : p.format = none)
    (hhook : p.hook = none) {v : Value} (hv : v.SelfDescribing ∨ v.kind = .decimal) :
    ∃ w v', codec.toWire v p = .ok w ∧ codec.fromWire w v.kind p = .ok v' ∧
      v'.same v.distinct = true := by
  have hback : Value.ReadBack codec.dateFormat p.wireName v := by
    rcases hv with hv | hv
    · exact v.encode_decode p.wireName hv
    · cases v with
      | decimal d => exact Value.decimal_readBack d
      | _ => cases hv
  obtain ⟨w, v', hw, hv', hs⟩ := hback
  refine ⟨w, v', ?_, ?_, hs⟩
  · refine Except.bind_ok.mpr ⟨.ready w, ?_, rfl⟩
    rw [bind, hformat, hhook, hw]
    rfl
  · rw [fromWire_of_hook_none hhook, hformat]
    exact (WireValue.decode_arranged_ok_iff codec.hooks.reading).mpr hv'

/-- A map with a set of three prices, two of which are one number, and a list with numbers in it. -/
theorem order_comes_back :
    let codec : Codec := ⟨some "epoch", .empty⟩
    let p : Property := ⟨"Order", "order", none, none⟩
    let price : Decimal := ⟨false, 150, 2, by decide, by decide⟩
    let samePrice : Decimal := ⟨false, 15, 1, by decide, by decide⟩
    let two : Decimal := ⟨false, 2, 0, by decide, by decide⟩
    let loss : Decimal := ⟨true, 5, 28, by decide, by decide⟩
    let parts (prices : List Decimal) : Value := .map [("prices", .numberSet prices),
      ("totals", .list [.integer (-7), .decimal loss, .null])]
    ∃ w v', codec.toWire (parts [price, samePrice, two]) p = .ok w ∧
      codec.fromWire w .map p = .ok v' ∧ v'.same (parts [price, two]) = true := by
  intro codec p price samePrice two loss parts
  have hloss : Integer.ofDigits? loss.text.toList = none := by decide +kernel
  have hv : (parts [price, samePrice, two]).SelfDescribing :=
    ⟨List.cons_ne_nil _ _, List.cons_ne_nil _ _,
      ⟨List.cons_ne_nil _ _, trivial, hloss, trivial, trivial⟩, trivial⟩
  have hdistinct : [price, samePrice, two].eraseDupsBy Decimal.sameNumber = [price, two] := by
    decide +kernel
  obtain ⟨w, v', hw, hv', hs⟩ := codec.plain_round_trip (p := p) rfl rfl (.inl hv)
  have hparts : (parts [price, samePrice, two]).distinct
      = parts ([price, samePrice, two].eraseDupsBy Decimal.sameNumber) :=
    congrArg Value.map (Keyed.ofList_of_ordered
      ⟨List.forall_mem_singleton.mpr (by decide), List.forall_mem_nil _, trivial⟩)
  rw [hparts, hdistinct] at hs
  exact ⟨w, v', hw, hv', hs⟩

end Codec

end Clauses
