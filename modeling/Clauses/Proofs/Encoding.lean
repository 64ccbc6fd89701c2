import Clauses.Codec.Encode
import Clauses.Proofs.Drafting
import Clauses.Proofs.Json.WireValues

/-!
# What values are written to

A value that nests no deeper than the reader goes, and whose maps are in order, is written to a wire
value that is read back: no collection in it is empty, and its maps are in order too.

* `Value.nesting` — the number of lists and maps around the innermost value
* `Value.encode_readable` — what a value is written to can be read back
-/

namespace Clauses

/-! ## Values that are in order -/

namespace Keyed

variable {α β : Type}

theorem ordered_iff {m : Keyed α} : Ordered m ↔ m.keys.Pairwise (· < ·) := by
  induction m with
  | nil => simp [Ordered, keys]
  | cons e r ih =>
    obtain ⟨k, v⟩ := e
    rw [Ordered, ih, keys, keys, List.map_cons, List.pairwise_cons, List.forall_mem_map]

/-- The order is one of the keys. -/
theorem Ordered.of_keys {m : Keyed α} {m' : Keyed β} (h : Ordered m) (hk : m'.keys = m.keys) :
    Ordered m' := by
  rw [ordered_iff] at h ⊢
  rwa [hk]

end Keyed

namespace Value

mutual

/-- The number of lists and maps around the innermost value. -/
def nesting : Value → Nat
  | .list items => itemsNesting items + 1
  | .map entries => entriesNesting entries + 1
  | _ => 0

/-- The deepest nesting of the items of a list. -/
def itemsNesting : List Value → Nat
  | [] => 0
  | v :: rest => max (nesting v) (itemsNesting rest)

/-- The deepest nesting of the entries of a map. -/
def entriesNesting : List (String × Value) → Nat
  | [] => 0
  | (_, v) :: rest => max (nesting v) (entriesNesting rest)

end

mutual

/-- The entries of all maps in the value are in the order of their keys. -/
def InOrder : Value → Prop
  | .list items => ItemsInOrder items
  | .map entries => Keyed.Ordered entries ∧ EntriesInOrder entries
  | _ => True

/-- All items of a list are in order. -/
def ItemsInOrder : List Value → Prop
  | [] => True
  | v :: rest => InOrder v ∧ ItemsInOrder rest

/-- What is behind the keys of a map is in order. -/
def EntriesInOrder : List (String × Value) → Prop
  | [] => True
  | (_, v) :: rest => InOrder v ∧ EntriesInOrder rest

end

/-! ## Texts and numbers -/

/-- What a number or a date is written to: a text or a number of the wire. -/
inductive IsPlain : WireValue → Prop where
  | text (t : String) : IsPlain (.text t)
  | number (t : String) : IsPlain (.number t)

theorem formatted_isPlain {format : NumberFormat} {d : Decimal} {w : WireValue}
    (h : formatted format d = .ok w) : IsPlain w := by
  unfold formatted at h
  split at h <;> cases h
  exact .text _

theorem writeNumber_isPlain {format : Option String} {plain : String} {d : Decimal} {w : WireValue}
    (h : writeNumber format plain d = .ok w) : IsPlain w := by
  obtain ⟨nf, -, h⟩ := Except.bind_ok.mp h
  cases nf with
  | none =>
    cases h
    exact .number _
  | some nf => exact formatted_isPlain h

theorem writeFloat_isPlain {format : Option String} {x : Float} {w : WireValue}
    (h : writeFloat format x = .ok w) : IsPlain w := by
  unfold writeFloat at h
  cases hx : Binary64.isFinite x with
  | false =>
    rw [hx] at h
    cases h
  | true =>
    rw [hx] at h
    obtain ⟨nf, -, h⟩ := Except.bind_ok.mp h
    cases nf with
    | none =>
      cases h
      exact .number _
    | some nf =>
      dsimp only at h
      split at h
      · exact formatted_isPlain h
      · cases h

theorem writeInstant_isPlain {format : DateFormat} {t : Instant} {w : WireValue}
    (h : format.writeInstant t = .ok w) : IsPlain w := by
  cases format with
  | iso =>
    cases h
    exact .text _
  | epoch | epochMillis =>
    cases h
    exact .number _
  | pattern p =>
    obtain ⟨pattern, -, h⟩ := Except.bind_ok.mp h
    split at h <;> cases h
    exact .text _

theorem writeDate_isPlain {format : DateFormat} {d : Date} {w : WireValue}
    (h : format.writeDate d = .ok w) : IsPlain w := by
  unfold DateFormat.writeDate at h
  split at h
  · cases h
    exact .text _
  · exact writeInstant_isPlain h

theorem IsPlain.readable {depth : Nat} {w : WireValue} (h : IsPlain w) :
    w.Readable (depth + 1) := by
  cases h with
  | text t => exact .text t
  | number t => exact .number t

/-! ## Values -/

theorem invalidIn_ok {α : Type} {field : String} {x : Except InvalidValue α} {a : α} :
    invalidIn field x = .ok a ↔ x = .ok a := Except.mapError_ok

/-- What is bound is no empty collection. -/
theorem nonempty_ok {field : String} {w w' : WireValue} (h : nonempty field w = .ok w') :
    w' = w ∧ w.isEmptyCollection = false := by
  have h := Except.mapError_ok.mp h
  unfold WireValue.checked at h
  split at h
  · cases h
  · next hne =>
    cases h
    exact ⟨rfl, by simpa using hne⟩

mutual

/--
What a value is written to can be read back, in two brackets for each list or map and two more.
-/
theorem encode_readable {dates : Option String} : ∀ (v : Value) {field : String}
    {format : Option String} {depth : Nat} {w : WireValue}, v.InOrder → 2 * v.nesting ≤ depth →
      v.encode dates field format = .ok w → w.Readable (depth + 2)
  | .null, _, _, _, _, _, _, h => by
    cases h
    exact .null true
  | .bool flag, _, _, _, _, _, _, h => by
    cases h
    exact .bool flag
  | .text t, _, _, _, _, _, _, h => by
    cases h
    exact .text t
  | .binary bytes, _, _, _, _, _, _, h => by
    cases h
    exact .binary bytes
  | .integer n, _, _, _, _, _, _, h => (writeNumber_isPlain (invalidIn_ok.mp h)).readable
  | .decimal d, _, _, _, _, _, _, h => (writeNumber_isPlain (invalidIn_ok.mp h)).readable
  | .float x, _, _, _, _, _, _, h => (writeFloat_isPlain (invalidIn_ok.mp h)).readable
  | .timestamp t, _, _, _, _, _, _, h => (writeInstant_isPlain (invalidIn_ok.mp h)).readable
  | .date d, _, _, _, _, _, _, h => (writeDate_isPlain (invalidIn_ok.mp h)).readable
  | .textSet members, _, _, _, _, _, _, h => by
    obtain ⟨rfl, hne⟩ := nonempty_ok h
    exact .textSet (List.isEmpty_eq_false_iff.mp hne)
  | .numberSet members, _, _, _, _, _, _, h => by
    obtain ⟨rfl, hne⟩ := nonempty_ok h
    exact .numberSet (List.isEmpty_eq_false_iff.mp hne)
  | .binarySet members, _, _, _, _, _, _, h => by
    obtain ⟨rfl, hne⟩ := nonempty_ok h
    exact .binarySet (List.isEmpty_eq_false_iff.mp hne)
  | .list items, _, _, depth, _, ho, hd, h => by
    obtain ⟨ws, hws, h⟩ := Except.bind_ok.mp h
    obtain ⟨rfl, hne⟩ := nonempty_ok h
    obtain ⟨d, rfl⟩ : ∃ d, depth = d + 2 := ⟨depth - 2, by rw [nesting] at hd; omega⟩
    refine .list (List.isEmpty_eq_false_iff.mp hne) (encodeItems_readable items ho ?_ hws)
    rw [nesting] at hd
    omega
  | .map entries, _, _, depth, _, ho, hd, h => by
    obtain ⟨ws, hws, h⟩ := Except.bind_ok.mp h
    obtain ⟨rfl, hne⟩ := nonempty_ok h
    obtain ⟨d, rfl⟩ : ∃ d, depth = d + 2 := ⟨depth - 2, by rw [nesting] at hd; omega⟩
    have hd' : 2 * entriesNesting entries ≤ d := by
      rw [nesting] at hd
      omega
    obtain ⟨hkeys, hreadable⟩ := encodeEntries_readable entries ho.2 hd' hws
    exact .map (List.isEmpty_eq_false_iff.mp hne) (ho.1.of_keys hkeys) hreadable

/-- So can each item of a list. -/
theorem encodeItems_readable {dates : Option String} : ∀ (items : List Value) {field : String}
    {format : Option String} {i depth : Nat} {ws : List WireValue}, ItemsInOrder items →
      2 * itemsNesting items ≤ depth → encodeItems dates field format i items = .ok ws →
      ∀ w ∈ ws, w.Readable (depth + 2)
  | [], _, _, _, _, _, _, _, h => by
    cases h
    exact fun _ hw => absurd hw List.not_mem_nil
  | v :: rest, _, _, _, _, _, ho, hd, h => by
    obtain ⟨w, hw, h⟩ := Except.bind_ok.mp h
    obtain ⟨ws, hws, ⟨⟩⟩ := Except.bind_ok.mp h
    rw [itemsNesting] at hd
    rw [List.forall_mem_cons]
    exact ⟨encode_readable v ho.1 (by omega) hw, encodeItems_readable rest ho.2 (by omega) hws⟩

/-- So can what is behind each key of a map, and the keys stay. -/
theorem encodeEntries_readable {dates : Option String} : ∀ (entries : List (String × Value))
    {field : String} {format : Option String} {depth : Nat} {ws : List (String × WireValue)},
      EntriesInOrder entries → 2 * entriesNesting entries ≤ depth →
      encodeEntries dates field format entries = .ok ws →
      Keyed.keys ws = Keyed.keys entries ∧ ∀ e ∈ ws, e.2.Readable (depth + 2)
  | [], _, _, _, _, _, _, h => by
    cases h
    exact ⟨rfl, fun _ hw => absurd hw List.not_mem_nil⟩
  | (k, v) :: rest, _, _, depth, _, ho, hd, h => by
    obtain ⟨w, hw, h⟩ := Except.bind_ok.mp h
    obtain ⟨ws, hws, ⟨⟩⟩ := Except.bind_ok.mp h
    rw [entriesNesting] at hd
    have hrest : 2 * entriesNesting rest ≤ depth := by omega
    obtain ⟨hkeys, hreadable⟩ := encodeEntries_readable rest ho.2 hrest hws
    rw [List.forall_mem_cons]
    exact ⟨congrArg (k :: ·) hkeys, encode_readable v ho.1 (by omega) hw, hreadable⟩

end

end Value

end Clauses
