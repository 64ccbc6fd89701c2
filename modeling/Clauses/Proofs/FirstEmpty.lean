import Clauses.Proofs.Emptiness
import Clauses.Proofs.RoundTrip

/-!
# The first empty collection

Values are written by one walk and searched by another. The writer carries the path down to each
collection, and refuses the first one that is empty. The search is given a wire value that is
there already, and puts the path together on its way back up. Where several collections are empty,
both name the same one.

* A list or a map that is empty has nothing in it, so it makes no difference that the writer looks
  at it after its parts and the search before them.
* Both go through items in order, and through entries in the order of their keys.

* `Value.unchecked?` — the wire form of a value, whether or not collections in it are empty
* `Value.WritesAs` — the value is written to this form, or fails at the place that the search names
* `Codec.toWire_first_empty` — so it is with the values of a property without format and hook
-/

namespace Clauses

namespace Value

mutual

/-- No scalar in the value can fail to be written: none is a floating point number, a date or an
instant. -/
def Unfailing : Value → Prop
  | .float _ | .timestamp _ | .date _ => False
  | .list items => ItemsUnfailing items
  | .map entries => EntriesUnfailing entries
  | _ => True

/-- No scalar in the items of a list can. -/
def ItemsUnfailing : List Value → Prop
  | [] => True
  | v :: rest => Unfailing v ∧ ItemsUnfailing rest

/-- No scalar behind the keys of a map can. -/
def EntriesUnfailing : List (String × Value) → Prop
  | [] => True
  | (_, v) :: rest => Unfailing v ∧ EntriesUnfailing rest

end

mutual

/--
 The wire form of a value without formats, whether or not collections in it are empty. There is none
if a scalar in it may fail. 
-/
def unchecked? : Value → Option WireValue
  | .null => some (.null true)
  | .bool flag => some (.bool flag)
  | .text t => some (.text t)
  | .integer n => some (.number (Integer.text n.toInt))
  | .decimal d => some (.number d.text)
  | .binary bytes => some (.binary bytes)
  | .float _ | .timestamp _ | .date _ => none
  | .textSet members => some (.textSet members.eraseDups)
  | .numberSet members =>
    some (.numberSet ((members.eraseDupsBy Decimal.sameNumber).map Decimal.text))
  | .binarySet members => some (.binarySet members.eraseDups)
  | .list items => (uncheckedItems? items).map .list
  | .map entries => (uncheckedEntries? entries).map .map

/-- The wire forms of the items of a list. -/
def uncheckedItems? : List Value → Option (List WireValue)
  | [] => some []
  | v :: rest => do return (← unchecked? v) :: (← uncheckedItems? rest)

/-- The entries of a map with the wire forms of what is behind its keys. -/
def uncheckedEntries? : List (String × Value) → Option (List (String × WireValue))
  | [] => some []
  | (k, v) :: rest => do return (k, ← unchecked? v) :: (← uncheckedEntries? rest)

end

/-! ## Refusing what is empty -/

section UnlessEmpty

variable {α β γ : Type} {field : String}

/-- The result, unless an empty collection has been found in it, which is refused with its path. -/
def unlessEmpty (field : String) (found : Option EmptyCollection) (a : α) : Except ClauseError α :=
  match found with
  | none => .ok a
  | some e => .error (.emptyCollection (field ++ e.path) e.tag)

/-- A wire value that holds nothing else is looked at once. -/
theorem nonempty_eq (w : WireValue) :
    nonempty field w
      = unlessEmpty field (if w.isEmptyCollection then some ⟨"", w.tag⟩ else none) w := by
  cases h : w.isEmptyCollection with
  | false =>
    rw [nonempty_of h]
    rfl
  | true =>
    rw [nonempty, WireValue.checked, if_pos h, if_pos rfl, unlessEmpty, String.append_empty]
    rfl

/-- A collection that is looked at after its parts: none of them is empty if there are none. -/
theorem nonempty_after {found : Option EmptyCollection} {a : α} {collect : α → WireValue}
    (h : (collect a).isEmptyCollection = true → found = none) :
    (unlessEmpty field found a >>= fun a => nonempty field (collect a))
      = unlessEmpty field
          (if (collect a).isEmptyCollection then some ⟨"", (collect a).tag⟩ else found)
          (collect a) := by
  cases found with
  | none => exact nonempty_eq (collect a)
  | some e =>
    rw [if_neg fun he => Option.some_ne_none e (h he)]
    rfl

/-- One part after the other: the first is found by a step more. -/
theorem unlessEmpty_step (step : String) (first rest : Option EmptyCollection) (a : α) (b : β)
    (put : α → β → γ) :
    (do return put (← unlessEmpty (field ++ step) first a) (← unlessEmpty field rest b))
      = unlessEmpty field (match first with
          | some e => some (e.under step)
          | none => rest) (put a b) := by
  cases first with
  | none => cases rest <;> rfl
  | some e =>
    dsimp only [unlessEmpty, EmptyCollection.under]
    rw [← String.append_assoc]
    rfl

end UnlessEmpty

/-! ## Both walks -/

/-- A value has an unchecked wire form, and is written to it unless a collection in it is empty. -/
structure WritesAs (dates : Option String) (v : Value) (raw : WireValue) : Prop where
  unchecked : v.unchecked? = some raw
  inOrder : v.InOrder → raw.InOrder
  encode : ∀ field, v.encode dates field none = unlessEmpty field raw.findEmpty raw

/-- So it is with the items of a list from any index on. -/
structure ItemsWriteAs (dates : Option String) (items : List Value)
    (raws : List WireValue) : Prop where
  unchecked : uncheckedItems? items = some raws
  inOrder : ItemsInOrder items → ∀ w ∈ raws, w.InOrder
  encode : ∀ field i,
    encodeItems dates field none i items = unlessEmpty field (WireValue.findEmptyItem i raws) raws

/-- So it is with the entries of a map. -/
structure EntriesWriteAs (dates : Option String) (entries : List (String × Value))
    (raws : List (String × WireValue)) : Prop where
  unchecked : uncheckedEntries? entries = some raws
  keys : Keyed.keys raws = Keyed.keys entries
  inOrder : EntriesInOrder entries → ∀ e ∈ raws, e.2.InOrder
  encode : ∀ field,
    encodeEntries dates field none entries = unlessEmpty field (WireValue.findEmptyEntry raws) raws

variable {dates : Option String}

theorem ItemsWriteAs.cons {v : Value} {raw : WireValue} {rest : List Value} {raws : List WireValue}
    (hv : WritesAs dates v raw) (hrest : ItemsWriteAs dates rest raws) :
    ItemsWriteAs dates (v :: rest) (raw :: raws) where
  unchecked := by
    rw [uncheckedItems?, hv.unchecked, hrest.unchecked]
    rfl
  inOrder ho := List.forall_mem_cons.mpr ⟨hv.inOrder ho.1, hrest.inOrder ho.2⟩
  encode field i := by
    rw [encodeItems, hv.encode, hrest.encode]
    exact unlessEmpty_step (WireValue.indexStep i) _ _ raw raws List.cons

theorem EntriesWriteAs.cons {k : String} {v : Value} {raw : WireValue}
    {rest : List (String × Value)}
    {raws : List (String × WireValue)} (hv : WritesAs dates v raw)
    (hrest : EntriesWriteAs dates rest raws) :
    EntriesWriteAs dates ((k, v) :: rest) ((k, raw) :: raws) where
  unchecked := by
    rw [uncheckedEntries?, hv.unchecked, hrest.unchecked]
    rfl
  keys := congrArg (k :: ·) hrest.keys
  inOrder ho := List.forall_mem_cons.mpr ⟨hv.inOrder ho.1, hrest.inOrder ho.2⟩
  encode field := by
    rw [encodeEntries, hv.encode, hrest.encode]
    exact unlessEmpty_step (WireValue.keyStep k) _ _ raw raws fun w ws => (k, w) :: ws

theorem ItemsWriteAs.list {items : List Value} {raws : List WireValue}
    (h : ItemsWriteAs dates items raws) : WritesAs dates (.list items) (.list raws) where
  unchecked := by rw [unchecked?, h.unchecked, Option.map_some]
  inOrder ho := WireValue.inOrder_list_iff.mpr (h.inOrder ho)
  encode field := by
    rw [Value.encode, h.encode]
    refine nonempty_after fun he => ?_
    rw [List.isEmpty_iff.mp he]
    rfl

theorem EntriesWriteAs.map {entries : List (String × Value)} {raws : List (String × WireValue)}
    (h : EntriesWriteAs dates entries raws) : WritesAs dates (.map entries) (.map raws) where
  unchecked := by rw [unchecked?, h.unchecked, Option.map_some]
  inOrder ho := WireValue.inOrder_map_iff.mpr ⟨ho.1.of_keys h.keys, h.inOrder ho.2⟩
  encode field := by
    rw [Value.encode, h.encode]
    refine nonempty_after fun he => ?_
    rw [List.isEmpty_iff.mp he]
    rfl

mutual

/-- So is every value whose scalars are written without fail. -/
theorem Unfailing.writesAs : ∀ (v : Value), v.Unfailing → ∃ raw, WritesAs dates v raw
  | .null, _ | .bool _, _ | .text _, _ | .integer _, _ | .decimal _, _ | .binary _, _ =>
    ⟨_, rfl, fun _ part hp => by cases hp; trivial, fun _ => rfl⟩
  | .textSet members, _ | .binarySet members, _ => by
    refine ⟨_, rfl, fun _ part hp => by cases hp; trivial, fun field => ?_⟩
    rw [← keepFirst_beq]
    exact nonempty_eq _
  | .numberSet members, _ => by
    refine ⟨_, rfl, fun _ part hp => by cases hp; trivial, fun field => ?_⟩
    rw [← Decimal.keepFirst_sameNumber]
    exact nonempty_eq _
  | .float _, h | .timestamp _, h | .date _, h => absurd h id
  | .list items, h => by
    obtain ⟨raws, hraws⟩ := ItemsUnfailing.writeAs items h
    exact ⟨.list raws, hraws.list⟩
  | .map entries, h => by
    obtain ⟨raws, hraws⟩ := EntriesUnfailing.writeAs entries h
    exact ⟨.map raws, hraws.map⟩

/-- So are the items of a list. -/
theorem ItemsUnfailing.writeAs : ∀ (items : List Value), ItemsUnfailing items →
    ∃ raws, ItemsWriteAs dates items raws
  | [], _ => ⟨[], rfl, fun _ _ hw => absurd hw List.not_mem_nil, fun _ _ => rfl⟩
  | v :: rest, h => by
    obtain ⟨raw, hraw⟩ := Unfailing.writesAs v h.1
    obtain ⟨raws, hraws⟩ := ItemsUnfailing.writeAs rest h.2
    exact ⟨raw :: raws, .cons hraw hraws⟩

/-- So are the entries of a map. -/
theorem EntriesUnfailing.writeAs : ∀ (entries : List (String × Value)), EntriesUnfailing entries →
    ∃ raws, EntriesWriteAs dates entries raws
  | [], _ => ⟨[], rfl, rfl, fun _ _ he => absurd he List.not_mem_nil, fun _ => rfl⟩
  | (k, v) :: rest, h => by
    obtain ⟨raw, hraw⟩ := Unfailing.writesAs v h.1
    obtain ⟨raws, hraws⟩ := EntriesUnfailing.writeAs rest h.2
    exact ⟨(k, raw) :: raws, .cons hraw hraws⟩

end

end Value

/-! ## Properties without format and hook -/

namespace Codec

/--
**The writer and the search name the same empty collection.** A value without floating point
numbers, dates and instants has a wire form, put together without looking at whether collections are
empty; its maps are in order if those of the value are, so that the search goes through them by
their keys. If the search finds no empty collection in it, the value is written for a property
without format and hook, to just this form, which has no empty collection at any depth. If it finds
one, the value is refused for it: the field is the attribute with the path to the collection, and
the type is the collection's.
-/
theorem toWire_first_empty (codec : Codec) {p : Property} (hformat : p.format = none)
    (hhook : p.hook = none) {v : Value} (hv : v.Unfailing) :
    ∃ raw, v.unchecked? = some raw ∧ (v.InOrder → raw.InOrder) ∧
      (raw.findEmpty = none → codec.toWire v p = .ok raw ∧ raw.Filled) ∧
      ∀ e, raw.findEmpty = some e →
        codec.toWire v p = .error (.emptyCollection (p.wireName ++ e.path) e.tag) := by
  obtain ⟨raw, hraw⟩ : ∃ raw, Value.WritesAs codec.dateFormat v raw := Value.Unfailing.writesAs v hv
  have hwire : codec.toWire v p = Value.unlessEmpty p.wireName raw.findEmpty raw := by
    rw [toWire_of_hook_none hhook, hformat, hraw.encode]
  refine ⟨raw, hraw.unchecked, hraw.inOrder, fun hnone => ⟨?_, ?_⟩, fun e he => ?_⟩
  · rw [hwire, hnone]
    rfl
  · exact WireValue.findEmpty_eq_none_iff.mp hnone
  · rw [hwire, he]
    rfl

/-- A chest of drawers: two of them have nothing in them, and so has a tray in the upper one. -/
theorem chest_first_empty :
    let codec : Codec := ⟨some "epoch", .empty⟩
    let chest : Value := .map [("left", .list [.textSet ["key", "key"], .map [("tray", .list [])]]),
      ("middle", .numberSet []), ("right", .map [])]
    codec.toWire chest (.plain "chest") = .error (.emptyCollection "chest.left[1].tray" .list) := by
  intro codec chest
  have hchest : chest.Unfailing :=
    ⟨⟨trivial, ⟨trivial, trivial⟩, trivial⟩, trivial, trivial, trivial⟩
  obtain ⟨raw, hraw, -, -, hempty⟩ := codec.toWire_first_empty (p := .plain "chest") rfl rfl hchest
  have hunchecked : chest.unchecked?
    = some (.map [("left", .list [.textSet ["key"], .map [("tray", .list [])]]),
    ("middle", .numberSet []), ("right", .map [])]) := by decide +kernel
  cases hraw.symm.trans hunchecked
  exact hempty ⟨".left[1].tray", .list⟩ (by decide +kernel)

end Codec

end Clauses
