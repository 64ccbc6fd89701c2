import Clauses.Proofs.Base64
import Clauses.Proofs.Json.Reading
import Clauses.Proofs.WireParts
import Clauses.Wire.Json

/-!
# Wire values are read back

The JSON form of a wire value is read back as the value, if there is no empty collection in it and
it does not nest deeper than the reader goes. Each list and each map takes two brackets: its own,
and that of the object it is in. The entries of a map may be written in any order; they are read
into the order of their keys.

* `WireValue.sorted` — the value with the entries of its maps in the order of their keys
* `WireValue.reads_toJson` — what is written is read back as that
* `WireValue.Readable` — a wire value that is written well, within some brackets
* `WireValue.ofJson_toJson` — such a value is read back as it is
-/

namespace Clauses

/-! ## How deep a text nests -/

namespace Json

mutual

/-- The number of brackets around the innermost value of a JSON text. -/
def nesting : Json → Nat
  | .bool _ | .text _ => 0
  | .list items => itemsNesting items + 1
  | .object members => membersNesting members + 1

/-- The deepest nesting of the items of a list. -/
def itemsNesting : List Json → Nat
  | [] => 0
  | v :: rest => max (nesting v) (itemsNesting rest)

/-- The deepest nesting of the members of an object. -/
def membersNesting : List (String × Json) → Nat
  | [] => 0
  | (_, v) :: rest => max (nesting v) (membersNesting rest)

end

theorem itemsNesting_le_iff {items : List Json} {n : Nat} :
    itemsNesting items ≤ n ↔ ∀ v ∈ items, v.nesting ≤ n := by
  induction items with
  | nil => simp [itemsNesting]
  | cons v rest ih => rw [itemsNesting, Nat.max_le, ih, List.forall_mem_cons]

theorem membersNesting_le_iff {members : List (String × Json)} {n : Nat} :
    membersNesting members ≤ n ↔ ∀ e ∈ members, e.2.nesting ≤ n := by
  induction members with
  | nil => simp [membersNesting]
  | cons e rest ih =>
    obtain ⟨k, v⟩ := e
    rw [membersNesting, Nat.max_le, ih, List.forall_mem_cons]

/-- A list has one bracket more than the deepest of its items. -/
theorem nesting_list_le_iff {items : List Json} {n : Nat} :
    (Json.list items).nesting ≤ n ↔ ∃ m, n = m + 1 ∧ ∀ v ∈ items, v.nesting ≤ m := by
  rw [nesting]
  constructor
  · exact fun h => ⟨n - 1, by omega, itemsNesting_le_iff.mp (by omega)⟩
  · rintro ⟨m, rfl, h⟩
    exact Nat.succ_le_succ (itemsNesting_le_iff.mpr h)

/-- So has an object. -/
theorem nesting_object_le_iff {members : List (String × Json)} {n : Nat} :
    (Json.object members).nesting ≤ n ↔ ∃ m, n = m + 1 ∧ ∀ e ∈ members, e.2.nesting ≤ m := by
  rw [nesting]
  constructor
  · exact fun h => ⟨n - 1, by omega, membersNesting_le_iff.mp (by omega)⟩
  · rintro ⟨m, rfl, h⟩
    exact Nat.succ_le_succ (membersNesting_le_iff.mpr h)

/-- An object of one member has one bracket more than what is bound to its key. -/
theorem nesting_single_le_iff {k : String} {v : Json} {n : Nat} :
    (Json.object [(k, v)]).nesting ≤ n ↔ ∃ m, n = m + 1 ∧ v.nesting ≤ m := by
  simp only [nesting_object_le_iff, List.forall_mem_singleton]

end Json

namespace WireValue

open Json (Reads utf8)

/-! ## Tags and what they are bound to -/

theorem bytesOfText_encode (bytes : Bytes) :
    bytesOfText (String.ofList (Base64.encode bytes)) = .ok bytes := by
  rw [bytesOfText, Base64.decode_encode]

theorem bytesOfText_encode_all (members : List Bytes) :
    (members.map fun b => String.ofList (Base64.encode b)).mapM bytesOfText = .ok members := by
  induction members with
  | nil => rfl
  | cons b rest ih =>
    rw [List.map_cons, List.mapM_cons, bytesOfText_encode, ih]
    rfl

/-- Texts are read back as the items of a list. -/
theorem reads_texts {depth : Nat} (hdepth : depth ≠ 0) (members : List String) :
    Reads (Json.Reader.list depth Json.Reader.text) (Json.chars (.list (members.map .text)))
      members := by
  refine Json.reads_list hdepth ?_
  rw [List.forall₂_map_left_iff, List.forall₂_same]
  exact fun t _ => Json.reads_text t

/--
A value is read back with its tag, if what the tag is bound to is read back within one bracket less.
The reader for what is nested is given as such, since it is another one where no bracket is left.
-/
theorem reads_tagged {depth : Nat} {tag : Tag} {payload : Json} {w : WireValue}
    (hempty : w.findEmpty = none) (hd : (Json.object [(tag.name, payload)]).nesting ≤ depth)
    (h : ∀ depth nested, payload.nesting ≤ depth → (∀ d, depth = d + 1 → nested = read d) →
      Reads (readTagged depth nested tag) (':' :: payload.chars) w) :
    Reads (read depth) (Json.chars (.object [(tag.name, payload)])) w := by
  obtain ⟨depth, rfl, hpayload⟩ := Json.nesting_single_le_iff.mp hd
  intro rest
  have hchars : utf8 (Json.chars (.object [(tag.name, payload)])) ++ rest
      = 123 :: (utf8 (Json.escaped tag.name) ++ (utf8 (':' :: payload.chars) ++ 125 :: rest)) := by
    rw [Json.chars, Json.membersChars]
    simp
    rfl
  have hbody {nested : Json.Reader WireValue} (hn : ∀ d, depth = d + 1 → nested = read d) :
      readBody depth nested
        (utf8 (Json.escaped tag.name) ++ (utf8 (':' :: payload.chars) ++ 125 :: rest))
          = .ok (w, rest) := by
    simp only [readBody, Json.nextKey_first, bind, Except.bind, Tag.ofName?_name,
      h depth nested hpayload hn (125 :: rest), Json.nextKey_end, hempty]
  rw [hchars]
  cases depth with
  | zero => exact hbody fun d hd => absurd hd (by omega)
  | succ depth =>
    refine hbody fun d hd => ?_
    cases hd
    rfl

theorem itemsToJson_eq (items : List WireValue) : itemsToJson items = items.map toJson := by
  induction items with
  | nil => rfl
  | cons w rest ih => rw [itemsToJson, ih, List.map_cons]

theorem entriesToJson_eq (entries : List (String × WireValue)) :
    entriesToJson entries = entries.map fun e => (e.1, e.2.toJson) := by
  induction entries with
  | nil => rfl
  | cons e rest ih => rw [entriesToJson, ih, List.map_cons]

/-- A wire value is read back within as many brackets as its text has. -/
theorem reads_toJson {w : WireValue} (hf : w.Filled) : ∀ {depth : Nat}, w.toJson.nesting ≤ depth →
    Reads (read depth) w.toJson.chars w.sorted := by
  have hempty := findEmpty_eq_none_iff.mpr hf.sorted
  induction w using walk with
  | text t | number t =>
    intro depth hd
    refine reads_tagged hempty hd fun depth nested _ _ rest => ?_
    rw [readTagged, Json.chars, (Json.reads_text t).value]
    rfl
  | binary bytes =>
    intro depth hd
    refine reads_tagged hempty hd fun depth nested _ _ rest => ?_
    rw [readTagged, bytesJson, Json.chars, (Json.reads_text _).value]
    simp only [bind, Except.bind, bytesOfText_encode]
    rfl
  | bool flag | null flag =>
    intro depth hd
    refine reads_tagged hempty hd fun depth nested _ _ rest => ?_
    rw [readTagged, (Json.reads_bool flag).value]
    rfl
  | textSet members | numberSet members =>
    intro depth hd
    refine reads_tagged hempty hd fun depth nested hlist _ rest => ?_
    obtain ⟨depth, rfl, -⟩ := Json.nesting_list_le_iff.mp hlist
    rw [readTagged, (reads_texts (Nat.succ_ne_zero _) _).value]
    rfl
  | binarySet members =>
    intro depth hd
    refine reads_tagged hempty hd fun depth nested hlist _ rest => ?_
    obtain ⟨depth, rfl, -⟩ := Json.nesting_list_le_iff.mp hlist
    have hmembers : members.map bytesJson
        = (members.map fun b => String.ofList (Base64.encode b)).map .text := by
      rw [List.map_map]
      rfl
    rw [readTagged, hmembers, (reads_texts (Nat.succ_ne_zero _) _).value]
    simp only [bind, Except.bind, bytesOfText_encode_all]
    rfl
  | list items ih =>
    intro depth hd
    refine reads_tagged hempty hd fun depth nested hlist hnested rest => ?_
    obtain ⟨depth, rfl, hitems⟩ := Json.nesting_list_le_iff.mp hlist
    have hlist : Reads (Json.Reader.list (depth + 1) (read depth))
        (Json.chars (.list (itemsToJson items))) (sortedItems items) := by
      refine Json.reads_list (Nat.succ_ne_zero _) ?_
      rw [itemsToJson_eq, sortedItems_eq, List.forall₂_map_left_iff, List.forall₂_map_right_iff,
        List.forall₂_same]
      rw [itemsToJson_eq, List.forall_mem_map] at hitems
      intro w hw
      have hf := (filled_list_iff.mp hf).2 w hw
      exact ih w hw hf (findEmpty_eq_none_iff.mpr hf.sorted) (hitems w hw)
    rw [readTagged, hnested _ rfl, hlist.value]
    rfl
  | map entries ih =>
    intro depth hd
    refine reads_tagged hempty hd fun depth nested hmap hnested rest => ?_
    obtain ⟨depth, rfl, hentries⟩ := Json.nesting_object_le_iff.mp hmap
    have hmap : Reads (Json.Reader.map (depth + 1) (read depth))
        (Json.chars (.object (entriesToJson entries))) (sortedEntries entries) := by
      refine Json.reads_map (Nat.succ_ne_zero _) ?_
      rw [entriesToJson_eq, sortedEntries_eq, List.forall₂_map_left_iff, List.forall₂_map_right_iff,
        List.forall₂_same]
      rw [entriesToJson_eq, List.forall_mem_map] at hentries
      intro e he
      have hf := (filled_map_iff.mp hf).2 e he
      exact ⟨rfl, ih e he hf (findEmpty_eq_none_iff.mpr hf.sorted) (hentries e he)⟩
    rw [readTagged, hnested _ rfl, hmap.value]
    rfl

/-- What is written within the brackets of the reader is read back, with its maps put in order. -/
theorem ofJson_toJson_sorted {w : WireValue} (hf : w.Filled)
    (hd : w.toJson.nesting ≤ Json.maxDepth) :
    ofJson w.toJson.bytes = .ok w.sorted := by
  have hread := reads_toJson hf hd []
  rw [List.append_nil, ← Json.bytes_eq] at hread
  rw [ofJson, Json.readAll, hread]
  rfl

/-! ## Values that are written well -/

/-- Nothing in the value is empty, maps are in order, and it is read within `depth` brackets. -/
inductive Readable : (depth : Nat) → WireValue → Prop where
  | text {depth : Nat} (t : String) : Readable (depth + 1) (.text t)
  | number {depth : Nat} (t : String) : Readable (depth + 1) (.number t)
  | binary {depth : Nat} (bytes : Bytes) : Readable (depth + 1) (.binary bytes)
  | bool {depth : Nat} (flag : Bool) : Readable (depth + 1) (.bool flag)
  | null {depth : Nat} (flag : Bool) : Readable (depth + 1) (.null flag)
  | textSet {depth : Nat} {members : List String} (h : members ≠ []) :
    Readable (depth + 2) (.textSet members)
  | numberSet {depth : Nat} {members : List String} (h : members ≠ []) :
    Readable (depth + 2) (.numberSet members)
  | binarySet {depth : Nat} {members : List Bytes} (h : members ≠ []) :
    Readable (depth + 2) (.binarySet members)
  | list {depth : Nat} {items : List WireValue} (h : items ≠ [])
    (hitems : ∀ w ∈ items, Readable depth w) : Readable (depth + 2) (.list items)
  | map {depth : Nat} {entries : List (String × WireValue)} (h : entries ≠ [])
    (horder : Keyed.Ordered entries) (hentries : ∀ e ∈ entries, Readable depth e.2) :
    Readable (depth + 2) (.map entries)

namespace Readable

variable {depth : Nat} {w : WireValue}

theorem filled (h : Readable depth w) : w.Filled := by
  induction h with
  | text | number | binary | bool | null => exact findEmpty_eq_none_iff.mp rfl
  | textSet h | numberSet h | binarySet h =>
    exact findEmpty_eq_none_iff.mp (if_neg (by simpa using h))
  | list h _ ih => exact filled_list_iff.mpr ⟨h, ih⟩
  | map h _ _ ih => exact filled_map_iff.mpr ⟨h, ih⟩

theorem inOrder (h : Readable depth w) : w.InOrder := by
  induction h with
  | text | number | binary | bool | null | textSet | numberSet | binarySet =>
    intro part hp
    cases hp
    trivial
  | list _ _ ih => exact inOrder_list_iff.mpr ih
  | map _ ho _ ih => exact inOrder_map_iff.mpr ⟨ho, ih⟩

theorem nesting_le (h : Readable depth w) : w.toJson.nesting ≤ depth := by
  induction h with
  | text | number | binary | bool | null =>
    exact Json.nesting_single_le_iff.mpr ⟨_, rfl, Nat.zero_le _⟩
  | textSet | numberSet | binarySet =>
    refine Json.nesting_single_le_iff.mpr ⟨_, rfl, Json.nesting_list_le_iff.mpr ⟨_, rfl, ?_⟩⟩
    exact List.forall_mem_map.mpr fun _ _ => Nat.zero_le _
  | list _ _ ih =>
    refine Json.nesting_single_le_iff.mpr ⟨_, rfl, Json.nesting_list_le_iff.mpr ⟨_, rfl, ?_⟩⟩
    rw [itemsToJson_eq]
    exact List.forall_mem_map.mpr ih
  | map _ _ _ ih =>
    refine Json.nesting_single_le_iff.mpr ⟨_, rfl, Json.nesting_object_le_iff.mpr ⟨_, rfl, ?_⟩⟩
    rw [entriesToJson_eq]
    exact List.forall_mem_map.mpr ih

end Readable

/-- **A wire value is read back from its JSON form.** -/
theorem ofJson_toJson {w : WireValue} (h : Readable Json.maxDepth w) :
    ofJson w.toJson.bytes = .ok w := by
  rw [ofJson_toJson_sorted h.filled h.nesting_le, h.inOrder.sorted_eq]

end WireValue

end Clauses
