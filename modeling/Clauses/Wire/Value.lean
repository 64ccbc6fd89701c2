import Clauses.Base64
import Clauses.Keyed

/-!
# Wire values

An attribute as it is stored: ten types, told apart by a tag. Numbers are texts. Sets, lists and
maps are never empty on the wire; a value that is put together by hand may break that rule, and
`findEmpty` tells where.

* `WireValue.findEmpty` — the first empty collection, on the way from the outside to the inside,
  items in order and map entries in the order of their keys
* `WireValue.checked` — the value, unless it is itself an empty collection
* `WireValue.isEqual_iff` — whether two values are the same is decided part by part
-/

namespace Clauses

/-- The tag of a wire type. -/
inductive Tag where
  | text | number | binary | textSet | numberSet | binarySet | bool | null | list | map
deriving DecidableEq, Repr

namespace Tag

/-- The tags in the order in which messages list them. -/
def all : List Tag :=
  [.text, .number, .binary, .textSet, .numberSet, .binarySet, .bool, .null, .list, .map]

theorem mem_all (t : Tag) : t ∈ all := by cases t <;> decide

/-- The tag as it is written. -/
def name : Tag → String
  | .text => "S"
  | .number => "N"
  | .binary => "B"
  | .textSet => "SS"
  | .numberSet => "NS"
  | .binarySet => "BS"
  | .bool => "BOOL"
  | .null => "NULL"
  | .list => "L"
  | .map => "M"

/-- The tag that is written so. -/
def ofName? (name : String) : Option Tag := all.find? fun t => t.name == name

theorem ofName?_name (t : Tag) : ofName? t.name = some t := by cases t <;> decide

end Tag

/--
A wire value. A map as such has no order; its entries are listed by their keys, or, where somebody
goes through it, as they come.
-/
inductive WireValue where
  | text (t : String)
  | number (t : String)
  | binary (bytes : Bytes)
  | textSet (members : List String)
  | numberSet (members : List String)
  | binarySet (members : List Bytes)
  | bool (flag : Bool)
  | null (flag : Bool)
  | list (items : List WireValue)
  | map (entries : List (String × WireValue))

/-- Where an empty collection is, and of which type. -/
structure EmptyCollection where
  /-- Indices as `[i]` and keys as `.key`, from the value that was searched. -/
  path : String
  tag : Tag
deriving DecidableEq

/-- The place seen from outside: one more step in front of the path. -/
def EmptyCollection.under (step : String) (e : EmptyCollection) : EmptyCollection :=
  { e with path := step ++ e.path }

namespace WireValue

/-- The tag of the type of a value. -/
def tag : WireValue → Tag
  | .text _ => .text
  | .number _ => .number
  | .binary _ => .binary
  | .textSet _ => .textSet
  | .numberSet _ => .numberSet
  | .binarySet _ => .binarySet
  | .bool _ => .bool
  | .null _ => .null
  | .list _ => .list
  | .map _ => .map

/-! ## Equality -/

mutual

/-- The values are the same. -/
def isEqual : WireValue → WireValue → Bool
  | .text t, .text t' | .number t, .number t' => t == t'
  | .binary bytes, .binary bytes' => bytes == bytes'
  | .textSet members, .textSet members' | .numberSet members, .numberSet members' =>
    members == members'
  | .binarySet members, .binarySet members' => members == members'
  | .bool flag, .bool flag' | .null flag, .null flag' => flag == flag'
  | .list items, .list items' => itemsEqual items items'
  | .map entries, .map entries' => entriesEqual entries entries'
  | _, _ => false

/-- The items are the same. -/
def itemsEqual : List WireValue → List WireValue → Bool
  | [], [] => true
  | v :: rest, v' :: rest' => isEqual v v' && itemsEqual rest rest'
  | _, _ => false

/-- The entries are the same. -/
def entriesEqual : List (String × WireValue) → List (String × WireValue) → Bool
  | [], [] => true
  | (k, v) :: rest, (k', v') :: rest' => k == k' && isEqual v v' && entriesEqual rest rest'
  | _, _ => false

end

mutual

theorem isEqual_iff : ∀ v v' : WireValue, isEqual v v' = true ↔ v = v'
  | .list items, v' => by cases v' <;> simp [isEqual, itemsEqual_iff items]
  | .map entries, v' => by cases v' <;> simp [isEqual, entriesEqual_iff entries]
  | .text _, v' | .number _, v' | .binary _, v' | .textSet _, v' | .numberSet _, v'
  | .binarySet _, v' | .bool _, v' | .null _, v' => by cases v' <;> simp [isEqual]

theorem itemsEqual_iff : ∀ items items' : List WireValue,
    itemsEqual items items' = true ↔ items = items'
  | [], items' => by cases items' <;> simp [itemsEqual]
  | v :: rest, items' => by
    cases items' <;> simp [itemsEqual, isEqual_iff v, itemsEqual_iff rest]

theorem entriesEqual_iff : ∀ entries entries' : List (String × WireValue),
    entriesEqual entries entries' = true ↔ entries = entries'
  | [], entries' => by cases entries' <;> simp [entriesEqual]
  | (k, v) :: rest, entries' => by
    cases entries' <;>
      simp [entriesEqual, isEqual_iff v, entriesEqual_iff rest, Prod.ext_iff]

end

instance : DecidableEq WireValue := fun v v' => decidable_of_iff _ (isEqual_iff v v')

/-- The value stands for nothing: a `NULL` whose flag is set. -/
def isNull : WireValue → Bool
  | .null flag => flag
  | _ => false

/-- The bytes of a binary value. -/
def bytes? : WireValue → Option Bytes
  | .binary bytes => some bytes
  | _ => none

/-- The value is a collection without members. -/
def isEmptyCollection : WireValue → Bool
  | .textSet members | .numberSet members => members.isEmpty
  | .binarySet members => members.isEmpty
  | .list items => items.isEmpty
  | .map entries => entries.isEmpty
  | _ => false

/-! ## Empty collections -/

/-- The step to an item of a list. -/
def indexStep (i : Nat) : String := "[" ++ String.ofList (Nat.toDigits 10 i) ++ "]"

/-- The step to an entry of a map. -/
def keyStep (k : String) : String := "." ++ k

mutual

/-- The first empty collection in a value. -/
def findEmpty : WireValue → Option EmptyCollection
  | .textSet members => if members.isEmpty then some ⟨"", .textSet⟩ else none
  | .numberSet members => if members.isEmpty then some ⟨"", .numberSet⟩ else none
  | .binarySet members => if members.isEmpty then some ⟨"", .binarySet⟩ else none
  | .list items => if items.isEmpty then some ⟨"", .list⟩ else findEmptyItem 0 items
  | .map entries => if entries.isEmpty then some ⟨"", .map⟩ else findEmptyEntry entries
  | _ => none

/-- The first empty collection in the items from index `i` on. -/
def findEmptyItem (i : Nat) : List WireValue → Option EmptyCollection
  | [] => none
  | v :: rest =>
    match findEmpty v with
    | some e => some (e.under (indexStep i))
    | none => findEmptyItem (i + 1) rest

/-- The first empty collection in the entries. -/
def findEmptyEntry : List (String × WireValue) → Option EmptyCollection
  | [] => none
  | (k, v) :: rest =>
    match findEmpty v with
    | some e => some (e.under (keyStep k))
    | none => findEmptyEntry rest

end

/-- The value itself, unless it is an empty collection. -/
def checked (v : WireValue) : Except EmptyCollection WireValue :=
  if v.isEmptyCollection then .error ⟨"", v.tag⟩ else .ok v

end WireValue

end Clauses
