import Clauses.Wire.Value
import Clauses.Json.Basic
import Clauses.Json.Reader

/-!
# The JSON form of wire values

A wire value is an object with one key, the tag of its type. Bytes are written in base64.

* `WireValue.toJson` — writes a value
* `WireValue.read` — reads one and refuses empty collections at any depth

The faults of a value come in the order of its text: its tag, what the tag is bound to, a second
key, and at last an empty collection anywhere inside. Values inside a value are read, and refused,
before the value around them.
-/

namespace Clauses.WireValue

/-! ## Writing -/

/-- Bytes in base64. -/
def bytesJson (bytes : Bytes) : Json := .text (String.ofList (Base64.encode bytes))

mutual

/-- The JSON form of a value. -/
def toJson : WireValue → Json
  | .text t => .object [(Tag.text.name, .text t)]
  | .number t => .object [(Tag.number.name, .text t)]
  | .binary bytes => .object [(Tag.binary.name, bytesJson bytes)]
  | .textSet members => .object [(Tag.textSet.name, .list (members.map .text))]
  | .numberSet members => .object [(Tag.numberSet.name, .list (members.map .text))]
  | .binarySet members => .object [(Tag.binarySet.name, .list (members.map bytesJson))]
  | .bool flag => .object [(Tag.bool.name, .bool flag)]
  | .null flag => .object [(Tag.null.name, .bool flag)]
  | .list items => .object [(Tag.list.name, .list (itemsToJson items))]
  | .map entries => .object [(Tag.map.name, .object (entriesToJson entries))]

/-- The JSON forms of the items of a list. -/
def itemsToJson : List WireValue → List Json
  | [] => []
  | v :: rest => toJson v :: itemsToJson rest

/-- The JSON forms of the entries of a map. -/
def entriesToJson : List (String × WireValue) → List (String × Json)
  | [] => []
  | (k, v) :: rest => (k, toJson v) :: entriesToJson rest

end

/-! ## Reading -/

/-- What messages call a wire value. -/
def expectedForm : String := "a single-key object tagged with a DynamoDB type"

/-- The bytes of a base64 text. -/
def bytesOfText (t : String) : Except Json.Fault Bytes :=
  match Base64.decode (Text.toBytes t) with
  | .ok bytes => .ok bytes
  | .error fault => .error (.data (.base64 fault))

/-- Reads what a tag is bound to, where `nested` reads the values inside. -/
def readTagged (depth : Nat) (nested : Json.Reader WireValue) (tag : Tag) :
    Json.Reader WireValue := fun s => do
  match tag with
  | .text =>
    let (t, rest) ← Json.Reader.value Json.Reader.text s
    return (.text t, rest)
  | .number =>
    let (t, rest) ← Json.Reader.value Json.Reader.text s
    return (.number t, rest)
  | .binary =>
    let (t, rest) ← Json.Reader.value Json.Reader.text s
    return (.binary (← bytesOfText t), rest)
  | .textSet =>
    let (members, rest) ← Json.Reader.value (Json.Reader.list depth Json.Reader.text) s
    return (.textSet members, rest)
  | .numberSet =>
    let (members, rest) ← Json.Reader.value (Json.Reader.list depth Json.Reader.text) s
    return (.numberSet members, rest)
  | .binarySet =>
    let (members, rest) ← Json.Reader.value (Json.Reader.list depth Json.Reader.text) s
    return (.binarySet (← members.mapM bytesOfText), rest)
  | .bool =>
    let (flag, rest) ← Json.Reader.value Json.Reader.bool s
    return (.bool flag, rest)
  | .null =>
    let (flag, rest) ← Json.Reader.value Json.Reader.bool s
    return (.null flag, rest)
  | .list =>
    let (items, rest) ← Json.Reader.value (Json.Reader.list depth nested) s
    return (.list items, rest)
  | .map =>
    let (entries, rest) ← Json.Reader.value (Json.Reader.map depth nested) s
    return (.map (Keyed.ofList entries), rest)

/-- Reads a value whose brace has been read. -/
def readBody (depth : Nat) (nested : Json.Reader WireValue) : Json.Reader WireValue := fun s => do
  match ← Json.Reader.nextKey true s with
  | (none, _) => .error (.data (.invalidLength 0 expectedForm))
  | (some name, rest) =>
    match Tag.ofName? name with
    | none => .error (.data (.unknownField name (Tag.all.map Tag.name)))
    | some tag =>
      let (v, rest) ← readTagged depth nested tag rest
      match ← Json.Reader.nextKey false rest with
      | (some _, _) => .error (.data (.secondTag name))
      | (none, rest) =>
        match v.findEmpty with
        | some e => .error (.data (.emptyCollection e.tag.name e.path))
        | none => .ok (v, rest)

/-- Goes behind the brace that a value starts with. -/
def openBrace (s : Bytes) : Except Json.Fault Bytes :=
  match Json.dropBlanks s with
  | [] => .error .endOfValue
  | b :: rest => if b == 123 then .ok rest
    else .error (Json.Reader.otherType expectedForm (b :: rest))

/-- Reads a wire value in which `depth` brackets may be opened. -/
def read : (depth : Nat) → Json.Reader WireValue
  | 0, s => do
    let _ ← openBrace s
    .error .recursionLimit
  | 1, s => do
    let rest ← openBrace s
    readBody 0 (fun _ => .error .recursionLimit) rest
  | depth + 2, s => do
    let rest ← openBrace s
    readBody (depth + 1) (read depth) rest

/-- Reads a text that holds one wire value. -/
def ofJson (bytes : Bytes) : Except Json.Fault WireValue :=
  Json.readAll (read Json.maxDepth) bytes

end Clauses.WireValue
