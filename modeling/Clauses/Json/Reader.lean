import Clauses.Json.Skip

/-!
# Reading JSON texts

A reader takes one value of its type off the front of a text, or names the first fault. The readers
of records and wire values are put together from the ones here.

* A reader of lists and objects takes the number of brackets that may still be opened; a text
  starts with `maxDepth` of them.
* A record is read from an object of its fields or from a list of them in order. Keys it does not
  know are passed over.
* Where a map has one key twice, the later value stays.

## Termination

Loops over items and members go on as long as each step leaves less of the text.
-/

namespace Clauses.Json

/-- Takes a value off the front of a text. -/
abbrev Reader (α : Type) := Bytes → Except Fault (α × Bytes)

/-- How deep lists and objects may nest. -/
def maxDepth : Nat := 127

namespace Reader

/-! ## Values of another type -/

/-- What stands at the front of the text, as far as a message names it. -/
def readFound : Reader Found
  | [] => .error .expectedValue
  | b :: rest =>
    match wordTail? b with
    | some word => (expectWord word rest).map fun rest =>
      (if b == 110 then .null else .bool (b == 116), rest)
    | none =>
      if b == 45 then nameNumber false rest
      else if isDigit b then nameNumber true (b :: rest)
      else if b == 34 then (readText rest).map fun (t, rest) => (.text t, rest)
      else if b == 91 then .ok (.list, rest)
      else if b == 123 then .ok (.object, rest)
      else .error .expectedValue

/-- The fault of a value of another type than `expected`. -/
def otherType (expected : String) (s : Bytes) : Fault :=
  match readFound s with
  | .error e => e
  | .ok (found, _) => .data (.invalidType found expected)

/-! ## Texts and truth values -/

/-- Reads a text. -/
def text : Reader String := fun s =>
  match dropBlanks s with
  | [] => .error .endOfValue
  | b :: rest => if b == 34 then readText rest else .error (otherType "a string" (b :: rest))

/-- Reads a truth value. -/
def bool : Reader Bool := fun s =>
  match dropBlanks s with
  | [] => .error .endOfValue
  | b :: rest =>
    match wordTail? b with
    | some word =>
      if b == 110 then .error (otherType "a boolean" (b :: rest))
      else (expectWord word rest).map fun rest => (b == 116, rest)
    | none => .error (otherType "a boolean" (b :: rest))

/-- Reads a value or `null`. -/
def optional {α : Type} (value : Reader α) : Reader (Option α) := fun s =>
  match dropBlanks s with
  | 110 :: rest => (expectWord [117, 108, 108] rest).map fun rest => (none, rest)
  | s => (value s).map fun (v, rest) => (some v, rest)

/-! ## Lists -/

/-- Goes to the next item of a list, or to behind its end. -/
def nextItem (first : Bool) (s : Bytes) : Except Fault (Option Bytes) :=
  match dropBlanks s with
  | [] => .error .endOfList
  | b :: rest =>
    if b == 93 then .ok none
    else if first then .ok (some (b :: rest))
    else if b == 44 then
      match dropBlanks rest with
      | [] => .error .endOfValue
      | b :: rest => if b == 93 then .error .trailingComma else .ok (some (b :: rest))
    else .error .expectedListEnd

/-- Goes behind the end of a list of which no more items are read. -/
def closeList (s : Bytes) : Except Fault Bytes :=
  match dropBlanks s with
  | [] => .error .endOfList
  | b :: rest =>
    if b == 93 then .ok rest
    else if b == 44 then
      match dropBlanks rest with
      | 93 :: _ => .error .trailingComma
      | _ => .error .trailingCharacters
    else .error .trailingCharacters

/-- Reads the items of a list whose bracket has been read, up to the end of the list. -/
def items {α : Type} (item : Reader α) (first : Bool) (s : Bytes) : Except Fault (List α × Bytes) :=
  match nextItem first s with
  | .error e => .error e
  | .ok none => (closeList s).map fun rest => ([], rest)
  | .ok (some front) =>
    match item front with
    | .error e => .error e
    | .ok (v, rest) =>
      if rest.length < s.length then
        match items item false rest with
        | .error e => .error e
        | .ok (vs, rest) => .ok (v :: vs, rest)
      else .error .expectedValue
termination_by s.length

/-- Reads a list. -/
def list {α : Type} (depth : Nat) (item : Reader α) : Reader (List α) := fun s =>
  match dropBlanks s with
  | [] => .error .endOfValue
  | b :: rest =>
    if b == 91 then
      if depth = 0 then .error .recursionLimit else items item true rest
    else .error (otherType "a sequence" (b :: rest))

/-! ## Objects -/

/-- Goes to the next key of an object and reads it, or goes to behind the end of the object. -/
def nextKey (first : Bool) (s : Bytes) : Except Fault (Option String × Bytes) :=
  match dropBlanks s with
  | [] => .error .endOfObject
  | b :: rest =>
    if b == 125 then .ok (none, rest)
    else if first then
      if b == 34 then (readText rest).map fun (k, rest) => (some k, rest)
      else .error .keyMustBeText
    else if b == 44 then
      match dropBlanks rest with
      | [] => .error .endOfValue
      | b :: rest =>
        if b == 34 then (readText rest).map fun (k, rest) => (some k, rest)
        else if b == 125 then .error .trailingComma
        else .error .keyMustBeText
    else .error .expectedObjectEnd

/-- Reads the colon behind a key. -/
def colon (s : Bytes) : Except Fault Bytes :=
  match dropBlanks s with
  | [] => .error .endOfObject
  | b :: rest => if b == 58 then .ok rest else .error .expectedColon

/--
Reads the members of an object whose brace has been read, up to the end of the object. `member`
reads what stands behind a key and adds it to what has been gathered.
-/
def members {σ : Type} (member : String → σ → Reader σ) (first : Bool) (gathered : σ) (s : Bytes) :
    Except Fault (σ × Bytes) :=
  match nextKey first s with
  | .error e => .error e
  | .ok (none, rest) => .ok (gathered, rest)
  | .ok (some k, rest) =>
    match member k gathered rest with
    | .error e => .error e
    | .ok (gathered, rest) =>
      if rest.length < s.length then members member false gathered rest
      else .error .expectedValue
termination_by s.length

/-- Reads the value behind a key. -/
def value {α : Type} (v : Reader α) : Reader α := fun s =>
  match colon s with
  | .error e => .error e
  | .ok rest => v rest

/-- Reads an object as the pairs of its keys and values. -/
def map {α : Type} (depth : Nat) (v : Reader α) : Reader (List (String × α)) := fun s =>
  match dropBlanks s with
  | [] => .error .endOfValue
  | b :: rest =>
    if b == 123 then
      if depth = 0 then .error .recursionLimit
      else
        (members (fun k entries s => (value v s).map fun (a, rest) => ((k, a) :: entries, rest))
          true [] rest).map fun (entries, rest) => (entries.reverse, rest)
    else .error (otherType "a map" (b :: rest))

end Reader

/-! ## Records -/

/-- One field of a record that is gathered in a `σ`. -/
structure Field (σ : Type) where
  key : String
  /-- The field has been read. -/
  isSet : σ → Bool
  /-- Reads the field; takes the number of brackets that may be opened. -/
  read : Nat → σ → Reader σ
  /-- A list of fields may end before this one. -/
  mayEnd : Bool

/-- The field that `reader` reads and `set` keeps where `get` finds it. -/
def Field.of {σ β : Type} (key : String) (mayEnd : Bool) (get : σ → Option β) (set : σ → β → σ)
    (reader : Nat → Reader β) : Field σ where
  key := key
  isSet := fun gathered => (get gathered).isSome
  read := fun depth gathered s =>
    (reader depth s).map fun (v, rest) => (set gathered v, rest)
  mayEnd := mayEnd

/-- A record of type `α`, gathered in a `σ`. -/
structure Shape (σ α : Type) where
  /-- The name of the record in messages. -/
  name : String
  fields : List (Field σ)
  empty : σ
  /-- The record, or the name of a field that is missing. -/
  finish : σ → Except String α

variable {σ α : Type}

/-- Reads the value of a key of a record. -/
def Shape.member (shape : Shape σ α) (depth : Nat) (k : String) (gathered : σ) : Reader σ :=
  fun s =>
    match shape.fields.find? fun f => f.key == k with
    | none => Reader.value (fun s => (skipValue s).map fun rest => (gathered, rest)) s
    | some field =>
      if field.isSet gathered then .error (.data (.duplicateField k))
      else Reader.value (field.read depth gathered) s

/-- Reads the fields of a record from a list whose bracket has been read. -/
def Shape.inOrder (shape : Shape σ α) (depth : Nat) :
    (fields : List (Field σ)) → (index : Nat) → σ → Reader σ
  | [], _, gathered, s => .ok (gathered, s)
  | field :: fields, index, gathered, s =>
    match Reader.nextItem (index == 0) s with
    | .error e => .error e
    | .ok none =>
      if field.mayEnd then inOrder shape depth fields (index + 1) gathered s
      else .error (.data (.invalidLength index
        s!"struct {shape.name} with {shape.fields.length} elements"))
    | .ok (some front) =>
      match field.read depth gathered front with
      | .error e => .error e
      | .ok (gathered, rest) => inOrder shape depth fields (index + 1) gathered rest

/-- The record of what was gathered. -/
def Shape.close (shape : Shape σ α) (gathered : σ) (rest : Bytes) : Except Fault (α × Bytes) :=
  match shape.finish gathered with
  | .error key => .error (.data (.missingField key))
  | .ok a => .ok (a, rest)

/-- Reads a record. -/
def Shape.read (shape : Shape σ α) (depth : Nat) : Reader α := fun s =>
  match dropBlanks s with
  | [] => .error .endOfValue
  | b :: rest =>
    if b == 91 then
      if depth = 0 then .error .recursionLimit
      else do
        let (gathered, rest) ← shape.inOrder (depth - 1) shape.fields 0 shape.empty rest
        let rest ← Reader.closeList rest
        shape.close gathered rest
    else if b == 123 then
      if depth = 0 then .error .recursionLimit
      else do
        let (gathered, rest) ← Reader.members (shape.member (depth - 1)) true shape.empty rest
        shape.close gathered rest
    else .error (Reader.otherType s!"struct {shape.name}" (b :: rest))

/-! ## Whole texts -/

/-- Reads a text that holds one value and nothing behind it. -/
def readAll (v : Reader α) (s : Bytes) : Except Fault α :=
  match v s with
  | .error e => .error e
  | .ok (a, rest) => if (dropBlanks rest).isEmpty then .ok a else .error .trailingCharacters

end Clauses.Json
