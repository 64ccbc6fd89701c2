import Clauses.Json.Basic
import Clauses.Json.Reader

/-!
# Kinds of clauses

A request has a slot for each of five kinds of clauses. In three of them clauses gather, joined by
`AND`; an update and a projection stand alone.
-/

namespace Clauses

/-- The slot of a request that a clause goes into. -/
inductive ClauseKind where
  | keyCondition | filter | condition | update | projection
deriving DecidableEq, Repr

namespace ClauseKind

/-- The kinds in the order of the slots. -/
def all : List ClauseKind := [.keyCondition, .filter, .condition, .update, .projection]

theorem mem_all (k : ClauseKind) : k ∈ all := by cases k <;> decide

/-- The kind as it is written. -/
def name : ClauseKind → String
  | .keyCondition => "KeyCondition"
  | .filter => "Filter"
  | .condition => "Condition"
  | .update => "Update"
  | .projection => "Projection"

/-- The name of the slot in a request. -/
def field (k : ClauseKind) : String := k.name ++ "Expression"

/-- Clauses of this kind can be joined by `AND`. -/
def isConjunctive : ClauseKind → Bool
  | .keyCondition | .filter | .condition => true
  | .update | .projection => false

/-- The kind that is written so. -/
def ofName? (name : String) : Option ClauseKind := all.find? fun k => k.name == name

theorem ofName?_name (k : ClauseKind) : ofName? k.name = some k := by cases k <;> decide

/-! ## JSON -/

/-- The JSON form of a kind. -/
def toJson (k : ClauseKind) : Json := .text k.name

/-- Reads the name of a kind, whose opening quote has been read. -/
def readName : Json.Reader ClauseKind := fun s =>
  match Json.readText s with
  | .error e => .error e
  | .ok (name, rest) =>
    match ofName? name with
    | some k => .ok (k, rest)
    | none => .error (.data (.unknownVariant name (all.map ClauseKind.name)))

/-- Reads the `null` that a kind may be bound to. -/
def readNothing (s : Bytes) : Except Json.Fault Bytes :=
  match Json.dropBlanks s with
  | [] => .error .endOfValue
  | 110 :: rest => Json.expectWord [117, 108, 108] rest
  | s => .error (Json.Reader.otherType "unit" s)

/-- Reads an object that binds the name of a kind to `null`, whose brace has been read. -/
def readBound : Json.Reader ClauseKind := fun s =>
  match Json.dropBlanks s with
  | [] => .error .endOfObject
  | b :: rest =>
    if b == 34 then do
      let (k, rest) ← readName rest
      let rest ← readNothing (← Json.Reader.colon rest)
      match Json.dropBlanks rest with
      | [] => .error .endOfObject
      | b :: rest => if b == 125 then .ok (k, rest) else .error .expectedValue
    else .error .keyMustBeText

/-- Reads a kind: its name, or an object that binds its name to `null`. -/
def read : Json.Reader ClauseKind := fun s =>
  match Json.dropBlanks s with
  | [] => .error .endOfValue
  | b :: rest =>
    if b == 34 then readName rest
    else if b == 123 then readBound rest
    else .error .expectedValue

/-- Reads a text that holds one kind. -/
def ofJson (bytes : Bytes) : Except Json.Fault ClauseKind := Json.readAll read bytes

end ClauseKind

end Clauses
