import Clauses.ClauseKind
import Clauses.Keyed
import Clauses.Wire.Json

/-!
# Requests

What a compiler has made of all clauses of a request: an expression for each slot that has one, and
the placeholders of all of them with what they are bound to.

* `Request.toJson` — writes a request; slots and tables that are empty are left out
* `Request.ofJson` — reads a request
-/

namespace Clauses

/-- The expressions of a request, by their slots. -/
abbrev Slots := ClauseKind → Option String

namespace Slots

/-- No expressions. -/
def none : Slots := fun _ => .none

/-- Puts an expression into a slot. -/
def set (slots : Slots) (kind : ClauseKind) (expression : String) : Slots :=
  fun k => if k = kind then some expression else slots k

end Slots

/-- A finished request. -/
structure Request where
  expressions : Slots
  names : Keyed String
  values : Keyed WireValue

namespace Request

/-- The name of the table of names. -/
def namesField : String := "ExpressionAttributeNames"

/-- The name of the table of values. -/
def valuesField : String := "ExpressionAttributeValues"

/-! ## Writing -/

/-- A table, if it has entries. -/
def tableMember (field : String) (entries : List (String × Json)) : List (String × Json) :=
  if entries.isEmpty then [] else [(field, .object entries)]

/-- The JSON form of a request. -/
def toJson (r : Request) : Json :=
  .object (ClauseKind.all.filterMap (fun k => (r.expressions k).map fun e => (k.field, .text e)) ++
    tableMember namesField (r.names.map fun (k, a) => (k, .text a)) ++
    tableMember valuesField (r.values.map fun (k, w) => (k, w.toJson)))

/-! ## Reading -/

/-- The fields of a request that have been read. -/
structure Gathered where
  expressions : ClauseKind → Option (Option String)
  names : Option (List (String × String))
  values : Option (List (String × WireValue))

/-- The field of a slot. -/
def slotField (kind : ClauseKind) : Json.Field Gathered :=
  .of kind.field false (·.expressions kind)
    (fun g e => { g with expressions := fun k => if k = kind then some e else g.expressions k })
    fun _ => Json.Reader.optional Json.Reader.text

/-- How a request is read. -/
def shape : Json.Shape Gathered Request where
  name := "CompiledRequest"
  fields := ClauseKind.all.map slotField ++ [
    .of namesField true (·.names) (fun g t => { g with names := some t })
      fun depth => Json.Reader.map depth Json.Reader.text,
    .of valuesField true (·.values) (fun g t => { g with values := some t })
      fun depth => Json.Reader.map depth (WireValue.read (depth - 1))]
  empty := ⟨fun _ => none, none, none⟩
  finish := fun g => .ok
    { expressions := fun k => (g.expressions k).join
      names := Keyed.ofList (g.names.getD [])
      values := Keyed.ofList (g.values.getD []) }

/-- Reads a text that holds one request. -/
def ofJson (bytes : Bytes) : Except Json.Fault Request :=
  Json.readAll (shape.read Json.maxDepth) bytes

end Request

end Clauses
