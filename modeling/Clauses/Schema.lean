import Clauses.Error
import Clauses.Json.Basic
import Clauses.Json.Reader
import Clauses.Keyed

/-!
# Schemas

A schema says how the properties of an entity are stored: under which attribute, in which format,
and sealed by which hook.

* `Schema.resolve` — the property with a name, or the error that there is none
* `Schema.ofWireName?` — the property that is stored under an attribute
* `Schema.ofJson` — reads a schema
-/

namespace Clauses

/-! ## Properties -/

/-- A property of an entity and the way its values are stored. -/
structure Property where
  /-- The name that callers use. -/
  name : String
  /-- The name of the attribute on the wire. -/
  wireName : String
  /-- The format of numbers, dates and instants. -/
  format : Option String
  /-- The hook that seals the values. -/
  hook : Option String
deriving DecidableEq

namespace Property

/-- The property that is stored under its own name, as it is. -/
def plain (name : String) : Property := ⟨name, name, none, none⟩

/-- The property in another format. -/
def withFormat (p : Property) (format : String) : Property := { p with format := some format }

/-- The values of the property as they are, in no format and not sealed. -/
def bare (p : Property) : Property := plain p.wireName

/-- A member of an object, if there is a text for it. -/
def optionalMember (key : String) : Option String → List (String × Json)
  | none => []
  | some t => [(key, .text t)]

/-- The JSON form of a property. -/
def toJson (p : Property) : Json :=
  .object ([("name", .text p.name), ("attributeName", .text p.wireName)] ++
    optionalMember "format" p.format ++ optionalMember "valueTransform" p.hook)

/-- The fields of a property that have been read. -/
structure Gathered where
  name : Option String := none
  wireName : Option String := none
  format : Option (Option String) := none
  hook : Option (Option String) := none

/-- How a property is read. -/
def shape : Json.Shape Gathered Property where
  name := "PropertyDescriptor"
  fields := [
    .of "name" false (·.name) (fun g t => { g with name := some t }) fun _ => Json.Reader.text,
    .of "attributeName" false (·.wireName) (fun g t => { g with wireName := some t })
      fun _ => Json.Reader.text,
    .of "format" true (·.format) (fun g t => { g with format := some t })
      fun _ => Json.Reader.optional Json.Reader.text,
    .of "valueTransform" true (·.hook) (fun g t => { g with hook := some t })
      fun _ => Json.Reader.optional Json.Reader.text]
  empty := {}
  finish := fun g =>
    match g.name, g.wireName with
    | none, _ => .error "name"
    | _, none => .error "attributeName"
    | some name, some wireName => .ok ⟨name, wireName, g.format.join, g.hook.join⟩

/-- Reads a text that holds one property. -/
def ofJson (bytes : Bytes) : Except Json.Fault Property :=
  Json.readAll (shape.read Json.maxDepth) bytes

end Property

/-! ## Schemas -/

/-- The properties of an entity, by the names that callers use. -/
structure Schema where
  entity : String
  properties : Keyed Property

namespace Schema

/-- Adds a property, in the place of one of the same name. -/
def insert (schema : Schema) (p : Property) : Schema :=
  { schema with properties := schema.properties.insert p.name p }

/-- The schema of these properties; of two with one name the later stays. -/
def ofList (entity : String) (properties : List Property) : Schema :=
  properties.foldl insert ⟨entity, []⟩

/-- The property that callers call so. -/
def resolve (schema : Schema) (property : String) : Except ClauseError Property :=
  match schema.properties.find? property with
  | some p => .ok p
  | none => .error (.unknownProperty schema.entity property)

/--
The property that is stored under an attribute. If several are, it is the first one by the
names of the properties; which one it is should not be relied on, as a table of properties
may be kept in any order.
-/
def ofWireName? (schema : Schema) (wireName : String) : Option Property :=
  (schema.properties.map Prod.snd).find? fun p => p.wireName == wireName

/-- The number of properties. -/
def size (schema : Schema) : Nat := schema.properties.length

/-- There are no properties. -/
def isEmpty (schema : Schema) : Bool := schema.properties.isEmpty

/-- The JSON form of a schema. -/
def toJson (schema : Schema) : Json :=
  .object [("entity", .text schema.entity),
    ("properties", .object (schema.properties.map fun (k, p) => (k, p.toJson)))]

/-- The fields of a schema that have been read. -/
structure Gathered where
  entity : Option String := none
  properties : Option (List (String × Property)) := none

/-- How a schema is read. -/
def shape : Json.Shape Gathered Schema where
  name := "EntitySchema"
  fields := [
    .of "entity" false (·.entity) (fun g t => { g with entity := some t })
      fun _ => Json.Reader.text,
    .of "properties" false (·.properties) (fun g ps => { g with properties := some ps })
      fun depth => Json.Reader.map depth (Property.shape.read (depth - 1))]
  empty := {}
  finish := fun g =>
    match g.entity, g.properties with
    | none, _ => .error "entity"
    | _, none => .error "properties"
    | some entity, some properties => .ok ⟨entity, Keyed.ofList properties⟩

/-- Reads a text that holds one schema. -/
def ofJson (bytes : Bytes) : Except Json.Fault Schema :=
  Json.readAll (shape.read Json.maxDepth) bytes

end Schema

/-! ## Registries -/

/-- Schemas by the names of their entities. -/
structure SchemaRegistry where
  schemas : Keyed Schema

namespace SchemaRegistry

/-- The registry without schemas. -/
def empty : SchemaRegistry := ⟨[]⟩

/-- Adds a schema, in the place of one of the same entity. -/
def insert (registry : SchemaRegistry) (schema : Schema) : SchemaRegistry :=
  ⟨registry.schemas.insert schema.entity schema⟩

/-- The schema of an entity. -/
def get? (registry : SchemaRegistry) (entity : String) : Option Schema :=
  registry.schemas.find? entity

/-- A property of an entity; both have to be known. -/
def resolve (registry : SchemaRegistry) (entity property : String) : Except ClauseError Property :=
  match registry.get? entity with
  | some schema => schema.resolve property
  | none => .error (.unknownProperty entity property)

end SchemaRegistry

end Clauses
