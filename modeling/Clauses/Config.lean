import Clauses.Json.Basic
import Clauses.Json.Reader
import Clauses.Text.Ascii

/-!
# Configuration

How placeholders are named, whether reserved words of a template get one, and the format of dates
that have none. A configuration is read from JSON or from the variables of an environment; only the
environment is checked, and a prefix that is no word is passed over there.
-/

namespace Clauses

/-- The configuration of a compiler. -/
structure Config where
  /-- Stands behind the `#` of name placeholders. -/
  namePrefix : String
  /-- Stands behind the `:` of value placeholders. -/
  valuePrefix : String
  /-- Reserved words in templates are replaced by name placeholders. -/
  aliasReserved : Bool
  /-- The format of dates and instants whose property has none. -/
  dateFormat : Option String
deriving DecidableEq

namespace Config

/-- The configuration when nothing is said. -/
def standard : Config := ⟨"attr", "p", true, none⟩

/-! ## Environment -/

/-- A word, which a placeholder can be made of. -/
def isWord (s : String) : Bool :=
  match s.toList with
  | [] => false
  | c :: rest => Text.isWordStart c && rest.all Text.isWordChar

/-- The truth value of a text: `1` and, in any letter case, `true` say yes. -/
def readsYes (s : String) : Bool := s == "1" || Text.sameFolded s.toList "true".toList

/-- The configuration in an environment, whose variables `lookUp` gives. -/
def ofEnvironment (lookUp : String → Option String) : Config where
  namePrefix := ((lookUp "DYNEXPR_NAME_PREFIX").filter isWord).getD standard.namePrefix
  valuePrefix := ((lookUp "DYNEXPR_VALUE_PREFIX").filter isWord).getD standard.valuePrefix
  aliasReserved := ((lookUp "DYNEXPR_ALIAS_RESERVED_WORDS").map readsYes).getD
    standard.aliasReserved
  dateFormat := (lookUp "DYNEXPR_DATE_FORMAT").filter fun f => !f.isEmpty

/-! ## JSON -/

/-- The JSON form of a configuration. -/
def toJson (c : Config) : Json :=
  .object ([("namePrefix", .text c.namePrefix), ("valuePrefix", .text c.valuePrefix),
    ("aliasReservedWords", .bool c.aliasReserved)] ++
    (c.dateFormat.map fun f => ("defaultDateFormat", .text f)).toList)

/-- The fields of a configuration that have been read. -/
structure Gathered where
  namePrefix : Option String := none
  valuePrefix : Option String := none
  aliasReserved : Option Bool := none
  dateFormat : Option (Option String) := none

/-- How a configuration is read. -/
def shape : Json.Shape Gathered Config where
  name := "CompilerConfig"
  fields := [
    .of "namePrefix" false (·.namePrefix) (fun g t => { g with namePrefix := some t })
      fun _ => Json.Reader.text,
    .of "valuePrefix" false (·.valuePrefix) (fun g t => { g with valuePrefix := some t })
      fun _ => Json.Reader.text,
    .of "aliasReservedWords" false (·.aliasReserved) (fun g b => { g with aliasReserved := some b })
      fun _ => Json.Reader.bool,
    .of "defaultDateFormat" true (·.dateFormat) (fun g t => { g with dateFormat := some t })
      fun _ => Json.Reader.optional Json.Reader.text]
  empty := {}
  finish := fun g =>
    match g.namePrefix, g.valuePrefix, g.aliasReserved with
    | none, _, _ => .error "namePrefix"
    | _, none, _ => .error "valuePrefix"
    | _, _, none => .error "aliasReservedWords"
    | some name, some value, some aliasing => .ok ⟨name, value, aliasing, g.dateFormat.join⟩

/-- Reads a text that holds one configuration. -/
def ofJson (bytes : Bytes) : Except Json.Fault Config :=
  Json.readAll (shape.read Json.maxDepth) bytes

end Config

end Clauses
