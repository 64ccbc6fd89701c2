import Clauses.Base64
import Clauses.Text.Quoted

/-!
# Faults in JSON texts

A text is read from left to right for one particular type, and the first thing that is wrong with
it is its fault. There are three categories: the text ends too early, it is no JSON, or it is JSON
of something else.
-/

namespace Clauses.Json

/-- What stands in the text where something else was expected. -/
inductive Found where
  | null
  | bool (b : Bool)
  | integer (n : Int)
  /-- A number with a point or an exponent, as messages write it. -/
  | floating (text : String)
  | text (s : String)
  | list
  | object
deriving DecidableEq

/-- What was found, in words. -/
def Found.words : Found → String
  | .null => "null"
  | .bool b => s!"boolean `{b}`"
  | .integer n => s!"integer `{n}`"
  | .floating t => s!"floating point `{t}`"
  | .text s => "string " ++ Text.quoted s
  | .list => "sequence"
  | .object => "map"

/-- JSON, but not of the type that is read. -/
inductive DataFault where
  | invalidType (found : Found) (expected : String)
  | invalidLength (length : Nat) (expected : String)
  | unknownField (name : String) (known : List String)
  | unknownVariant (name : String) (known : List String)
  | missingField (name : String)
  | duplicateField (name : String)
  | base64 (fault : Base64.Fault)
  /-- A wire value with a key behind the one that tells its type. -/
  | secondTag (tag : String)
  | emptyCollection (tag : String) (path : String)
deriving DecidableEq

/-- The names in the way messages list them. -/
def listNames (names : List String) : String :=
  ", ".intercalate (names.map fun n => s!"`{n}`")

/-- The fault in words. -/
def DataFault.message : DataFault → String
  | .invalidType found expected => s!"invalid type: {found.words}, expected {expected}"
  | .invalidLength n expected => s!"invalid length {n}, expected {expected}"
  | .unknownField name known => s!"unknown field `{name}`, expected one of {listNames known}"
  | .unknownVariant name known => s!"unknown variant `{name}`, expected one of {listNames known}"
  | .missingField name => s!"missing field `{name}`"
  | .duplicateField name => s!"duplicate field `{name}`"
  | .base64 fault => fault.message
  | .secondTag tag => s!"value tagged '{tag}' carries a second type key"
  | .emptyCollection tag path => s!"empty {tag} at '{path}'"

/-- What is wrong with a text. -/
inductive Fault where
  | endOfValue
  | endOfList
  | endOfObject
  | endOfText
  | expectedColon
  | expectedListEnd
  | expectedObjectEnd
  | expectedWord
  | expectedValue
  | invalidEscape
  | invalidNumber
  | numberOutOfRange
  | invalidCodePoint
  | controlCharacter
  | keyMustBeText
  | loneSurrogate
  | trailingComma
  | trailingCharacters
  | endOfHexEscape
  | recursionLimit
  | data (fault : DataFault)
deriving DecidableEq

/-- The three categories of faults. -/
inductive Category where
  | syntactic
  | data
  | ended
deriving DecidableEq

namespace Fault

/-- The category of a fault. -/
def category : Fault → Category
  | .endOfValue | .endOfList | .endOfObject | .endOfText => .ended
  | .data _ => .data
  | _ => .syntactic

/-- The fault in words. -/
def message : Fault → String
  | .endOfValue => "EOF while parsing a value"
  | .endOfList => "EOF while parsing a list"
  | .endOfObject => "EOF while parsing an object"
  | .endOfText => "EOF while parsing a string"
  | .expectedColon => "expected `:`"
  | .expectedListEnd => "expected `,` or `]`"
  | .expectedObjectEnd => "expected `,` or `\x7d`"
  | .expectedWord => "expected ident"
  | .expectedValue => "expected value"
  | .invalidEscape => "invalid escape"
  | .invalidNumber => "invalid number"
  | .numberOutOfRange => "number out of range"
  | .invalidCodePoint => "invalid unicode code point"
  | .controlCharacter =>
    "control character (\\u0000-\\u001F) found while parsing a string"
  | .keyMustBeText => "key must be a string"
  | .loneSurrogate => "lone leading surrogate in hex escape"
  | .trailingComma => "trailing comma"
  | .trailingCharacters => "trailing characters"
  | .endOfHexEscape => "unexpected end of hex escape"
  | .recursionLimit => "recursion limit exceeded"
  | .data fault => fault.message

end Fault

end Clauses.Json
