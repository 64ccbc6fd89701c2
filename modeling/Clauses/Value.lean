import Clauses.Base64
import Clauses.Calendar.Instant
import Clauses.Decimal.Basic
import Clauses.Wire.Value

/-!
# Native values

What callers bind and get back: values with the types of a program, before they take their wire
form. Sets are sequences here; they may repeat members and may be empty, which the wire does not
allow.

* `Value.kind` — the type of a value, which decides how a wire value is read back
* `Value.same` — equality as callers see it: decimals of one number are equal, whatever their scale,
  and so are the two zeros of floating point
-/

namespace Clauses

/-- A native value. The entries of a map are in the order of their keys. -/
inductive Value where
  | null
  | bool (flag : Bool)
  | text (t : String)
  | integer (n : Int64)
  | decimal (d : Decimal)
  | float (x : Float)
  | binary (bytes : Bytes)
  | timestamp (t : Instant)
  | date (d : Date)
  | textSet (members : List String)
  | numberSet (members : List Decimal)
  | binarySet (members : List Bytes)
  | list (items : List Value)
  | map (entries : List (String × Value))

/-- The type of a native value. -/
inductive ValueKind where
  | null | bool | text | integer | decimal | float | binary | timestamp | date
  | textSet | numberSet | binarySet | list | map
deriving DecidableEq, Repr

namespace ValueKind

/-- What messages call the type. -/
def name : ValueKind → String
  | .null => "null"
  | .bool => "bool"
  | .text => "string"
  | .integer => "integer"
  | .decimal => "decimal"
  | .float => "float"
  | .binary => "binary"
  | .timestamp => "timestamp"
  | .date => "date"
  | .textSet => "string set"
  | .numberSet => "number set"
  | .binarySet => "binary set"
  | .list => "list"
  | .map => "map"

/-- All types. -/
def all : List ValueKind :=
  [.null, .bool, .text, .integer, .decimal, .float, .binary, .timestamp, .date, .textSet,
    .numberSet, .binarySet, .list, .map]

theorem mem_all (k : ValueKind) : k ∈ all := by cases k <;> decide

/-- The type that messages call so. -/
def ofName? (name : String) : Option ValueKind := all.find? fun k => k.name == name

theorem ofName?_name (k : ValueKind) : ofName? k.name = some k := by cases k <;> decide

end ValueKind

namespace Value

/-- The type of a value. -/
def kind : Value → ValueKind
  | .null => .null
  | .bool _ => .bool
  | .text _ => .text
  | .integer _ => .integer
  | .decimal _ => .decimal
  | .float _ => .float
  | .binary _ => .binary
  | .timestamp _ => .timestamp
  | .date _ => .date
  | .textSet _ => .textSet
  | .numberSet _ => .numberSet
  | .binarySet _ => .binarySet
  | .list _ => .list
  | .map _ => .map

/-! ## Equality -/

/-- Two sequences of decimals that agree number for number. -/
def sameNumbers : List Decimal → List Decimal → Bool
  | [], [] => true
  | a :: as, b :: bs => decide (a.SameNumber b) && sameNumbers as bs
  | _, _ => false

mutual

/-- Two values that callers cannot tell apart. -/
def same : Value → Value → Bool
  | .null, .null => true
  | .bool a, .bool b => a == b
  | .text a, .text b => a == b
  | .integer a, .integer b => a == b
  | .decimal a, .decimal b => decide (a.SameNumber b)
  | .float a, .float b => a == b
  | .binary a, .binary b => a == b
  | .timestamp a, .timestamp b => decide (a = b)
  | .date a, .date b => decide (a = b)
  | .textSet a, .textSet b => a == b
  | .numberSet a, .numberSet b => sameNumbers a b
  | .binarySet a, .binarySet b => a == b
  | .list a, .list b => sameItems a b
  | .map a, .map b => sameEntries a b
  | _, _ => false

/-- Two lists that agree item for item. -/
def sameItems : List Value → List Value → Bool
  | [], [] => true
  | a :: as, b :: bs => same a b && sameItems as bs
  | _, _ => false

/-- Two maps that agree entry for entry. -/
def sameEntries : List (String × Value) → List (String × Value) → Bool
  | [], [] => true
  | (k, a) :: as, (l, b) :: bs => k == l && same a b && sameEntries as bs
  | _, _ => false

end

end Value

end Clauses
