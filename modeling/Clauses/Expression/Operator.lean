import Clauses.Text.Ascii

/-!
# Operators and functions

The comparisons and the built-in functions of the expression language, with their spellings.

* `Operator.inverse?` — the operator that holds exactly when this one does not
* `Builtin.ofName?` — a function is known in any letter case
* `Arity` — how many operands something takes
-/

namespace Clauses

/-! ## Negation -/

/-- What becomes of something that is negated. -/
inductive Negation (α : Type) where
  /-- Its opposite takes its place. -/
  | inverted (opposite : α)
  /-- `NOT` stands in front of it. -/
  | wrapped
  /-- There is no way to write it. -/
  | refused
deriving DecidableEq

/-! ## Operators -/

/-- A comparison. The last three but `IN` are written as functions or words. -/
inductive Operator where
  | equal | notEqual | less | lessOrEqual | greater | greaterOrEqual
  | between | beginsWith | contains | among
deriving DecidableEq, Repr

/-- How many operands are allowed. -/
inductive Arity where
  | exactly (n : Nat)
  | atLeast (n : Nat)
deriving DecidableEq

/-- This many operands are allowed. -/
def Arity.Admits : Arity → Nat → Prop
  | .exactly n, count => count = n
  | .atLeast n, count => n ≤ count

instance : (a : Arity) → (count : Nat) → Decidable (a.Admits count)
  | .exactly n, count => inferInstanceAs (Decidable (count = n))
  | .atLeast n, count => inferInstanceAs (Decidable (n ≤ count))

/-- The number of operands in words. -/
def Arity.words : Arity → String
  | .exactly n => s!"exactly {n}"
  | .atLeast n => s!"at least {n}"

namespace Operator

/-- The operators. -/
def all : List Operator :=
  [.equal, .notEqual, .less, .lessOrEqual, .greater, .greaterOrEqual, .between, .beginsWith,
    .contains, .among]

theorem mem_all (op : Operator) : op ∈ all := by cases op <;> decide

/-- The operator as it is written. -/
def text : Operator → String
  | .equal => "="
  | .notEqual => "<>"
  | .less => "<"
  | .lessOrEqual => "<="
  | .greater => ">"
  | .greaterOrEqual => ">="
  | .between => "BETWEEN"
  | .beginsWith => "begins_with"
  | .contains => "contains"
  | .among => "IN"

/-- The operator that holds exactly when this one does not, if the language has one. -/
def inverse? : Operator → Option Operator
  | .equal => some .notEqual
  | .notEqual => some .equal
  | .less => some .greaterOrEqual
  | .lessOrEqual => some .greater
  | .greater => some .lessOrEqual
  | .greaterOrEqual => some .less
  | .between | .beginsWith | .contains | .among => none

/-- How many operands stand on the right. -/
def arity : Operator → Arity
  | .between => .exactly 2
  | .among => .atLeast 1
  | _ => .exactly 1

theorem arity_inverse {a b : Operator} (h : a.inverse? = some b) : b.arity = a.arity := by
  cases a <;> cases b <;> first | rfl | cases h

/-- What becomes of a comparison with this operator that is negated. -/
def negation (op : Operator) : Negation Operator :=
  match op.inverse? with
  | some inverse => .inverted inverse
  | none => if op = .between ∨ op = .beginsWith then .refused else .wrapped

end Operator

/-! ## Junctions -/

/-- What joins conditions. -/
inductive Connective where
  | and | or
deriving DecidableEq, Repr

/-- The connective as it is written. -/
def Connective.text : Connective → String
  | .and => "AND"
  | .or => "OR"

/-! ## Functions -/

/-- The arguments that a function takes in a condition. -/
inductive Arguments where
  | property
  | propertyAndType
  | propertyAndValue
deriving DecidableEq

namespace Arguments

/-- The number of arguments. -/
def count : Arguments → Nat
  | .property => 1
  | .propertyAndType | .propertyAndValue => 2

/-- The arguments in words. -/
def words : Arguments → String
  | .property => "(property)"
  | .propertyAndType => "(property, type)"
  | .propertyAndValue => "(property, value)"

end Arguments

/-- A built-in function. -/
inductive Builtin where
  | attributeExists | attributeNotExists | attributeType | beginsWith | contains | size
  | ifNotExists | listAppend
deriving DecidableEq, Repr

namespace Builtin

/-- The functions. -/
def all : List Builtin :=
  [.attributeExists, .attributeNotExists, .attributeType, .beginsWith, .contains, .size,
    .ifNotExists, .listAppend]

theorem mem_all (f : Builtin) : f ∈ all := by cases f <;> decide

/-- The name of a function. -/
def name : Builtin → String
  | .attributeExists => "attribute_exists"
  | .attributeNotExists => "attribute_not_exists"
  | .attributeType => "attribute_type"
  | .beginsWith => "begins_with"
  | .contains => "contains"
  | .size => "size"
  | .ifNotExists => "if_not_exists"
  | .listAppend => "list_append"

/-- The function with this name, in any letter case. -/
def ofName? (name : List Char) : Option Builtin :=
  all.find? fun f => Text.sameFolded f.name.toList name

/-- The arguments of a function, if it can stand in a condition. -/
def arguments? : Builtin → Option Arguments
  | .attributeExists | .attributeNotExists => some .property
  | .attributeType => some .propertyAndType
  | .beginsWith | .contains => some .propertyAndValue
  | .size | .ifNotExists | .listAppend => none

/-- What becomes of a call of this function that is negated. -/
def negation : Builtin → Negation Builtin
  | .attributeExists => .inverted .attributeNotExists
  | .attributeNotExists => .inverted .attributeExists
  | .beginsWith => .refused
  | _ => .wrapped

end Builtin

end Clauses
