import Clauses.Expression.Operator

/-!
# Conditions

A condition in the form that it has on the wire: names and values are placeholders, and `NOT` stands
only where there is no other way to say it.

* `Condition.chars` — the text of a condition

Parts of a junction stand in brackets. So does what is behind `NOT`, except a call.
-/

namespace Clauses

/-- A comma and a space. -/
def comma : List Char := [',', ' ']

/-- A text in round brackets. -/
def bracketed (s : List Char) : List Char := '(' :: s ++ [')']

/-- A word with a space on both sides. -/
def spaced (word : String) : List Char := ' ' :: word.toList ++ [' ']

/-- What stands on the left of a comparison. -/
inductive Compared where
  | attribute (name : String)
  | size (name : String)
deriving DecidableEq

/-- A condition on the wire. -/
inductive Condition where
  | compare (left : Compared) (op : Operator) (values : List String)
  | call (f : Builtin) (name : String) (value : Option String)
  | join (c : Connective) (first : Condition) (others : List Condition)
  | not (c : Condition)

/-- The text of what is compared. -/
def Compared.chars : Compared → List Char
  | .attribute name => name.toList
  | .size name => Builtin.size.name.toList ++ bracketed name.toList

namespace Condition

/-- The text of a comparison. -/
def compareChars (left : List Char) (op : Operator) (values : List (List Char)) : List Char :=
  match op with
  | .between => left ++ spaced op.text ++ (spaced Connective.and.text).intercalate values
  | .among => left ++ spaced op.text ++ bracketed (comma.intercalate values)
  | .beginsWith | .contains => op.text.toList ++ bracketed (comma.intercalate (left :: values))
  | _ => left ++ spaced op.text ++ comma.intercalate values

/-- The text of a call. -/
def callChars (f : Builtin) (arguments : List (List Char)) : List Char :=
  f.name.toList ++ bracketed (comma.intercalate arguments)

/-- The condition is a call. -/
def isCall : Condition → Bool
  | .call _ _ _ => true
  | _ => false

mutual

/-- The text of a condition. -/
def chars : Condition → List Char
  | .compare left op values => compareChars left.chars op (values.map String.toList)
  | .call f name value => callChars f (name.toList :: value.toList.map String.toList)
  | .join c first others =>
    (spaced c.text).intercalate (bracketed (chars first) :: partsChars others)
  | .not c =>
    "NOT ".toList ++ if c.isCall then chars c else bracketed (chars c)

/-- The texts of the parts of a junction. -/
def partsChars : List Condition → List (List Char)
  | [] => []
  | c :: rest => bracketed (chars c) :: partsChars rest

end

/-- The condition, behind `NOT` if it is negated. -/
def negatedIf (negate : Bool) (c : Condition) : Condition := if negate then .not c else c

end Condition

end Clauses
