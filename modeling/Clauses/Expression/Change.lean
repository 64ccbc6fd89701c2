import Clauses.Expression.Condition

/-!
# Changes

An update in the form that it has on the wire: groups of changes, each under its keyword. Names and
values are placeholders.

* `Change.groupsChars` — the text of an update
-/

namespace Clauses

/-- What a group of changes does. -/
inductive UpdateKeyword where
  | set | remove | add | delete
deriving DecidableEq, Repr

/-- The keyword as it is written. -/
def UpdateKeyword.text : UpdateKeyword → String
  | .set => "SET"
  | .remove => "REMOVE"
  | .add => "ADD"
  | .delete => "DELETE"

/-- A value that is put together on the wire. -/
inductive Term where
  | attribute (name : String)
  | bound (value : String)
  | ifNotExists (name : String) (value : String)
  | listAppend (a b : Term)
  | plus (a b : Term)
  | minus (a b : Term)
deriving DecidableEq

/-- One change on the wire. -/
inductive Change where
  | set (name : String) (term : Term)
  | remove (name : String)
  /-- A number is added to, or members are added or taken away; the keyword tells which. -/
  | apply (name : String) (value : String)
deriving DecidableEq

/-- The text of a value. -/
def Term.chars : Term → List Char
  | .attribute name => name.toList
  | .bound value => value.toList
  | .ifNotExists name value => Condition.callChars .ifNotExists [name.toList, value.toList]
  | .listAppend a b => Condition.callChars .listAppend [a.chars, b.chars]
  | .plus a b => a.chars ++ spaced "+" ++ b.chars
  | .minus a b => a.chars ++ spaced "-" ++ b.chars

namespace Change

/-- The text of a change. -/
def chars : Change → List Char
  | .set name term => name.toList ++ spaced "=" ++ term.chars
  | .remove name => name.toList
  | .apply name value => name.toList ++ ' ' :: value.toList

/-- The text of a group of changes. -/
def groupChars (keyword : UpdateKeyword) (changes : List Change) : List Char :=
  keyword.text.toList ++ ' ' :: comma.intercalate (changes.map chars)

/-- The text of an update. -/
def groupsChars (groups : List (UpdateKeyword × List Change)) : List Char :=
  [' '].intercalate (groups.map fun g => groupChars g.1 g.2)

end Change

end Clauses
