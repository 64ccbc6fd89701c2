import Clauses.Expression.Binder
import Clauses.Expression.Change

/-!
# Updates and projections

An update is a list of actions on properties, in the order of the caller. On the wire the actions
stand in groups, each under its keyword: the keywords come in the order of their first actions, and
the actions of a group keep their order. Placeholders are numbered in the order of the text.

* `Update.translate` — the groups of an update
* `Projection.translate` — the names of a projection
-/

namespace Clauses

/-- What a property is set to. -/
inductive SetValue where
  | operand (o : Operand)
  | property (name : String)
  | plus (a b : SetValue)
  | minus (a b : SetValue)
  /-- What a property is, or something else where it is not there. -/
  | ifNotExists (property : String) (otherwise : Operand)
  | listAppend (a b : SetValue)

/-- An action on a property. -/
inductive Action where
  | set (property : String) (value : SetValue)
  | remove (property : String)
  | add (property : String) (o : Operand)
  | delete (property : String) (o : Operand)

/-- The keyword of an action. -/
def Action.keyword : Action → UpdateKeyword
  | .set _ _ => .set
  | .remove _ => .remove
  | .add _ _ => .add
  | .delete _ _ => .delete

/-- The actions of an update. -/
abbrev Update := List Action

namespace SetValue

/--
Translates what the property `target` is set to. Only the outermost value may be a sum or a
difference.
-/
def translate (b : Binder) (schema : Schema) (target : Property) (outermost : Bool) :
    SetValue → Drafting Term
  | .operand o => .bound <$> b.operand o target
  | .property name => do
    let p ← schema.resolve name
    return .attribute (← p.bindName)
  | .plus x y => do
    if !outermost then throw (.unsupported .nestedArithmetic)
    let x ← translate b schema target false x
    return .plus x (← translate b schema target false y)
  | .minus x y => do
    if !outermost then throw (.unsupported .nestedArithmetic)
    let x ← translate b schema target false x
    return .minus x (← translate b schema target false y)
  | .ifNotExists name otherwise => do
    let p ← schema.resolve name
    let name ← p.bindName
    return .ifNotExists name (← b.operand otherwise p)
  | .listAppend x y => do
    let x ← translate b schema target false x
    return .listAppend x (← translate b schema target false y)

end SetValue

/-- Translates one action. -/
def Action.translate (b : Binder) (schema : Schema) : Action → Drafting Change
  | .set property value => do
    let p ← schema.resolve property
    let name ← p.bindName
    return .set name (← value.translate b schema p true)
  | .remove property => do
    let p ← schema.resolve property
    return .remove (← p.bindName)
  | .add property o | .delete property o => do
    let p ← schema.resolve property
    let name ← p.bindName
    return .apply name (← b.operand o p)

namespace Update

/-- The keywords of some actions, in the order of their first actions. -/
def keywords : Update → List UpdateKeyword
  | [] => []
  | a :: rest => a.keyword :: (keywords rest).filter (· ≠ a.keyword)

/-- The actions under a keyword. -/
def under (u : Update) (keyword : UpdateKeyword) : Update := u.filter (·.keyword = keyword)

/-- Translates an update. -/
def translate (b : Binder) (schema : Schema) (u : Update) :
    Drafting (List (UpdateKeyword × List Change)) := do
  if u.isEmpty then throw (.unsupported .emptyUpdate)
  u.keywords.mapM fun keyword => do
    return (keyword, ← (u.under keyword).mapM (Action.translate b schema))

end Update

namespace Projection

/-- Translates the properties of a projection. -/
def translate (schema : Schema) (properties : List String) : Drafting (List String) := do
  if properties.isEmpty then throw (.unsupported .emptyProjection)
  properties.mapM fun property => do
    let p ← schema.resolve property
    p.bindName

/-- The text of a projection. -/
def chars (names : List String) : List Char := comma.intercalate (names.map String.toList)

end Projection

end Clauses
