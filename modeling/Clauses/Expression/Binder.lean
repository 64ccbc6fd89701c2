import Clauses.Scope.Draft

/-!
# Operands

An operand is a value, which gets a new placeholder, or a placeholder that the caller has minted
before. A value is bound in the way of a property: in its format, and sealed by its hook.
-/

namespace Clauses

/-- What a comparison or an action is done with. -/
inductive Operand where
  | value (v : Value)
  /-- A value placeholder that is used again. -/
  | placeholder (token : String)

/-- How the values of a clause are bound. -/
structure Binder where
  codec : Codec
  /-- The entity that the clause is about, if it is known. -/
  entity : Option String
  cancelled : Bool

namespace Binder

/-- What a value comes to in the way of a property, when `n` values have been written before it. -/
def binding (b : Binder) (n : Nat) (v : Value) (p : Property) : Except ClauseError Binding :=
  (b.codec.later n).bind b.entity b.cancelled v p

/--
Binds a value in the way of a property. As many have been written before as the draft has bound.
-/
def value (b : Binder) (v : Value) (p : Property) : Drafting String := do
  let d ← get
  let binding ← b.binding d.bindings.length v p
  Draft.bindValue binding

/-- Binds an operand in the way of a property. -/
def operand (b : Binder) (o : Operand) (p : Property) : Drafting String :=
  match o with
  | .value v => b.value v p
  | .placeholder token =>
    if token.toList.head? = some ':' then Draft.reuse token
    else throw (.unresolvedPlaceholder token)

end Binder

/-- Binds the attribute of a property. -/
def Property.bindName (p : Property) : Drafting String := Draft.bindName p.wireName

end Clauses
