import Clauses.Compiler
import Clauses.Request.Basic

/-!
# Building requests

A request is built clause by clause on a scope of its own. Conditions of one kind are joined by
`AND`, each in brackets; an update and a projection can be set once.

A step works on the request itself. What it leaves behind is what the next one starts from, whether
it has failed or not; that a failed step has changed nothing is shown in
`Clauses/Proofs/Rollback.lean`.

* `RequestBuilder.step` — adds a clause, or binds a value beforehand
* `RequestBuilder.run` — steps one after the other, each on an occasion of its own,
  with all that they answer
* `RequestBuilder.build` — the request of what has been added
-/

namespace Clauses

/-- A request in the making. -/
structure RequestBuilder where
  scope : Scope
  expressions : Slots

/-- What is done to a request; a failure leaves it as it is at that moment. -/
abbrev Building (α : Type) := EStateM ClauseError RequestBuilder α

/-- What is done to a request. -/
inductive RequestStep where
  | clause (mode : Mode) (source : Source)
  | bind (v : Value) (p : Property)

namespace RequestBuilder

/-- The request without clauses. -/
def start (c : Compiler) : RequestBuilder := ⟨c.scope, .none⟩

/-- Two expressions that have to hold both. -/
def conjunction (a b : String) : String := "(" ++ a ++ ") AND (" ++ b ++ ")"

/-- Adds an expression to a slot. -/
def merge (slots : Slots) (kind : ClauseKind) (expression : String) : Slots :=
  slots.set kind <|
    match slots kind with
    | none => expression
    | some previous => conjunction previous expression

/-- A slot that can take one more clause. -/
def isOpen (slots : Slots) (kind : ClauseKind) : Bool :=
  kind.isConjunctive || (slots kind).isNone

/-- Does something to the scope of a request. -/
def onScope {α : Type} (x : Scoped α) : Building α := fun r =>
  match x r.scope with
  | .ok a scope => .ok a { r with scope }
  | .error e scope => .error e { r with scope }

/-- Refuses one more clause where there is room for one only. -/
def ensureOpen (kind : ClauseKind) : Building Unit := do
  if !isOpen (← get).expressions kind then throw (.duplicateClause kind)

/-- Adds a clause. -/
def add (c : Compiler) (mode : Mode) (source : Source) : Building Unit := do
  ensureOpen source.kind
  let clause ← onScope (c.translate mode source)
  modify fun r => { r with expressions := merge r.expressions source.kind clause.expression }

/-- Does a step; the placeholder is that of a value that is bound. -/
def step (c : Compiler) : RequestStep → Building (Option String)
  | .clause mode source => do
    add c mode source
    return none
  | .bind v p => some <$> onScope (c.bindValue v p)

/-- Does a step and goes on with what it has left of the request, whether it has failed or not. -/
def advance (r : RequestBuilder) (c : Compiler) (s : RequestStep) :
    Except ClauseError (Option String) × RequestBuilder :=
  match step c s r with
  | .ok answer r => (.ok answer, r)
  | .error e r => (.error e, r)

/-- Does steps one after the other, each on its occasion. -/
def run (r : RequestBuilder) (config : Config) :
    List (Occasion RequestStep) → List (Except ClauseError (Option String)) × RequestBuilder
  | [] => ([], r)
  | o :: occasions =>
    let (answer, r) := r.advance ⟨config, o.hooks⟩ o.step
    let (answers, r) := r.run config occasions
    (answer :: answers, r)

/-- The request of what has been added. -/
def build (r : RequestBuilder) : Request where
  expressions := r.expressions
  names := r.scope.nameTable
  values := r.scope.valueTable

end RequestBuilder

end Clauses
