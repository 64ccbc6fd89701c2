import Clauses.Expression.Predicate
import Clauses.Expression.Update
import Clauses.Template.Reader

/-!
# Compilers

A compiler turns predicates, templates, updates and projections into clauses, all on one scope. That
a step which fails leaves the scope as it was is not said here: `Compiler.advance` goes on with
whatever scope the step has left.

* `Compiler.translate` — one clause
* `Compiler.step` — any step on a scope: a clause, or a placeholder that is minted on its own
* `Compiler.run` — steps one after the other, each on an occasion of its own, with all that they
  answer
-/

namespace Clauses

/-- What a clause is made from. -/
inductive Source where
  | predicate (kind : ClauseKind) (schema : Schema) (p : Predicate)
  | template (kind : ClauseKind) (template : String) (arguments : List Value)
      (schema : Option Schema)
  | update (schema : Schema) (u : Update)
  | projection (schema : Schema) (properties : List String)

namespace Source

/-- The kind of the clause. -/
def kind : Source → ClauseKind
  | .predicate kind _ _ => kind
  | .template kind _ _ _ => kind
  | .update _ _ => .update
  | .projection _ _ => .projection

/-- The entity that the clause is about. -/
def entity : Source → Option String
  | .predicate _ schema _ | .update schema _ | .projection schema _ => some schema.entity
  | .template _ _ _ schema => schema.map Schema.entity

/-- The way the clause is translated: a projection has no values and waits for nothing. -/
def modeOf (mode : Mode) : Source → Mode
  | .projection _ _ => .sync
  | _ => mode

end Source

/-- A configuration and the hooks that go with it. -/
structure Compiler where
  config : Config
  hooks : HookRegistry

namespace Compiler

/-- The codec of a compiler. -/
def codec (c : Compiler) : Codec := ⟨c.config.dateFormat, c.hooks⟩

/-- The scope of a new request. -/
def scope (c : Compiler) : Scope := .ofConfig c.config

/-! ## Clauses -/

/-- Translates a predicate to its text. -/
def draftPredicate (b : Binder) (kind : ClauseKind) (schema : Schema) (p : Predicate) :
    Drafting (List Char) := do
  if !kind.isConjunctive then throw (.unsupported (.predicateIn kind))
  let condition ← p.translate b schema kind false
  return condition.chars

/-- Translates a template to its text. -/
def draftTemplate (b : Binder) (input : Template.Input) : Drafting (List Char) :=
  Template.translate b input

/-- Translates an update to its text. -/
def draftUpdate (b : Binder) (schema : Schema) (u : Update) : Drafting (List Char) := do
  let groups ← u.translate b schema
  return Change.groupsChars groups

/-- Translates a projection to its text. -/
def draftProjection (schema : Schema) (properties : List String) : Drafting (List Char) := do
  let names ← Projection.translate schema properties
  return Projection.chars names

/-- Translates a clause to its text. -/
def draft (c : Compiler) (b : Binder) : Source → Drafting (List Char)
  | .predicate kind schema p => draftPredicate b kind schema p
  | .template _ template arguments schema =>
    draftTemplate b ⟨template, arguments, schema, c.config.aliasReserved⟩
  | .update schema u => draftUpdate b schema u
  | .projection schema properties => draftProjection schema properties

/-- How the values of a clause are bound. -/
def binder (c : Compiler) (mode : Mode) (source : Source) : Binder :=
  ⟨c.codec, source.entity, mode.isCancelled⟩

/-- Translates a clause. -/
def translate (c : Compiler) (mode : Mode) (source : Source) : Scoped Clause :=
  let mode := source.modeOf mode
  Draft.complete mode (c.draft (c.binder mode source) source)

/-- Binds a value in the way of a property, to be used again. -/
def bindValue (c : Compiler) (v : Value) (p : Property) : Scoped String := do
  let w ← MonadExcept.ofExcept (c.codec.toWire v p)
  Scope.mintValue w

end Compiler

/-! ## Steps -/

/-- What is done on a scope. -/
inductive Step where
  | clause (mode : Mode) (source : Source)
  | bind (v : Value) (p : Property)
  | mintName (attributeName : String)
  | mintValue (w : WireValue)

/--
A step, and the hooks that there are when it is done. From one occasion to the next other hooks may
have been registered, and hooks may have come to answer otherwise; and maps come in other orders.
-/
structure Occasion (α : Type) where
  hooks : HookRegistry
  step : α

/-- What a step answers. -/
inductive Outcome where
  | clause (c : Clause)
  | placeholder (token : String)

namespace Compiler

/-- Does a step. -/
def step (c : Compiler) : Step → Scoped Outcome
  | .clause mode source => .clause <$> c.translate mode source
  | .bind v p => .placeholder <$> c.bindValue v p
  | .mintName attributeName => .placeholder <$> Scope.mintName attributeName
  | .mintValue w => .placeholder <$> Scope.mintValue w

/-- Does a step and goes on with what it has left of the scope, whether it has failed or not. -/
def advance (c : Compiler) (s : Scope) (step : Step) : Except ClauseError Outcome × Scope :=
  match c.step step s with
  | .ok outcome s => (.ok outcome, s)
  | .error e s => (.error e, s)

/-- Does steps one after the other, each on its occasion. -/
def run (config : Config) (s : Scope) :
    List (Occasion Step) → List (Except ClauseError Outcome) × Scope
  | [] => ([], s)
  | o :: occasions =>
    let (answer, s) := advance ⟨config, o.hooks⟩ s o.step
    let (answers, s) := run config s occasions
    (answer :: answers, s)

end Compiler

end Clauses
