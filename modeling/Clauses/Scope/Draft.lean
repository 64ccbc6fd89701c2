import Clauses.Codec.Sealed
import Clauses.Scope.Basic

/-!
# Drafts

A clause is put together in a draft, which stands on a scope and numbers its placeholders on from
there. The scope itself does not change before the clause is complete: when all calls of hooks that
its values wait for have succeeded, names and values of the draft are entered into the scope.

* `Draft.bindName`, `Draft.bindValue` — the next placeholder of a clause
* `Draft.reuse` — a placeholder that has been minted before
* `Draft.resolve` — the wire values of a draft, once nothing is waited for
* `Draft.complete` — a clause from its making to its end
-/

namespace Clauses

/-- A translated clause. -/
structure Clause where
  expression : String
  /-- The name placeholders that the clause minted, with the attributes behind them. -/
  names : List (String × String)
  /-- The value placeholders that the clause minted, with the wire values behind them. -/
  values : List (String × WireValue)
deriving DecidableEq

/-- The way a clause is translated. -/
inductive Mode where
  /-- Without asynchronous hooks. -/
  | sync
  /--
  With any hooks; the caller may have given up before. If somebody else gives up, it is an
  asynchronous hook in the course of its call, and not a synchronous one while the clause is made.
  -/
  | async (cancelled : Bool)
deriving DecidableEq

/-- The caller has given up. -/
def Mode.isCancelled : Mode → Bool
  | .sync => false
  | .async cancelled => cancelled

/-- The placeholders of a clause that is not complete, in the order in which they were minted. -/
structure Draft where
  scope : Scope
  names : List (String × String)
  bindings : List (String × Binding)

/-- A step in the making of a clause; a draft is given up where it fails. -/
abbrev Drafting (α : Type) := StateT Draft (Except ClauseError) α

namespace Draft

/-- The draft of a clause that has no placeholders so far. -/
def on (scope : Scope) : Draft := ⟨scope, [], []⟩

/-- The next name placeholder. -/
def nextName (d : Draft) : String := d.scope.nameToken (d.scope.nameCount + d.names.length)

/-- The next value placeholder. -/
def nextValue (d : Draft) : String := d.scope.valueToken (d.scope.valueCount + d.bindings.length)

/-- Binds an attribute to the next name placeholder. -/
def bindName (attributeName : String) : Drafting String := fun d =>
  .ok (d.nextName, { d with names := d.names ++ [(d.nextName, attributeName)] })

/-- Binds a value to the next value placeholder. -/
def bindValue (b : Binding) : Drafting String := fun d =>
  .ok (d.nextValue, { d with bindings := d.bindings ++ [(d.nextValue, b)] })

/-! ## Placeholders that are used again -/

/-- The placeholder has been minted, in the scope or in the draft. -/
def contains (d : Draft) (token : String) : Bool :=
  d.scope.contains token || d.names.any (·.1 == token) || d.bindings.any (·.1 == token)

/-- Uses a placeholder that has been minted. -/
def reuse (token : String) : Drafting String := fun d =>
  if d.contains token then .ok (token, d) else .error (.unresolvedPlaceholder token)

/-- The attribute behind a name placeholder of the scope or the draft. -/
def attribute? (d : Draft) (token : String) : Option String :=
  (d.scope.attribute? token).or ((d.names.find? (·.1 == token)).map Prod.snd)

/-! ## Resolving -/

/-- The calls that some bindings wait for. -/
def deferred (bindings : List (String × Binding)) : List Deferred :=
  bindings.filterMap fun
    | (_, .ready _) => none
    | (_, .deferred d) => some d

/-- Puts the bytes of the calls in the places of the bindings that wait for them. -/
def fill : List (String × Binding) → List Bytes → List (String × WireValue)
  | [], _ => []
  | (token, .ready w) :: rest, outputs => (token, w) :: fill rest outputs
  | (token, .deferred _) :: rest, output :: outputs =>
    (token, .binary output) :: fill rest outputs
  | (_, .deferred _) :: rest, [] => fill rest []

/-- The error of a batch that has ended without its bytes. -/
def batchError (calls : List Deferred) : Batch.Fault → ClauseError
  | .cancelled => .cancelled
  | .failed place fault =>
    match calls[place]? with
    | some d => .hookFailed d.field fault
    | none => .cancelled

/-- The wire values of bindings that wait for nothing. -/
def resolveNow : List (String × Binding) → Except ClauseError (List (String × WireValue))
  | [] => .ok []
  | (token, b) :: rest => do
    let w ← b.now
    return (token, w) :: (← resolveNow rest)

/-- The wire values of bindings. -/
def resolve (mode : Mode) (bindings : List (String × Binding)) :
    Except ClauseError (List (String × WireValue)) :=
  match mode with
  | .sync => resolveNow bindings
  | .async cancelled => do
    if cancelled then .error .cancelled
    let calls := deferred bindings
    if calls.isEmpty then return fill bindings []
    match Batch.run cancelled (calls.map Deferred.task) with
    | .error fault => .error (batchError calls fault)
    | .ok outputs => return fill bindings outputs

/-! ## Completing -/

/-- Enters the placeholders of a clause into the scope. -/
def commit (expression : List Char) (names : List (String × String))
    (values : List (String × WireValue)) : Scoped Clause := do
  modify (·.enter names values)
  return ⟨String.ofList expression, names, values⟩

/-- Makes a clause and completes it. -/
def complete (mode : Mode) (make : Drafting (List Char)) : Scoped Clause := do
  let s ← get
  let (expression, d) ← MonadExcept.ofExcept (make (.on s))
  let values ← MonadExcept.ofExcept (resolve mode d.bindings)
  commit expression d.names values

end Draft

end Clauses
