import Clauses.Error
import Clauses.Wire.Order

/-!
# Hooks

A hook seals values: it turns the bytes of a wire value into other bytes, and its inverse turns
them back. A synchronous hook answers at once. An asynchronous one takes its time, in the course of
which it may cancel the call that waits for it; what it answers then is the same kind of answer.

A hook is given texts, and in a text the entries of a map stand in some order. Nobody chooses
it: it is the order in which the table of the map is gone through. A registry therefore goes
with an order for each time that a map is written or read, and what is said of every registry is
said of all of these orders.

* `HookRegistry` — the hooks, and the orders in which maps come
* `HookRegistry.later` — the registry as it is after some values have been written
-/

namespace Clauses

/-- What a hook knows about the value. -/
structure HookContext where
  /-- The wire name of the property. -/
  field : String
  /-- The entity, where it is known. -/
  entity : Option String
  /-- The caller has given up. -/
  cancelled : Bool

/-- One direction of a hook. -/
abbrev Transform := HookContext → Bytes → Except HookFault Bytes

/-- A pair of directions. -/
structure Hook where
  transform : Transform
  inverse : Transform

/-- How an asynchronous call runs. -/
structure Course where
  /-- The rounds that the call waits. -/
  delay : Nat
  /-- After these rounds the call cancels everything and waits for one more. -/
  cancels : Bool
deriving DecidableEq

/-- A hook and the way it is called. -/
inductive RegisteredHook where
  /--
  The hook answers at once. Whether everything is cancelled is known before it is called: a hook
  that itself cancels the clause it is called for cannot be registered so.
  -/
  | sync (hook : Hook)
  | async (hook : Hook) (course : HookContext → Bytes → Course)

/-- Hooks by their ids, and the orders in which maps come while they are used. -/
structure HookRegistry where
  hooks : Keyed RegisteredHook
  /--
  The order in which the maps of the next value are written, that of the value after it, and so on.
  -/
  writing : Nat → MapOrder := fun _ => .byKey
  /-- The order in which maps are gone through when they are read. -/
  reading : MapOrder := .byKey

namespace HookRegistry

/-- The registry without hooks. -/
def empty : HookRegistry := { hooks := [] }

/-- Registers a hook, in the place of one of the same id. -/
def insert (registry : HookRegistry) (id : String) (hook : RegisteredHook) : HookRegistry :=
  { registry with hooks := registry.hooks.insert id hook }

/-- The registry as it is after `n` values have been written. -/
def later (registry : HookRegistry) (n : Nat) : HookRegistry :=
  { registry with writing := fun i => registry.writing (i + n) }

/-- The hook with an id. -/
def get? (registry : HookRegistry) (id : String) : Option RegisteredHook :=
  registry.hooks.find? id

/-- The hook that seals a field, or the error that there is none. -/
def resolve (registry : HookRegistry) (field id : String) : Except ClauseError RegisteredHook :=
  match registry.get? id with
  | some hook => .ok hook
  | none => .error (.hookFailed field (.unknown id))

/-- The number of hooks. -/
def size (registry : HookRegistry) : Nat := registry.hooks.length

/-- There are no hooks. -/
def isEmpty (registry : HookRegistry) : Bool := registry.hooks.isEmpty

end HookRegistry

end Clauses
