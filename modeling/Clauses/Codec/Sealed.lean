import Clauses.Codec.Decode
import Clauses.Codec.Encode
import Clauses.Hook.Batch
import Clauses.Schema
import Clauses.Wire.Json

/-!
# Sealed values

A property may name a hook. Its values are then sealed: the hook is given the compact JSON text of
the wire value, as bytes, and what it answers is bound as a binary. To read a sealed value back the
inverse of the hook is applied first.

The entries of a map stand in the JSON text as they happen to come. So the bytes that a hook is
given for a value may be others the next time that the value is bound.

* `WireValue.payload` — what a hook is given for a wire value
* `Codec.bind` — what is bound for a value: a wire value, or a call that still has to be made
* `Codec.toWire`, `Codec.fromWire` — both directions without asynchronous hooks
* `Codec.fromWireAsync` — the way back with any hook
-/

namespace Clauses

/-- What the values of all properties have in common. -/
structure Codec where
  /-- The format of dates and instants whose property has none. -/
  dateFormat : Option String
  hooks : HookRegistry

/-- The call of an asynchronous hook that a value waits for. -/
structure Deferred where
  hook : String
  field : String
  task : Task

/-- What is bound to a placeholder. -/
inductive Binding where
  | ready (w : WireValue)
  | deferred (d : Deferred)

/-- The compact JSON text of a wire value, with the entries of its maps as they come. -/
def WireValue.payload (order : MapOrder) (w : WireValue) : Bytes := (w.arranged order).toJson.bytes

/-- Starts an asynchronous call; it learns only at its end whether it is cancelled. -/
def Task.start (transform : Transform) (course : HookContext → Bytes → Course)
    (context : HookContext) (payload : Bytes) : Task where
  course := course context payload
  answer := fun cancelled => transform { context with cancelled } payload

namespace Codec

/-- The codec as it is after `n` values have been written. -/
def later (codec : Codec) (n : Nat) : Codec := { codec with hooks := codec.hooks.later n }

theorem later_later (codec : Codec) (m n : Nat) :
    (codec.later m).later n = codec.later (m + n) := by
  have hwriting : (fun i => codec.hooks.writing (i + n + m))
      = fun i => codec.hooks.writing (i + (m + n)) :=
    funext fun i => congrArg _ (by omega)
  simp only [later, HookRegistry.later, hwriting]

@[simp] theorem later_zero (codec : Codec) : codec.later 0 = codec := rfl

/-! ## To the wire -/

/-- A value of a property, bound as part of an entity. It is the next value that is written. -/
def bind (codec : Codec) (entity : Option String) (cancelled : Bool) (v : Value) (p : Property) :
    Except ClauseError Binding := do
  let w ← v.encode codec.dateFormat p.wireName p.format
  match p.hook with
  | none => return .ready w
  | some id =>
    let context : HookContext := ⟨p.wireName, entity, cancelled⟩
    let payload := w.payload (codec.hooks.writing 0)
    match ← codec.hooks.resolve p.wireName id with
    | .sync hook =>
      let output ← (hook.transform context payload).mapError (.hookFailed p.wireName)
      return .ready (.binary output)
    | .async hook course =>
      return .deferred ⟨id, p.wireName, .start hook.transform course context payload⟩

end Codec

/-- The wire value of a binding that waits for nothing. -/
def Binding.now : Binding → Except ClauseError WireValue
  | .ready w => .ok w
  | .deferred d => .error (.hookFailed d.field (.asynchronous d.hook))

namespace Codec

/-- A value of a property on the wire. -/
def toWire (codec : Codec) (v : Value) (p : Property) : Except ClauseError WireValue := do
  (← codec.bind none false v p).now

/-- Without a hook a value is bound as it is written. -/
theorem toWire_of_hook_none {codec : Codec} {p : Property} (h : p.hook = none) (v : Value) :
    codec.toWire v p = v.encode codec.dateFormat p.wireName p.format := by
  rw [toWire, bind, h]
  cases v.encode codec.dateFormat p.wireName p.format <;> rfl

/-! ## From the wire -/

/-- The bytes of a sealed value. -/
def sealedBytes (field : String) (w : WireValue) : Except ClauseError Bytes :=
  match w.bytes? with
  | some bytes => .ok bytes
  | none => .error (.typeMismatch field .binary w.tag)

/-- A wire value that is not sealed. Its maps are gone through as their entries come. -/
def decodePlain (codec : Codec) (w : WireValue) (kind : ValueKind) (p : Property) :
    Except ClauseError Value :=
  (w.arranged codec.hooks.reading).decode codec.dateFormat p.wireName p.format kind

/-- A value whose seal has been opened. -/
def decodeOpened (codec : Codec) (kind : ValueKind) (p : Property) (opened : Bytes) :
    Except ClauseError Value :=
  match WireValue.ofJson opened with
  | .error fault => .error (.hookFailed p.wireName (.malformedPayload fault))
  | .ok w => codec.decodePlain w kind p

/-- A wire value of a property as a native value, without asynchronous hooks. -/
def fromWire (codec : Codec) (w : WireValue) (kind : ValueKind) (p : Property) :
    Except ClauseError Value := do
  match p.hook with
  | none => codec.decodePlain w kind p
  | some id =>
    let payload ← sealedBytes p.wireName w
    match ← codec.hooks.resolve p.wireName id with
    | .sync hook =>
      let opened ← (hook.inverse ⟨p.wireName, none, false⟩ payload).mapError
        (.hookFailed p.wireName)
      codec.decodeOpened kind p opened
    | .async _ _ => .error (.hookFailed p.wireName (.asynchronous id))

/-- Without a hook a wire value is read as it is. -/
theorem fromWire_of_hook_none {codec : Codec} {p : Property} (h : p.hook = none) (w : WireValue)
    (kind : ValueKind) :
    codec.fromWire w kind p
      = (w.arranged codec.hooks.reading).decode codec.dateFormat p.wireName p.format kind := by
  rw [fromWire, h]
  rfl

/-- The bytes of one asynchronous call. -/
def runAlone (field : String) (cancelled : Bool) (task : Task) : Except ClauseError Bytes :=
  match Batch.run cancelled [task] with
  | .error .cancelled => .error .cancelled
  | .error (.failed _ fault) => .error (.hookFailed field fault)
  | .ok outputs => .ok outputs.flatten

/-- A wire value of a property as a native value. -/
def fromWireAsync (codec : Codec) (cancelled : Bool) (w : WireValue) (kind : ValueKind)
    (p : Property) : Except ClauseError Value := do
  match p.hook with
  | none => codec.decodePlain w kind p
  | some id =>
    let payload ← sealedBytes p.wireName w
    let context : HookContext := ⟨p.wireName, none, cancelled⟩
    match ← codec.hooks.resolve p.wireName id with
    | .sync hook =>
      let opened ← (hook.inverse context payload).mapError (.hookFailed p.wireName)
      codec.decodeOpened kind p opened
    | .async hook course =>
      let opened ← runAlone p.wireName cancelled (.start hook.inverse course context payload)
      codec.decodeOpened kind p opened

end Codec

end Clauses
