import Clauses.Hook.Basic

/-!
# Batches of asynchronous calls

The asynchronous calls of a clause run side by side, in rounds. Each round first looks whether
somebody has cancelled, and then gives every call that is not done its turn. A cancellation ends the
batch one round later; a failure ends it with the round.

* A small batch gives the turns in order, and the first call that fails ends it.
* A large batch goes through its calls forwards and backwards by turns. A failure counts only when
  all calls before it are finished, so it is the first in order that ends the batch, though others
  may have failed long before.

* `Batch.run` — the bytes of all calls, in order, or what ended the batch

## Termination

After the longest delay each call has had its last turn: it is done, or it has cancelled and the
next round is not played. So one round more than that is enough.
-/

namespace Clauses

/-- An asynchronous call that has been started. -/
structure Task where
  course : Course
  /-- The answer, given whether everything is cancelled by then. -/
  answer : (cancelled : Bool) → Except HookFault Bytes

namespace Batch

/-- A call, and what has become of it. -/
inductive Slot where
  | waiting (task : Task)
  | finished (bytes : Bytes)
  | failed (fault : HookFault)

/-- Why a batch ended without its bytes. -/
inductive Fault where
  | cancelled
  /-- The call at this place failed. -/
  | failed (place : Nat) (fault : HookFault)
deriving DecidableEq

/-! ## Rounds -/

/-- The slot of an answer. -/
def Slot.ofAnswer : Except HookFault Bytes → Slot
  | .ok bytes => .finished bytes
  | .error fault => .failed fault

/-- A call after its turn in a round; the flag tells whether everything is cancelled by then. -/
def Slot.turn (round : Nat) (cancelled : Bool) : Slot → Bool × Slot
  | .waiting task =>
    if round < task.course.delay then (cancelled, .waiting task)
    else if task.course.cancels && round == task.course.delay then (true, .waiting task)
    else (cancelled, .ofAnswer (task.answer cancelled))
  | slot => (cancelled, slot)

/-- Gives each call its turn. -/
def playForwards (round : Nat) : (cancelled : Bool) → List Slot → Bool × List Slot
  | cancelled, [] => (cancelled, [])
  | cancelled, slot :: slots =>
    let (cancelled, slot) := slot.turn round cancelled
    let (cancelled, slots) := playForwards round cancelled slots
    (cancelled, slot :: slots)

/-- Gives each call its turn, from the last to the first. -/
def playBackwards (round : Nat) (cancelled : Bool) (slots : List Slot) : Bool × List Slot :=
  let (cancelled, slots) := playForwards round cancelled slots.reverse
  (cancelled, slots.reverse)

/-- Plays a round, in which nobody has cancelled so far. -/
def playRound (large : Bool) (round : Nat) (slots : List Slot) : Bool × List Slot :=
  if large && round % 2 == 1 then playBackwards round false slots
  else playForwards round false slots

/-! ## The end -/

/-- The failure that ends the batch, if any does, among the calls from `place` on. -/
def failure? (large : Bool) (place : Nat) : List Slot → Option Fault
  | [] => none
  | .finished _ :: slots => failure? large (place + 1) slots
  | .failed fault :: _ => some (.failed place fault)
  | .waiting _ :: slots => if large then none else failure? large (place + 1) slots

/-- The bytes of all calls, if all are finished. -/
def collect? : List Slot → Option (List Bytes)
  | [] => some []
  | .finished bytes :: slots => (collect? slots).map (bytes :: ·)
  | _ :: _ => none

/-- Plays at most `left` rounds, the first of which is `round`. -/
def playFrom (large : Bool) (round : Nat) (cancelled : Bool) (slots : List Slot) :
    (left : Nat) → Except Fault (List Bytes)
  | 0 => .error .cancelled
  | left + 1 =>
    if cancelled then .error .cancelled
    else
      let (cancelled, slots) := playRound large round slots
      match failure? large 0 slots, collect? slots with
      | some fault, _ => .error fault
      | none, some bytes => .ok bytes
      | none, none => playFrom large (round + 1) cancelled slots left

/-! ## Batches -/

/-- The most calls that a small batch has. -/
def maxSmall : Nat := 30

/-- The longest delay of some calls. -/
def longestDelay (tasks : List Task) : Nat := (tasks.map fun t => t.course.delay).foldl max 0

/-- Runs calls side by side. -/
def run (cancelled : Bool) (tasks : List Task) : Except Fault (List Bytes) :=
  playFrom (maxSmall < tasks.length) 0 cancelled (tasks.map .waiting) (longestDelay tasks + 1)

end Batch

end Clauses
