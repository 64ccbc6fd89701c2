import Clauses.Calendar.Reader
import Clauses.Error

/-!
# Dates and instants on the wire

A date format is a pattern, or one of two words for the time since the start of the epoch, in
seconds or milliseconds. Without a format dates and instants are written in their ISO form.

* An epoch format gives a number, everything else a text.
* An instant is read along a pattern as an instant with a zone, else as a local time, else as a
  date; a date as a date, else as a local time. The last fault is reported for an instant, and the
  fault of the local time for a date.
-/

namespace Clauses

/-- How dates and instants are written. -/
inductive DateFormat where
  | iso
  | epoch
  | epochMillis
  | pattern (text : String)
deriving DecidableEq

namespace DateFormat

/-- The format that a text names; the words for epochs are known in any letter case. -/
def ofText : Option String → DateFormat
  | none => .iso
  | some f =>
    if Text.sameFolded f.toList "epoch".toList then .epoch
    else if Text.sameFolded f.toList "epoch_millis".toList then .epochMillis
    else .pattern f

/-- The pattern behind a text. -/
def patternOf (text : String) : Except InvalidValue Calendar.Pattern :=
  match Calendar.Pattern.read? text with
  | some p => .ok p
  | none => .error (.badDateFormat text)

/-- A local time along a pattern. -/
def render (text : String) (t : Instant) : Except InvalidValue WireValue := do
  let pattern ← patternOf text
  match pattern.render? t with
  | some cs => .ok (.text (String.ofList cs))
  | none => .error (.noZone text t)

/-! ## Writing -/

/-- The wire form of an instant. -/
def writeInstant (format : DateFormat) (t : Instant) : Except InvalidValue WireValue :=
  match format with
  | .iso => .ok (.text t.isoText)
  | .epoch => .ok (.number (Integer.text t.epochSeconds))
  | .epochMillis => .ok (.number (Integer.text t.epochMillis))
  | .pattern p => render p t

/-- The wire form of a date. -/
def writeDate (format : DateFormat) (d : Date) : Except InvalidValue WireValue :=
  match format with
  | .iso => .ok (.text (String.ofList d.text))
  | format => format.writeInstant (.startOf d)

/-! ## Reading -/

/-- The number of an epoch format. -/
def epochNumber (text : String) : Except InvalidValue Int :=
  match Integer.ofDigits? text.toList with
  | some n => .ok n.toInt
  | none => .error (.notEpoch text)

/-- The instant that a number of seconds stands for. -/
def readEpoch (text : String) : Except InvalidValue Instant := do
  let seconds ← epochNumber text
  match Instant.ofEpoch? seconds 0 with
  | some t => .ok t
  | none => .error (.epochOutOfRange seconds)

/-- The instant that a number of milliseconds stands for. -/
def readEpochMillis (text : String) : Except InvalidValue Instant := do
  let millis ← epochNumber text
  match Instant.ofEpochMillis? millis with
  | some t => .ok t
  | none => .error (.epochMillisOutOfRange millis)

/-- Reads an instant along a pattern. -/
def matchInstant (pattern : Calendar.Pattern) (text : String) :
    Except Calendar.ReadFault Instant :=
  match pattern.readInstant text with
  | .ok t => .ok t
  | .error _ =>
    match pattern.readLocal text with
    | .ok t => .ok t
    | .error _ => (pattern.readDate text).map .startOf

/-- Reads a date along a pattern. -/
def matchDate (pattern : Calendar.Pattern) (text : String) : Except Calendar.ReadFault Date :=
  match pattern.readDate text with
  | .ok d => .ok d
  | .error _ => (pattern.readLocal text).map Instant.date

/-- The instant that a text or number on the wire stands for. -/
def readInstant (format : DateFormat) (text : String) : Except InvalidValue Instant :=
  match format with
  | .iso => (Calendar.readIsoInstant text).mapError (.notInstant text)
  | .epoch => readEpoch text
  | .epochMillis => readEpochMillis text
  | .pattern p => do
    let pattern ← patternOf p
    (matchInstant pattern text).mapError (.noMatch text p)

/-- The date that a text or number on the wire stands for. -/
def readDate (format : DateFormat) (text : String) : Except InvalidValue Date :=
  match format with
  | .iso => (Calendar.Pattern.isoDate.readDate text).mapError (.notDate text)
  | .epoch => (readEpoch text).map Instant.date
  | .epochMillis => (readEpochMillis text).map Instant.date
  | .pattern p => do
    let pattern ← patternOf p
    (matchDate pattern text).mapError (.noMatch text p)

end DateFormat

end Clauses
