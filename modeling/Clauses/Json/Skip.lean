import Clauses.Json.Literal
import Clauses.Json.Number

/-!
# Passing over a JSON value

The value of a key that a record does not know is read and forgotten. Unlike a value that is kept
it may nest to any depth: the brackets that are still open stand in a list.

## Termination

Each step leaves less of the text behind it; a step that did not would end the reading.
-/

namespace Clauses.Json

/-- White space between the parts of a JSON text. -/
def isBlankByte (b : UInt8) : Bool := b == 32 || b == 10 || b == 9 || b == 13

/-- The text without the white space it starts with. -/
def dropBlanks (s : Bytes) : Bytes := s.dropWhile isBlankByte

/-- Reads the rest of a word, of which the first letter has been read. -/
def expectWord : (word s : Bytes) → Except Fault Bytes
  | [], s => .ok s
  | _ :: _, [] => .error .endOfValue
  | w :: word, b :: s => if b == w then expectWord word s else .error .expectedWord

/-- The letters after the first of the words that are values. -/
def wordTail? (b : UInt8) : Option Bytes :=
  if b == 110 then some [117, 108, 108]
  else if b == 116 then some [114, 117, 101]
  else if b == 102 then some [97, 108, 115, 101]
  else none

/-- An open bracket. -/
inductive Bracket where
  | list
  | object
deriving DecidableEq

/-- What comes next while a value is passed over. -/
inductive Awaited where
  /-- A value. -/
  | value
  /-- A key and the colon behind it. -/
  | key
  /-- What stands behind a value. -/
  | separator
deriving DecidableEq

/-- Passes over a value that is no list and no object. -/
def skipScalar (b : UInt8) (rest : Bytes) : Except Fault Bytes :=
  match wordTail? b with
  | some word => expectWord word rest
  | none =>
    if b == 34 then skipLiteral rest
    else if b == 45 then skipNumber rest
    else if isDigit b then skipNumber (b :: rest)
    else .error .expectedValue

/-- The text ends inside a bracket. -/
def Bracket.ended : Bracket → Fault
  | .list => .endOfList
  | .object => .endOfObject

/-- The byte that closes a bracket. -/
def Bracket.closing : Bracket → UInt8
  | .list => 93
  | .object => 125

/-- What comes first inside a bracket. -/
def Bracket.awaited : Bracket → Awaited
  | .list => .value
  | .object => .key

/-- After an opened bracket: the bracket that closes it, or its first value or key. -/
def skipOpened (bracket : Bracket) (stack : List Bracket) (rest : Bytes) :
    Except Fault (Awaited × List Bracket × Bytes) :=
  match dropBlanks rest with
  | [] => .error bracket.ended
  | b :: rest =>
    if b == bracket.closing then .ok (.separator, stack, rest)
    else .ok (bracket.awaited, bracket :: stack, b :: rest)

/-- Passes over a key and its colon. -/
def skipKey (s : Bytes) : Except Fault Bytes :=
  match dropBlanks s with
  | [] => .error .endOfObject
  | b :: rest =>
    if b != 34 then .error .keyMustBeText
    else
      match skipLiteral rest with
      | .error e => .error e
      | .ok rest =>
        match dropBlanks rest with
        | [] => .error .endOfObject
        | b :: rest => if b == 58 then .ok rest else .error .expectedColon

/-- One step, which starts with one of the `stack` of open brackets. -/
def skipStep (awaited : Awaited) (stack : List Bracket) (s : Bytes) :
    Except Fault (Awaited × List Bracket × Bytes) :=
  match awaited with
  | .value =>
    match dropBlanks s with
    | [] => .error .endOfValue
    | b :: rest =>
      if b == 91 then skipOpened .list stack rest
      else if b == 123 then skipOpened .object stack rest
      else (skipScalar b rest).map fun rest => (.separator, stack, rest)
  | .key => (skipKey s).map fun rest => (.value, stack, rest)
  | .separator =>
    match stack, dropBlanks s with
    | [], s => .ok (.separator, [], s)
    | bracket :: _, [] => .error bracket.ended
    | bracket :: stack, b :: rest =>
      if b == 44 then .ok (bracket.awaited, bracket :: stack, rest)
      else if b == bracket.closing then .ok (.separator, stack, rest)
      else match bracket with
        | .list => .error .expectedListEnd
        | .object => .error .expectedObjectEnd

/-- Steps until every bracket is closed. -/
def skipFrom (awaited : Awaited) (stack : List Bracket) (s : Bytes) : Except Fault Bytes :=
  if awaited = .separator ∧ stack = [] then .ok s
  else
    match skipStep awaited stack s with
    | .error e => .error e
    | .ok (awaited, stack, rest) =>
      if rest.length < s.length then skipFrom awaited stack rest else .error .expectedValue
termination_by s.length

/-- Passes over one value. -/
def skipValue (s : Bytes) : Except Fault Bytes := skipFrom .value [] s

end Clauses.Json
