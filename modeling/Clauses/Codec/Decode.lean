import Clauses.Binary64.Reader
import Clauses.Codec.Temporal
import Clauses.Decimal.Reader

/-!
# From the wire to native values

A wire value is read as a value of a given type. What lies in a list or a map has the type that the
wire suggests, and no format.

* `NULL` is read as nothing, whatever type is asked for.
* The entries of a map are read in the order in which they come, up to the first that cannot be
  read. The value has them in the order of their keys, whatever that was.
* A text is read as a number only where a number format says that the number was written as one.
* A number of the wire inside a collection is an integer if it fits, else a decimal.
-/

namespace Clauses.WireValue

/-! ## Numbers -/

/-- The digits of a number on the wire. -/
def numberText? (format : Option String) : WireValue → Option String
  | .number t => some t
  | .text t => if (format.bind NumberFormat.read?).isSome then some t else none
  | _ => none

/-- Reads an integer. -/
def readInteger (t : String) : Except InvalidValue Value :=
  match Integer.read? t with
  | some n => .ok (.integer n)
  | none => .error (.notOfKind t .integer)

/-- Reads a decimal. -/
def readDecimal (t : String) : Except InvalidValue Value :=
  match Decimal.read? t with
  | some d => .ok (.decimal d)
  | none => .error (.notOfKind t .decimal)

/-- Reads a finite floating point number. -/
def readFloat (t : String) : Except InvalidValue Value :=
  match Binary64.read? t with
  | some x => .ok (.float x)
  | none => .error (.notOfKind t .float)

/-- Reads the members of a set of numbers. -/
def readNumbers : List String → Except InvalidValue (List Decimal)
  | [] => .ok []
  | t :: rest =>
    match Decimal.read? t with
    | some d => (readNumbers rest).map (d :: ·)
    | none => .error (.notNumber t)

/-- The text of a text or a number. -/
def plainText? : WireValue → Option String
  | .text t | .number t => some t
  | _ => none

/-! ## Values -/

/-- The type that a wire value suggests. -/
def naturalKind : WireValue → ValueKind
  | .text _ => .text
  | .number t => if (Integer.ofDigits? t.toList).isSome then .integer else .decimal
  | .binary _ => .binary
  | .textSet _ => .textSet
  | .numberSet _ => .numberSet
  | .binarySet _ => .binarySet
  | .bool _ => .bool
  | .null _ => .null
  | .list _ => .list
  | .map _ => .map

/-- A wire value without parts as a value of a type: `none` if it is of another. -/
def decodeScalar (dates format : Option String) (kind : ValueKind) (w : WireValue) :
    Except InvalidValue (Option Value) := do
  match kind, w with
  | .bool, .bool flag => return some (.bool flag)
  | .text, .text t => return some (.text t)
  | .binary, .binary bytes => return some (.binary bytes)
  | .integer, w => (numberText? format w).mapM readInteger
  | .decimal, w => (numberText? format w).mapM readDecimal
  | .float, w => (numberText? format w).mapM readFloat
  | .timestamp, w => (plainText? w).mapM fun t => do
    return .timestamp (← (DateFormat.ofText (format <|> dates)).readInstant t)
  | .date, w => (plainText? w).mapM fun t => do
    return .date (← (DateFormat.ofText (format <|> dates)).readDate t)
  | .textSet, .textSet members => return some (.textSet members)
  | .numberSet, .numberSet members => return some (.numberSet (← readNumbers members))
  | .binarySet, .binarySet members => return some (.binarySet members)
  | _, _ => return none

mutual

/-- A wire value as a value of a type, where `dates` is the format of dates that have none. -/
def decode (dates : Option String) (field : String) (format : Option String) (kind : ValueKind)
    (w : WireValue) : Except ClauseError Value :=
  if w.isNull then .ok .null
  else
    match kind, w with
    | .list, .list items => do return .list (← decodeItems dates field 0 items)
    | .map, .map entries => do return .map (Keyed.ofList (← decodeEntries dates field entries))
    | kind, w =>
      match decodeScalar dates format kind w with
      | .ok (some v) => .ok v
      | .ok none => .error (.typeMismatch field kind w.tag)
      | .error reason => .error (.invalidValue field reason)

/-- The items of a list from index `i` on. -/
def decodeItems (dates : Option String) (field : String) (i : Nat) :
    List WireValue → Except ClauseError (List Value)
  | [] => .ok []
  | w :: rest => do
    let v ← decode dates (field ++ indexStep i) none w.naturalKind w
    return v :: (← decodeItems dates field (i + 1) rest)

/-- The entries of a map, one after the other. -/
def decodeEntries (dates : Option String) (field : String) :
    List (String × WireValue) → Except ClauseError (List (String × Value))
  | [] => .ok []
  | (k, w) :: rest => do
    let v ← decode dates (field ++ keyStep k) none w.naturalKind w
    return (k, v) :: (← decodeEntries dates field rest)

end

/-- What is read without looking at parts is the value, and a fault there is one of the field. -/
theorem decode_of_scalar {dates format : Option String} {field : String}
    {kind : ValueKind} {w : WireValue}
    {r : Except InvalidValue Value} (h : decodeScalar dates format kind w = r.map some) :
    w.decode dates field format kind = r.mapError (.invalidValue field) := by
  have hnull : w.isNull = false := by
    cases w with
    | null flag => cases kind <;> cases r <;> cases h
    | _ => rfl
  unfold decode
  rw [if_neg (ne_true_of_eq_false hnull)]
  split
  · cases r <;> cases h
  · cases r <;> cases h
  · rw [h]
    cases r <;> rfl

end Clauses.WireValue
