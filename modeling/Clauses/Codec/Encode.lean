import Clauses.Binary64.Shortest
import Clauses.Codec.Temporal
import Clauses.Decimal.Reader

/-!
# From native values to the wire

* Texts, truth values, bytes and nothing go over as they are, and no format applies to them.
* A number becomes a number of the wire, or a text if there is a number format.
* A date or an instant takes its own format, or else the one that is the default.
* A set drops the members that it repeats; of each the first stays.
* A list or a map passes its format on to what is in it. Its parts are written before it is looked
  at, so an empty collection deep inside is found before an empty one after it.
-/

namespace Clauses

/-- The members without those that equal an earlier one. -/
def keepFirst {α : Type} (same : α → α → Bool) : List α → List α
  | [] => []
  | a :: rest => a :: (keepFirst same rest).filter fun b => !same a b

namespace Value

/-- The error of a value that its field cannot take. -/
def invalidIn {α : Type} (field : String) (r : Except InvalidValue α) : Except ClauseError α :=
  r.mapError (.invalidValue field)

/-! ## Numbers -/

/-- The number format of a property, if it has one. -/
def numberFormat? (format : Option String) : Except InvalidValue (Option NumberFormat) :=
  match format with
  | none => .ok none
  | some f =>
    match NumberFormat.read? f with
    | some nf => .ok (some nf)
    | none => .error (.notNumberFormat f)

/-- A decimal in a number format, on the wire. -/
def formatted (format : NumberFormat) (d : Decimal) : Except InvalidValue WireValue :=
  match format.render d with
  | .ok t => .ok (.text t)
  | .error fault => .error (.notIntegral fault)

/-- An exact number on the wire: `plain` is its text, and `d` the number. -/
def writeNumber (format : Option String) (plain : String) (d : Decimal) :
    Except InvalidValue WireValue := do
  match ← numberFormat? format with
  | some nf => formatted nf d
  | none => return .number plain

/-- The text of a finite floating point number; zero has no sign. -/
def floatText (x : Float) : String :=
  if x == 0 then "0" else Binary64.text x

/-- A floating point number on the wire. -/
def writeFloat (format : Option String) (x : Float) : Except InvalidValue WireValue := do
  if !Binary64.isFinite x then .error (.notFinite x)
  match ← numberFormat? format with
  | some nf =>
    match Decimal.read? (floatText x) with
    | some d => formatted nf d
    | none => .error (.beyondDecimals x)
  | none => return .number (floatText x)

/-! ## Collections -/

/-- A wire value, unless it is an empty collection. -/
def nonempty (field : String) (w : WireValue) : Except ClauseError WireValue :=
  w.checked.mapError fun e => .emptyCollection field e.tag

mutual

/-- A value on the wire, where `dates` is the format of dates that have none. -/
def encode (dates : Option String) (field : String) (format : Option String) :
    Value → Except ClauseError WireValue
  | .null => .ok (.null true)
  | .bool flag => .ok (.bool flag)
  | .text t => .ok (.text t)
  | .integer n => invalidIn field (writeNumber format (Integer.text n.toInt) (.ofInt64 n))
  | .decimal d => invalidIn field (writeNumber format d.text d)
  | .float x => invalidIn field (writeFloat format x)
  | .binary bytes => .ok (.binary bytes)
  | .timestamp t => invalidIn field ((DateFormat.ofText (format <|> dates)).writeInstant t)
  | .date d => invalidIn field ((DateFormat.ofText (format <|> dates)).writeDate d)
  | .textSet members => nonempty field (.textSet (keepFirst (· == ·) members))
  | .numberSet members =>
    nonempty field (.numberSet
      ((keepFirst (fun a b => decide (a.SameNumber b)) members).map Decimal.text))
  | .binarySet members => nonempty field (.binarySet (keepFirst (· == ·) members))
  | .list items => do nonempty field (.list (← encodeItems dates field format 0 items))
  | .map entries => do nonempty field (.map (← encodeEntries dates field format entries))

/-- The items of a list from index `i` on. -/
def encodeItems (dates : Option String) (field : String) (format : Option String) (i : Nat) :
    List Value → Except ClauseError (List WireValue)
  | [] => .ok []
  | v :: rest => do
    let w ← encode dates (field ++ WireValue.indexStep i) format v
    return w :: (← encodeItems dates field format (i + 1) rest)

/-- The entries of a map. -/
def encodeEntries (dates : Option String) (field : String) (format : Option String) :
    List (String × Value) → Except ClauseError (List (String × WireValue))
  | [] => .ok []
  | (k, v) :: rest => do
    let w ← encode dates (field ++ WireValue.keyStep k) format v
    return (k, w) :: (← encodeEntries dates field format rest)

end

end Value

end Clauses
