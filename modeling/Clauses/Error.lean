import Clauses.Binary64.Shortest
import Clauses.Calendar.Fields
import Clauses.Calendar.Render
import Clauses.ClauseKind
import Clauses.Decimal.Format
import Clauses.Decimal.Integer
import Clauses.Expression.Operator
import Clauses.Json.Fault
import Clauses.Text.Quoted
import Clauses.Value

/-!
# Errors

Everything that can keep a clause from being translated or a value from being bound or read back,
as causes. The wording stands in the `message` functions and nowhere else.

* `ClauseError` — what callers get
* `ClauseError.identifier?` — the property, field, operator or placeholder that is to blame
-/

namespace Clauses

/-! ## Values -/

/-- Why a value has no wire form, or a wire value no native one. -/
inductive InvalidValue where
  /-- The format of a number property is no number format. -/
  | notNumberFormat (format : String)
  | notIntegral (fault : NumberFormat.NotIntegral)
  | notFinite (x : Float)
  | beyondDecimals (x : Float)
  | badDateFormat (pattern : String)
  /-- The pattern asks for a zone, which a local time does not have. -/
  | noZone (pattern : String) (t : Instant)
  | notInstant (text : String) (fault : Calendar.ReadFault)
  | notDate (text : String) (fault : Calendar.ReadFault)
  | notEpoch (text : String)
  | epochOutOfRange (seconds : Int)
  | epochMillisOutOfRange (millis : Int)
  | noMatch (text pattern : String) (fault : Calendar.ReadFault)
  | notOfKind (text : String) (kind : ValueKind)
  | notNumber (text : String)
  | notTag (text : String)
  /-- A type is named by something that is no text. -/
  | tagOfKind (kind : ValueKind)
deriving DecidableEq

/-- The reason in words. -/
def InvalidValue.message : InvalidValue → String
  | .notNumberFormat format => s!"'{format}' is not a numeric format"
  | .notIntegral fault => s!"D{fault.width} requires an integral value, got {fault.value.text}"
  | .notFinite x => s!"{Binary64.text x} has no wire representation"
  | .beyondDecimals x => s!"{Binary64.text x} exceeds decimal range"
  | .badDateFormat pattern => s!"invalid date format '{pattern}'"
  | .noZone pattern t => s!"format '{pattern}' needs fields a {t.plainText} cannot supply"
  | .notInstant text fault => s!"'{text}' is not an ISO-8601 timestamp: {fault.message}"
  | .notDate text fault => s!"'{text}' is not an ISO-8601 date: {fault.message}"
  | .notEpoch text => s!"'{text}' is not an epoch number"
  | .epochOutOfRange seconds => s!"epoch {Integer.text seconds} out of range"
  | .epochMillisOutOfRange millis => s!"epoch millis {Integer.text millis} out of range"
  | .noMatch text pattern fault => s!"'{text}' does not match '{pattern}': {fault.message}"
  | .notOfKind text kind => s!"'{text}' is not a valid {kind.name}"
  | .notNumber text => s!"'{text}' is not a number"
  | .notTag text =>
    s!"'{text}' is not an attribute type (" ++ ", ".intercalate (Tag.all.map Tag.name) ++ ")"
  | .tagOfKind kind => s!"attribute type must be a string, got {kind.name}"

/-! ## Hooks -/

/-- Why a hook gave no bytes. -/
inductive HookFault where
  | unknown (id : String)
  /-- The hook needs time, which a synchronous translation does not have. -/
  | asynchronous (id : String)
  /-- What the inverse of the hook gave back is no wire value. -/
  | malformedPayload (fault : Json.Fault)
  | cancelled
  /-- The hook failed for a reason of its own. -/
  | failed (message : String)
deriving DecidableEq

/-- The fault in words. -/
def HookFault.message : HookFault → String
  | .unknown id => s!"No value transform registered as '{id}'"
  | .asynchronous id =>
    s!"Value transform '{id}' is asynchronous; use the async translation path"
  | .malformedPayload fault => s!"Malformed transform payload: {fault.message}"
  | .cancelled => "Value transform cancelled"
  | .failed message => message

/-! ## Expressions -/

/-- A part of the expression language. -/
inductive Construct where
  | operator (op : Operator)
  | builtin (f : Builtin)
  | connective (c : Connective)
  | negation
deriving DecidableEq

/-- The part as it is written. -/
def Construct.text : Construct → String
  | .operator op => op.text
  | .builtin f => f.name
  | .connective c => c.text
  | .negation => "NOT"

/-- What the expression language cannot say. -/
inductive Unsupported where
  | predicateIn (kind : ClauseKind)
  | inKeyCondition (construct : Construct)
  | emptyJunction (c : Connective)
  | negated (construct : Construct)
  | notCondition (f : Builtin)
  | arguments (f : Builtin) (expected : Arguments)
  | emptyUpdate
  | nestedArithmetic
  | emptyProjection
deriving DecidableEq

namespace Unsupported

/-- What was asked for. -/
def subject : Unsupported → String
  | .predicateIn kind => kind.field
  | .inKeyCondition construct | .negated construct => construct.text
  | .emptyJunction c => c.text
  | .notCondition f | .arguments f _ => f.name
  | .emptyUpdate => "UPDATE"
  | .nestedArithmetic => "SET"
  | .emptyProjection => "PROJECTION"

/-- What is wrong with it. -/
def reason : Unsupported → String
  | .predicateIn _ => "does not take a predicate"
  | .inKeyCondition _ => "not allowed in " ++ ClauseKind.keyCondition.field
  | .emptyJunction _ => "needs at least one operand"
  | .negated _ => "cannot be negated"
  | .notCondition _ => "is not a condition function"
  | .arguments _ expected => "expects arguments " ++ expected.words
  | .emptyUpdate => "an update needs at least one action"
  | .nestedArithmetic => "arithmetic cannot be nested"
  | .emptyProjection => "a projection needs at least one property"

end Unsupported

/-! ## Templates -/

/-- What is wrong with a template. -/
inductive TemplateFault where
  | openBrace
  | closeBrace
  | slotNotNumeric
  | emptyFormat
  | slotTooLarge (digits : String)
  | noArgument (slot supplied : Nat)
  | noName (sigil : Char)
  | unknownFunction (word : String)
deriving DecidableEq

/-- The fault in words. -/
def TemplateFault.message : TemplateFault → String
  | .openBrace => "unbalanced '\x7b'"
  | .closeBrace => "unbalanced '\x7d'"
  | .slotNotNumeric => "slot index must be numeric"
  | .emptyFormat => "empty slot format"
  | .slotTooLarge digits => s!"slot index {digits} is too large"
  | .noArgument slot supplied =>
    "slot \x7b" ++ s!"{slot}" ++ "\x7d has no argument (" ++ s!"{supplied} supplied)"
  | .noName sigil => "expected a name after '" ++ String.singleton sigil ++ "'"
  | .unknownFunction word => s!"unknown function '{word}'"

/-! ## Errors -/

/-- Why a call failed. -/
inductive ClauseError where
  | malformedTemplate (template : String) (position : Nat) (fault : TemplateFault)
  | unknownProperty (entity property : String)
  | emptyCollection (field : String) (tag : Tag)
  | unsupported (u : Unsupported)
  | hookFailed (field : String) (fault : HookFault)
  | invalidValue (field : String) (reason : InvalidValue)
  | typeMismatch (field : String) (expected : ValueKind) (found : Tag)
  | operandCount (construct : Construct) (arity : Arity) (found : Nat)
  | unresolvedPlaceholder (placeholder : String)
  | duplicateClause (kind : ClauseKind)
  | cancelled
deriving DecidableEq

namespace ClauseError

/-- The error in words. -/
def message : ClauseError → String
  | .malformedTemplate template position fault =>
    s!"Malformed template at offset {position}: {fault.message} (template: " ++
      Text.quoted template ++ ")"
  | .unknownProperty entity property => s!"Unknown property '{property}' on entity '{entity}'"
  | .emptyCollection field tag => s!"Empty {tag.name} collection bound to '{field}'"
  | .unsupported u => s!"Unsupported operation {u.subject}: {u.reason}"
  | .hookFailed field fault => s!"Value transform failed for '{field}': {fault.message}"
  | .invalidValue field reason => s!"Invalid value for '{field}': {reason.message}"
  | .typeMismatch field expected found =>
    s!"Type mismatch for '{field}': expected {expected.name}, found {found.name}"
  | .operandCount construct arity found =>
    s!"Operator {construct.text} takes {arity.words} operand(s), got {found}"
  | .unresolvedPlaceholder placeholder => s!"Unresolved placeholder: {placeholder}"
  | .duplicateClause kind => s!"{kind.field} is already set on this request"
  | .cancelled => "Translation cancelled"

/-- What is to blame: a template, property, field, operation or placeholder. -/
def identifier? : ClauseError → Option String
  | .malformedTemplate template _ _ => some template
  | .unknownProperty _ property => some property
  | .emptyCollection field _ | .hookFailed field _ | .invalidValue field _
  | .typeMismatch field _ _ => some field
  | .unsupported u => some u.subject
  | .operandCount construct _ _ => some construct.text
  | .unresolvedPlaceholder placeholder => some placeholder
  | .duplicateClause kind => some kind.field
  | .cancelled => none

end ClauseError

end Clauses
