import Clauses.Expression.Binder
import Clauses.Expression.Condition

/-!
# Predicates

A predicate is what a caller asks for, in terms of properties and native values. It is translated
from left to right: each property gets a name placeholder and each value a value placeholder, in
the order in which they come in the text.

* `Predicate.translate` — the condition that says the same on the wire

Negation moves inwards as far as it can. Two of them cancel, a junction of one part is that part, a
comparison turns into its inverse, and only where nothing of this helps does `NOT` stay. Ranges and
beginnings cannot be negated at all.

Conditions on keys are few: no sizes, no `OR`, no `NOT`, and only ordered comparisons.
-/

namespace Clauses

/-- What a caller compares. -/
inductive Subject where
  | property (name : String)
  | size (property : String)

/-- An argument that a caller gives to a function. -/
inductive Argument where
  | property (name : String)
  | operand (o : Operand)

/-- What a caller asks for. -/
inductive Predicate where
  | compare (subject : Subject) (op : Operator) (operands : List Operand)
  | call (f : Builtin) (arguments : List Argument)
  | and (parts : List Predicate)
  | or (parts : List Predicate)
  | not (p : Predicate)

/-- The property that a subject is about. -/
def Subject.propertyName : Subject → String
  | .property name => name
  | .size name => name

/-- The left side of a comparison with the attribute behind a placeholder. -/
def Subject.compared (name : String) : Subject → Compared
  | .property _ => .attribute name
  | .size _ => .size name

/-- How a subject is compared: a size is a plain number, whatever the property is. -/
def Subject.policy (p : Property) : Subject → Property
  | .property _ => p
  | .size _ => p.bare

/-- The operator may be used in a condition on keys. -/
def Operator.isForKeys : Operator → Bool
  | .equal | .less | .lessOrEqual | .greater | .greaterOrEqual | .between | .beginsWith => true
  | .notEqual | .contains | .among => false

namespace Predicate

/-- The error of something that the language does not have. -/
def unsupported {α : Type} (u : Unsupported) : Drafting α := throw (.unsupported u)

/-! ## Comparisons -/

/-- Refuses what is not for keys. -/
def checkComparison (kind : ClauseKind) (subject : Subject) (op : Operator) : Drafting Unit := do
  if kind = .keyCondition then
    match subject with
    | .size _ => unsupported (.inKeyCondition (.builtin .size))
    | .property _ =>
      if !op.isForKeys then unsupported (.inKeyCondition (.operator op))

/-- Translates a comparison. -/
def comparison (b : Binder) (schema : Schema) (subject : Subject) (op : Operator)
    (operands : List Operand) : Drafting Condition := do
  if !decide (op.arity.Admits operands.length) then
    throw (.operandCount (.operator op) op.arity operands.length)
  let p ← schema.resolve subject.propertyName
  let name ← p.bindName
  let values ← operands.mapM fun o => b.operand o (subject.policy p)
  return .compare (subject.compared name) op values

/-- Translates a comparison or its negation. -/
def comparisonOrNot (b : Binder) (schema : Schema) (negate : Bool) (subject : Subject)
    (op : Operator) (operands : List Operand) : Drafting Condition :=
  if negate then
    match op.negation with
    | .inverted opposite => comparison b schema subject opposite operands
    | .wrapped => .not <$> comparison b schema subject op operands
    | .refused => unsupported (.negated (.operator op))
  else comparison b schema subject op operands

/-! ## Calls -/

/-- The error of arguments that are not those expected. -/
def wrongArguments (f : Builtin) (expected : Arguments) (found : Nat) : ClauseError :=
  if found = expected.count then .unsupported (.arguments f expected)
  else .operandCount (.builtin f) (.exactly expected.count) found

/-- Refuses a type that is none; a placeholder is not looked into. -/
def checkTag (field : String) : Operand → Except ClauseError Unit
  | .placeholder _ => .ok ()
  | .value (.text t) =>
    if (Tag.ofName? t).isSome then .ok () else .error (.invalidValue field (.notTag t))
  | .value v => .error (.invalidValue field (.tagOfKind v.kind))

/-- Translates a call. -/
def invocation (b : Binder) (schema : Schema) (f : Builtin) (arguments : List Argument) :
    Drafting Condition :=
  match f.arguments? with
  | none => unsupported (.notCondition f)
  | some expected =>
    match expected, arguments with
    | .property, [.property property] => do
      let p ← schema.resolve property
      return .call f (← p.bindName) none
    | .propertyAndType, [.property property, .operand o] => do
      let p ← schema.resolve property
      checkTag p.wireName o
      let name ← p.bindName
      return .call f name (some (← b.operand o p.bare))
    | .propertyAndValue, [.property property, .operand o] => do
      let p ← schema.resolve property
      let name ← p.bindName
      return .call f name (some (← b.operand o p))
    | expected, arguments => throw (wrongArguments f expected arguments.length)

/-- Translates a call or its negation. -/
def invocationOrNot (b : Binder) (schema : Schema) (negate : Bool) (f : Builtin)
    (arguments : List Argument) : Drafting Condition :=
  if negate then
    match f.negation with
    | .inverted opposite => invocation b schema opposite arguments
    | .wrapped => .not <$> invocation b schema f arguments
    | .refused => unsupported (.negated (.builtin f))
  else invocation b schema f arguments

/-! ## Trees -/

mutual

/-- Translates a predicate or its negation. -/
def translate (b : Binder) (schema : Schema) (kind : ClauseKind) (negate : Bool) :
    Predicate → Drafting Condition
  | .compare subject op operands => do
    checkComparison kind subject op
    comparisonOrNot b schema negate subject op operands
  | .call f arguments => do
    if kind = .keyCondition ∧ f ≠ .beginsWith then unsupported (.inKeyCondition (.builtin f))
    invocationOrNot b schema negate f arguments
  | .and parts => junction b schema kind negate .and parts
  | .or parts => do
    if kind = .keyCondition then unsupported (.inKeyCondition (.connective .or))
    junction b schema kind negate .or parts
  | .not p => do
    if kind = .keyCondition then unsupported (.inKeyCondition .negation)
    translate b schema kind (!negate) p

/-- Translates a junction or its negation. -/
def junction (b : Binder) (schema : Schema) (kind : ClauseKind) (negate : Bool) (c : Connective) :
    List Predicate → Drafting Condition
  | [] => unsupported (.emptyJunction c)
  | [p] => translate b schema kind negate p
  | p :: others => do
    let first ← translate b schema kind false p
    return Condition.negatedIf negate (.join c first (← translateAll b schema kind others))

/-- Translates the parts of a junction. -/
def translateAll (b : Binder) (schema : Schema) (kind : ClauseKind) :
    List Predicate → Drafting (List Condition)
  | [] => return []
  | p :: rest => do
    let first ← translate b schema kind false p
    return first :: (← translateAll b schema kind rest)

end

end Predicate

end Clauses
