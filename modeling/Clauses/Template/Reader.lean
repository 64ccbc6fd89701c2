import Clauses.Expression.Binder
import Clauses.Expression.Reserved
import Clauses.Template.Token

/-!
# Reading templates

A template is written out as it stands, but for its slots and its reserved words. A slot becomes a
value placeholder for its argument, and a reserved word becomes a name placeholder for itself.
Placeholders in a template have to be known already.

The argument of a slot is bound in the way of the property that stands before it: the last
attribute that was written out, or that is behind the last name placeholder. That property counts
only where the slot is compared with all of it: not behind `size`, not as the type that
`attribute_type` asks for, and not where the path goes on into the attribute.

* `Template.translate` — the text that a template is written out to
-/

namespace Clauses.Template

/-- The attribute that slots are compared with. -/
structure Subject where
  attributeName : String
  /-- The slot is not compared with the attribute itself. -/
  isPlain : Bool

/-- What has been read, as far as it matters for what follows. -/
structure Context where
  subject : Option Subject
  /-- Nothing but white space has been read since the subject. -/
  isOpen : Bool
  /-- A dot has been read, behind which a word is part of a path. -/
  afterDot : Bool
  /-- The function whose first argument comes next. -/
  function : Option Builtin

namespace Context

/-- The start of a template. -/
def start : Context := ⟨none, false, false, none⟩

/-- An attribute has been read. -/
def openSubject (ctx : Context) (attributeName : String) : Context :=
  { ctx with
    subject := some ⟨attributeName,
      ctx.function == some .size || ctx.function == some .attributeType⟩
    isOpen := true
    function := none }

/-- Something has been read behind which the subject cannot go on. -/
def closeSubject (ctx : Context) : Context := { ctx with isOpen := false, afterDot := false }

/-- A character that is no part of a word has been read. -/
def pass (ctx : Context) (c : Char) : Context :=
  { ctx with
    subject :=
      if ctx.isOpen && (c == '.' || c == '[') then
        ctx.subject.map fun s => { s with isPlain := true }
      else ctx.subject
    isOpen := false
    afterDot := c == '.' }

end Context

/-- The words of the grammar. -/
def keywords : List String :=
  ["and", "or", "not", "between", "in", "set", "remove", "add", "delete"]

/-- The word belongs to the grammar, in any letter case. -/
def isKeyword (word : List Char) : Bool := keywords.contains (String.ofList (Text.lower word))

/-- What is given along with a template. -/
structure Input where
  template : String
  arguments : List Value
  schema : Option Schema
  /-- Reserved words are replaced. -/
  aliasReserved : Bool

/-- The error of a fault at a position. -/
def Input.malformed (input : Input) (position : Nat) (fault : TemplateFault) : ClauseError :=
  .malformedTemplate input.template position fault

/-! ## Slots -/

/-- The property whose values a slot takes, if the schema knows it. -/
def knownProperty? (schema : Option Schema) (ctx : Context) : Option Property := do
  let subject ← ctx.subject
  let schema ← schema
  if subject.isPlain then none else schema.ofWireName? subject.attributeName

/-- The name of a slot that stands behind no attribute. -/
def slotName (index : Nat) : String :=
  String.ofList ('\x7b' :: Nat.toDigits 10 index ++ ['\x7d'])

/-- How the argument of a slot is bound; a format in the slot comes first. -/
def slotProperty (schema : Option Schema) (ctx : Context) (index : Nat) (format : Option String) :
    Property :=
  let property :=
    match knownProperty? schema ctx with
    | some p => p
    | none => .plain ((ctx.subject.map Subject.attributeName).getD (slotName index))
  match format with
  | some f => property.withFormat f
  | none => property

/-- Reads a slot. -/
def readSlot (b : Binder) (input : Input) (ctx : Context) (position index : Nat)
    (format : Option String) : Drafting (List Char × Context) := do
  match input.arguments[index]? with
  | none => throw (input.malformed position (.noArgument index input.arguments.length))
  | some v =>
    let token ← b.value v (slotProperty input.schema ctx index format)
    return (token.toList, ctx.closeSubject)

/-! ## Placeholders and words -/

/-- Reads a placeholder. -/
def readPlaceholder (ctx : Context) (sigil : Sigil) (word : List Char) :
    Drafting (List Char × Context) := do
  let token ← Draft.reuse (String.ofList (sigil.char :: word))
  if sigil = .name ∧ !ctx.afterDot then
    match (← get).attribute? token with
    | some attributeName =>
      return (token.toList, { ctx.openSubject attributeName with afterDot := false })
    | none => return (token.toList, { ctx with subject := none, afterDot := false })
  else return (token.toList, ctx.closeSubject)

/-- Reads a word that names an attribute. -/
def readAttribute (input : Input) (ctx : Context) (word : List Char) :
    Drafting (List Char × Context) := do
  let attributeName := String.ofList word
  let ctx := { (if ctx.afterDot then ctx else ctx.openSubject attributeName)
    with afterDot := false }
  if input.aliasReserved && isReserved word then
    let token ← Draft.bindName attributeName
    return (token.toList, ctx)
  else return (word, ctx)

/-- Reads a word. -/
def readWord (input : Input) (ctx : Context) (position : Nat) (word : List Char) (called : Bool) :
    Drafting (List Char × Context) :=
  if !ctx.afterDot && isKeyword word then return (word, { ctx with isOpen := false })
  else if called then
    match Builtin.ofName? word with
    | none => throw (input.malformed position (.unknownFunction (String.ofList word)))
    | some f => return (word, { ctx.closeSubject with function := some f })
  else readAttribute input ctx word

/-! ## Templates -/

/-- Reads a token. -/
def readToken (b : Binder) (input : Input) (ctx : Context) (p : Placed) :
    Drafting (List Char × Context) :=
  match p.token with
  | .brace c => return ([c], ctx)
  | .slot index format => readSlot b input ctx p.position index format
  | .placeholder sigil word => readPlaceholder ctx sigil word
  | .word text called => readWord input ctx p.position text called
  | .blank c => return ([c], ctx)
  | .mark c => return ([c], ctx.pass c)

/-- Reads tokens one after the other. -/
def readTokens (b : Binder) (input : Input) (ctx : Context) :
    List Placed → Drafting (List Char)
  | [] => return []
  | p :: rest => do
    let (text, ctx) ← readToken b input ctx p
    return text ++ (← readTokens b input ctx rest)

/-- Translates a template. -/
def translate (b : Binder) (input : Input) : Drafting (List Char) := do
  let lexed := lex input.template
  let text ← readTokens b input .start lexed.tokens
  match lexed.fault with
  | none => return text
  | some (position, fault) => throw (input.malformed position fault)

end Clauses.Template
