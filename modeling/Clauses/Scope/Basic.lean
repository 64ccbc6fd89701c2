import Clauses.Config
import Clauses.Error
import Clauses.Keyed
import Clauses.Wire.Value

/-!
# Scopes

A scope holds the placeholders of one request: two tables, of names and of values, and for each of
them the number that its next placeholder gets. A placeholder is written with its sigil, the prefix
of its kind and its number. Nothing in a table keeps an entry from being overwritten; that this
never happens is a matter of the numbers (`Clauses/Proofs/Numbering.lean`).

What is done to a scope may fail, and then leaves behind the scope as it is at that moment.

* `Scope.nameToken`, `Scope.valueToken` — the placeholder with a number
* `Scope.mintName`, `Scope.mintValue` — the next placeholder, bound to something
* `Scope.attribute?`, `Scope.value?` — what a placeholder is bound to
-/

namespace Clauses

/-- The placeholders of a request and what they are bound to. -/
structure Scope where
  /-- Stands behind the `#` of name placeholders. -/
  namePrefix : String
  /-- Stands behind the `:` of value placeholders. -/
  valuePrefix : String
  /-- The attributes behind the name placeholders. -/
  nameTable : Keyed String
  /-- The wire values behind the value placeholders. -/
  valueTable : Keyed WireValue
  /-- The number of the next name placeholder. -/
  nameCount : Nat
  /-- The number of the next value placeholder. -/
  valueCount : Nat
deriving DecidableEq

/-- What is done to a scope; a failure leaves it as it is at that moment. -/
abbrev Scoped (α : Type) := EStateM ClauseError Scope α

/-- Whether two steps have come to the same, and left the same behind, is decided. -/
instance decidableEqResult {α : Type} [DecidableEq α] :
    DecidableEq (EStateM.Result ClauseError Scope α)
  | .ok a s, .ok a' s' => decidable_of_iff (a = a' ∧ s = s') (by simp)
  | .error e s, .error e' s' => decidable_of_iff (e = e' ∧ s = s') (by simp)
  | .ok _ _, .error _ _ | .error _ _, .ok _ _ => .isFalse nofun

namespace Scope

/-- The scope without placeholders. -/
def ofConfig (config : Config) : Scope := ⟨config.namePrefix, config.valuePrefix, [], [], 0, 0⟩

/-! ## Placeholders -/

/-- The name placeholder with a number. -/
def nameToken (s : Scope) (i : Nat) : String :=
  String.ofList ('#' :: s.namePrefix.toList ++ Nat.toDigits 10 i)

/-- The value placeholder with a number. -/
def valueToken (s : Scope) (i : Nat) : String :=
  String.ofList (':' :: s.valuePrefix.toList ++ Nat.toDigits 10 i)

/-! ## Look-up -/

/-- The attribute behind a name placeholder. -/
def attribute? (s : Scope) (token : String) : Option String := s.nameTable.find? token

/-- The wire value behind a value placeholder. -/
def value? (s : Scope) (token : String) : Option WireValue := s.valueTable.find? token

/-- The placeholder, of either kind, has been minted. -/
def contains (s : Scope) (token : String) : Bool :=
  match token.toList.head? with
  | some '#' => (s.attribute? token).isSome
  | some ':' => (s.value? token).isSome
  | _ => false

/-! ## Minting -/

/-- The scope with more placeholders, entered one after the other. -/
def enter (s : Scope) (names : List (String × String)) (values : List (String × WireValue)) :
    Scope :=
  { s with
    nameTable := s.nameTable.extend names
    valueTable := s.valueTable.extend values
    nameCount := s.nameCount + names.length
    valueCount := s.valueCount + values.length }

/-- Mints the next name placeholder, bound to an attribute. -/
def mintName (attributeName : String) : Scoped String := do
  let s ← get
  let token := s.nameToken s.nameCount
  set { s with nameCount := s.nameCount + 1, nameTable := s.nameTable.insert token attributeName }
  return token

/-- Mints the next value placeholder, bound to a wire value without empty collections. -/
def mintValue (w : WireValue) : Scoped String := do
  let s ← get
  let token := s.valueToken s.valueCount
  match w.findEmpty with
  | some e => throw (.emptyCollection (token ++ e.path) e.tag)
  | none =>
    set { s with valueCount := s.valueCount + 1, valueTable := s.valueTable.insert token w }
    return token

end Scope

end Clauses
