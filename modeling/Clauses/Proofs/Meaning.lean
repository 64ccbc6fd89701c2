import Clauses.Proofs.BoundValues
import Clauses.Proofs.Grammar.Conditions

/-!
# What predicates and expressions mean

A predicate and an expression mean a truth value, once it is known which comparisons and calls are
true. In a comparison there are attributes and wire values: those of a predicate come from its
schema and its literals, which are written one after the other, those of an expression from the
tables that its placeholders are bound in.

* `Formula.holds` — the truth value of an expression that has been read
* `Predicate.holds` — the truth value of a predicate
* `Complementary` — what makes negation the same in both
-/

namespace Clauses

open Grammar

theorem mapM_eq_some_iff {α β : Type} {f : α → Option β} {as : List α} : ∀ {bs : List β},
    as.mapM f = some bs ↔ List.Forall₂ (fun a b => f a = some b) as bs := by
  induction as with
  | nil =>
    intro bs
    rw [List.mapM_nil, List.forall₂_nil_left_iff]
    simp [eq_comm]
  | cons a as ih =>
    intro bs
    rw [List.mapM_cons, List.forall₂_cons_left_iff]
    constructor
    · intro h
      obtain ⟨b, hb, h₁⟩ := Option.bind_eq_some_iff.mp h
      obtain ⟨bs', hbs, h₂⟩ := Option.bind_eq_some_iff.mp h₁
      cases h₂
      exact ⟨b, bs', hb, ih.mp hbs, rfl⟩
    · rintro ⟨b, bs', hb, hbs, rfl⟩
      rw [hb, ih.mpr hbs]
      rfl

/-- Says which comparisons and calls are true. -/
abbrev Valuation := Atom String WireValue → Bool

/-- What negation turns into one another never has the same truth value. -/
structure Complementary (ρ : Valuation) : Prop where
  equal : ∀ x y, ρ (.compare x .notEqual [y]) = !ρ (.compare x .equal [y])
  less : ∀ x y, ρ (.compare x .greaterOrEqual [y]) = !ρ (.compare x .less [y])
  greater : ∀ x y, ρ (.compare x .lessOrEqual [y]) = !ρ (.compare x .greater [y])
  present : ∀ xs, ρ (.call .attributeNotExists xs) = !ρ (.call .attributeExists xs)

/-! ## Expressions -/

namespace Grammar

variable (names : Keyed String) (values : Keyed WireValue)

/-- The item with what its placeholder is bound to. -/
def Item.resolve : Item String String → Option (Item String WireValue)
  | .attribute t => (names.find? t).map .attribute
  | .size t => (names.find? t).map .size
  | .value t => (values.find? t).map .value

/-- The atom with what its placeholders are bound to. -/
def Atom.resolve : Atom String String → Option (Atom String WireValue)
  | .compare x op ys => do
    return .compare (← x.resolve names values) op (← ys.mapM (Item.resolve names values))
  | .call f xs => do
    return .call f (← xs.mapM (Item.resolve names values))

/-- The truth value of a formula whose placeholders are all bound. -/
def Formula.holds (ρ : Valuation) : Written → Option Bool
  | .atom a => (a.resolve names values).map ρ
  | .not f => (holds ρ f).map (!·)
  | .and f g => do return (← holds ρ f) && (← holds ρ g)
  | .or f g => do return (← holds ρ f) || (← holds ρ g)

end Grammar

/-! ## Predicates -/

/-- What a value comes to in the way of a property, its hooks included. -/
def Codec.settle? (codec : Codec) (entity : Option String) (v : Value) (p : Property) :
    Option WireValue :=
  match codec.bind entity false v p with
  | .ok (.ready w) => some w
  | .ok (.deferred d) => (d.task.answer false).toOption.map .binary
  | .error _ => none

/-- The wire value of an operand; a placeholder has the one that it is bound to. -/
def Operand.wire? (codec : Codec) (values : Keyed WireValue) (schema : Schema) (p : Property) :
    Operand → Option WireValue
  | .value v => codec.settle? (some schema.entity) v p
  | .placeholder token => values.find? token

/-- The wire values of operands. Each of the literals is written after those in front of it. -/
def Operand.wires? (codec : Codec) (values : Keyed WireValue) (schema : Schema) (p : Property) :
    List Operand → Option (List WireValue)
  | [] => some []
  | o :: rest => do
    let w ← o.wire? codec values schema p
    return w :: (← wires? (codec.later (o.bound p).length) values schema p rest)

/-- The subject with the attribute of its property. -/
def Subject.item (wireName : String) : Subject → Item String WireValue
  | .property _ => .attribute wireName
  | .size _ => .size wireName

namespace Predicate

/-- What a comparison is between. -/
def compared? (codec : Codec) (values : Keyed WireValue) (schema : Schema) (subject : Subject)
    (operands : List Operand) : Option (Item String WireValue × List (Item String WireValue)) := do
  let p ← (schema.resolve subject.propertyName).toOption
  let ws ← Operand.wires? codec values schema (subject.policy p) operands
  return (subject.item p.wireName, ws.map .value)

/-- What a function is called with; the type that is asked for is no value of the property. -/
def called? (codec : Codec) (values : Keyed WireValue) (schema : Schema) (f : Builtin)
    (arguments : List Argument) : Option (List (Item String WireValue)) :=
  match arguments with
  | [.property name] => do
    let p ← (schema.resolve name).toOption
    return [.attribute p.wireName]
  | [.property name, .operand o] => do
    let p ← (schema.resolve name).toOption
    let w ← o.wire? codec values schema (if f = .attributeType then p.bare else p)
    return [.attribute p.wireName, .value w]
  | _ => none

mutual

/-- The truth value of a predicate. -/
def holds (codec : Codec) (values : Keyed WireValue) (schema : Schema) (ρ : Valuation) :
    Predicate → Option Bool
  | .compare subject op operands =>
    (compared? codec values schema subject operands).map fun (x, ys) => ρ (.comparison x op ys)
  | .call f arguments => (called? codec values schema f arguments).map fun xs => ρ (.call f xs)
  | .and parts => (holdEach codec values schema ρ parts).map (·.all id)
  | .or parts => (holdEach codec values schema ρ parts).map (·.any id)
  | .not p => (holds codec values schema ρ p).map (!·)

/-- The truth values of predicates. The values of each are written after those in front of it. -/
def holdEach (codec : Codec) (values : Keyed WireValue) (schema : Schema) (ρ : Valuation) :
    List Predicate → Option (List Bool)
  | [] => some []
  | p :: rest => do
    let v ← holds codec values schema ρ p
    return v :: (← holdEach (codec.later (p.bound schema).length) values schema ρ rest)

end

end Predicate

end Clauses
