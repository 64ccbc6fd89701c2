import Clauses.Proofs.FrontEnds
import Mathlib.Algebra.Ring.Parity

/-!
# Positions in a predicate

A position is the path that leads to it from the top: at each step the index of the part that it
goes into. What stands at a position can be replaced, and the nodes above a position tell whether
what stands there is negated.

* `Predicate.at?`, `Predicate.replace` — what stands at a position, and something else in its place
* `Predicate.NegatedAt` — the negations directly above a position do not cancel
* `Compiler.wrapping_invisible` — a junction of one part and a double negation leave no
  trace, wherever they are put
-/

namespace Clauses

namespace Predicate

/-! ## Paths -/

/-- The predicates that a predicate is made of. -/
def parts : Predicate → List Predicate
  | .compare _ _ _ | .call _ _ => []
  | .and parts | .or parts => parts
  | .not p => [p]

/-- What stands at a position, if there is such a position. -/
def at? (p : Predicate) : List Nat → Option Predicate
  | [] => some p
  | i :: path =>
    match p.parts[i]? with
    | some q => q.at? path
    | none => none

theorem at?_cons {p x : Predicate} {i : Nat} {path : List Nat} :
    p.at? (i :: path) = some x ↔ ∃ q, p.parts[i]? = some q ∧ q.at? path = some x := by
  rw [at?]
  cases p.parts[i]? <;> simp

/-- The predicate with another part at an index. -/
def setPart (p : Predicate) (i : Nat) (y : Predicate) : Predicate :=
  match p with
  | .and parts => .and (parts.set i y)
  | .or parts => .or (parts.set i y)
  | .not q => .not (if i = 0 then y else q)
  | p => p

/-- The predicate with something else at a position. -/
def replace (p : Predicate) (y : Predicate) : List Nat → Predicate
  | [] => y
  | i :: path =>
    match p.parts[i]? with
    | some q => p.setPart i (q.replace y path)
    | none => p

theorem parts_setPart (p : Predicate) (i : Nat) (y : Predicate) :
    (p.setPart i y).parts = p.parts.set i y := by
  cases p with
  | compare | call | and | or => rfl
  | not p => cases i <;> rfl

/-- What has been put at a position stands there. -/
theorem at?_replace {x y : Predicate} :
    ∀ {path : List Nat} {p : Predicate}, p.at? path = some x → (p.replace y path).at? path = some y
  | [], p, _ => rfl
  | i :: path, p, hx => by
    obtain ⟨q, hi, hx⟩ := at?_cons.mp hx
    obtain ⟨hlt, -⟩ := List.getElem?_eq_some_iff.mp hi
    rw [replace, hi, at?, parts_setPart, List.getElem?_set_self hlt]
    exact at?_replace hx

/-! ## Negations above a position -/

/-- A negation. -/
def isNot : Predicate → Bool
  | .not _ => true
  | _ => false

/-- A negation or a junction of one part: what stands below is all that it says, or the contrary. -/
def isLink : Predicate → Bool
  | .not _ | .and [_] | .or [_] => true
  | _ => false

/-- The nodes above a position, the nearest first. -/
def above (p : Predicate) : List Nat → List Predicate
  | [] => []
  | i :: path =>
    match p.parts[i]? with
    | some q => q.above path ++ [p]
    | none => []

/-- The links directly above a position, up to the first node that is none. -/
def linksAbove (p : Predicate) (path : List Nat) : List Predicate := (p.above path).takeWhile isLink

/-- Directly above the position are links, with an odd number of negations among them. -/
def NegatedAt (p : Predicate) (path : List Nat) : Prop := Odd ((p.linksAbove path).countP isNot)

instance (p : Predicate) (path : List Nat) : Decidable (p.NegatedAt path) :=
  inferInstanceAs (Decidable (Odd _))

end Predicate

/-! ## Predicates that are translated alike -/

namespace Predicate

/-- Both are translated in the same way, as they are and negated. -/
def Alike (b : Binder) (schema : Schema) (kind : ClauseKind) (p q : Predicate) : Prop :=
  ∀ negate, p.translate b schema kind negate = q.translate b schema kind negate

variable {b : Binder} {schema : Schema} {kind : ClauseKind} {p q q' : Predicate}

/-- The parts of a junction are translated one by one. -/
theorem translateAll_set (hq : q.Alike b schema kind q') :
    ∀ {parts : List Predicate} {i : Nat}, parts[i]? = some q' →
      translateAll b schema kind (parts.set i q) = translateAll b schema kind parts
  | [], i, hi => by cases hi
  | p :: rest, 0, hi => by
    cases hi
    rw [List.set_cons_zero, translateAll, translateAll, hq]
  | p :: rest, i + 1, hi => by
    have hi : rest[i]? = some q' := hi
    rw [List.set_cons_succ, translateAll, translateAll, translateAll_set hq hi]

/--
A junction looks at the number of its parts, and at nothing else in them than their translations.
-/
theorem junction_set (hq : q.Alike b schema kind q') (negate : Bool) (c : Connective) :
    ∀ {parts : List Predicate} {i : Nat}, parts[i]? = some q' →
      junction b schema kind negate c (parts.set i q) = junction b schema kind negate c parts
  | [], i, hi => by cases hi
  | [p], 0, hi => by
    cases hi
    exact hq negate
  | [p], i + 1, hi => by cases hi
  | p :: p' :: rest, 0, hi => by
    cases hi
    rw [List.set_cons_zero, junction, junction, hq] <;> simp
  | p :: p' :: rest, i + 1, hi => by
    have hi : (p' :: rest)[i]? = some q' := hi
    rw [List.set_cons_succ, junction, junction, translateAll_set hq hi] <;> cases i <;> simp

/-- What is translated alike can take the place of a part. -/
theorem alike_setPart {i : Nat} (hi : p.parts[i]? = some q') (hq : q.Alike b schema kind q') :
    (p.setPart i q).Alike b schema kind p := by
  intro negate
  cases p with
  | compare | call => cases hi
  | and parts =>
    have hi : parts[i]? = some q' := hi
    rw [setPart, translate, translate, junction_set hq negate .and hi]
  | or parts =>
    have hi : parts[i]? = some q' := hi
    rw [setPart, translate, translate, junction_set hq negate .or hi]
  | not p =>
    cases i with
    | zero =>
      cases hi
      show (Predicate.not q).translate b schema kind negate = _
      rw [translate, translate, hq]
    | succ i => cases hi

/-- What is translated alike can take the place of what stands at a position. -/
theorem alike_replace {x y : Predicate} (hy : y.Alike b schema kind x) :
    ∀ {path : List Nat} {p : Predicate}, p.at? path = some x →
      (p.replace y path).Alike b schema kind p
  | [], p, hx => by
    cases hx
    exact hy
  | i :: path, p, hx => by
    obtain ⟨q, hi, hx⟩ := at?_cons.mp hx
    rw [replace, hi]
    exact alike_setPart hi (alike_replace hy hx)

end Predicate

/-! ## Structure that says nothing -/

/-- What can be put around a predicate without saying anything else. -/
inductive Wrapping where
  | and | or | twiceNot
deriving DecidableEq, Repr

/-- Puts it around a predicate. -/
def Wrapping.wrap (x : Predicate) : Wrapping → Predicate
  | .and => .and [x]
  | .or => .or [x]
  | .twiceNot => .not (.not x)

/-- Outside of conditions on keys, what is wrapped is translated as it is without the wrapping. -/
theorem Wrapping.alike {b : Binder} {schema : Schema} {kind : ClauseKind}
    (hkind : kind ≠ .keyCondition) (w : Wrapping) (x : Predicate) :
    (w.wrap x).Alike b schema kind x := by
  intro negate
  cases w with
  | and => rw [wrap, Predicate.translate, Predicate.junction]
  | or =>
    rw [wrap, Predicate.translate, Predicate.junction, if_neg hkind]
  | twiceNot =>
    rw [wrap, Predicate.translate, Predicate.translate, if_neg hkind, if_neg hkind, Bool.not_not]

namespace Compiler

/--
**Structure that says nothing is invisible.** Wherever a junction of one part or a double
negation is put around a part of a predicate, the clause of a filter or of a condition is
translated as it is without: to the same clause and the same scope, or with the same error. If
maps come in other orders, hooks may seal the values of the clause from other texts, and then
nothing but this is different.
-/
theorem wrapping_invisible (c : Compiler) (mode : Mode) {kind : ClauseKind}
    (hkind : kind = .filter ∨ kind = .condition) (schema : Schema)
    {p x : Predicate} {path : List Nat} (hx : p.at? path = some x) (w : Wrapping) (s : Scope) :
    let plain := Source.predicate kind schema p
    let wrapped := Source.predicate kind schema (p.replace (w.wrap x) path)
    c.translate mode wrapped s = c.translate mode plain s ∧
      ∀ hooks, c.hooks.Reorders hooks → c.hooks.OrderBlind →
        Effect.Akin (Clause.Akin (WireValue.Reordered c.hooks.Knows))
          (Scope.Akin (WireValue.Reordered c.hooks.Knows)) (c.translate mode plain s)
          (Compiler.translate { c with hooks } mode wrapped s) := by
  intro plain wrapped
  have hkey : kind ≠ .keyCondition := by
    rcases hkind with rfl | rfl <;> decide
  have hdraft (b : Binder) : draftPredicate b kind schema (p.replace (w.wrap x) path)
      = draftPredicate b kind schema p := by
    unfold draftPredicate
    rw [Predicate.alike_replace (w.alike hkey x) hx]
  have hsame : c.translate mode wrapped s = c.translate mode plain s := by
    show Draft.complete mode (draftPredicate _ kind schema _) s
      = Draft.complete mode (draftPredicate _ kind schema _) s
    rw [hdraft]
    rfl
  refine ⟨hsame, fun hooks horder hblind => ?_⟩
  rw [← hsame]
  exact translate_reordered horder hblind (fun _ h => h) mode wrapped (.of_self .same s)

/-- The junction of one part is below two negations and another junction of one part. -/
theorem common_bottles_wrapped :
    let c : Compiler := ⟨.standard, .empty⟩
    let p : Predicate := .not (.or [isRare])
    let x : Predicate :=
      .compare (.property "Vintage") .among [.value (.integer 1961), .value (.integer 82)]
    let clause : Clause := ⟨"NOT ((NOT (#attr0 IN (:p0, :p1))) AND (size(#attr1) > :p2))",
      [("#attr0", "vintage"), ("#attr1", "name")],
      [(":p0", .text "001961"), (":p1", .text "000082"), (":p2", .number "8")]⟩
    let q := p.replace (.or [x]) [0, 0, 0, 0]
    p.at? [0, 0, 0, 0] = some x ∧ q.at? [0, 0, 0, 0] = some (.or [x]) ∧
      c.translate .sync (.predicate .filter bottleSchema q) c.scope
        = .ok clause (c.scope.enter clause.names clause.values) := by
  intro c p x clause q
  have hx : p.at? [0, 0, 0, 0] = some x := rfl
  have h : c.translate .sync (.predicate .filter bottleSchema p) c.scope
      = .ok clause (c.scope.enter clause.names clause.values) := by
    decide +kernel
  obtain ⟨hwrapped, -⟩ := wrapping_invisible c .sync (.inl rfl) bottleSchema hx .or c.scope
  exact ⟨hx, Predicate.at?_replace hx, hwrapped.trans h⟩

end Compiler

end Clauses
