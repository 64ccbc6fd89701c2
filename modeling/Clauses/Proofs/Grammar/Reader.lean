import Clauses.Proofs.Grammar.Lexeme

/-!
# The grammar of conditions

A condition is read as a tree of conjunctions, disjunctions and negations. `NOT` takes what stands
right behind it, `AND` takes more than `NOT` does, and `OR` takes the most. The `AND` behind
`BETWEEN` belongs to the comparison.

* `Grammar.read?` — the formula that a text is
* `Grammar.IsFactor`, `Grammar.IsConjunction`, `Grammar.IsDisjunction` — lexemes that are read as a
  formula on one of the three levels, whatever stands behind them

## Termination

The levels call one another with less and less fuel. Three levels for each lexeme are enough, since
between two calls of the same level a lexeme is taken.
-/

namespace Clauses.Grammar

/-! ## Formulas -/

/-- What is compared or given to a function; names are of type `ν` and values of type `ω`. -/
inductive Item (ν ω : Type) where
  | attribute (a : ν)
  | size (a : ν)
  | value (w : ω)
deriving DecidableEq

/-- A comparison or a call. -/
inductive Atom (ν ω : Type) where
  | compare (x : Item ν ω) (op : Operator) (ys : List (Item ν ω))
  | call (f : Builtin) (arguments : List (Item ν ω))
deriving DecidableEq

/-- A formula of the expression language. -/
inductive Formula (ν ω : Type) where
  | atom (a : Atom ν ω)
  | not (f : Formula ν ω)
  | and (f g : Formula ν ω)
  | or (f g : Formula ν ω)
deriving DecidableEq

/-- A formula over placeholders. -/
abbrev Written := Formula String String

/-! ## Readers -/

/-- Takes something off a list of lexemes. -/
abbrev Reader (α : Type) := List Lexeme → Option (α × List Lexeme)

/-- Reads what is compared or given to a function. -/
def item : Reader (Item String String)
  | .name t :: ls => some (.attribute t, ls)
  | .value t :: ls => some (.value t, ls)
  | .function .size :: .opening :: .name t :: .closing :: ls => some (.size t, ls)
  | _ => none

/-- Reads at most so many items, up to the bracket that closes them. -/
def items : (most : Nat) → Reader (List (Item String String))
  | 0, _ => none
  | most + 1, ls => do
    let (x, ls) ← item ls
    match ls with
    | .comma :: ls =>
      let (xs, ls) ← items most ls
      return (x :: xs, ls)
    | .closing :: ls => return ([x], ls)
    | _ => none

/-- Reads what stands on the right of an operator. -/
def right (x : Item String String) (op : Operator) : Reader (Atom String String) := fun ls =>
  match op, ls with
  | .between, ls => do
    let (low, ls) ← item ls
    match ls with
    | .connective .and :: ls =>
      let (high, ls) ← item ls
      return (.compare x op [low, high], ls)
    | _ => none
  | .among, .opening :: ls => do
    let (ys, ls) ← items ls.length ls
    return (.compare x op ys, ls)
  | .among, _ | .beginsWith, _ | .contains, _ => none
  | _, ls => do
    let (y, ls) ← item ls
    return (.compare x op [y], ls)

/-- Reads a comparison. -/
def comparison : Reader (Atom String String) := fun ls => do
  let (x, ls) ← item ls
  match ls with
  | .operator op :: ls => right x op ls
  | _ => none

/-- Reads a comparison or a call. A size is no condition, but it may be compared. -/
def atom : Reader (Atom String String)
  | .function .size :: ls => comparison (.function .size :: ls)
  | .function f :: .opening :: ls => do
    let (xs, ls) ← items ls.length ls
    return (.call f xs, ls)
  | ls => comparison ls

mutual

/-- Reads factors that `AND` joins, and what `OR` joins of these. -/
def disjunction : (fuel : Nat) → Reader Written
  | 0, _ => none
  | fuel + 1, ls => do
    let (f, ls) ← conjunction fuel ls
    match ls with
    | .connective .or :: ls =>
      let (g, ls) ← disjunction fuel ls
      return (.or f g, ls)
    | ls => return (f, ls)

/-- Reads factors that `AND` joins. -/
def conjunction : (fuel : Nat) → Reader Written
  | 0, _ => none
  | fuel + 1, ls => do
    let (f, ls) ← factor fuel ls
    match ls with
    | .connective .and :: ls =>
      let (g, ls) ← conjunction fuel ls
      return (.and f g, ls)
    | ls => return (f, ls)

/-- Reads a comparison, a call, a negation or what stands in brackets. -/
def factor : (fuel : Nat) → Reader Written
  | 0, _ => none
  | fuel + 1, .negation :: ls => do
    let (f, ls) ← factor fuel ls
    return (.not f, ls)
  | fuel + 1, .opening :: ls => do
    let (f, ls) ← disjunction fuel ls
    match ls with
    | .closing :: ls => return (f, ls)
    | _ => none
  | _ + 1, ls => do
    let (a, ls) ← atom ls
    return (.atom a, ls)

end

/-- The formula that a text is. -/
def read? (text : String) : Option Written :=
  let ls := lexemes [] text.toList
  match disjunction (3 * ls.length) ls with
  | some (f, []) => some f
  | _ => none

/-! ## Items and atoms -/

/-- The lexemes of an item. -/
def Item.lexemes : Item String String → List Lexeme
  | .attribute t => [.name t]
  | .size t => [.function .size, .opening, .name t, .closing]
  | .value t => [.value t]

theorem item_lexemes (x : Item String String) (rest : List Lexeme) :
    item (x.lexemes ++ rest) = some (x, rest) := by
  cases x <;> rfl

/-- The lexemes of items with commas between them. -/
def commaLexemes (x : Item String String) (xs : List (Item String String)) : List Lexeme :=
  x.lexemes ++ xs.flatMap (.comma :: ·.lexemes)

theorem items_commaLexemes (xs : List (Item String String)) :
    ∀ (x : Item String String) (most : Nat) (rest : List Lexeme), xs.length < most →
      items most (commaLexemes x xs ++ .closing :: rest) = some (x :: xs, rest) := by
  induction xs with
  | nil =>
    intro x most rest h
    obtain ⟨n, rfl⟩ : ∃ n, most = n + 1 := ⟨most - 1, by simp at h; omega⟩
    rw [commaLexemes, List.flatMap_nil, List.append_nil, items, item_lexemes]
    rfl
  | cons y ys ih =>
    intro x most rest h
    rw [List.length_cons] at h
    obtain ⟨n, rfl⟩ : ∃ n, most = n + 1 := ⟨most - 1, by omega⟩
    have hr := ih y n rest (by omega)
    rw [commaLexemes, List.flatMap_cons, List.append_assoc, items, item_lexemes]
    rw [commaLexemes] at hr
    simp only [Option.bind_eq_bind, Option.bind_some, List.cons_append, hr]
    rfl

theorem length_le_commaLexemes (x : Item String String) (xs : List (Item String String)) :
    xs.length < (commaLexemes x xs).length := by
  -- Each item has a lexeme, so there is enough fuel for all of them.
  have hpos : ∀ y : Item String String, 0 < y.lexemes.length := by
    intro y
    cases y <;> exact Nat.succ_pos _
  induction xs with
  | nil => simpa [commaLexemes] using hpos x
  | cons y ys ih =>
    simp only [commaLexemes, List.length_append, List.flatMap_cons, List.length_cons] at ih ⊢
    omega

/-- Items in brackets. -/
theorem items_bracketed (x : Item String String) (xs : List (Item String String))
    (rest : List Lexeme) :
    items (commaLexemes x xs ++ .closing :: rest).length (commaLexemes x xs ++ .closing :: rest)
      = some (x :: xs, rest) := by
  refine items_commaLexemes xs x _ rest ?_
  have h := length_le_commaLexemes x xs
  rw [List.length_append]
  omega

theorem comparison_lexemes (x : Item String String) (op : Operator) (rest : List Lexeme) :
    comparison (x.lexemes ++ .operator op :: rest) = right x op rest := by
  rw [comparison, item_lexemes]
  rfl

/-- What starts with an item that is compared is no call. -/
theorem atom_lexemes (x : Item String String) (op : Operator) (rest : List Lexeme) :
    atom (x.lexemes ++ .operator op :: rest) = right x op rest := by
  rw [← comparison_lexemes]
  cases x <;> rfl

theorem right_between (x low high : Item String String) (rest : List Lexeme) :
    right x .between (low.lexemes ++ .connective .and :: (high.lexemes ++ rest))
      = some (.compare x .between [low, high], rest) := by
  rw [right, item_lexemes]
  dsimp only [Option.bind_eq_bind, Option.bind_some]
  rw [item_lexemes]
  rfl

theorem right_among (x y : Item String String) (ys : List (Item String String))
    (rest : List Lexeme) :
    right x .among (.opening :: (commaLexemes y ys ++ .closing :: rest))
      = some (.compare x .among (y :: ys), rest) := by
  rw [right, items_bracketed]
  rfl

/-- The operators that stand between two items. -/
def isSign : Operator → Bool
  | .equal | .notEqual | .less | .lessOrEqual | .greater | .greaterOrEqual => true
  | .between | .beginsWith | .contains | .among => false

theorem right_sign {op : Operator} (h : isSign op = true) (x y : Item String String)
    (rest : List Lexeme) : right x op (y.lexemes ++ rest) = some (.compare x op [y], rest) := by
  have hr : ∀ ls, right x op ls = (item ls).map fun r => (.compare x op [r.1], r.2) := by
    intro ls
    cases op with
    | between | beginsWith | contains | among => cases h
    | _ =>
      simp only [right]
      cases item ls <;> rfl
  rw [hr, item_lexemes]
  rfl

theorem atom_call {f : Builtin} (hf : f ≠ .size) (x : Item String String)
    (xs : List (Item String String)) (rest : List Lexeme) :
    atom (.function f :: .opening :: (commaLexemes x xs ++ .closing :: rest))
      = some (.call f (x :: xs), rest) := by
  cases f <;> first
    | exact absurd rfl hf
    | rw [atom, items_bracketed]
      · rfl
      · exact fun h => hf h

/-! ## Levels -/

/-- Read as a factor in front of everything. -/
structure IsFactor (ls : List Lexeme) (f : Written) : Prop where
  pos : 0 < ls.length
  read : ∀ fuel rest, 3 * ls.length ≤ fuel + 2 → factor fuel (ls ++ rest) = some (f, rest)

/-- Read as a conjunction in front of everything but an `AND`. -/
structure IsConjunction (ls : List Lexeme) (f : Written) : Prop where
  pos : 0 < ls.length
  read : ∀ fuel rest, 3 * ls.length ≤ fuel + 1 → rest.head? ≠ some (.connective .and) →
    conjunction fuel (ls ++ rest) = some (f, rest)

/-- Read as a disjunction in front of everything but an `AND` or an `OR`. -/
structure IsDisjunction (ls : List Lexeme) (f : Written) : Prop where
  pos : 0 < ls.length
  read : ∀ fuel rest, 3 * ls.length ≤ fuel → (∀ c, rest.head? ≠ some (.connective c)) →
    disjunction fuel (ls ++ rest) = some (f, rest)

variable {ls ls' : List Lexeme} {f g : Written}

theorem IsFactor.atom {a : Atom String String} (hpos : 0 < ls.length)
    (h : ∀ rest, Grammar.atom (ls ++ rest) = some (a, rest)) : IsFactor ls (.atom a) where
  pos := hpos
  read := by
    intro fuel rest hn
    obtain ⟨n, rfl⟩ : ∃ n, fuel = n + 1 := ⟨fuel - 1, by omega⟩
    obtain ⟨l, ls, rfl⟩ := List.exists_cons_of_length_pos hpos
    have ha := h rest
    -- An atom starts with neither a negation nor a bracket, so the reader of factors leaves it
    -- alone.
    cases l with
    | negation => cases ha
    | opening => cases ha
    | _ =>
      rw [List.cons_append] at ha ⊢
      simp only [factor, ha, Option.bind_eq_bind, Option.bind_some, pure]

theorem IsFactor.not (h : IsFactor ls f) : IsFactor (.negation :: ls) (.not f) where
  pos := Nat.succ_pos _
  read := by
    intro fuel rest hn
    rw [List.length_cons] at hn
    obtain ⟨n, rfl⟩ : ∃ n, fuel = n + 1 := ⟨fuel - 1, by omega⟩
    rw [List.cons_append, factor, h.read n rest (by omega)]
    rfl

theorem IsDisjunction.bracketed (h : IsDisjunction ls f) :
    IsFactor (.opening :: (ls ++ [.closing])) f where
  pos := Nat.succ_pos _
  read := by
    intro fuel rest hn
    simp only [List.length_append, List.length_cons, List.length_nil] at hn
    obtain ⟨n, rfl⟩ : ∃ n, fuel = n + 1 := ⟨fuel - 1, by omega⟩
    have hr := h.read n (.closing :: rest) (by omega) (fun c hc => by cases hc)
    rw [List.cons_append, factor, List.append_assoc, List.singleton_append, hr]
    rfl

theorem IsFactor.conjunction (h : IsFactor ls f) : IsConjunction ls f where
  pos := h.pos
  read := by
    intro fuel rest hn hr
    have hp := h.pos
    obtain ⟨n, rfl⟩ : ∃ n, fuel = n + 1 := ⟨fuel - 1, by omega⟩
    rw [Grammar.conjunction, h.read n rest (by omega)]
    dsimp only [Option.bind_eq_bind, Option.bind_some]
    -- What follows is no `AND`, so the reader stops here.
    split
    · exact absurd rfl hr
    · rfl

theorem IsFactor.and (h : IsFactor ls f) (h' : IsConjunction ls' g) :
    IsConjunction (ls ++ .connective .and :: ls') (.and f g) where
  pos := by
    rw [List.length_append]
    exact Nat.add_pos_left h.pos _
  read := by
    intro fuel rest hn hr
    have hp := h.pos
    rw [List.length_append, List.length_cons] at hn
    obtain ⟨n, rfl⟩ : ∃ n, fuel = n + 1 := ⟨fuel - 1, by omega⟩
    rw [List.append_assoc, Grammar.conjunction, h.read n _ (by omega), List.cons_append]
    dsimp only [Option.bind_eq_bind, Option.bind_some]
    rw [h'.read n rest (by omega) hr]
    rfl

theorem IsConjunction.disjunction (h : IsConjunction ls f) : IsDisjunction ls f where
  pos := h.pos
  read := by
    intro fuel rest hn hr
    have hp := h.pos
    obtain ⟨n, rfl⟩ : ∃ n, fuel = n + 1 := ⟨fuel - 1, by omega⟩
    rw [Grammar.disjunction, h.read n rest (by omega) (hr .and)]
    dsimp only [Option.bind_eq_bind, Option.bind_some]
    -- No `AND` either, which the level below would have taken.
    split
    · exact absurd rfl (hr .or)
    · rfl

theorem IsConjunction.or (h : IsConjunction ls f) (h' : IsDisjunction ls' g) :
    IsDisjunction (ls ++ .connective .or :: ls') (.or f g) where
  pos := by
    rw [List.length_append]
    exact Nat.add_pos_left h.pos _
  read := by
    intro fuel rest hn hr
    have hp := h.pos
    rw [List.length_append, List.length_cons] at hn
    obtain ⟨n, rfl⟩ : ∃ n, fuel = n + 1 := ⟨fuel - 1, by omega⟩
    rw [List.append_assoc, Grammar.disjunction, h.read n _ (by omega) (by simp), List.cons_append]
    dsimp only [Option.bind_eq_bind, Option.bind_some]
    rw [h'.read n rest (by omega) hr]
    rfl

end Clauses.Grammar
