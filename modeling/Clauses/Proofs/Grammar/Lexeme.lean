import Clauses.Proofs.Streaming

/-!
# The lexemes of an expression

The text of an expression is cut into lexemes from left to right: words and placeholders as long as
they go on, comparisons of one or two characters, brackets and commas. A space ends what stands in
front of it and is no lexeme.

* `Grammar.lexemes` — the lexemes of a text
* `Grammar.Lexes`, `Grammar.Closed` — a text has these lexemes, whatever follows it

The words of the grammar are those in upper case; a function is known in any letter case.

A text that ends in a word has its lexemes only in front of something that does not go on with the
word (`Lexes`). A text that ends in a bracket or a space has them in front of everything (`Closed`).
-/

namespace Clauses.Grammar

/-- A lexeme of an expression. -/
inductive Lexeme where
  | opening | closing | comma | negation
  | connective (c : Connective)
  | operator (op : Operator)
  | function (f : Builtin)
  | name (token : String)
  | value (token : String)
  | other (text : List Char)
deriving DecidableEq

/-- The lexeme of a word. -/
def wordLexeme (w : List Char) : Lexeme :=
  if w = ['N', 'O', 'T'] then .negation
  else if w = ['A', 'N', 'D'] then .connective .and
  else if w = ['O', 'R'] then .connective .or
  else if w = ['B', 'E', 'T', 'W', 'E', 'E', 'N'] then .operator .between
  else if w = ['I', 'N'] then .operator .among
  else
    match Builtin.ofName? w with
    | some f => .function f
    | none => .other w

/-- The lexemes of what has been begun and has come to its end, of which there is at most one. -/
def ended : List Char → List Lexeme
  | [] => []
  | ['#'] | [':'] => [.other []]
  | '#' :: w => [.name (String.ofList ('#' :: w))]
  | ':' :: w => [.value (String.ofList (':' :: w))]
  | w => [wordLexeme w]

/-- The lexeme of a single character. -/
def single (c : Char) : Lexeme :=
  if c = '(' then .opening
  else if c = ')' then .closing
  else if c = ',' then .comma
  else if c = '=' then .operator .equal
  else if c = '<' then .operator .less
  else if c = '>' then .operator .greater
  else .other [c]

/-- The lexemes of a text, in front of which a word or a placeholder has been begun. -/
def lexemes : (begun : List Char) → List Char → List Lexeme
  | begun, [] => ended begun
  | begun, '<' :: '>' :: s => ended begun ++ .operator .notEqual :: lexemes [] s
  | begun, '<' :: '=' :: s => ended begun ++ .operator .lessOrEqual :: lexemes [] s
  | begun, '>' :: '=' :: s => ended begun ++ .operator .greaterOrEqual :: lexemes [] s
  | begun, c :: s =>
    if Text.isWordChar c then lexemes (begun ++ [c]) s
    else if c = '#' ∨ c = ':' then ended begun ++ lexemes [c] s
    else if c = ' ' then ended begun ++ lexemes [] s
    else ended begun ++ single c :: lexemes [] s

/-! ## Ends of words -/

theorem ended_nil : ended [] = [] := rfl

/-- What does not go on with a word ends it. -/
theorem lexemes_of_boundary {s : List Char} (begun : List Char) (h : Text.Boundary s) :
    lexemes begun s = ended begun ++ lexemes [] s := by
  fun_cases lexemes begun s with
  | case1 => simp [lexemes, ended_nil]
  | case2 => simp [lexemes, ended_nil]
  | case3 => simp [lexemes, ended_nil]
  | case4 => simp [lexemes, ended_nil]
  | case5 begun c s h₁ h₂ h₃ hc =>
    rw [h c rfl] at hc
    cases hc
  | case6 begun c s h₁ h₂ h₃ hc hs =>
    rw [lexemes.eq_5 _ _ _ h₁ h₂ h₃, if_neg hc, if_pos hs, ended_nil, List.nil_append]
  | case7 begun s h₁ h₂ h₃ hc hs =>
    rw [lexemes.eq_5 _ _ _ h₁ h₂ h₃, if_neg hc, if_neg hs, if_pos rfl, ended_nil, List.nil_append]
  | case8 begun c s h₁ h₂ h₃ hc hs hb =>
    rw [lexemes.eq_5 _ _ _ h₁ h₂ h₃, if_neg hc, if_neg hs, if_neg hb, ended_nil, List.nil_append]

/-- A character of a word goes on with what has been begun. -/
theorem lexemes_cons_word {c : Char} (hc : Text.isWordChar c = true) (begun s : List Char) :
    lexemes begun (c :: s) = lexemes (begun ++ [c]) s := by
  have hlt : c ≠ '<' := by
    rintro rfl
    revert hc
    decide
  have hgt : c ≠ '>' := by
    rintro rfl
    revert hc
    decide
  rw [lexemes.eq_5 _ _ _ (fun _ h _ => hlt h) (fun _ h _ => hlt h) (fun _ h _ => hgt h), if_pos hc]

theorem lexemes_append_word {w : List Char} (hw : ∀ c ∈ w, Text.isWordChar c = true) :
    ∀ begun s : List Char, lexemes begun (w ++ s) = lexemes (begun ++ w) s := by
  induction w with
  | nil => simp
  | cons c w ih =>
    intro begun s
    rw [List.cons_append, lexemes_cons_word (hw c List.mem_cons_self),
      ih (fun c hc => hw c (List.mem_cons_of_mem _ hc)), List.append_assoc, List.singleton_append]

/-! ## Texts with given lexemes -/

/-- The text has these lexemes in front of everything that ends its last word. -/
abbrev Lexes (s : List Char) (ls : List Lexeme) : Prop := Text.Gives (lexemes []) s ls

/-- The text has these lexemes in front of everything. -/
abbrev Closed (s : List Char) (ls : List Lexeme) : Prop := Text.GivesAnywhere (lexemes []) s ls

theorem Lexes.append_spaced {word : String} {l : Lexeme} {s s' : List Char} {ls ls' : List Lexeme}
    (h : Lexes s ls) (hw : Closed (spaced word) [l]) (h' : Lexes s' ls') :
    Lexes (s ++ spaced word ++ s') (ls ++ l :: ls') := by
  have hs := Text.Gives.append_spaced h hw h'
  rw [List.append_assoc ls, List.singleton_append] at hs
  exact hs

theorem Closed.bracketed {s : List Char} {ls : List Lexeme} (h : Lexes s ls) :
    Closed (bracketed s) (.opening :: (ls ++ [.closing])) := by
  have hopen : Closed ['('] [.opening] := fun _ => rfl
  have hclose : Closed [')'] [.closing] := fun _ => rfl
  exact Text.Gives.bracketed hopen h hclose

/-- A placeholder of either kind: its sigil and then, without a gap, a word. -/
def IsToken (sigil : Char) (token : String) : Prop :=
  ∃ w : List Char, w ≠ [] ∧ (∀ c ∈ w, Text.isWordChar c = true) ∧ token.toList = sigil :: w

/-- A word behind a sigil is taken together with it. -/
theorem lexes_of_ended {c : Char} {w : List Char} {l : Lexeme}
    (hbegin : ∀ s, lexemes [] (c :: s) = lexemes [c] s)
    (hw : ∀ d ∈ w, Text.isWordChar d = true) (hend : ended (c :: w) = [l]) :
    Lexes (c :: w) [l] := by
  intro rest hr
  rw [List.cons_append, hbegin, lexemes_append_word hw, List.singleton_append,
    lexemes_of_boundary _ hr, hend]

/-- A placeholder is one lexeme, of the kind that goes with its sigil. -/
theorem IsToken.lexes {sigil : Char} {token : String} (h : IsToken sigil token)
    {lexeme : String → Lexeme} (hbegin : ∀ s, lexemes [] (sigil :: s) = lexemes [sigil] s)
    (hend : ∀ c w, ended (sigil :: c :: w) = [lexeme (String.ofList (sigil :: c :: w))]) :
    Lexes token.toList [lexeme token] := by
  obtain ⟨w, hne, hw, ht⟩ := h
  rw [← String.ofList_toList (s := token), ht, String.toList_ofList]
  refine lexes_of_ended hbegin hw ?_
  cases w with
  | nil => exact absurd rfl hne
  | cons c w => exact hend c w

theorem IsToken.lexes_name {token : String} (h : IsToken '#' token) :
    Lexes token.toList [.name token] :=
  h.lexes (fun _ => rfl) fun _ _ => rfl

theorem IsToken.lexes_value {token : String} (h : IsToken ':' token) :
    Lexes token.toList [.value token] :=
  h.lexes (fun _ => rfl) fun _ _ => rfl

/-! ## The texts of conditions -/

theorem lexes_function (f : Builtin) : Lexes f.name.toList [.function f] := by
  intro rest hr
  have hw : ∀ c ∈ f.name.toList, Text.isWordChar c = true :=
    List.all_eq_true.mp (by cases f <;> rfl)
  rw [lexemes_append_word hw, lexemes_of_boundary _ hr]
  cases f <;> rfl

/-- Comparisons that are written like functions have no lexeme of their own. -/
theorem closed_operator {op : Operator} (hb : op ≠ .beginsWith) (hc : op ≠ .contains) :
    Closed (spaced op.text) [.operator op] := by
  cases op with
  | beginsWith => exact absurd rfl hb
  | contains => exact absurd rfl hc
  | _ => exact fun _ => rfl

theorem closed_connective (c : Connective) : Closed (spaced c.text) [.connective c] := by
  cases c <;> exact fun _ => rfl

theorem closed_negation : Closed "NOT ".toList [.negation] := fun _ => rfl

end Clauses.Grammar
