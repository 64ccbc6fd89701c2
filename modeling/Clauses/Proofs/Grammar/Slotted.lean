import Clauses.Proofs.Lexing

/-!
# Conditions with slots, as they stand in a template

A condition of a template compares attributes with slots. It is made of lexemes, and white space may
stand around each of them. Whoever writes it is free in the letter case of keywords and functions,
and has to keep two words apart.

* `Slotted.Formula` — conditions with slots; `Slotted.Formula.uses` are their slots
  with what these belong to
* `Slotted.LaidOut` — a text is made of lexemes, with white space around them
* `Slotted.LaidOut.tokens` — the tokens that such a text is cut into
-/

namespace Clauses.Slotted

open Template

/-! ## Conditions -/

/-- A keyword of conditions. -/
inductive Keyword where
  | connective (c : Connective)
  | not | between | among

/-- The keyword in lower case. -/
def Keyword.text : Keyword → String
  | .connective .and => "and"
  | .connective .or => "or"
  | .not => "not"
  | .between => "between"
  | .among => "in"

/-- What a condition is made of. -/
inductive Lexeme where
  | keyword (k : Keyword)
  | function (f : Builtin)
  | word (w : List Char)
  /-- A name placeholder. -/
  | name (w : List Char)
  | slot (digits : List Char) (format : Option (List Char))
  | mark (c : Char)

/-- A slot, as it is written. -/
structure Slot where
  digits : List Char
  format : Option (List Char)

/-- The argument that the slot asks for. -/
def Slot.index (x : Slot) : Nat := Text.digitsValue x.digits

/-- The slot as a lexeme. -/
def Slot.lexeme (x : Slot) : Lexeme := .slot x.digits x.format

/-- What a path starts with: a word that is no keyword, or a name placeholder. -/
inductive Root where
  | word (w : List Char) (h : isKeyword w = false)
  | name (w : List Char)

/-- The root as a lexeme. -/
def Root.lexeme : Root → Lexeme
  | .word w _ => .word w
  | .name w => .name w

/-- A step into an attribute. -/
inductive Step where
  | member (w : List Char)
  | name (w : List Char)
  | index (digits : List Char) (h : ∀ c ∈ digits, c.isDigit = true)

/-- The lexemes of a step. -/
def Step.lexemes : Step → List Lexeme
  | .member w => [.mark '.', .word w]
  | .name w => [.mark '.', .name w]
  | .index digits _ => .mark '[' :: (digits.map .mark ++ [.mark ']'])

/-- An attribute, or what is stored in it. -/
structure Path where
  root : Root
  steps : List Step

/-- The lexemes of a path. -/
def Path.lexemes (p : Path) : List Lexeme := p.root.lexeme :: p.steps.flatMap Step.lexemes

/-- An operator that is written in marks, and not in words. -/
structure Comparator where
  operator : Operator
  isMarked : operator ∉ [.between, .beginsWith, .contains, .among]

/-- The lexemes of an operator. -/
def Comparator.lexemes (op : Comparator) : List Lexeme := op.operator.text.toList.map .mark

/-- The marks that operators are written in. -/
theorem Comparator.exists_cons (op : Comparator) : ∃ c cs, op.operator.text.toList = c :: cs ∧
    ∀ d ∈ c :: cs, d = '=' ∨ d = '<' ∨ d = '>' := by
  have hmarked := op.isMarked
  generalize op.operator = operator at hmarked ⊢
  cases operator with
  | equal => exact ⟨'=', [], by rfl, by simp⟩
  | notEqual => exact ⟨'<', ['>'], by rfl, by simp⟩
  | less => exact ⟨'<', [], by rfl, by simp⟩
  | lessOrEqual => exact ⟨'<', ['='], by rfl, by simp⟩
  | greater => exact ⟨'>', [], by rfl, by simp⟩
  | greaterOrEqual => exact ⟨'>', ['='], by rfl, by simp⟩
  | between | beginsWith | contains | among => exact absurd (by simp) hmarked

/-- A condition without parts. -/
inductive Atom where
  | compare (p : Path) (op : Comparator) (x : Slot)
  | between (p : Path) (low high : Slot)
  | among (p : Path) (first : Slot) (others : List Slot)
  | call (f : Builtin) (p : Path) (x : Slot)
  | size (p : Path) (op : Comparator) (x : Slot)

/-- A condition with its connectives and brackets. -/
inductive Formula where
  | atom (a : Atom)
  | not (f : Formula)
  | bracketed (f : Formula)
  | join (c : Connective) (f g : Formula)

/-- Slots behind another, each with a comma in front of it. -/
def furtherLexemes (xs : List Slot) : List Lexeme := xs.flatMap fun x => [.mark ',', x.lexeme]

/-- The lexemes of a condition without parts. -/
def Atom.lexemes : Atom → List Lexeme
  | .compare p op x => p.lexemes ++ (op.lexemes ++ [x.lexeme])
  | .between p low high =>
    p.lexemes ++ [.keyword .between, low.lexeme, .keyword (.connective .and), high.lexeme]
  | .among p first others =>
    p.lexemes ++ ([.keyword .among, .mark '(', first.lexeme]
      ++ (furtherLexemes others ++ [.mark ')']))
  | .call f p x => [.function f, .mark '('] ++ (p.lexemes ++ [.mark ',', x.lexeme, .mark ')'])
  | .size p op x => [.function .size, .mark '(']
    ++ (p.lexemes ++ (.mark ')' :: (op.lexemes ++ [x.lexeme])))

/-- The lexemes of a condition. -/
def Formula.lexemes : Formula → List Lexeme
  | .atom a => a.lexemes
  | .not f => .keyword .not :: f.lexemes
  | .bracketed f => .mark '(' :: (f.lexemes ++ [.mark ')'])
  | .join c f g => f.lexemes ++ (.keyword (.connective c) :: g.lexemes)

/-! ## Slots of conditions -/

/--
A slot with the path that it is compared with, and the function that the path is given to, if any.
-/
structure Use where
  function : Option Builtin
  path : Path
  slot : Slot

/-- The path of a condition without parts. -/
def Atom.path : Atom → Path
  | .compare p _ _ | .between p _ _ | .among p _ _ | .call _ p _ | .size p _ _ => p

/-- The function that the path is given to. -/
def Atom.function : Atom → Option Builtin
  | .compare .. | .between .. | .among .. => none
  | .call f _ _ => some f
  | .size .. => some .size

/-- The slots of a condition without parts, in the order of the text. -/
def Atom.slots : Atom → List Slot
  | .compare _ _ x | .call _ _ x | .size _ _ x => [x]
  | .between _ low high => [low, high]
  | .among _ first others => first :: others

/-- The slots with what they are compared with. -/
def Atom.uses (a : Atom) : List Use := a.slots.map (⟨a.function, a.path, ·⟩)

/-- The slots of a condition with what they are compared with, in the order of the text. -/
def Formula.uses : Formula → List Use
  | .atom a => a.uses
  | .not f | .bracketed f => f.uses
  | .join _ f g => f.uses ++ g.uses

/-- The attribute that a path starts with. -/
def Root.attribute? (s : Scope) : Root → Option String
  | .word w _ => some (String.ofList w)
  | .name w => s.attribute? (String.ofList ('#' :: w))

/--
What slots are compared with is not a whole attribute, but a part of one, its size or its type.
-/
def Path.isPlain (p : Path) (function : Option Builtin) : Bool :=
  function == some .size || function == some .attributeType || !p.steps.isEmpty

/-! ## Texts of conditions -/

/-- The lexeme can be written so. -/
inductive Lexeme.IsWritten : Lexeme → List Char → Prop where
  | keyword {k : Keyword} {w : List Char} (h : Text.lower w = k.text.toList) :
    IsWritten (.keyword k) w
  | function {f : Builtin} {w : List Char} (h : Text.lower w = f.name.toList) :
    IsWritten (.function f) w
  | word {c : Char} {w : List Char} (h : IsWord c w) : IsWritten (.word (c :: w)) (c :: w)
  | name {w : List Char} (hne : w ≠ []) (hw : ∀ c ∈ w, Text.isWordChar c = true) :
    IsWritten (.name w) ('#' :: w)
  | slot {digits : List Char} {format : Option (List Char)} (h : IsSlot digits format) :
    IsWritten (.slot digits format) (slotChars digits format)
  | mark {c : Char} (hc : isLead c = false) (hb : Text.isBlank c = false) : IsWritten (.mark c) [c]

/-- The lexeme ends in a word. -/
def Lexeme.isWordlike : Lexeme → Bool
  | .keyword _ | .function _ | .word _ | .name _ => true
  | .slot _ _ | .mark _ => false

/-- The text is made of the lexemes, with white space around them; words are kept apart. -/
inductive LaidOut : List Lexeme → List Char → Prop where
  | nil : LaidOut [] []
  | blank {c : Char} {ls : List Lexeme} {rest : List Char} (hc : Text.isBlank c = true)
    (h : LaidOut ls rest) : LaidOut ls (c :: rest)
  | cons {l : Lexeme} {ls : List Lexeme} {text rest : List Char} (hl : l.IsWritten text)
    (hr : l.isWordlike = true → Text.Boundary rest) (h : LaidOut ls rest) :
    LaidOut (l :: ls) (text ++ rest)

/-- A lexeme that does not end in a word goes on with everything. -/
theorem LaidOut.consAny {l : Lexeme} {ls : List Lexeme} {text rest : List Char}
    (hl : l.IsWritten text)
    (hw : l.isWordlike = false) (h : LaidOut ls rest) : LaidOut (l :: ls) (text ++ rest) := by
  refine .cons hl (fun hr => ?_) h
  rw [hw] at hr
  cases hr

/-! ## Tokens of conditions -/

/-- A bracket opens in front of the lexemes, or, if there are none, behind them. -/
def opens (behind : Bool) : List Lexeme → Bool
  | [] => behind
  | .mark c :: _ => c == '('
  | _ :: _ => false

/-- The lexeme is read as this token. -/
inductive Lexeme.Gives : Lexeme → (called : Bool) → Token → Prop where
  | keyword {k : Keyword} {w : List Char} {called : Bool} (h : Text.lower w = k.text.toList) :
    Gives (.keyword k) called (.word w called)
  | function {f : Builtin} {w : List Char} {called : Bool} (h : Text.lower w = f.name.toList) :
    Gives (.function f) called (.word w called)
  | word {w : List Char} {called : Bool} : Gives (.word w) called (.word w called)
  | name {w : List Char} {called : Bool} : Gives (.name w) called (.placeholder .name w)
  | slot {digits : List Char} {format : Option (List Char)} {called : Bool} :
    Gives (.slot digits format) called (slotToken digits format)
  | mark {c : Char} {called : Bool} : Gives (.mark c) called (.mark c)

/--
The lexemes are read as these tokens; `behind` says whether a bracket opens behind the last of them.
-/
inductive Tokens (behind : Bool) : List Lexeme → List Token → Prop where
  | nil : Tokens behind [] []
  | cons {l : Lexeme} {ls : List Lexeme} {t : Token} {ts : List Token}
    (h : l.Gives (opens behind ls) t) (hs : Tokens behind ls ts) : Tokens behind (l :: ls) (t :: ts)

variable {l : Lexeme} {ls ls' : List Lexeme} {text rest w : List Char}
    {behind : Bool} {ts : List Token}

theorem opens_append : opens behind (ls ++ ls') = opens (opens behind ls') ls := by
  cases ls with
  | nil => rfl
  | cons l ls => cases l <;> rfl

/-- The tokens of lexemes are those of their parts. -/
theorem Tokens.split : ∀ {ls : List Lexeme} {ts : List Token}, Tokens behind (ls ++ ls') ts →
    ∃ ts₁ ts₂, ts = ts₁ ++ ts₂ ∧ Tokens (opens behind ls') ls ts₁ ∧ Tokens behind ls' ts₂
  | [], ts, h => ⟨[], ts, rfl, .nil, h⟩
  | l :: ls, _, .cons hl hs => by
    obtain ⟨ts₁, ts₂, rfl, h₁, h₂⟩ := hs.split
    have hopens : opens behind (ls ++ ls') = opens (opens behind ls') ls := opens_append
    exact ⟨_ :: ts₁, ts₂, rfl, .cons (hopens ▸ hl) h₁, h₂⟩

/-! ### Letter case -/

/-- What becomes another character in lower case is a letter, and becomes a letter. -/
theorem toLower_eq_or (c : Char) :
    c.toLower = c ∨ c.isAlpha = true ∧ c.toLower.isAlpha = true := by
  unfold Char.toLower
  split
  · next h =>
    have hle : 65 ≤ c.toNat := UInt32.le_iff_toNat_le.mp h.1
    have hge : c.toNat ≤ 90 := UInt32.le_iff_toNat_le.mp h.2
    refine .inr ⟨Text.isAlpha_iff.mpr (.inl ⟨hle, hge⟩), Text.isAlpha_iff.mpr (.inr ?_)⟩
    change 97 ≤ (c.val + 32).toNat ∧ (c.val + 32).toNat ≤ 122
    have hsum : (c.val + 32).toNat = c.toNat + 32 := by
      rw [UInt32.toNat_add, Nat.mod_eq_of_lt]
      · rfl
      · change c.toNat + 32 < 4294967296
        omega
    omega
  · exact .inl rfl

theorem isWordStart_toLower (c : Char) : Text.isWordStart c.toLower = Text.isWordStart c := by
  rcases toLower_eq_or c with h | ⟨hc, hlower⟩
  · rw [h]
  · simp [Text.isWordStart, hc, hlower]

theorem isWordChar_toLower (c : Char) : Text.isWordChar c.toLower = Text.isWordChar c := by
  rcases toLower_eq_or c with h | ⟨hc, hlower⟩
  · rw [h]
  · simp [Text.isWordChar, Char.isAlphanum, hc, hlower]

/-- What is a word in lower case is a word. -/
theorem exists_isWord_of_lower {c : Char} {t : List Char} (h : Text.lower w = c :: t)
    (hw : IsWord c t) :
    ∃ c' t', w = c' :: t' ∧ IsWord c' t' := by
  cases w with
  | nil => cases h
  | cons c' t' =>
    obtain ⟨rfl, rfl⟩ := List.cons_eq_cons.mp h
    refine ⟨c', t', rfl, (isWordStart_toLower c').symm.trans hw.first, ?_⟩
    have hrest : (Text.lower t').all Text.isWordChar = true := hw.rest
    rw [Text.lower, List.all_map] at hrest
    exact (List.all_congr rfl fun c => isWordChar_toLower c).symm.trans hrest

theorem Keyword.isWord {k : Keyword} (h : Text.lower w = k.text.toList) :
    ∃ c t, w = c :: t ∧ IsWord c t := by
  obtain ⟨c, t, ht, hw⟩ : ∃ c t, k.text.toList = c :: t ∧ IsWord c t := by
    rcases k with (_ | _) | _ | _ | _ <;> exact ⟨_, _, rfl, rfl, rfl⟩
  exact exists_isWord_of_lower (h.trans ht) hw

theorem Keyword.isKeyword {k : Keyword} (h : Text.lower w = k.text.toList) :
    isKeyword w = true := by
  rw [Template.isKeyword, h, String.ofList_toList]
  rcases k with (_ | _) | _ | _ | _ <;> decide

theorem isWord_function {f : Builtin} (h : Text.lower w = f.name.toList) :
    ∃ c t, w = c :: t ∧ IsWord c t := by
  obtain ⟨c, t, ht, hw⟩ : ∃ c t, f.name.toList = c :: t ∧ IsWord c t := by
    cases f <;> exact ⟨_, _, rfl, rfl, rfl⟩
  exact exists_isWord_of_lower (h.trans ht) hw

theorem isKeyword_function {f : Builtin} (h : Text.lower w = f.name.toList) :
    isKeyword w = false := by
  rw [Template.isKeyword, h, String.ofList_toList]
  cases f <;> decide

theorem ofName?_function {f : Builtin} (h : Text.lower w = f.name.toList) :
    Builtin.ofName? w = some f := by
  have hsame : ∀ g : Builtin, Text.sameFolded g.name.toList w
      = (Text.lower g.name.toList == f.name.toList) :=
    fun g => by rw [Text.sameFolded, h]
  simp only [Builtin.ofName?, hsame]
  cases f <;> decide

/-! ### Cutting -/

/-- A lexeme in front of a text is cut off as a token. -/
theorem Lexeme.IsWritten.cut (h : l.IsWritten text)
    (hr : l.isWordlike = true → Text.Boundary rest) :
    ∃ t, Cut t text rest ∧ l.Gives (Text.firstVisible? rest == some '(') t ∧ t.isBlank = false := by
  cases h with
  | keyword h =>
    obtain ⟨c, t, rfl, hw⟩ := Keyword.isWord h
    exact ⟨_, .word hw (hr rfl), .keyword h, rfl⟩
  | function h =>
    obtain ⟨c, t, rfl, hw⟩ := isWord_function h
    exact ⟨_, .word hw (hr rfl), .function h, rfl⟩
  | word h => exact ⟨_, .word h (hr rfl), .word, rfl⟩
  | name hne hw => exact ⟨_, .placeholder .name hne hw (hr rfl), .name, rfl⟩
  | slot h => exact ⟨_, .slot h rest, .slot, rfl⟩
  | mark hc hb => exact ⟨_, .mark hc hb rest, .mark, rfl⟩

/-- The first character of a lexeme. -/
theorem Lexeme.IsWritten.exists_cons (h : l.IsWritten text) : ∃ c t, text = c :: t ∧
    Text.isBlank c = false ∧ ∀ behind ls, opens behind (l :: ls) = (c == '(') := by
  have hword : (∃ c t, text = c :: t ∧ IsWord c t) → (∀ behind ls, opens behind (l :: ls) = false) →
      ∃ c t, text = c :: t ∧ Text.isBlank c = false ∧
      ∀ behind ls, opens behind (l :: ls) = (c == '(') := by
    rintro ⟨c, t, rfl, hw⟩ hopens
    have hc : (c == '(') = false := by
      rw [beq_eq_false_iff_ne]
      rintro rfl
      exact absurd hw.first (by decide)
    exact ⟨c, t, rfl, isBlank_of_isWordStart hw.first, fun behind ls =>
      (hopens behind ls).trans hc.symm⟩
  cases h with
  | keyword h => exact hword (Keyword.isWord h) fun _ _ => rfl
  | function h => exact hword (isWord_function h) fun _ _ => rfl
  | word h => exact hword ⟨_, _, rfl, h⟩ fun _ _ => rfl
  | name => exact ⟨_, _, rfl, by decide, fun _ _ => rfl⟩
  | slot => exact ⟨_, _, rfl, by decide, fun _ _ => rfl⟩
  | mark hc hb => exact ⟨_, _, rfl, hb, fun _ _ => rfl⟩

/-- Whether a bracket opens is seen by the first lexeme. -/
theorem LaidOut.opens (h : LaidOut ls text) :
    Slotted.opens false ls = (Text.firstVisible? text == some '(') := by
  induction h with
  | nil => rfl
  | blank hc _ ih => rw [ih, Text.firstVisible?_blank hc]
  | cons hl =>
    obtain ⟨c, t, rfl, hb, hopens⟩ := hl.exists_cons
    rw [hopens, List.cons_append, Text.firstVisible?_visible hb]
    rfl

/-- **A text that is made of lexemes is cut into their tokens**, apart from white space. -/
theorem LaidOut.tokens (h : LaidOut ls text) : ∃ placed, Cuts text placed ∧
    Tokens false ls ((placed.map Placed.token).filter fun t => !t.isBlank) := by
  induction h with
  | nil => exact ⟨[], .nil, .nil⟩
  | @blank c ls rest hc _ ih =>
    obtain ⟨placed, hcuts, htokens⟩ := ih
    exact ⟨_, .cons 0 (.blank hc rest) hcuts, htokens⟩
  | @cons l ls text rest hl hr h ih =>
    obtain ⟨placed, hcuts, htokens⟩ := ih
    obtain ⟨t, hcut, hgives, hblank⟩ := hl.cut hr
    refine ⟨_, .cons 0 hcut hcuts, ?_⟩
    rw [List.map_cons, List.filter_cons_of_pos (by simp [hblank])]
    rw [← h.opens] at hgives
    exact .cons hgives htokens

end Clauses.Slotted
