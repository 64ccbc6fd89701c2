import Clauses.Error
import Clauses.Text.Ascii
import Clauses.Text.Blank

/-!
# The tokens of a template

A template is a text of the expression language in which slots such as `{0}` stand for arguments. It
is cut into tokens from left to right, up to its end or to the first place where there is no
token.

* `Template.lex` — the tokens with their positions in bytes, and what ended them

## Termination

Each token has a first character, and the rest of the text is shorter than what the token was taken
from (`next_length_le`).
-/

namespace Clauses.Template

/-- What a placeholder starts with. -/
inductive Sigil where
  | name | value
deriving DecidableEq

/-- The sigil as it is written. -/
def Sigil.char : Sigil → Char
  | .name => '#'
  | .value => ':'

/-- A token of a template. -/
inductive Token where
  /-- A brace that stands for itself and is written twice. -/
  | brace (c : Char)
  | slot (index : Nat) (format : Option String)
  | placeholder (sigil : Sigil) (word : List Char)
  /-- A word; `called` says whether a bracket opens behind it. -/
  | word (text : List Char) (called : Bool)
  | blank (c : Char)
  | mark (c : Char)
deriving DecidableEq

/-- A token and its position, in bytes from the start of the template. -/
structure Placed where
  position : Nat
  token : Token
deriving DecidableEq

/-- The tokens of a template up to its end or its first fault. -/
structure Lexed where
  tokens : List Placed
  fault : Option (Nat × TemplateFault)

/-! ## Single tokens -/

/-- Slots are numbered with 64 bits. -/
def maxSlot : Nat := UInt64.size - 1

/-- A slot with its digits, in front of the rest of the text. -/
def slotOf (digits : List Char) (format : Option (List Char)) (rest : List Char) :
    Except TemplateFault (Token × List Char) :=
  if digits.isEmpty then .error .slotNotNumeric
  else if maxSlot < Text.digitsValue digits then .error (.slotTooLarge (String.ofList digits))
  else .ok (.slot (Text.digitsValue digits) (format.map String.ofList), rest)

/-- Takes what stands behind the digits of a slot off a text. -/
def slotEnd (digits : List Char) : List Char → Except TemplateFault (Token × List Char)
  | [] => .error .openBrace
  | c :: rest =>
    if c == '\x7d' then slotOf digits none rest
    else if c == ':' then
      match rest.dropWhile (· != '\x7d') with
      | [] => .error .openBrace
      | _ :: after =>
        if (rest.takeWhile (· != '\x7d')).isEmpty then .error .emptyFormat
        else slotOf digits (some (rest.takeWhile (· != '\x7d'))) after
    else .error .slotNotNumeric

/-- Takes a slot off a text, whose brace has been taken off. -/
def nextSlot (s : List Char) : Except TemplateFault (Token × List Char) :=
  slotEnd (s.takeWhile Char.isDigit) (s.dropWhile Char.isDigit)

/-- Takes a placeholder off a text, whose sigil has been taken off. -/
def nextPlaceholder (sigil : Sigil) (s : List Char) : Except TemplateFault (Token × List Char) :=
  let word := s.takeWhile Text.isWordChar
  if word.isEmpty then .error (.noName sigil.char)
  else .ok (.placeholder sigil word, s.dropWhile Text.isWordChar)

/-- Takes a word off a text, whose first character has been taken off. -/
def nextWord (c : Char) (s : List Char) : Token × List Char :=
  let rest := s.dropWhile Text.isWordChar
  (.word (c :: s.takeWhile Text.isWordChar) (Text.firstVisible? rest == some '('), rest)

/-- Takes a token off a text that starts with `c`. -/
def next (c : Char) (s : List Char) : Except TemplateFault (Token × List Char) :=
  if c == '\x7b' then
    match s with
    | '\x7b' :: rest => .ok (.brace '\x7b', rest)
    | s => nextSlot s
  else if c == '\x7d' then
    match s with
    | '\x7d' :: rest => .ok (.brace '\x7d', rest)
    | _ => .error .closeBrace
  else if c == '#' then nextPlaceholder .name s
  else if c == ':' then nextPlaceholder .value s
  else if Text.isWordStart c then .ok (nextWord c s)
  else if Text.isBlank c then .ok (.blank c, s)
  else .ok (.mark c, s)

/-! ## Lengths -/

theorem eq_of_slotOf {digits rest rest' : List Char} {format : Option (List Char)} {t : Token}
    (h : slotOf digits format rest = .ok (t, rest')) : rest' = rest := by
  unfold slotOf at h
  split at h
  · cases h
  · split at h <;> cases h
    rfl

theorem slotEnd_length_le {digits s rest : List Char} {t : Token}
    (h : slotEnd digits s = .ok (t, rest)) : rest.length ≤ s.length := by
  unfold slotEnd at h
  split at h
  · cases h
  · rename_i c after
    split at h
    · rw [eq_of_slotOf h]
      simp
    · split at h
      · have he := (List.dropWhile_suffix (l := after) (· != '\x7d')).length_le
        split at h
        · cases h
        · rename_i hs
          rw [hs] at he
          split at h
          · cases h
          · rw [eq_of_slotOf h]
            simp only [List.length_cons] at he ⊢
            omega
      · cases h

theorem nextSlot_length_le {s rest : List Char} {t : Token} (h : nextSlot s = .ok (t, rest)) :
    rest.length ≤ s.length :=
  Nat.le_trans (slotEnd_length_le h) (List.dropWhile_suffix _).length_le

theorem next_length_le {c : Char} {s rest : List Char} {t : Token}
    (h : next c s = .ok (t, rest)) : rest.length ≤ s.length := by
  have hw := (List.dropWhile_suffix (l := s) Text.isWordChar).length_le
  unfold next at h
  split at h
  · split at h
    · cases h; simp
    · exact nextSlot_length_le h
  · split at h
    · split at h
      · cases h; simp
      · cases h
    · have placeholder {sigil : Sigil} (h : nextPlaceholder sigil s = .ok (t, rest)) :
          rest.length ≤ s.length := by
        unfold nextPlaceholder at h
        dsimp only at h
        split at h
        · cases h
        · cases h; exact hw
      split at h
      · exact placeholder h
      · split at h
        · exact placeholder h
        · split at h
          · cases h; exact hw
          · split at h <;> cases h <;> exact Nat.le_refl _

/-! ## Whole templates -/

/-- The tokens of a text that starts at a position. -/
def lexFrom (position : Nat) : (s : List Char) → Lexed
  | [] => ⟨[], none⟩
  | c :: s =>
    match h : next c s with
    | .error fault => ⟨[], some (position, fault)⟩
    | .ok (token, rest) =>
      have : rest.length ≤ s.length := next_length_le h
      let lexed := lexFrom (position + (Text.byteLength (c :: s) - Text.byteLength rest)) rest
      ⟨⟨position, token⟩ :: lexed.tokens, lexed.fault⟩
termination_by s => s.length
decreasing_by
  simp only [List.length_cons]
  omega

/-- The tokens of a template. -/
def lex (template : String) : Lexed := lexFrom 0 template.toList

end Clauses.Template
