/-!
# Words, digits and lengths of texts

The few character classes of the expression grammar, all of them ASCII, and the lengths in UTF-8
bytes that positions are counted in.

* A **word** starts with a letter or `_` and goes on with letters, digits and `_`.
* Letter case is ignored in ASCII only: `é` and `É` are two different letters.
* A run of digits is read and written with core's `Nat.ofDigitChars` and `Nat.toDigits`.
-/

namespace Clauses.Text

/-! ## Character classes -/

theorem isAlpha_iff {c : Char} :
    c.isAlpha = true ↔ 65 ≤ c.toNat ∧ c.toNat ≤ 90 ∨ 97 ≤ c.toNat ∧ c.toNat ≤ 122 := by
  unfold Char.isAlpha Char.isUpper Char.isLower
  rw [Bool.or_eq_true, decide_eq_true_iff, Bool.and_eq_true]
  simp only [decide_eq_true_iff, UInt32.le_iff_toNat_le]
  exact Iff.rfl

/-- Starts a word: an ASCII letter or `_`. -/
def isWordStart (c : Char) : Bool := c.isAlpha || c == '_'

/-- Goes on with a word: an ASCII letter or digit, or `_`. -/
def isWordChar (c : Char) : Bool := c.isAlphanum || c == '_'

theorem isWordChar_of_isWordStart {c : Char} (h : isWordStart c = true) : isWordChar c = true := by
  simp only [isWordStart, isWordChar, Char.isAlphanum, Bool.or_eq_true] at *
  rcases h with h | h
  · exact .inl (.inl h)
  · exact .inr h

/-! ## Letter case -/

/-- The text with every ASCII letter in lower case. -/
def lower (s : List Char) : List Char := s.map Char.toLower

/-- The text with every ASCII letter in upper case. -/
def upper (s : List Char) : List Char := s.map Char.toUpper

/-- Two texts that differ at most in the case of ASCII letters. -/
def sameFolded (a b : List Char) : Bool := lower a == lower b

/-! ## Lengths -/

/-- Length in UTF-8 bytes. -/
def byteLength : List Char → Nat
  | [] => 0
  | c :: s => c.utf8Size + byteLength s

@[simp] theorem byteLength_nil : byteLength [] = 0 := rfl

@[simp] theorem byteLength_cons (c : Char) (s : List Char) :
    byteLength (c :: s) = c.utf8Size + byteLength s := rfl

@[simp] theorem byteLength_append (a b : List Char) :
    byteLength (a ++ b) = byteLength a + byteLength b := by
  induction a with
  | nil => simp
  | cons c a ih => simp [ih, Nat.add_assoc]

/-! ## Prefixes -/

/-- What is left of `s` after the text `t` that it starts with. -/
def dropText? : (t s : List Char) → Option (List Char)
  | [], s => some s
  | _ :: _, [] => none
  | c :: t, d :: s => if c == d then dropText? t s else none

theorem dropText?_append (t s : List Char) : dropText? t (t ++ s) = some s := by
  induction t with
  | nil => rfl
  | cons c t ih => simp [dropText?, ih]

/-! ## Padding -/

/-- The text filled up on the left with `fill` to `width` characters. -/
def padLeft (fill : Char) (width : Nat) (s : List Char) : List Char :=
  List.replicate (width - s.length) fill ++ s

theorem length_padLeft (fill : Char) (width : Nat) (s : List Char) :
    (padLeft fill width s).length = max width s.length := by
  simp only [padLeft, List.length_append, List.length_replicate]
  omega

/-- A natural number in decimal, with leading zeros up to `width` digits. -/
def zeroPadded (width n : Nat) : List Char := padLeft '0' width (Nat.toDigits 10 n)

/-- The value of a run of decimal digits. -/
def digitsValue (s : List Char) : Nat := Nat.ofDigitChars 10 s 0

end Clauses.Text
