import Clauses.Json.Fault
import Clauses.Text.Utf8

/-!
# Text literals of JSON

What stands between two quotes, read as bytes: escapes are replaced by what they stand for, and
the whole must be UTF-8. A code point above `U+FFFF` is escaped as a pair of surrogates.

A literal that nobody asks for is passed over with fewer checks: its escapes have to be complete,
but surrogates need no partner and the bytes need not be UTF-8.

## Termination

Every step leaves less of the text behind it (`readEscape_length`, `skipEscape_length`).
-/

namespace Clauses.Json

/-- The value of a hexadecimal digit. -/
def hexValue? (b : UInt8) : Option Nat :=
  let n := b.toNat
  if 48 ≤ n && n ≤ 57 then some (n - 48)
  else if 97 ≤ n && n ≤ 102 then some (n - 87)
  else if 65 ≤ n && n ≤ 70 then some (n - 55)
  else none

/-- Reads four hexadecimal digits. -/
def readHex : Bytes → Except Fault (Nat × Bytes)
  | a :: b :: c :: d :: rest =>
    match hexValue? a, hexValue? b, hexValue? c, hexValue? d with
    | some a, some b, some c, some d => .ok (((a * 16 + b) * 16 + c) * 16 + d, rest)
    | _, _, _, _ => .error .invalidEscape
  | _ => .error .endOfText

theorem readHex_length {s rest : Bytes} {n : Nat} (h : readHex s = .ok (n, rest)) :
    rest.length < s.length := by
  unfold readHex at h
  split at h
  · split at h
    · cases h
      simp only [List.length_cons]
      omega
    · cases h
  · cases h

/-- The first half of a pair that stands for one code point. -/
def isLeadSurrogate (n : Nat) : Bool := 0xD800 ≤ n && n ≤ 0xDBFF

/-- The second half of such a pair. -/
def isTrailSurrogate (n : Nat) : Bool := 0xDC00 ≤ n && n ≤ 0xDFFF

/-- The UTF-8 form of a code point. -/
def codePointBytes (n : Nat) : Bytes := String.utf8EncodeChar (Char.ofNat n)

/-- Reads the second half of a pair of surrogates. -/
def readTrail (lead : Nat) : Bytes → Except Fault (Bytes × Bytes)
  | [] => .error .endOfText
  | [b] => .error (if b == 92 then .endOfText else .endOfHexEscape)
  | b :: u :: rest =>
    if b == 92 && u == 117 then
      match readHex rest with
      | .error e => .error e
      | .ok (n, rest) =>
        if isTrailSurrogate n then
          .ok (codePointBytes (0x10000 + (lead - 0xD800) * 0x400 + (n - 0xDC00)), rest)
        else .error .loneSurrogate
    else .error .endOfHexEscape

/-- Reads the code point of an escape that is given by its number. -/
def readCodePoint (s : Bytes) : Except Fault (Bytes × Bytes) :=
  match readHex s with
  | .error e => .error e
  | .ok (n, rest) =>
    if isTrailSurrogate n then .error .loneSurrogate
    else if isLeadSurrogate n then readTrail n rest
    else .ok (codePointBytes n, rest)

/-- What the escapes of one letter stand for. -/
def simpleEscape? (b : UInt8) : Option UInt8 :=
  if b == 34 || b == 92 || b == 47 then some b
  else if b == 98 then some 8
  else if b == 102 then some 12
  else if b == 110 then some 10
  else if b == 114 then some 13
  else if b == 116 then some 9
  else none

/-- Reads what follows a backslash. -/
def readEscape : Bytes → Except Fault (Bytes × Bytes)
  | [] => .error .endOfText
  | b :: rest =>
    match simpleEscape? b with
    | some v => .ok ([v], rest)
    | none => if b == 117 then readCodePoint rest else .error .invalidEscape

theorem readTrail_length {lead : Nat} {s bytes rest : Bytes}
    (h : readTrail lead s = .ok (bytes, rest)) : rest.length < s.length := by
  unfold readTrail at h
  split at h
  · cases h
  · cases h
  · split at h
    · split at h
      · cases h
      · rename_i hex
        split at h
        · simp only [Except.ok.injEq, Prod.mk.injEq] at h
          obtain ⟨_, rfl⟩ := h
          have := readHex_length hex
          simp only [List.length_cons]
          omega
        · cases h
    · cases h

theorem readEscape_length {s bytes rest : Bytes} (h : readEscape s = .ok (bytes, rest)) :
    rest.length < s.length := by
  unfold readEscape at h
  split at h
  · cases h
  · split at h
    · cases h
      simp
    · split at h
      · unfold readCodePoint at h
        split at h
        · cases h
        · rename_i hex
          have := readHex_length hex
          split at h
          · cases h
          · split at h
            · have := readTrail_length h
              simp only [List.length_cons]
              omega
            · cases h
              simp only [List.length_cons]
              omega
      · cases h

/-- Reads the bytes of a literal up to its closing quote. -/
def readLiteral : Bytes → Except Fault (Bytes × Bytes)
  | [] => .error .endOfText
  | b :: rest =>
    if b == 34 then .ok ([], rest)
    else if b == 92 then
      match _h : readEscape rest with
      | .error e => .error e
      | .ok (bytes, rest') =>
        match readLiteral rest' with
        | .error e => .error e
        | .ok (more, rest'') => .ok (bytes ++ more, rest'')
    else if b < 32 then .error .controlCharacter
    else
      match readLiteral rest with
      | .error e => .error e
      | .ok (more, rest') => .ok (b :: more, rest')
termination_by s => s.length
decreasing_by
  · have := readEscape_length _h
    simp only [List.length_cons]
    omega
  · simp

/-- Reads a text whose opening quote has been read. -/
def readText (s : Bytes) : Except Fault (String × Bytes) :=
  match readLiteral s with
  | .error e => .error e
  | .ok (bytes, rest) =>
    match Text.ofBytes? bytes with
    | some t => .ok (t, rest)
    | none => .error .invalidCodePoint

/-! ## Passing over a literal -/

/-- Passes over what follows a backslash. -/
def skipEscape : Bytes → Except Fault Bytes
  | [] => .error .endOfText
  | b :: rest =>
    if (simpleEscape? b).isSome then .ok rest
    else if b == 117 then
      match readHex rest with
      | .error e => .error e
      | .ok (_, rest) => .ok rest
    else .error .invalidEscape

theorem skipEscape_length {s rest : Bytes} (h : skipEscape s = .ok rest) :
    rest.length < s.length := by
  unfold skipEscape at h
  split at h
  · cases h
  · split at h
    · cases h
      simp
    · split at h
      · split at h
        · cases h
        · rename_i hex
          cases h
          have := readHex_length hex
          simp only [List.length_cons]
          omega
      · cases h

/-- Passes over a literal whose opening quote has been read. -/
def skipLiteral : Bytes → Except Fault Bytes
  | [] => .error .endOfText
  | b :: rest =>
    if b == 34 then .ok rest
    else if b == 92 then
      match _h : skipEscape rest with
      | .error e => .error e
      | .ok rest' => skipLiteral rest'
    else if b < 32 then .error .controlCharacter
    else skipLiteral rest
termination_by s => s.length
decreasing_by
  · have := skipEscape_length _h
    simp only [List.length_cons]
    omega
  · simp

end Clauses.Json
