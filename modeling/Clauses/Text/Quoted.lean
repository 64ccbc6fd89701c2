import Clauses.Text.Glyphless

/-!
# Quoted texts

How a text stands inside a message: between double quotes, on one line, with every character that
could not be seen written as an escape. A single quote needs none.

| character | written | |---|---| | `"` `\` | with a backslash before it | | tab, line feed,
carriage return, NUL | `\t` `\n` `\r` `\0` | | any other without a glyph | `\u` and its code point
in lower-case hexadecimal digits between braces | | the rest | as it is |
-/

namespace Clauses.Text

/-- How one character stands in a quoted text. -/
def quotedChar (c : Char) : List Char :=
  if c == '\x00' then ['\\', '0']
  else if c == '\t' then ['\\', 't']
  else if c == '\n' then ['\\', 'n']
  else if c == '\r' then ['\\', 'r']
  else if c == '"' then ['\\', '"']
  else if c == '\\' then ['\\', '\\']
  else if isGlyphless c then
    ['\\', 'u', '\x7b'] ++ Nat.toDigits 16 c.toNat ++ ['\x7d']
  else [c]

/-- The text in double quotes. -/
def quoted (s : String) : String :=
  String.ofList ('"' :: s.toList.flatMap quotedChar ++ ['"'])

end Clauses.Text
