import Clauses.Text.Utf8

/-!
# JSON values and their compact text

The part of JSON that records and wire values are written in: texts, truth values, lists and
objects. There are no numbers, since a wire number is a text.

The compact text has no white space. In a text a quote and a backslash are escaped, and so is each
control character; everything else stands as it is.
-/

namespace Clauses

/-- A JSON value without numbers. -/
inductive Json where
  | bool (b : Bool)
  | text (s : String)
  | list (items : List Json)
  | object (members : List (String × Json))

namespace Json

/-! ## Texts -/

/-- The escape of a character inside a text, or the character. -/
def escapedChar (c : Char) : List Char :=
  if c == '"' then ['\\', '"']
  else if c == '\\' then ['\\', '\\']
  else if c == '\x08' then ['\\', 'b']
  else if c == '\t' then ['\\', 't']
  else if c == '\n' then ['\\', 'n']
  else if c == '\x0c' then ['\\', 'f']
  else if c == '\r' then ['\\', 'r']
  else if c.toNat < 0x20 then
    ['\\', 'u', '0', '0', (c.toNat / 16).digitChar, (c.toNat % 16).digitChar]
  else [c]

/-- A text between quotes. -/
def escaped (s : String) : List Char := '"' :: s.toList.flatMap escapedChar ++ ['"']

/-! ## Values -/

mutual

/-- The compact text of a value. -/
def chars : Json → List Char
  | .bool true => ['t', 'r', 'u', 'e']
  | .bool false => ['f', 'a', 'l', 's', 'e']
  | .text s => escaped s
  | .list items => '[' :: itemsChars items
  | .object members => '\x7b' :: membersChars members

/-- The items of a list, with the bracket that ends it. -/
def itemsChars : List Json → List Char
  | [] => [']']
  | [v] => chars v ++ [']']
  | v :: rest => chars v ++ ',' :: itemsChars rest

/-- The members of an object, with the brace that ends it. -/
def membersChars : List (String × Json) → List Char
  | [] => ['\x7d']
  | [(k, v)] => escaped k ++ ':' :: (chars v ++ ['\x7d'])
  | (k, v) :: rest => escaped k ++ ':' :: (chars v ++ ',' :: membersChars rest)

end

/-- The compact text of a value, as bytes. -/
def bytes (v : Json) : Bytes := Text.toBytes (String.ofList v.chars)

end Json

end Clauses
