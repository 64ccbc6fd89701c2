/-!
# Base64

Bytes as text: three bytes are four symbols of six bits, and an incomplete group at the end is
filled up with `=`. Reading accepts canonical text only: the length is a multiple of four, padding
stands at the end and nowhere else, and bits that no byte needs are zero.

* `Base64.encode` — writes bytes
* `Base64.decode` — reads them back, or names the first fault

Offsets in faults count bytes from the start of the text. A text whose length leaves a remainder of
one cannot be read; if its last byte is not even a symbol, that byte is the fault.
-/

namespace Clauses

/-- Bytes. -/
abbrev Bytes := List UInt8

namespace Base64

/-- Why a text is not base64. -/
inductive Fault where
  /-- A byte that is not in the alphabet, or padding where none may stand. -/
  | symbol (byte : UInt8) (offset : Nat)
  /-- No whole number of bytes has this many symbols. -/
  | length (n : Nat)
  /-- The last symbol has bits that belong to no byte. -/
  | lastSymbol (byte : UInt8) (offset : Nat)
  /-- The padding does not fill up the last group. -/
  | padding
deriving DecidableEq

/-- The fault in words. -/
def Fault.message : Fault → String
  | .symbol b n => s!"Invalid symbol {b.toNat}, offset {n}."
  | .length n => s!"Invalid input length: {n}"
  | .lastSymbol b n => s!"Invalid last symbol {b.toNat}, offset {n}."
  | .padding => "Invalid padding"

/-! ## The alphabet -/

/-- The symbol for six bits. -/
def symbol (n : Nat) : Char :=
  if n < 26 then Char.ofNat (65 + n)
  else if n < 52 then Char.ofNat (97 + n - 26)
  else if n < 62 then Char.ofNat (48 + n - 52)
  else if n = 62 then '+' else '/'

/-- The six bits of a symbol. -/
def value? (b : UInt8) : Option Nat :=
  let n := b.toNat
  if 65 ≤ n && n ≤ 90 then some (n - 65)
  else if 97 ≤ n && n ≤ 122 then some (n - 97 + 26)
  else if 48 ≤ n && n ≤ 57 then some (n - 48 + 52)
  else if n = 43 then some 62
  else if n = 47 then some 63
  else none

/-- The byte `=`. -/
def pad : UInt8 := 61

theorem value?_symbol {n : Nat} (h : n < 64) :
    value? (UInt8.ofNat (symbol n).toNat) = some n := by
  have hall : ∀ m ∈ List.range 64, value? (UInt8.ofNat (symbol m).toNat) = some m := by decide
  exact hall n (List.mem_range.mpr h)

/-! ## Writing -/

/-- The bytes as base64 text. -/
def encode : Bytes → List Char
  | [] => []
  | [a] =>
    let n := a.toNat * 16
    [symbol (n / 64), symbol (n % 64), '=', '=']
  | [a, b] =>
    let n := (a.toNat * 256 + b.toNat) * 4
    [symbol (n / 4096), symbol (n / 64 % 64), symbol (n % 64), '=']
  | a :: b :: c :: rest =>
    let n := (a.toNat * 256 + b.toNat) * 256 + c.toNat
    symbol (n / 262144) :: symbol (n / 4096 % 64) :: symbol (n / 64 % 64) :: symbol (n % 64)
      :: encode rest

/-! ## Reading -/

/-- The symbol at an offset. -/
def valueAt (b : UInt8) (offset : Nat) : Except Fault Nat :=
  match value? b with
  | some n => .ok n
  | none => .error (.symbol b offset)

/-- The low 24 bits as three bytes. -/
def threeBytes (n : Nat) : Bytes :=
  [UInt8.ofNat (n / 65536), UInt8.ofNat (n / 256 % 256), UInt8.ofNat (n % 256)]

/--
Symbols and padding of the last group, where the symbols read so far are `symbols`, newest first.
Padding may start behind the second place and ends the text.
-/
def splitLast (start : Nat) (symbols : List (UInt8 × Nat)) (pads place : Nat) :
    Bytes → Except Fault (List (UInt8 × Nat) × Nat)
  | [] => .ok (symbols, pads)
  | b :: rest =>
    if b == pad then
      if place < 2 then .error (.symbol b (start + place))
      else splitLast start symbols (pads + 1) (place + 1) rest
    else if 0 < pads then .error (.symbol pad (start + place - pads))
    else do
      let n ← valueAt b (start + place)
      splitLast start ((b, n) :: symbols) pads (place + 1) rest

/-- Reads the last group, which holds what the whole groups before it have left. -/
def decodeLast (start : Nat) (group : Bytes) : Except Fault Bytes := do
  let (symbols, pads) ← splitLast start [] 0 0 group
  match symbols with
  | [] => if group.isEmpty then .ok [] else .error (.length start)
  | [_] => .error (.length (start + 1))
  | (last, _) :: _ =>
    if (pads + symbols.length) % 4 != 0 then .error .padding
    else
      let n := symbols.foldr (fun s acc => acc * 64 + s.2) 0 * Nat.pow 64 (4 - symbols.length)
      let count := symbols.length * 6 / 8
      if n % Nat.pow 256 (3 - count) != 0 then
        .error (.lastSymbol last (start + symbols.length - 1))
      else .ok ((threeBytes n).take count)

/-- Reads whole groups, as long as something stands behind them, and then the last one. -/
def decodeGroups (start : Nat) : Bytes → Except Fault Bytes
  | a :: b :: c :: d :: e :: rest => do
    let n := (← valueAt a start) * 262144 + (← valueAt b (start + 1)) * 4096
      + (← valueAt c (start + 2)) * 64 + (← valueAt d (start + 3))
    let bytes ← decodeGroups (start + 4) (e :: rest)
    return threeBytes n ++ bytes
  | group => decodeLast start group

/-- Reads base64 text, given as its bytes. -/
def decode (text : Bytes) : Except Fault Bytes :=
  match text.getLast? with
  | some b =>
    if text.length % 4 = 1 && b != pad && (value? b).isNone then
      .error (.symbol b (text.length - 1))
    else decodeGroups 0 text
  | none => .ok []

end Base64

end Clauses
