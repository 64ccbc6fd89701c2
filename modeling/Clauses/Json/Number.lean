import Clauses.Binary64.Shortest
import Clauses.Json.Fault

/-!
# Numbers of JSON

No record holds a number, so a number is only read to be passed over or to be named in a message.

A number that is named stays an integer as long as it fits into 64 bits. Otherwise it becomes a
floating point number: of its digits as many as 64 bits hold, times a power of ten in one step.
-/

namespace Clauses.Json

/-- The byte of a decimal digit. -/
def isDigit (b : UInt8) : Bool := 48 ≤ b && b ≤ 57

/-- The text starts with a digit. -/
def startsWithDigit : Bytes → Bool
  | b :: _ => isDigit b
  | [] => false

/-- The first byte is the letter `e`, of either case. -/
def startsWithExponent : Bytes → Bool
  | b :: _ => b == 101 || b == 69
  | [] => false

/-- The text without the digits it starts with. -/
def dropDigits (s : Bytes) : Bytes := s.dropWhile isDigit

/-! ## Naming a number -/

/-- The sign of a number, applied to its magnitude. -/
def withSign (positive : Bool) (x : Float) : Float := if positive then x else -x

/-- `x * 10 ^ e`, where a number far too small is first brought nearer in steps of `10 ^ 308`. -/
def scaleFloat (x : Float) (e : Int) : (steps : Nat) → Except Fault Float
  | 0 => .ok x
  | steps + 1 =>
    if e.natAbs ≤ 308 then
      let power := Float.ofScientific 1 false e.natAbs
      if 0 ≤ e then
        if Binary64.isFinite (x * power) then .ok (x * power) else .error .numberOutOfRange
      else .ok (x / power)
    else if x == 0 then .ok x
    else if 0 ≤ e then .error .numberOutOfRange
    else scaleFloat (x / Float.ofScientific 1 false 308) (e + 308) steps

/-- The floating point number `± significand * 10 ^ e`. -/
def floatOfParts (positive : Bool) (significand : Nat) (e : Int) : Except Fault Float :=
  (scaleFloat (Float.ofNat significand) e 4).map (withSign positive)

/-- How a message writes a finite number: with a point, or with an exponent if that is far away. -/
def floatText (x : Float) : String :=
  let b := Binary64.ofFloat x
  let (digits, e) := if b.m = 0 then (0, 0) else b.shortest
  let (kept, digits) := if digits = 0 then (20, 0) else Binary64.dropZeros 20 digits
  let ds := Nat.toDigits 10 digits
  let e := e + (20 - kept)
  let point := e + ds.length
  let magnitude :=
    if 0 ≤ e && point ≤ 16 || digits = 0 then
      ds ++ List.replicate e.toNat '0' ++ ['.', '0']
    else if 0 < point && point ≤ 16 then ds.take point.toNat ++ '.' :: ds.drop point.toNat
    else if -5 < point && point ≤ 0 then
      '0' :: '.' :: (List.replicate (-point).toNat '0' ++ ds)
    else
      ds.take 1 ++ (if 1 < ds.length then '.' :: ds.drop 1 else [])
        ++ ['e', if 0 < point then '+' else '-'] ++ Nat.toDigits 10 (point - 1).natAbs
  String.ofList (if Binary64.signBit x then '-' :: magnitude else magnitude)

/-- Digits taken into a significand of 64 bits: significand, how many, and the rest. -/
def takeSignificand (significand count : Nat) : Bytes → Nat × Nat × Bytes
  | [] => (significand, count, [])
  | b :: rest =>
    let next := significand * 10 + (b.toNat - 48)
    if isDigit b && next < UInt64.size then takeSignificand next (count + 1) rest
    else (significand, count, b :: rest)

/-- A floating point number as what was found. -/
def foundFloat (x : Except Fault Float) (rest : Bytes) : Except Fault (Found × Bytes) :=
  x.map fun x => (.floating (floatText x), rest)

/-- Reads the exponent of a number, whose mark has been read. -/
def nameExponent (positive : Bool) (significand : Nat) (e : Int) (s : Bytes) :
    Except Fault (Found × Bytes) :=
  let (raises, s) := match s with
    | b :: rest => if b == 43 then (true, rest) else if b == 45 then (false, rest) else (true, s)
    | [] => (true, s)
  if s.isEmpty then .error .endOfValue
  else if !startsWithDigit s then .error .invalidNumber
  else
    let digits := s.takeWhile isDigit
    let n : Int := digits.foldl (fun n b => n * 10 + (b.toNat - 48)) 0
    if n ≤ Int32.maxValue.toInt then
      foundFloat (floatOfParts positive significand (if raises then e + n else e - n))
        (dropDigits s)
    else if significand != 0 && raises then .error .numberOutOfRange
    else foundFloat (.ok (withSign positive 0)) (dropDigits s)

/-- Reads the digits behind the point of a number. -/
def nameFraction (positive : Bool) (significand : Nat) (e : Int) (s : Bytes) :
    Except Fault (Found × Bytes) :=
  if s.isEmpty then .error .endOfValue
  else if !startsWithDigit s then .error .invalidNumber
  else
    let (significand, count, rest) := takeSignificand significand 0 s
    let rest := dropDigits rest
    let e := e - count
    if startsWithExponent rest then nameExponent positive significand e (rest.drop 1)
    else foundFloat (floatOfParts positive significand e) rest

/-- Reads a number whose sign has been read, as what was found. -/
def nameNumber (positive : Bool) (s : Bytes) : Except Fault (Found × Bytes) :=
  match s with
  | [] => .error .endOfValue
  | b :: tail =>
    if !isDigit b then .error .invalidNumber
    else if b == 48 && startsWithDigit tail then .error .invalidNumber
    else
      let (significand, _, rest) := takeSignificand 0 0 s
      let e := (rest.takeWhile isDigit).length
      let overlong := startsWithDigit rest
      let rest := dropDigits rest
      if startsWithExponent rest then nameExponent positive significand e (rest.drop 1)
      else match rest with
        | 46 :: fraction => nameFraction positive significand e fraction
        | _ =>
          if overlong then foundFloat (floatOfParts positive significand e) rest
          else if positive then .ok (.integer significand, rest)
          else if 0 < significand && significand ≤ Nat.pow 2 63
            then .ok (.integer (-significand), rest)
          else foundFloat (.ok (-(Float.ofNat significand))) rest

/-! ## Passing over a number -/

/-- Passes over the digits of an exponent, whose mark has been read. -/
def skipExponent (s : Bytes) : Except Fault Bytes :=
  let s := match s with
    | b :: rest => if b == 43 || b == 45 then rest else s
    | [] => s
  if startsWithDigit s then .ok (dropDigits s) else .error .invalidNumber

/-- Passes over the digits behind a point. -/
def skipFraction (s : Bytes) : Except Fault Bytes :=
  if startsWithDigit s then
    let rest := dropDigits s
    if startsWithExponent rest then skipExponent (rest.drop 1) else .ok rest
  else .error .invalidNumber

/-- Passes over a number whose sign has been read. -/
def skipNumber (s : Bytes) : Except Fault Bytes :=
  match s with
  | [] => .error .invalidNumber
  | b :: tail =>
    if !isDigit b then .error .invalidNumber
    else if b == 48 && startsWithDigit tail then .error .invalidNumber
    else
      let rest := dropDigits s
      if startsWithExponent rest then skipExponent (rest.drop 1)
      else match rest with
        | 46 :: fraction => skipFraction fraction
        | _ => .ok rest

end Clauses.Json
