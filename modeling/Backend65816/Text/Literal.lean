import Backend65816.Word

/-!
# Number literals

Integer literals carry an optional sign and base mark: `0x`, `0b`, `0o`, or a leading zero for
octal. Decimal fractions follow `digits.digits` with an optional power of ten.
-/

namespace Backend65816

namespace Literal

def digitValue (character : Char) : Option Nat :=
  let code := character.toNat
  if '0'.toNat ≤ code ∧ code ≤ '9'.toNat then some (code - '0'.toNat)
  else if 'a'.toNat ≤ code ∧ code ≤ 'f'.toNat then some (code - 'a'.toNat + 10)
  else if 'A'.toNat ≤ code ∧ code ≤ 'F'.toNat then some (code - 'A'.toNat + 10)
  else none

def readDigits (base : Nat) (characters : List Char) : Option Nat :=
  characters.foldlM (fun total character => do
    let digit ← digitValue character
    if digit < base then some (total * base + digit) else none) 0

def markedBase : Char → Option Nat
  | 'x' | 'X' => some 16
  | 'b' | 'B' => some 2
  | 'o' | 'O' => some 8
  | _ => none

def splitBase (characters : List Char) : Option (Nat × List Char) :=
  match characters with
  | [] => none
  | '0' :: mark :: digit :: rest =>
    match markedBase mark with
    | some base => some (base, digit :: rest)
    | none => some (8, mark :: digit :: rest)
  | '0' :: rest => some (8, rest)
  | characters => some (10, characters)

def readNatural (characters : List Char) : Option Nat := do
  let (base, digits) ← splitBase characters
  readDigits base digits

def separatorsWellPlaced (characters : List Char) : Bool :=
  let (hexadecimal, afterMark, digits) :=
    match characters with
    | '0' :: mark :: rest =>
      if (markedBase mark).isSome then (markedBase mark == some 16, true, rest)
      else (false, false, characters)
    | _ => (false, false, characters)
  let isDigit (character : Char) : Bool :=
    character.isDigit || (hexadecimal && (digitValue character).isSome)
  let step (state : Option (Bool × Bool)) (character : Char) : Option (Bool × Bool) := do
    -- The state says whether the last character was a digit, and whether it was an underscore.
    let (digitBefore, underscoreBefore) ← state
    if isDigit character then some (true, false)
    else if character = '_' then if digitBefore then some (false, true) else none
    else if underscoreBefore then none
    else some (false, false)
  match digits.foldl step (some (afterMark, false)) with
  | some (_, underscoreLast) => !underscoreLast
  | none => false

def readSeparated (characters : List Char) : Option Nat :=
  if characters.contains '_' then
    if separatorsWellPlaced characters then do
      let (base, digits) ← splitBase characters
      readDigits base (digits.filter (· ≠ '_'))
    else none
  else readNatural characters

def readSigned (unsigned : List Char → Option Nat) (characters : List Char) : Option Int :=
  match characters with
  | '-' :: rest => (unsigned rest).map fun magnitude => -(magnitude : Int)
  | '+' :: rest => (unsigned rest).map fun magnitude => (magnitude : Int)
  | rest => (unsigned rest).map fun magnitude => (magnitude : Int)

def spanDigits (characters : List Char) : List Char × List Char :=
  (characters.takeWhile Char.isDigit, characters.dropWhile Char.isDigit)

def decimalValue (digits : List Char) : Nat :=
  digits.foldl (fun total character => total * 10 + (character.toNat - '0'.toNat)) 0

/-- A decimal fraction `mantissa * 10 ^ exponent` with a sign. -/
structure Fraction where
  negative : Bool
  mantissa : Nat
  digits : Nat
  exponent : Int
deriving DecidableEq, Repr

def readPower (characters : List Char) : Option Int :=
  match characters with
  | [] => some 0
  | mark :: rest =>
    if mark = 'e' ∨ mark = 'E' then
      let (negative, digits) :=
        match rest with
        | '-' :: digits => (true, digits)
        | '+' :: digits => (false, digits)
        | digits => (false, digits)
      if digits.isEmpty ∨ !digits.all Char.isDigit then none
      else
        let power : Int := decimalValue digits
        some (if negative then -power else power)
    else none

/-- Reads a decimal fraction: digits with an optional point, or a point and digits, then an optional
power of ten. -/
def readFraction (characters : List Char) : Option Fraction := do
  let (negative, body) :=
    match characters with
    | '-' :: rest => (true, rest)
    | '+' :: rest => (false, rest)
    | rest => (false, rest)
  let (whole, afterWhole) := spanDigits body
  let (part, afterPart) :=
    match afterWhole with
    | '.' :: rest => spanDigits rest
    | rest => ([], rest)
  if whole.isEmpty ∧ part.isEmpty then none
  else
    let power ← readPower afterPart
    let digits := whole ++ part
    some ⟨negative, decimalValue digits, digits.length, power - part.length⟩

def readSeparatedFraction (characters : List Char) : Option Fraction :=
  if characters.contains '_' then
    if separatorsWellPlaced characters then readFraction (characters.filter (· ≠ '_')) else none
  else readFraction characters

def Fraction.toFloat? (fraction : Fraction) : Option Float :=
  let sign (value : Float) : Float := if fraction.negative then -value else value
  if fraction.mantissa = 0 then some (sign 0.0)
  else if fraction.digits + fraction.exponent < -400 then some (sign 0.0)
  else if (Nat.toDigits 10 fraction.mantissa).length + fraction.exponent > 400 then none
  else
    let value :=
      if fraction.exponent < 0 then
        Float.ofScientific fraction.mantissa true (-fraction.exponent).toNat
      else Float.ofScientific fraction.mantissa false fraction.exponent.toNat
    if value.isFinite then some (sign value) else none

end Literal

end Backend65816
