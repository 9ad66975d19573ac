/-!
# Shortest decimal text of a floating-point number

A finite number is `mantissa * 2 ^ exponent`. The reals that round to it form an interval, whose
ends belong to it when the mantissa is even. The shortest text takes the coarsest decimal grid with
a point in that interval, and on that grid the point nearest to the number. All arithmetic is on
natural numbers.
-/

namespace Backend65816

namespace Decimal

/-- A finite binary number: sign, mantissa and exponent of two. -/
structure Binary where
  negative : Bool
  mantissa : Nat
  exponent : Int
deriving DecidableEq, Repr

/-- Kinds of floating-point numbers. -/
inductive Kind where
  | notANumber
  | infinite (negative : Bool)
  | finite (value : Binary)
deriving DecidableEq, Repr

def hiddenBit : Nat := 0x10000000000000

def ofBits (bits : UInt64) : Kind :=
  let pattern := bits.toNat
  let negative := pattern / 0x8000000000000000 = 1
  let biased : Nat := pattern / hiddenBit % 0x800
  let fraction := pattern % hiddenBit
  if biased = 2047 then
    if fraction = 0 then .infinite negative else .notANumber
  else if biased = 0 then .finite ⟨negative, fraction, -1074⟩
  else .finite ⟨negative, hiddenBit + fraction, (biased : Int) - 1075⟩

def ofFloat (value : Float) : Kind := ofBits value.toBits

def Binary.truncate (value : Binary) : Int :=
  let magnitude : Nat :=
    if 0 ≤ value.exponent then value.mantissa * Nat.pow 2 value.exponent.toNat
    else value.mantissa / Nat.pow 2 (-value.exponent).toNat
  if value.negative then -(magnitude : Int) else magnitude

/-- The bounds of the rounding interval of a positive number, and the number itself, over a common
denominator: `(low, value, high, denominator)`. -/
private def interval (value : Binary) : Nat × Nat × Nat × Nat :=
  let lowGap := if value.mantissa = hiddenBit ∧ value.exponent > -1074 then 1 else 2
  let scaleUp := Nat.pow 2 value.exponent.toNat
  let scaleDown := 4 * Nat.pow 2 (-value.exponent).toNat
  (scaleUp * (4 * value.mantissa - lowGap), scaleUp * (4 * value.mantissa),
    scaleUp * (4 * value.mantissa + 2), scaleDown)

/-- A decimal `digits * 10 ^ exponent`. -/
structure Digits where
  digits : Nat
  exponent : Int
deriving DecidableEq, Repr

private def onGrid (value : Binary) (exponent : Int) : Option Nat :=
  let (low, middle, high, denominator) := interval value
  let up := Nat.pow 10 (-exponent).toNat
  let down := denominator * Nat.pow 10 exponent.toNat
  let floor := middle * up / down
  let inside (candidate : Nat) : Bool :=
    let point := candidate * down
    if value.mantissa % 2 = 0 then low * up ≤ point && point ≤ high * up
    else low * up < point && point < high * up
  let below := middle * up - floor * down
  let above := (floor + 1) * down - middle * up
  match inside floor, inside (floor + 1) with
  | true, true =>
    some (if below < above ∨ (below = above ∧ floor % 2 = 0) then floor else floor + 1)
  | true, false => some floor
  | false, true => some (floor + 1)
  | false, false => none

private def search (value : Binary) (exponent : Int) : Nat → Digits
  | 0 => ⟨0, 0⟩
  | fuel + 1 =>
    match onGrid value exponent with
    | some digits => ⟨digits, exponent⟩
    | none => search value (exponent - 1) fuel

private def stripZeros (decimal : Digits) : Nat → Digits
  | 0 => decimal
  | fuel + 1 =>
    if decimal.digits ≠ 0 ∧ decimal.digits % 10 = 0 then
      stripZeros ⟨decimal.digits / 10, decimal.exponent + 1⟩ fuel
    else decimal

def shortest (value : Binary) : Digits :=
  if value.mantissa = 0 then ⟨0, 0⟩
  else
    -- No double reaches `10 ^ 309`, and seventeen digits always suffice.
    stripZeros (search value 309 1000) 400

/-- The layout of a printed number. -/
structure Layout where
  leastPositional : Int
  firstScientific : Int
  exponentDigits : Nat

private def positional (digits : List Char) (pointAt : Int) : String :=
  let length : Int := digits.length
  if pointAt ≤ 0 then
    "0." ++ String.ofList (List.replicate (-pointAt).toNat '0' ++ digits)
  else if length ≤ pointAt then
    String.ofList (digits ++ List.replicate (pointAt - length).toNat '0')
  else String.ofList (digits.take pointAt.toNat ++ '.' :: digits.drop pointAt.toNat)

private def scientific (layout : Layout) (digits : List Char) (exponent : Int) : String :=
  let fraction := digits.drop 1
  let power := Nat.toDigits 10 exponent.natAbs
  String.ofList (digits.take 1 ++ (if fraction.isEmpty then [] else '.' :: fraction)) ++ "e" ++
    (if exponent < 0 then "-" else "+") ++
    String.ofList (List.replicate (layout.exponentDigits - power.length) '0' ++ power)

def Layout.render (layout : Layout) (value : Float) : String :=
  match ofFloat value with
  | .notANumber => "NaN"
  | .infinite negative => if negative then "-Inf" else "+Inf"
  | .finite binary =>
    let sign := if binary.negative then "-" else ""
    if binary.mantissa = 0 then sign ++ "0"
    else
      let decimal := shortest binary
      let digits := Nat.toDigits 10 decimal.digits
      let exponent : Int := digits.length + decimal.exponent - 1
      if exponent < layout.leastPositional ∨ layout.firstScientific ≤ exponent then
        sign ++ scientific layout digits exponent
      else sign ++ positional digits (exponent + 1)

end Decimal

end Backend65816
