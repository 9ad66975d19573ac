import Backend65816.Document.Timestamp

/-!
# Scalars of a document

An unquoted scalar is read by its form: nothing, a truth value, a timestamp, an integer, a decimal
fraction, or else text. Integers that do not fit a word are still integers up to `2 ^ 64`; larger
ones are fractions. The sign of a binary or octal integer may also stand after the mark of its base.
-/

namespace Backend65816

namespace Document

/-- What an unquoted scalar stands for. -/
inductive ScalarValue where
  | null
  | bool (value : Bool)
  | int (value : Int)
  | float (value : Float)
  | timestamp
  | text

def ScalarValue.tag : ScalarValue → String
  | null => "!!null"
  | bool _ => "!!bool"
  | int _ => "!!int"
  | float _ => "!!float"
  | timestamp => "!!timestamp"
  | text => "!!str"

def readInt (plain : List Char) : Option Int :=
  match Literal.readSigned Literal.readNatural plain with
  | some value =>
    if Word.InRange value then some value
    else
      match Literal.readNatural plain with
      | some magnitude => if magnitude < Word.modulus then some magnitude else none
      | none => none
  | none => none

def readWordIn (base : Nat) (characters : List Char) : Option Int :=
  let unsigned (digits : List Char) : Option Nat :=
    if digits.isEmpty then none else Literal.readDigits base digits
  (Literal.readSigned unsigned characters).filter fun value => Word.InRange value

def readMarkedInt : List Char → Option Int
  | '0' :: 'b' :: rest => readWordIn 2 rest
  | '0' :: 'o' :: rest => readWordIn 8 rest
  | _ => none

def readNumber (characters : List Char) : ScalarValue :=
  let plain := characters.filter (· ≠ '_')
  match readInt plain, (Literal.readFraction plain).bind Literal.Fraction.toFloat?,
      readMarkedInt plain with
  | some value, _, _ => .int value
  | none, some value, _ => .float value
  | none, none, some value => .int value
  | none, none, none => .text

def ScalarValue.ofPlain (text : String) : ScalarValue :=
  match text with
  | "" | "~" | "null" | "Null" | "NULL" => .null
  | "true" | "True" | "TRUE" => .bool true
  | "false" | "False" | "FALSE" => .bool false
  | ".nan" | ".NaN" | ".NAN" => .float (0.0 / 0.0)
  | ".inf" | ".Inf" | ".INF" | "+.inf" | "+.Inf" | "+.INF" => .float (1.0 / 0.0)
  | "-.inf" | "-.Inf" | "-.INF" => .float (-1.0 / 0.0)
  | _ =>
    match text.toList with
    | [] => .null
    | first :: rest =>
      if isTimestamp (first :: rest) then .timestamp
      else if first.isDigit ∨ first = '+' ∨ first = '-' then readNumber (first :: rest)
      else if first = '.' then
        match (Literal.readSeparatedFraction (first :: rest)).bind
            Literal.Fraction.toFloat? with
        | some value => .float value
        | none => .text
      else .text

def wordBool? (text : String) : Option Bool :=
  match text with
  | "y" | "Y" | "yes" | "Yes" | "YES" | "on" | "On" | "ON" => some true
  | "n" | "N" | "no" | "No" | "NO" | "off" | "Off" | "OFF" => some false
  | _ => none

end Document

end Backend65816
