import Backend65816.Text.Printable

/-!
# Rendering of numbers and names

The textual forms shared by every listing and message: hexadecimal numbers with a sign in front of
the digits, quoted names, and lists of numbers.
-/

namespace Backend65816

namespace Text

/-- Hexadecimal digits in capitals. -/
def upperHexDigits (value : Nat) : String :=
  String.ofList ((Nat.toDigits 16 value).map Char.toUpper)

/-- Hexadecimal digits in small letters. -/
def lowerHexDigits (value : Nat) : String := String.ofList (Nat.toDigits 16 value)

/-- A number in capitals, with its sign in front. -/
def hex (value : Int) : String :=
  if value < 0 then "-" ++ upperHexDigits value.natAbs else upperHexDigits value.natAbs

/-- A number in capitals, filled up with zeros to a length that includes the sign. -/
def hexPadded (length : Nat) (value : Int) : String :=
  let sign := if value < 0 then "-" else ""
  let digits := upperHexDigits value.natAbs
  sign ++ String.ofList (List.replicate (length - sign.length - digits.length) '0') ++ digits

/-- A number in small letters behind `0x`. -/
def markedHex (value : Int) : String :=
  if value < 0 then "-0x" ++ lowerHexDigits value.natAbs else "0x" ++ lowerHexDigits value.natAbs

private def codeDigits (length value : Nat) : List Char :=
  let digits := Nat.toDigits 16 value
  List.replicate (length - digits.length) '0' ++ digits

/-- A character inside quotation marks, escaped where it is not printable. -/
def quotedChar (character : Char) : List Char :=
  if character = '\x22' ∨ character = '\x5c' then ['\x5c', character]
  else if isPrintable character then [character]
  else if character = '\n' then ['\x5c', 'n']
  else if character = '\t' then ['\x5c', 't']
  else if character = '\r' then ['\x5c', 'r']
  else if character.toNat = 7 then ['\x5c', 'a']
  else if character.toNat = 8 then ['\x5c', 'b']
  else if character.toNat = 11 then ['\x5c', 'v']
  else if character.toNat = 12 then ['\x5c', 'f']
  else if character.toNat < 32 ∨ character.toNat = 127 then
    '\x5c' :: 'x' :: codeDigits 2 character.toNat
  else if character.toNat < 0x10000 then '\x5c' :: 'u' :: codeDigits 4 character.toNat
  else '\x5c' :: 'U' :: codeDigits 8 character.toNat

/-- A name inside quotation marks. -/
def quoted (name : String) : String :=
  "\x22" ++ String.ofList (name.toList.flatMap quotedChar) ++ "\x22"

/-- Numbers inside brackets, separated by blanks. -/
def numberList (values : List Int) : String :=
  "[" ++ String.intercalate " " (values.map toString) ++ "]"

/-- The text without some characters at its start, if it has them there. -/
def dropLead (lead text : List Char) : List Char :=
  if lead.isPrefixOf text then text.drop lead.length else text

/-- The text before and behind the first separator. -/
def cut (separator : Char) (text : String) : Option (String × String) :=
  let characters := text.toList
  if characters.contains separator then
    some (String.ofList (characters.takeWhile (· ≠ separator)),
      String.ofList ((characters.dropWhile (· ≠ separator)).drop 1))
  else none

/-- White space, of ASCII or not. -/
def isBlank (character : Char) : Bool :=
  let code := character.toNat
  (9 ≤ code ∧ code ≤ 13) || code = 32 || code = 0x85 || code = 0xA0 || code = 0x1680 ||
    (0x2000 ≤ code ∧ code ≤ 0x200A) || code = 0x2028 || code = 0x2029 || code = 0x202F ||
    code = 0x205F || code = 0x3000

/-- The text without white space at its ends. -/
def trim (characters : List Char) : List Char :=
  ((characters.dropWhile isBlank).reverse.dropWhile isBlank).reverse

end Text

end Backend65816
