import Backend65816.Text.Literal

/-!
# Timestamps

An unquoted scalar that starts with a year of four digits may be a date, or a date and a time of
day. Other numbers have one or two digits. A time after the letter `T` has a time zone; one after
blanks has none. Seconds may have a fraction, after a point or a comma.
-/

namespace Backend65816

namespace Document

namespace Timestamp

def shortNumber : List Char → Option (Nat × List Char)
  | first :: second :: rest =>
    if !first.isDigit then none
    else if second.isDigit then some (Literal.decimalValue [first, second], rest)
    else some (Literal.decimalValue [first], second :: rest)
  | [digit] => if digit.isDigit then some (Literal.decimalValue [digit], []) else none
  | [] => none

def after (character : Char) : List Char → Option (List Char)
  | first :: rest => if first = character then some rest else none
  | [] => none

def daysIn (year month : Nat) : Nat :=
  if month = 2 then
    if year % 4 = 0 ∧ (year % 100 ≠ 0 ∨ year % 400 = 0) then 29 else 28
  else if [4, 6, 9, 11].contains month then 30
  else 31

def date? (characters : List Char) : Option (List Char) := do
  let (yearDigits, afterYear) := Literal.spanDigits characters
  let (month, afterMonth) ← shortNumber (← after '-' afterYear)
  let (day, rest) ← shortNumber (← after '-' afterMonth)
  let year := Literal.decimalValue yearDigits
  let isDate := 1 ≤ month ∧ month ≤ 12 ∧ 1 ≤ day ∧ day ≤ daysIn year month
  if yearDigits.length = 4 ∧ isDate then some rest else none

def dropFraction (characters : List Char) : List Char :=
  match characters with
  | mark :: digit :: rest =>
    if (mark = '.' ∨ mark = ',') ∧ digit.isDigit then rest.dropWhile Char.isDigit
    else characters
  | _ => characters

def time? (characters : List Char) : Option (List Char) := do
  let (hour, afterHour) ← shortNumber characters
  let (minute, afterMinute) ← shortNumber (← after ':' afterHour)
  let (second, rest) ← shortNumber (← after ':' afterMinute)
  if hour < 24 ∧ minute < 60 ∧ second < 60 then some (dropFraction rest) else none

def isZone (characters : List Char) : Bool :=
  match characters with
  | ['Z'] => true
  | [sign, hourTens, hourOnes, ':', minuteTens, minuteOnes] =>
    (sign = '+' || sign = '-') &&
      [hourTens, hourOnes, minuteTens, minuteOnes].all Char.isDigit &&
      Literal.decimalValue [hourTens, hourOnes] ≤ 24 &&
      Literal.decimalValue [minuteTens, minuteOnes] ≤ 60
  | _ => false

end Timestamp

def isTimestamp (characters : List Char) : Bool :=
  match Timestamp.date? characters with
  | none => false
  | some [] => true
  | some (mark :: rest) =>
    if mark = 'T' ∨ mark = 't' then (Timestamp.time? rest).any Timestamp.isZone
    else mark = ' ' && (Timestamp.time? (rest.dropWhile (· = ' '))).any List.isEmpty

end Document

end Backend65816
