import Backend65816.Document.Cursor
import Backend65816.Text.Literal

/-!
# Texts of scalars

A scalar is written plainly, in single quotes or in double quotes. A line break inside it is folded
to a blank, further breaks after it are kept, and blanks around breaks are dropped. In single quotes
a quote is written twice; in double quotes a backslash starts an escape.
-/

namespace Backend65816

namespace Document

/-- Blanks inside a scalar that are not yet part of it. -/
inductive Gap where
  | none
  | blanks (reversed : List Char)
  | breaks (first : Option Char) (later : List Char)
deriving DecidableEq, Repr, Inhabited

namespace Gap

def addBlank (gap : Gap) (blank : Char) : Gap :=
  match gap with
  | none => blanks [blank]
  | blanks reversed => blanks (blank :: reversed)
  | breaks first later => breaks first later

def addBreak (gap : Gap) (character : Char) : Gap :=
  match gap with
  | none | blanks _ => breaks (some (breakText character)) []
  | breaks first later => breaks first (breakText character :: later)

/-- Reversed text with the gap at its end. A single line feed becomes a blank, and of several the
first is dropped. -/
def flush (gap : Gap) (reversed : List Char) : List Char :=
  match gap with
  | none => reversed
  | blanks blank => blank ++ reversed
  | breaks (some '\n') [] => ' ' :: reversed
  | breaks (some '\n') later => later ++ reversed
  | breaks first later => later ++ first.toList ++ reversed

def hasBreak : Gap → Bool
  | breaks _ _ => true
  | none | blanks _ => false

def isNone : Gap → Bool
  | none => true
  | blanks _ | breaks _ _ => false

end Gap

def bracketIndicators : List Char := [',', '?', '[', ']', '\x7b', '\x7d']

/-- A plain scalar that was read. -/
structure PlainScalar where
  text : String
  endsLine : Bool
  after : Cursor
deriving DecidableEq, Repr, Inhabited

/-- Reads a plain scalar that started in the line `start`. It ends at a colon before a gap, at a
comment, at a mark between documents, inside brackets at any of their indicators, and outside them
at a line that is not indented to `least`. A tab cannot indent it. -/
def scanPlain (brackets : Bool) (least start : Nat) :
    List Char → Mark → List Char → Gap → Except ReadError PlainScalar
  | [], mark, reversed, gap => .ok ⟨String.ofList reversed.reverse, gap.hasBreak, ⟨[], mark⟩⟩
  | '\r' :: '\n' :: rest, mark, reversed, gap =>
    scanPlain brackets least start rest (mark.newLine 2) reversed (gap.addBreak '\n')
  | character :: rest, mark, reversed, gap =>
    if isBreak character then
      scanPlain brackets least start rest (mark.newLine 1) reversed (gap.addBreak character)
    else if isBlank character then
      if gap.hasBreak ∧ mark.column < least ∧ character = '\t' then
        Cursor.refuse ⟨character :: rest, mark⟩ start
          "found a tab character that violates indentation"
      else
        scanPlain brackets least start rest (mark.advance 1) reversed (gap.addBlank character)
    else if (!gap.isNone && character = '#')
        || (gap.hasBreak && !brackets && mark.column < least)
        || (gap.hasBreak && atDocumentMark mark.column (character :: rest))
        || (character = ':' && atGap rest)
        || (brackets && bracketIndicators.contains character) then
      .ok ⟨String.ofList reversed.reverse, gap.hasBreak, ⟨character :: rest, mark⟩⟩
    else
      scanPlain brackets least start rest (mark.advance 1) (character :: gap.flush reversed) .none

def refuseDocumentMark {α : Type} (cursor : Cursor) (start : Nat) : Except ReadError α :=
  cursor.refuse start "found unexpected document indicator"

def refuseOpenQuote {α : Type} (mark : Mark) (start : Nat) : Except ReadError α :=
  Cursor.refuse ⟨[], mark⟩ start "found unexpected end of stream"

def scanSingle (start : Nat) :
    List Char → Mark → List Char → Gap → Except ReadError (String × Cursor)
  | [], mark, _, _ => refuseOpenQuote mark start
  | '\x27' :: '\x27' :: rest, mark, reversed, gap =>
    scanSingle start rest (mark.advance 2) ('\x27' :: gap.flush reversed) .none
  | '\r' :: '\n' :: rest, mark, reversed, gap =>
    scanSingle start rest (mark.newLine 2) reversed (gap.addBreak '\n')
  | character :: rest, mark, reversed, gap =>
    if atDocumentMark mark.column (character :: rest) then
      refuseDocumentMark ⟨character :: rest, mark⟩ start
    else if character = '\x27' then
      .ok (String.ofList (gap.flush reversed).reverse, ⟨rest, mark.advance 1⟩)
    else if isBreak character then
      scanSingle start rest (mark.newLine 1) reversed (gap.addBreak character)
    else if isBlank character then
      scanSingle start rest (mark.advance 1) reversed (gap.addBlank character)
    else scanSingle start rest (mark.advance 1) (character :: gap.flush reversed) .none

def simpleEscape : Char → Option Char
  | '0' => some (Char.ofNat 0)
  | 'a' => some (Char.ofNat 7)
  | 'b' => some (Char.ofNat 8)
  | 't' | '\t' => some '\t'
  | 'n' => some '\n'
  | 'v' => some (Char.ofNat 11)
  | 'f' => some (Char.ofNat 12)
  | 'r' => some '\r'
  | 'e' => some (Char.ofNat 27)
  | ' ' => some ' '
  | '\x22' => some '\x22'
  | '\x27' => some '\x27'
  | '\x5c' => some '\x5c'
  | 'N' => some (Char.ofNat 0x85)
  | '_' => some (Char.ofNat 0xA0)
  | 'L' => some (Char.ofNat 0x2028)
  | 'P' => some (Char.ofNat 0x2029)
  | _ => none

def escapeDigits : Char → Option Nat
  | 'x' => some 2
  | 'u' => some 4
  | 'U' => some 8
  | _ => none

def isCharacterCode (code : Nat) : Bool := code < 0xD800 || (0xE000 ≤ code && code ≤ 0x10FFFF)

/-- Progress inside a numeric escape. -/
structure Escape where
  digits : Nat
  code : Nat
deriving DecidableEq, Repr, Inhabited

/-- State between two characters of a double-quoted scalar. -/
inductive QuoteState where
  | text
  | escaped
  | numeric (escape : Escape)
deriving DecidableEq, Repr, Inhabited

def QuoteState.problem : QuoteState → String
  | text => "found unexpected end of stream"
  | escaped => "found unknown escape character"
  | numeric _ => "did not find expected hexdecimal number"

def scanDouble (start : Nat) :
    List Char → Mark → List Char → Gap → QuoteState → Except ReadError (String × Cursor)
  | [], mark, _, _, state => Cursor.refuse ⟨[], mark⟩ start state.problem
  | '\r' :: '\n' :: rest, mark, reversed, gap, .text =>
    scanDouble start rest (mark.newLine 2) reversed (gap.addBreak '\n') .text
  | '\r' :: '\n' :: rest, mark, reversed, _, .escaped =>
    scanDouble start rest (mark.newLine 2) reversed (.breaks none []) .text
  | character :: rest, mark, reversed, gap, .text =>
    if atDocumentMark mark.column (character :: rest) then
      refuseDocumentMark ⟨character :: rest, mark⟩ start
    else if character = '\x22' then
      .ok (String.ofList (gap.flush reversed).reverse, ⟨rest, mark.advance 1⟩)
    else if character = '\x5c' then
      scanDouble start rest (mark.advance 1) (gap.flush reversed) .none .escaped
    else if isBreak character then
      scanDouble start rest (mark.newLine 1) reversed (gap.addBreak character) .text
    else if isBlank character then
      scanDouble start rest (mark.advance 1) reversed (gap.addBlank character) .text
    else
      scanDouble start rest (mark.advance 1) (character :: gap.flush reversed) .none .text
  | character :: rest, mark, reversed, _, .escaped =>
    if isBreak character then
      scanDouble start rest (mark.newLine 1) reversed (.breaks none []) .text
    else
      match simpleEscape character, escapeDigits character with
      | some resolved, _ =>
        scanDouble start rest (mark.advance 1) (resolved :: reversed) .none .text
      | none, some digits =>
        scanDouble start rest (mark.advance 1) reversed .none (.numeric ⟨digits, 0⟩)
      | none, none =>
        Cursor.refuse ⟨character :: rest, mark⟩ start QuoteState.escaped.problem
  | character :: rest, mark, reversed, _, .numeric escape =>
    match Literal.digitValue character with
    | none => Cursor.refuse ⟨character :: rest, mark⟩ start (QuoteState.numeric escape).problem
    | some digit =>
      let code := escape.code * 16 + digit
      if 1 < escape.digits then
        scanDouble start rest (mark.advance 1) reversed .none
          (.numeric ⟨escape.digits - 1, code⟩)
      else if isCharacterCode code then
        scanDouble start rest (mark.advance 1) (Char.ofNat code :: reversed) .none .text
      else
        Cursor.refuse ⟨character :: rest, mark⟩ start
          "found invalid Unicode character escape code"

end Document

end Backend65816
