/-!
# Positions in a text

A cursor is the text still to be read with the place where it starts. Lines end at a line feed, a
carriage return, both together, or one of three breaks outside ASCII. An error names the line of the
construct that was being read and the line of the character at which it went wrong.
-/

namespace Backend65816

namespace Document

/-- A place in a text. -/
structure Mark where
  index : Nat
  line : Nat
  column : Nat
deriving DecidableEq, Repr, Inhabited

/-- Text still to be read, and where it starts. -/
structure Cursor where
  rest : List Char
  mark : Mark
deriving DecidableEq, Repr, Inhabited

/-- Text that is no document. -/
structure ReadError where
  context : Nat
  problem : Nat
  lexical : Bool
  message : String
deriving DecidableEq, Repr, Inhabited

def ReadError.text (error : ReadError) : String :=
  let line := if error.context ≠ 0 then error.context else error.problem
  if line = 0 then "yaml: " ++ error.message
  else
    let shown := if error.lexical then line + 1 else line
    "yaml: line " ++ toString shown ++ ": " ++ error.message

def isBlank (character : Char) : Bool := character = ' ' || character = '\t'

def isPlainBreak (character : Char) : Bool := character = '\n' || character = '\r'

def isBreak (character : Char) : Bool :=
  isPlainBreak character || character = Char.ofNat 0x85 || character = Char.ofNat 0x2028 ||
    character = Char.ofNat 0x2029

def atLineEnd : List Char → Bool
  | [] => true
  | character :: _ => isBreak character

def atGap : List Char → Bool
  | [] => true
  | character :: _ => isBlank character || isBreak character

def breakText (character : Char) : Char :=
  if character = Char.ofNat 0x2028 ∨ character = Char.ofNat 0x2029 then character else '\n'

def isAllowed (character : Char) : Bool :=
  let code := character.toNat
  code = 0x09 || code = 0x0A || code = 0x0D || (0x20 ≤ code && code ≤ 0x7E) || code = 0x85 ||
    (0xA0 ≤ code && code ≤ 0xD7FF) || (0xE000 ≤ code && code ≤ 0xFFFD) || 0x10000 ≤ code

namespace Mark

def start : Mark := ⟨0, 0, 0⟩

def advance (mark : Mark) (count : Nat) : Mark :=
  { mark with index := mark.index + count, column := mark.column + count }

def newLine (mark : Mark) (count : Nat) : Mark := ⟨mark.index + count, mark.line + 1, 0⟩

end Mark

namespace Cursor

def advance (cursor : Cursor) (count : Nat) : Cursor :=
  ⟨cursor.rest.drop count, cursor.mark.advance count⟩

def skipWhile (test : Char → Bool) (cursor : Cursor) : Cursor :=
  cursor.advance (cursor.rest.takeWhile test).length

def skipBreak (cursor : Cursor) : Cursor :=
  match cursor.rest with
  | '\r' :: '\n' :: rest => ⟨rest, cursor.mark.newLine 2⟩
  | character :: rest =>
    if isBreak character then ⟨rest, cursor.mark.newLine 1⟩ else cursor
  | [] => cursor

def skipComment (cursor : Cursor) : Cursor :=
  let next := cursor.skipWhile isBlank
  match next.rest with
  | '#' :: _ => next.skipWhile fun character => !isBreak character
  | _ => cursor

def refuse {α : Type} (cursor : Cursor) (context : Nat) (message : String) : Except ReadError α :=
  .error ⟨context, cursor.mark.line, true, message⟩

def refuseHere {α : Type} (cursor : Cursor) (message : String) : Except ReadError α :=
  cursor.refuse cursor.mark.line message

end Cursor

def atDocumentMark (column : Nat) (rest : List Char) : Bool :=
  column = 0 &&
    match rest with
    | '-' :: '-' :: '-' :: after => atGap after
    | '.' :: '.' :: '.' :: after => atGap after
    | _ => false

end Document

end Backend65816
