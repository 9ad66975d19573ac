import Backend65816.Document.Quoting
import Backend65816.Document.Token

/-!
# From text to tokens

Tokens are found one after the other. Outside brackets, a column further to the right than the block
at hand opens a block, and a column further to the left closes blocks. Whether a scalar or a
bracketed collection is a key shows only at the colon after it, which must stand on the same line
and near; until then it is remembered as the start of a key, and the colon puts the mark of a key in
front of it. So a token counts as read only when it can no longer turn out to be a key, and when two
more tokens were found after it. Brackets in which no key could start are the exception: once closed
they are not waited for, and a colon that comes too late for them puts the mark of a key at the end.
-/

namespace Backend65816

namespace Document

/-- Where a key may have started. -/
structure KeyStart where
  number : Nat
  mark : Mark
  required : Bool
  waits : Bool := true
deriving DecidableEq, Repr, Inhabited

def KeyStart.isPast (start : KeyStart) (mark : Mark) : Bool :=
  start.mark.line < mark.line || start.mark.index + 1024 < mark.index

/-- What is known about keys inside some brackets, or outside all. -/
structure KeyLevel where
  key : Option KeyStart := none
  latest : Nat := 0
deriving DecidableEq, Repr, Inhabited

def KeyLevel.release (level : KeyLevel) (number : Nat) : KeyLevel :=
  { level with key := level.key.map fun start =>
      { start with waits := start.waits && start.number ≠ number } }

def maxDepth : Nat := 10000

/-- State between two tokens. -/
structure Lexer where
  cursor : Cursor
  read : List Token := []
  readCount : Nat := 0
  pending : List Token := [⟨.textStart, 0⟩]
  keyAllowed : Bool := true
  level : KeyLevel := {}
  outerLevels : List KeyLevel := []
  indent : Int := -1
  outerIndents : List Int := []
deriving Inhabited

/-- What is skipped between two tokens. -/
inductive SkipState where
  | blanks
  | comment
  | betweenComments
deriving DecidableEq, Repr, Inhabited

def commentFollows (rest : List Char) : Bool :=
  match rest.dropWhile fun character => isBlank character || isPlainBreak character with
  | '#' :: _ => true
  | _ => false

def SkipState.afterBreak (state : SkipState) (character : Char) (rest : List Char) : SkipState :=
  match state with
  | blanks => blanks
  | comment => if isPlainBreak character && commentFollows rest then betweenComments else blanks
  | betweenComments => betweenComments

/-- Skips blanks, line breaks and comments. Outside brackets a tab is kept where a key may start,
since it cannot indent, unless a comment follows it and one stands before it. Says also whether a
key may start where the skipping ends. -/
def skipGap (brackets : Bool) : List Char → Mark → (keyAllowed : Bool) → SkipState → Cursor × Bool
  | [], mark, keyAllowed, _ => (⟨[], mark⟩, keyAllowed)
  | '\r' :: '\n' :: rest, mark, keyAllowed, state =>
    skipGap brackets rest (mark.newLine 2) (keyAllowed || !brackets) (state.afterBreak '\n' rest)
  | character :: rest, mark, keyAllowed, state =>
    if isBreak character then
      skipGap brackets rest (mark.newLine 1) (keyAllowed || !brackets)
        (state.afterBreak character rest)
    else if state = .comment then skipGap brackets rest (mark.advance 1) keyAllowed .comment
    else if character = '#' then skipGap brackets rest (mark.advance 1) keyAllowed .comment
    else if character = ' '
        ∨ (character = '\t' ∧ (brackets ∨ !keyAllowed ∨ state = .betweenComments)) then
      skipGap brackets rest (mark.advance 1) keyAllowed state
    else (⟨character :: rest, mark⟩, keyAllowed)

namespace Lexer

def inBrackets (lexer : Lexer) : Bool := !lexer.outerLevels.isEmpty

def line (lexer : Lexer) : Nat := lexer.cursor.mark.line

def column (lexer : Lexer) : Nat := lexer.cursor.mark.column

def number (lexer : Lexer) : Nat := lexer.readCount + lexer.pending.length

def push (lexer : Lexer) (kind : TokenKind) (line : Nat) : Lexer :=
  { lexer with pending := lexer.pending ++ [⟨kind, line⟩] }

def take (lexer : Lexer) (kind : TokenKind) (count : Nat) : Lexer :=
  { lexer.push kind lexer.line with cursor := lexer.cursor.advance count }

def insert (lexer : Lexer) (number : Nat) (kind : TokenKind) (line : Nat) : Lexer :=
  if number < lexer.readCount then lexer.push kind line
  else { lexer with pending := lexer.pending.insertIdx (number - lexer.readCount) ⟨kind, line⟩ }

def refuseKey {α : Type} (lexer : Lexer) (start : KeyStart) : Except ReadError α :=
  lexer.cursor.refuse start.mark.line "could not find expected ':'"

def forgetKey (lexer : Lexer) : Lexer := { lexer with level.key := none }

def dropKey (lexer : Lexer) : Except ReadError Lexer :=
  match lexer.level.key with
  | some start => if start.required then lexer.refuseKey start else .ok lexer.forgetKey
  | none => .ok lexer

def saveKey (lexer : Lexer) : Except ReadError Lexer := do
  if lexer.keyAllowed then
    let start : KeyStart := {
      number := lexer.number
      mark := lexer.cursor.mark
      required := !lexer.inBrackets && lexer.indent = lexer.column }
    let dropped ← lexer.dropKey
    return { dropped with level := ⟨some start, start.number⟩ }
  else return lexer

def checkDepth (lexer : Lexer) (depth : Nat) : Except ReadError Lexer :=
  if depth ≤ maxDepth then .ok lexer
  else lexer.cursor.refuseHere ("exceeded max depth of " ++ toString maxDepth)

/-- Opens a block in a column that lies further to the right. Its token goes in front of the one
with the given number, or to the end. -/
def openBlock (lexer : Lexer) (column line : Nat) (number : Option Nat) (kind : TokenKind) :
    Except ReadError Lexer :=
  if lexer.inBrackets || column ≤ lexer.indent then .ok lexer
  else
    let deeper := { lexer with
      indent := column
      outerIndents := lexer.indent :: lexer.outerIndents }
    let marked := match number with
      | some number => deeper.insert number kind line
      | none => deeper.push kind line
    marked.checkDepth marked.outerIndents.length

def closeFrom (lexer : Lexer) (column : Int) (line : Nat) : Int → List Int → Lexer
  | indent, [] => { lexer with indent, outerIndents := [] }
  | indent, outer :: rest =>
    if column < indent then (lexer.push .blockEnd line).closeFrom column line outer rest
    else { lexer with indent, outerIndents := outer :: rest }

def closeBlocks (lexer : Lexer) (column : Int) (line : Nat) : Lexer :=
  if lexer.inBrackets then lexer
  else lexer.closeFrom column line lexer.indent lexer.outerIndents

def leaveDocument (lexer : Lexer) : Except ReadError Lexer := do
  let dropped ← (lexer.closeBlocks (-1) lexer.line).dropKey
  return { dropped with keyAllowed := false }

def skip (lexer : Lexer) : Lexer :=
  let (cursor, keyAllowed) := skipGap lexer.inBrackets lexer.cursor.rest lexer.cursor.mark
    lexer.keyAllowed .blanks
  { lexer with cursor, keyAllowed }

def skipComment (lexer : Lexer) : Lexer := { lexer with cursor := lexer.cursor.skipComment }

def openBracket (lexer : Lexer) (kind : TokenKind) : Except ReadError Lexer := do
  let saved ← lexer.saveKey
  let inside := { saved with
    level := ⟨none, saved.number⟩
    outerLevels := saved.level :: saved.outerLevels
    keyAllowed := true }
  let checked ← inside.checkDepth inside.outerLevels.length
  return (checked.take kind 1).skipComment

def closeBracket (lexer : Lexer) (kind : TokenKind) : Except ReadError Lexer := do
  let dropped ← lexer.dropKey
  let outside := match dropped.outerLevels with
    | [] => dropped
    | level :: outerLevels =>
      { dropped with level := level.release dropped.level.latest, outerLevels }
  return ({ outside with keyAllowed := false }.take kind 1).skipComment

def comma (lexer : Lexer) : Except ReadError Lexer := do
  let dropped ← lexer.dropKey
  return ({ dropped with keyAllowed := true }.take .comma 1).skipComment

def startBlock (lexer : Lexer) (kind : TokenKind) (problem : String) : Except ReadError Lexer :=
  if lexer.inBrackets then .ok lexer
  else if !lexer.keyAllowed then lexer.cursor.refuseHere problem
  else lexer.openBlock lexer.column lexer.line none kind

def dash (lexer : Lexer) : Except ReadError Lexer := do
  let opened ← lexer.startBlock .blockSequence
    "block sequence entries are not allowed in this context"
  let dropped ← opened.dropKey
  return { dropped with keyAllowed := true }.take .dash 1

def keyMark (lexer : Lexer) : Except ReadError Lexer := do
  let opened ← lexer.startBlock .blockMapping "mapping keys are not allowed in this context"
  let dropped ← opened.dropKey
  return ({ dropped with keyAllowed := !lexer.inBrackets }.take .key 1).skipComment

def valueAfter (lexer : Lexer) (start : KeyStart) : Except ReadError Lexer := do
  let marked := lexer.insert start.number .key start.mark.line
  let opened ← marked.openBlock start.mark.column start.mark.line (some start.number) .blockMapping
  return ({ opened.forgetKey with keyAllowed := false }.take .value 1).skipComment

def valueAlone (lexer : Lexer) : Except ReadError Lexer := do
  let opened ← lexer.startBlock .blockMapping "mapping values are not allowed in this context"
  return ({ opened.forgetKey with keyAllowed := !lexer.inBrackets }.take .value 1).skipComment

def value (lexer : Lexer) : Except ReadError Lexer :=
  match lexer.level.key with
  | none => lexer.valueAlone
  | some start =>
    if !start.isPast lexer.cursor.mark then lexer.valueAfter start
    else if start.required then lexer.refuseKey start
    else lexer.valueAlone

def quoted (lexer : Lexer) (double : Bool) : Except ReadError Lexer := do
  let saved ← lexer.saveKey
  let start := lexer.cursor.advance 1
  let (text, after) ←
    if double then scanDouble lexer.line start.rest start.mark [] .none .text
    else scanSingle lexer.line start.rest start.mark [] .none
  let pushed := saved.push (.scalar true text) lexer.line
  return { pushed with cursor := after, keyAllowed := false }.skipComment

def plain (lexer : Lexer) : Except ReadError Lexer := do
  let saved ← lexer.saveKey
  let scalar ← scanPlain lexer.inBrackets (lexer.indent + 1).toNat lexer.line lexer.cursor.rest
    lexer.cursor.mark [] .none
  let pushed := saved.push (.scalar false scalar.text) lexer.line
  let moved := { pushed with cursor := scalar.after, keyAllowed := scalar.endsLine }
  return if scalar.endsLine then moved else moved.skipComment

def startsPlain (character : Char) : Bool :=
  !(isBlank character || isBreak character ||
    ['#', '&', '*', '!', '|', '>', '%', '@', '\x60'].contains character)

def content (lexer : Lexer) (character : Char) (rest : List Char) : Except ReadError Lexer :=
  let apart := atGap rest
  match character with
  | '[' => lexer.openBracket .openSequence
  | '\x7b' => lexer.openBracket .openMapping
  | ']' => lexer.closeBracket .closeSequence
  | '\x7d' => lexer.closeBracket .closeMapping
  | ',' => lexer.comma
  | '-' => if apart then lexer.dash else lexer.plain
  | '?' => if lexer.inBrackets || apart then lexer.keyMark else lexer.plain
  | ':' => if lexer.inBrackets || apart then lexer.value else lexer.plain
  | '\x27' => lexer.quoted false
  | '\x22' => lexer.quoted true
  | character =>
    if startsPlain character then lexer.plain
    else lexer.cursor.refuseHere "found character that cannot start any token"

def documentMark (lexer : Lexer) (kind : TokenKind) : Except ReadError Lexer := do
  return (← lexer.leaveDocument).take kind 3

def versionPart (start : Nat) (cursor : Cursor) : Except ReadError (Nat × Cursor) :=
  let digits := cursor.rest.takeWhile Char.isDigit
  if digits.isEmpty then cursor.refuse start "did not find expected version number"
  else if 2 < digits.length then cursor.refuse start "found extremely long version number"
  else .ok (Literal.decimalValue digits, cursor.advance digits.length)

def directiveEnd (start : Nat) (cursor : Cursor) : Except ReadError Cursor :=
  let after := cursor.skipComment.skipWhile isBlank
  if atLineEnd after.rest then .ok after.skipBreak
  else after.refuse start "did not find expected comment or line break"

def isNameCharacter (character : Char) : Bool :=
  character.isAlphanum || character = '_' || character = '-'

def directive (lexer : Lexer) : Except ReadError Lexer := do
  let left ← lexer.leaveDocument
  let start := lexer.line
  let nameStart := lexer.cursor.advance 1
  let name := nameStart.rest.takeWhile isNameCharacter
  let after := nameStart.advance name.length
  if name.isEmpty then after.refuse start "could not find expected directive name"
  else if !atGap after.rest then after.refuse start "found unexpected non-alphabetical character"
  else if String.ofList name ≠ "YAML" then after.refuse start "found unknown directive name"
  else
    let (major, afterMajor) ← versionPart start (after.skipWhile isBlank)
    match afterMajor.rest with
    | '.' :: _ =>
      let (minor, afterMinor) ← versionPart start (afterMajor.advance 1)
      let cursor ← directiveEnd start afterMinor
      return { left.push (.version major minor) start with cursor }
    | _ => afterMajor.refuse start "did not find expected digit or '.' character"

def textEnd (lexer : Lexer) : Except ReadError Lexer := do
  let mark := lexer.cursor.mark
  let ended := if mark.column = 0 then mark else mark.newLine 0
  let left ← { lexer with cursor := ⟨[], ended⟩ }.leaveDocument
  return left.push .textEnd ended.line

def fetch (lexer : Lexer) : Except ReadError Lexer :=
  let skipped := lexer.skip
  let closed := skipped.closeBlocks skipped.column lexer.line
  match closed.cursor.rest with
  | [] => closed.textEnd
  | character :: rest =>
    if closed.column = 0 ∧ character = '%' then closed.directive
    else if atDocumentMark closed.column (character :: rest) then
      closed.documentMark (if character = '-' then .documentStart else .documentEnd)
    else closed.content character rest

def awaitsColon (lexer : Lexer) (number : Nat) : Except ReadError Bool :=
  let starts := (lexer.level :: lexer.outerLevels).filterMap (·.key)
  match starts.find? fun start => start.waits && start.number = number with
  | none => .ok false
  | some start =>
    if !start.isPast lexer.cursor.mark then .ok true
    else if start.required then lexer.refuseKey start
    else .ok false

/-- Counts tokens, of which at least some must stay behind, as read until one may still turn out to
be a key. -/
def settle (lexer : Lexer) (behind : Nat) : List Token → Lexer × Option ReadError
  | [] => ({ lexer with pending := [] }, none)
  | token :: later =>
    let waiting := { lexer with pending := token :: later }
    if later.length < behind then (waiting, none)
    else
      match lexer.awaitsColon lexer.readCount with
      | .error error => (waiting, some error)
      | .ok true => (waiting, none)
      | .ok false =>
        { lexer with read := token :: lexer.read, readCount := lexer.readCount + 1 }.settle
          behind later

def isDone (lexer : Lexer) : Bool := lexer.pending.getLast?.any (·.kind = .textEnd)

def advance (lexer : Lexer) : Lexer × Option ReadError :=
  lexer.settle (if lexer.isDone then 0 else 2) lexer.pending

def result (lexer : Lexer) (error : ReadError) : Tokens :=
  lexer.read.foldl (fun rest token => .next token rest) (.stop error)

def pastEnd : ReadError := ⟨0, 0, false, "attempted to go past the end of stream"⟩

def run : (fuel : Nat) → Lexer → Tokens
  | 0, lexer => lexer.result pastEnd
  | fuel + 1, lexer =>
    match lexer.fetch with
    | .error error => lexer.result error
    | .ok fetched =>
      match fetched.advance with
      | (settled, some error) => settled.result error
      | (settled, none) => if fetched.isDone then settled.result pastEnd else settled.run fuel

end Lexer

def dropByteOrderMark (characters : List Char) : List Char :=
  match characters with
  | character :: rest => if character = Char.ofNat 0xFEFF then rest else character :: rest
  | [] => []

def tokensOf (text : String) : Tokens :=
  let characters := dropByteOrderMark text.toList
  if characters.all isAllowed then
    Lexer.run (characters.length + 1) { cursor := ⟨characters, .start⟩ }
  else .stop ⟨0, 0, false, "control characters are not allowed"⟩

end Document

end Backend65816
