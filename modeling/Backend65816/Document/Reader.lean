import Backend65816.Document.Lexer
import Backend65816.Document.Node

/-!
# Reading documents

A document is the first node of the tokens of a text. A value that is not written is a null at the
place of the token that shows its absence. Reading descends into nested nodes with a fuel that the
number of tokens bounds, since every other step takes a token.
-/

namespace Backend65816

namespace Document

def absent (line : Nat) : Node := .scalar (line + 1) false ""

def Token.refuse {α : Type} (token : Token) (context : Nat) (message : String) :
    Except ReadError α :=
  .error ⟨context, token.line, false, message⟩

def Token.refuseNode {α : Type} (token : Token) : Except ReadError α :=
  token.refuse token.line "did not find expected node content"

def Tokens.startsWith (kinds : List TokenKind) : Tokens → Bool
  | .stop _ => false
  | .next token _ => kinds.contains token.kind

def Tokens.line : Tokens → Nat
  | .stop _ => 0
  | .next token _ => token.line

def noBlockValue : List TokenKind := [.key, .value, .blockEnd]

def tooDeep {α : Type} : Except ReadError α := .error Lexer.pastEnd

mutual

/-- Reads a node. Blocks are read outside brackets only, and a sequence that is not indented only
after a key. -/
def readNode : Nat → (block underKey : Bool) → Tokens → Except ReadError (Node × Tokens)
  | 0, _, _, _ => tooDeep
  | _ + 1, _, _, .stop error => .error error
  | fuel + 1, block, underKey, .next token rest =>
    let line := token.line
    match token.kind with
    | .scalar quoted text => .ok (.scalar (line + 1) quoted text, rest)
    | .openSequence => do
        let (items, after) ← readItems fuel line true rest
        return (.sequence (line + 1) items, after)
    | .openMapping => do
        let (entries, after) ← readPairs fuel line true rest
        return (.mapping (line + 1) entries, after)
    | .dash =>
      if underKey then do
        let (items, after) ← readUnindented fuel (.next token rest)
        return (.sequence (line + 1) items, after)
      else token.refuseNode
    | .blockSequence =>
      if block then do
        let (items, after) ← readDashes fuel line rest
        return (.sequence (line + 1) items, after)
      else token.refuseNode
    | .blockMapping =>
      if block then do
        let (entries, after) ← readEntries fuel line rest
        return (.mapping (line + 1) entries, after)
      else token.refuseNode
    | _ => token.refuseNode

def readDashes : Nat → (start : Nat) → Tokens → Except ReadError (List Node × Tokens)
  | 0, _, _ => tooDeep
  | _ + 1, _, .stop error => .error error
  | fuel + 1, start, .next token rest =>
    match token.kind with
    | .dash => do
        let (item, after) ←
          if rest.startsWith [.dash, .blockEnd] then .ok (absent token.line, rest)
          else readNode fuel true false rest
        let (items, last) ← readDashes fuel start after
        return (item :: items, last)
    | .blockEnd => .ok ([], rest)
    | _ => token.refuse start "did not find expected '-' indicator"

def readUnindented : Nat → Tokens → Except ReadError (List Node × Tokens)
  | 0, _ => tooDeep
  | _ + 1, .stop error => .error error
  | fuel + 1, .next token rest =>
    match token.kind with
    | .dash => do
        let (item, after) ←
          if rest.startsWith (.dash :: noBlockValue) then .ok (absent token.line, rest)
          else readNode fuel true false rest
        let (items, last) ← readUnindented fuel after
        return (item :: items, last)
    | _ => .ok ([], .next token rest)

def readEntries : Nat → (start : Nat) → Tokens → Except ReadError (List (Node × Node) × Tokens)
  | 0, _, _ => tooDeep
  | _ + 1, _, .stop error => .error error
  | fuel + 1, start, .next token rest =>
    match token.kind with
    | .key => do
        let (key, afterKey) ← readBlockPart fuel token.line rest
        let (value, afterValue) ← readBlockValue fuel afterKey
        let (entries, last) ← readEntries fuel start afterValue
        return ((key, value) :: entries, last)
    | .blockEnd => .ok ([], rest)
    | _ => token.refuse start "did not find expected key"

def readBlockPart : Nat → (line : Nat) → Tokens → Except ReadError (Node × Tokens)
  | 0, _, _ => tooDeep
  | fuel + 1, line, tokens =>
    if tokens.startsWith noBlockValue then .ok (absent line, tokens)
    else readNode fuel true true tokens

def readBlockValue : Nat → Tokens → Except ReadError (Node × Tokens)
  | 0, _ => tooDeep
  | _ + 1, .stop error => .error error
  | fuel + 1, .next token rest =>
    match token.kind with
    | .value => readBlockPart fuel token.line rest
    | _ => .ok (absent token.line, .next token rest)

def readItems : Nat → (start : Nat) → (first : Bool) → Tokens →
    Except ReadError (List Node × Tokens)
  | 0, _, _, _ => tooDeep
  | _ + 1, _, _, .stop error => .error error
  | fuel + 1, start, first, .next token rest =>
    match token.kind with
    | .closeSequence => .ok ([], rest)
    | .comma => readItem fuel start (if first then .next token rest else rest)
    | _ =>
      if first then readItem fuel start (.next token rest)
      else token.refuse start "did not find expected ',' or ']'"

def readItem : Nat → (start : Nat) → Tokens → Except ReadError (List Node × Tokens)
  | 0, _, _ => tooDeep
  | _ + 1, _, .stop error => .error error
  | fuel + 1, start, .next token rest => do
      match token.kind with
      | .closeSequence => return ([], rest)
      | .key =>
        let (entry, after) ← readSinglePair fuel rest
        let (items, last) ← readItems fuel start false after
        return (.mapping (token.line + 1) [entry] :: items, last)
      | _ =>
        let (item, after) ← readNode fuel false false (.next token rest)
        let (items, last) ← readItems fuel start false after
        return (item :: items, last)

/-- Reads the key and the value of an item that is a mapping. The token that shows the absence of
the key is taken. -/
def readSinglePair : Nat → Tokens → Except ReadError ((Node × Node) × Tokens)
  | 0, _ => tooDeep
  | _ + 1, .stop error => .error error
  | fuel + 1, .next token rest => do
      let (key, afterKey) ←
        if [.value, .comma, .closeSequence].contains token.kind then .ok (absent token.line, rest)
        else readNode fuel false false (.next token rest)
      match afterKey with
      | .stop error => throw error
      | .next colon afterColon =>
        if colon.kind ≠ .value ∨ afterColon.startsWith [.comma, .closeSequence] then
          let after := if colon.kind = .value then afterColon else afterKey
          return ((key, absent colon.line), after)
        else
          let (value, after) ← readNode fuel false false afterColon
          return ((key, value), after)

def readPairs : Nat → (start : Nat) → (first : Bool) → Tokens →
    Except ReadError (List (Node × Node) × Tokens)
  | 0, _, _, _ => tooDeep
  | _ + 1, _, _, .stop error => .error error
  | fuel + 1, start, first, .next token rest =>
    match token.kind with
    | .closeMapping => .ok ([], rest)
    | .comma => readPair fuel start (if first then .next token rest else rest)
    | _ =>
      if first then readPair fuel start (.next token rest)
      else token.refuse start "did not find expected ',' or '\x7d'"

def readPair : Nat → (start : Nat) → Tokens → Except ReadError (List (Node × Node) × Tokens)
  | 0, _, _ => tooDeep
  | _ + 1, _, .stop error => .error error
  | fuel + 1, start, .next token rest => do
      match token.kind with
      | .closeMapping => return ([], rest)
      | .key =>
        let (key, afterKey) ← readFlowPart fuel [.value, .comma, .closeMapping] rest
        let (value, afterValue) ←
          match afterKey with
          | .next ⟨.value, _⟩ afterColon =>
            readFlowPart fuel [.comma, .closeMapping] afterColon
          | _ => .ok (absent afterKey.line, afterKey)
        let (entries, last) ← readPairs fuel start false afterValue
        return ((key, value) :: entries, last)
      | _ =>
        let (key, after) ← readNode fuel false false (.next token rest)
        let (entries, last) ← readPairs fuel start false after
        return ((key, absent after.line) :: entries, last)

def readFlowPart : Nat → List TokenKind → Tokens → Except ReadError (Node × Tokens)
  | 0, _, _ => tooDeep
  | fuel + 1, absence, tokens =>
    if tokens.startsWith absence then .ok (absent tokens.line, tokens)
    else readNode fuel false false tokens

end

def readRoot (tokens : Tokens) : Except ReadError (Option Node) := do
  let (node, after) ← readNode (4 * tokens.length + 4) true false tokens
  match after with
  | .stop error => throw error
  | .next _ _ => return some node

def readMarked : (versioned : Bool) → Tokens → Except ReadError (Option Node)
  | _, .stop error => .error error
  | versioned, .next token rest =>
    match token.kind with
    | .version major minor =>
      if versioned then token.refuse 0 "found duplicate %YAML directive"
      else if major ≠ 1 ∨ minor ≠ 1 then token.refuse 0 "found incompatible YAML document"
      else readMarked true rest
    | .documentStart =>
      match rest with
      | .stop error => .error error
      | .next following _ =>
        match following.kind with
        | .version _ _ | .documentStart | .documentEnd | .textEnd =>
          .ok (some (absent following.line))
        | _ => readRoot rest
    | _ => token.refuse 0 "did not find expected <document start>"

def read (text : String) : Except ReadError (Option Node) :=
  match tokensOf text with
  | .next _ (.next token rest) =>
    match token.kind with
    | .textEnd => .ok none
    | .version _ _ | .documentStart => readMarked false (.next token rest)
    | _ => readRoot (.next token rest)
  | .next _ (.stop error) | .stop error => .error error

end Document

end Backend65816
