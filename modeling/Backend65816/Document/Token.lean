import Backend65816.Document.Cursor

/-!
# Tokens of a document

The start and end of a block, which the text shows by indentation only, are tokens too. So is the
mark of a key, which stands before the key even where the text shows it only by the colon after it.
A stream of tokens ends with the reason why no more can be read.
-/

namespace Backend65816

namespace Document

/-- Kinds of tokens. -/
inductive TokenKind where
  | textStart
  | textEnd
  | version (major minor : Nat)
  | documentStart
  | documentEnd
  | blockSequence
  | blockMapping
  | blockEnd
  | openSequence
  | closeSequence
  | openMapping
  | closeMapping
  | dash
  | comma
  | key
  | value
  | scalar (quoted : Bool) (text : String)
deriving DecidableEq, Repr, Inhabited

/-- A token with its line, counted from zero. -/
structure Token where
  kind : TokenKind
  line : Nat
deriving DecidableEq, Repr, Inhabited

/-- Tokens in order, and why there are no more. -/
inductive Tokens where
  | stop (error : ReadError)
  | next (token : Token) (rest : Tokens)
deriving DecidableEq, Repr, Inhabited

namespace Tokens

def length : Tokens → Nat
  | stop _ => 0
  | next _ rest => rest.length + 1

end Tokens

end Document

end Backend65816
