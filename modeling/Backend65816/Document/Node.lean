import Backend65816.Document.Scalar

/-!
# Document trees

A document is a tree of scalars, sequences and mappings. Each node remembers the line of its first
character, for messages. The entries of a mapping keep their order, and a key may occur twice.
-/

namespace Backend65816

namespace Document

/-- A node of a document. -/
inductive Node where
  | scalar (line : Nat) (quoted : Bool) (text : String)
  | sequence (line : Nat) (items : List Node)
  | mapping (line : Nat) (entries : List (Node × Node))
deriving Inhabited

namespace Node

def line : Node → Nat
  | scalar line _ _ => line
  | sequence line _ => line
  | mapping line _ => line

def text : Node → String
  | scalar _ _ text => text
  | _ => ""

def scalarValue (quoted : Bool) (text : String) : ScalarValue :=
  if quoted then .text else .ofPlain text

def isNull : Node → Bool
  | scalar _ quoted text =>
    match scalarValue quoted text with
    | .null => true
    | _ => false
  | _ => false

def isMapping : Node → Bool
  | mapping _ _ => true
  | _ => false

def isSequence : Node → Bool
  | sequence _ _ => true
  | _ => false

def isScalar : Node → Bool
  | scalar _ _ _ => true
  | _ => false

def sameKind : Node → Node → Bool
  | scalar _ _ _, scalar _ _ _ => true
  | sequence _ _, sequence _ _ => true
  | mapping _ _, mapping _ _ => true
  | _, _ => false

def children : Node → List Node
  | scalar _ _ _ => []
  | sequence _ items => items
  | mapping _ entries => entries.flatMap fun (key, value) => [key, value]

def field? (entries : List (Node × Node)) (key : String) : Option Node :=
  (entries.reverse.find? fun entry => entry.1.text = key).map Prod.snd

mutual

def size : Node → Nat
  | scalar _ _ _ => 1
  | sequence _ items => sizeOfList items + 1
  | mapping _ entries => sizeOfEntries entries + 1

def sizeOfList : List Node → Nat
  | [] => 0
  | node :: rest => node.size + sizeOfList rest

def sizeOfEntries : List (Node × Node) → Nat
  | [] => 0
  | entry :: rest => sizeOfEntry entry + sizeOfEntries rest

def sizeOfEntry : Node × Node → Nat
  | (key, value) => key.size + value.size

end

end Node

end Document

end Backend65816
