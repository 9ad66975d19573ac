import Backend65816.Decimal.Shortest
import Backend65816.Document.Reader
import Backend65816.Text.Render

/-!
# Typed reading of document nodes

A node is read as a number, a truth value, text, a list or a record. A node of the wrong form adds a
problem and reading goes on, so all problems of a document are found in one pass, in the order of
the document. A null leaves what it would have set unchanged.
-/

namespace Backend65816

namespace Document

/-- A node that does not have the form expected of it. -/
inductive ShapeProblem where
  | mismatch (line : Nat) (tag : String) (text : Option String) (expected : String)
  | duplicateKey (line : Nat) (key : String) (earlier : Nat)
deriving DecidableEq, Repr

def takeBytes : Nat → List Char → List Char
  | _, [] => []
  | count, character :: rest =>
    let size := character.utf8Size
    if size ≤ count then character :: takeBytes (count - size) rest
    else List.replicate count (Char.ofNat 0xFFFD)

def excerpt (text : String) : String :=
  if text.utf8ByteSize > 10 then String.ofList (takeBytes 7 text.toList) ++ "..." else text

def ShapeProblem.text : ShapeProblem → String
  | mismatch line tag text expected =>
    let shown := match text with
      | some text => " `" ++ excerpt text ++ "`"
      | none => ""
    "line " ++ toString line ++ ": cannot unmarshal " ++ tag ++ shown ++ " into " ++ expected
  | duplicateKey line key earlier =>
    "line " ++ toString line ++ ": mapping key " ++ Text.quoted key ++
      " already defined at line " ++ toString earlier

def problemsText (problems : List ShapeProblem) : String :=
  "yaml: unmarshal errors:\n  " ++ String.intercalate "\n  " (problems.map ShapeProblem.text)

abbrev Shape (α : Type) : Type := StateM (List ShapeProblem) α

namespace Shape

def report (problems : List ShapeProblem) : Shape Unit := modify (· ++ problems)

def finish {α : Type} (reading : Shape α) : Except (List ShapeProblem) α :=
  match reading.run [] with
  | (value, []) => .ok value
  | (_, problems) => .error problems

end Shape

def duplicateKeys : List (Node × Node) → List ShapeProblem
  | [] => []
  | (key, _) :: rest =>
    (rest.filter fun entry => key.sameKind entry.1 && key.text = entry.1.text).map
        (fun entry => .duplicateKey entry.1.line entry.1.text key.line)
      ++ duplicateKeys rest

def mismatches (node : Node) (expected : String) : List ShapeProblem :=
  match node with
  | .scalar line quoted text =>
    [.mismatch line (Node.scalarValue quoted text).tag (some text) expected]
  | .sequence line _ => [.mismatch line "!!seq" none expected]
  | .mapping line entries =>
    match duplicateKeys entries with
    | [] => [.mismatch line "!!map" none expected]
    | problems => problems

/-- Integer part of a number as a word; none when it is too large. A number below all words gives
the least one. -/
def wordOfFloat? (value : Float) : Option Int :=
  match Decimal.ofFloat value with
  | .notANumber => none
  | .infinite negative => if negative then some Word.least else none
  | .finite binary =>
    let whole := binary.truncate
    if whole > 0x8000000000000000 then none
    else if Word.InRange whole then some whole
    else some Word.least

def readWord (unchanged : Int) (node : Node) : Shape Int :=
  let reject : Shape Int := do
    Shape.report (mismatches node "int")
    pure unchanged
  match node with
  | .scalar _ quoted text =>
    match Node.scalarValue quoted text with
    | .null => pure unchanged
    | .int value => if Word.InRange value then pure value else reject
    | .float value =>
      match wordOfFloat? value with
      | some word => pure word
      | none => reject
    | .bool _ | .timestamp | .text => reject
  | _ => reject

def readOptionalWord (unchanged : Option Int) (node : Node) : Shape (Option Int) :=
  if node.isNull then pure none
  else do
    let value ← readWord (unchanged.getD 0) node
    pure (some value)

def readBool (unchanged : Bool) (node : Node) : Shape Bool :=
  let reject : Shape Bool := do
    Shape.report (mismatches node "bool")
    pure unchanged
  match node with
  | .scalar _ quoted text =>
    match Node.scalarValue quoted text with
    | .null => pure unchanged
    | .bool value => pure value
    | .text =>
      match wordBool? text with
      | some value => pure value
      | none => reject
    | .int _ | .float _ | .timestamp => reject
  | _ => reject

def readFloat (unchanged : Float) (node : Node) : Shape Float :=
  let reject : Shape Float := do
    Shape.report (mismatches node "float64")
    pure unchanged
  match node with
  | .scalar _ quoted text =>
    match Node.scalarValue quoted text with
    | .null => pure unchanged
    | .int value =>
      let magnitude := Float.ofScientific value.natAbs false 0
      pure (if value < 0 then -magnitude else magnitude)
    | .float value => pure value
    | .bool _ | .timestamp | .text => reject
  | _ => reject

def readTextAs (expected : String) (unchanged : String) (node : Node) : Shape String :=
  match node with
  | .scalar _ quoted text =>
    match Node.scalarValue quoted text with
    | .null => pure unchanged
    | _ => pure text
  | _ => do
      Shape.report (mismatches node expected)
      pure unchanged

def readText (unchanged : String) (node : Node) : Shape String :=
  readTextAs "string" unchanged node

def readItemsWith {α : Type} (item : Node → Shape (Option α)) : List Node → Shape (List α)
  | [] => pure []
  | node :: rest => do
      let first ← item node
      let others ← readItemsWith item rest
      pure (first.toList ++ others)

def readList {α : Type} (expected : String) (item : Node → Shape (Option α)) (node : Node) :
    Shape (List α) :=
  match node with
  | .sequence _ items => readItemsWith item items
  | _ =>
    if node.isNull then pure []
    else do
      Shape.report (mismatches node expected)
      pure []

def readTextItem (node : Node) : Shape (Option String) :=
  if node.isScalar then if node.isNull then pure none else pure (some node.text)
  else do
    Shape.report (mismatches node "string")
    pure none

def readEntriesWith {α : Type} (field : String → α → Node → Shape α) :
    List (Node × Node) → α → Shape α
  | [], record => pure record
  | (key, value) :: rest, record =>
    match key with
    | .scalar _ _ name =>
      if key.isNull then readEntriesWith field rest record
      else do
        let changed ← field name record value
        readEntriesWith field rest changed
    | _ => do
        Shape.report (mismatches key "string")
        readEntriesWith field rest record

def readRecord {α : Type} (expected : String) (initial : α) (field : String → α → Node → Shape α)
    (node : Node) : Shape (Option α) :=
  match node with
  | .mapping _ entries =>
    match duplicateKeys entries with
    | [] => do
        let record ← readEntriesWith field entries initial
        pure (some record)
    | problems => do
        Shape.report problems
        pure none
  | _ =>
    if node.isNull then pure none
    else do
      Shape.report (mismatches node expected)
      pure none

end Document

end Backend65816
