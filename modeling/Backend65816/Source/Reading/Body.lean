import Backend65816.Document.Shape
import Backend65816.Source.Declaration

/-!
# Reading bodies from documents

The body of a function is a tree of mappings with one key, which names the kind of the node. The
first problem of a body ends its reading. Readers descend with a fuel that is a multiple of the
number of nodes, so it suffices for every document.
-/

namespace Backend65816

open Document (Node)

/-- A body that is no tree of statements. -/
inductive BodyError where
  | atLine (line : Nat) (message : String)
  | missingExpression
  | missingPattern
  | exhausted
deriving DecidableEq, Repr

def BodyError.text : BodyError → String
  | atLine line message => "line " ++ toString line ++ ": " ++ message
  | missingExpression => "missing expression"
  | missingPattern => "missing pattern"
  | exhausted => "nesting too deep"

namespace Reading

def failAt {α : Type} (node : Node) (message : String) : Except BodyError α :=
  .error (.atLine node.line message)

def single (node : Node) : Except BodyError (String × Node) :=
  match node with
  | .mapping _ [(key, value)] => .ok (key.text, value)
  | _ => failAt node "expected a single-key mapping"

def entries (node : Node) : Except BodyError (List (Node × Node)) :=
  match node with
  | .mapping _ entries => .ok entries
  | _ => failAt node "expected a mapping"

def entriesOrNone : Node → List (Node × Node)
  | .mapping _ entries => entries
  | _ => []

def textOf (fields : List (Node × Node)) (key : String) : String :=
  ((Node.field? fields key).map Node.text).getD ""

def typed {α : Type} (blame : Node) (lead : String) (reading : Document.Shape α) :
    Except BodyError α :=
  match reading.finish with
  | .ok value => .ok value
  | .error problems => failAt blame (lead ++ Document.problemsText problems)

def requiredWord (blame : Node) (lead : String) (node : Option Node) : Except BodyError Int :=
  match node with
  | none => failAt blame (lead ++ "missing value")
  | some node => typed blame lead (Document.readWord 0 node)

def variantName (node : Node) : Except BodyError (String × String) :=
  match Text.cut '.' node.text with
  | some names => .ok names
  | none => failAt node "variant must be Enum.Variant"

def required {α : Type} (read : Node → Except BodyError α) (fields : List (Node × Node))
    (key : String) : Except BodyError α :=
  match Node.field? fields key with
  | some node => read node
  | none => .error .missingExpression

def optional {α : Type} (read : Node → Except BodyError α) (node : Option Node) :
    Except BodyError (Option α) :=
  match node with
  | none => .ok none
  | some node => if node.isNull then .ok none else (read node).map some

def integer (node : Node) : Except BodyError Expr :=
  match node with
  | .mapping _ fields => do
      let value ← requiredWord node "bad integer: " (Node.field? fields "value")
      let type := textOf fields "type"
      .ok (.int value (if type = "" then .u8 else .ofText type))
  | _ => do
      let value ← typed node "bad integer: " (Document.readWord 0 node)
      .ok (.int value .u8)

def boundNames (fields : List (Node × Node)) : List String :=
  match Node.field? fields "names" with
  | some names => names.children.map Node.text
  | none => [textOf fields "name"]

def boundAddress (fields : List (Node × Node)) : Except BodyError (Option Int) :=
  match Node.field? fields "address" with
  | none => .ok none
  | some node => (typed node "bad address: " (Document.readWord 0 node)).map some

def pattern : Nat → Node → Except BodyError Pattern
  | 0, _ => .error .exhausted
  | fuel + 1, node =>
    match node with
    | .scalar _ _ text =>
      if text = "_" then .ok .wildcard
      else
        match (Document.readWord 0 node).finish with
        | .ok value => .ok (.literal value)
        | .error _ => failAt node ("bad literal pattern " ++ Text.quoted text)
    | _ => do
        let (key, value) ← single node
        match key with
        | "int" => do
            let number ← typed value "bad literal pattern: " (Document.readWord 0 value)
            .ok (.literal number)
        | "bool" => do
            let truth ← typed value "bad bool pattern: " (Document.readBool false value)
            .ok (.literal (if truth then 1 else 0))
        | "variant" => do
            let (enum, variant) ← variantName value
            .ok (.variant enum variant)
        | "range" => do
            let fields ← entries value
            let low ← requiredWord value "bad range: " (Node.field? fields "lo")
            let high ← requiredWord value "bad range: " (Node.field? fields "hi")
            .ok (.range low high (textOf fields "inclusive" = "true"))
        | "or" => do
            let alternatives ← value.children.mapM (pattern fuel)
            .ok (.any alternatives)
        | "wild" => .ok .wildcard
        | "bind" => .ok (.bind value.text)
        | _ => failAt node ("unknown pattern " ++ Text.quoted key)

def requiredPattern (fuel : Nat) (fields : List (Node × Node)) : Except BodyError Pattern :=
  match Node.field? fields "pattern" with
  | some node => pattern fuel node
  | none => .error .missingPattern

mutual

def expression : Nat → Node → Except BodyError Expr
  | 0, _ => .error .exhausted
  | fuel + 1, node => do
      let (key, value) ← single node
      match key with
      | "int" => integer value
      | "bool" => do
          let truth ← typed value "bad bool: " (Document.readBool false value)
          .ok (.bool truth)
      | "name" => .ok (.name value.text)
      | "variant" => do
          let (enum, variant) ← variantName value
          .ok (.variant enum variant)
      | "binary" => do
          let fields ← entries value
          let left ← required (expression fuel) fields "l"
          let right ← required (expression fuel) fields "r"
          .ok (.binary (.ofText (textOf fields "op")) left right)
      | "unary" => do
          let fields ← entries value
          let operand ← required (expression fuel) fields "x"
          .ok (.unary (.ofText (textOf fields "op")) operand)
      | "call" => do
          let fields ← entries value
          let arguments ← argumentList fuel (Node.field? fields "args")
          .ok (.call (textOf fields "func") arguments)
      | "method" => do
          let fields ← entries value
          let receiver ← required (expression fuel) fields "recv"
          let arguments ← argumentList fuel (Node.field? fields "args")
          .ok (.method receiver (textOf fields "trait") (textOf fields "method") arguments)
      | "field" => do
          let fields ← entries value
          let object ← required (expression fuel) fields "x"
          .ok (.field object (textOf fields "field"))
      | "if" => conditionalExpression fuel value
      | "block" => do
          let body ← block fuel (some value)
          .ok (.block body)
      | "loop" => do
          let (label, body) ← loopBody fuel value
          .ok (.loop label body)
      | "match" => selection fuel value
      | "cast" => do
          let fields ← entries value
          let operand ← required (expression fuel) fields "x"
          .ok (.cast operand (.ofText (textOf fields "type")))
      | "is" => do
          let fields ← entries value
          let object ← required (expression fuel) fields "x"
          .ok (.isType object (textOf fields "type"))
      | "tagof" => do
          let object ← expression fuel value
          .ok (.tagOf object)
      | _ => failAt node ("unknown expression " ++ Text.quoted key)

def argumentList : Nat → Option Node → Except BodyError (List Expr)
  | 0, _ => .error .exhausted
  | _ + 1, none => .ok []
  | fuel + 1, some node => node.children.mapM (expression fuel)

def conditionalExpression : Nat → Node → Except BodyError Expr
  | 0, _ => .error .exhausted
  | fuel + 1, node => do
      let fields ← entries node
      let condition ← required (expression fuel) fields "cond"
      let thenBlock ← block fuel (Node.field? fields "then")
      match Node.field? fields "else" with
      | none => .ok (.conditional condition thenBlock none)
      | some other =>
        if other.isSequence then do
          let body ← block fuel (some other)
          .ok (.conditional condition thenBlock (some (.block body)))
        else do
          let (key, inner) ← single other
          if key ≠ "if" then failAt other "else must be a block or an if"
          else
            let otherwise ← conditionalExpression fuel inner
            .ok (.conditional condition thenBlock (some otherwise))

def loopBody : Nat → Node → Except BodyError (String × Block)
  | 0, _ => .error .exhausted
  | fuel + 1, node =>
    if node.isSequence then do
      let body ← block fuel (some node)
      .ok ("", body)
    else do
      let fields ← entries node
      let body ← block fuel (Node.field? fields "body")
      .ok (textOf fields "label", body)

def selection : Nat → Node → Except BodyError Expr
  | 0, _ => .error .exhausted
  | fuel + 1, node => do
      let fields ← entries node
      let scrutinee ← required (expression fuel) fields "scrutinee"
      match Node.field? fields "arms" with
      | none => .ok (.select scrutinee [])
      | some arms => do
          let arms ← arms.children.mapM (arm fuel)
          .ok (.select scrutinee arms)

def arm : Nat → Node → Except BodyError Arm
  | 0, _ => .error .exhausted
  | fuel + 1, node => do
      let fields ← entries node
      let pattern ← requiredPattern fuel fields
      let body ← required (expression fuel) fields "body"
      .ok (.mk pattern body)

def block : Nat → Option Node → Except BodyError Block
  | 0, _ => .error .exhausted
  | _ + 1, none => .ok (.mk [] none)
  | fuel + 1, some node =>
    if node.isNull then .ok (.mk [] none)
    else
      match node with
      | .sequence _ items => blockItems fuel items
      | _ => failAt node "expected a statement list"

def blockItems : Nat → List Node → Except BodyError Block
  | 0, _ => .error .exhausted
  | _ + 1, [] => .ok (.mk [] none)
  | fuel + 1, item :: rest => do
      let (key, value) ← single item
      if key = "tail" then
        if rest.isEmpty then
          let tail ← expression fuel value
          .ok (.mk [] (some tail))
        else failAt item "tail must be the last element of a block"
      else
        let first ← statement fuel key value
        let others ← blockItems fuel rest
        .ok (.mk (first :: others.statements) others.tail)

def statement : Nat → String → Node → Except BodyError Stmt
  | 0, _, _ => .error .exhausted
  | fuel + 1, key, value =>
    match key with
    | "let" => do
        let fields ← entries value
        let address ← boundAddress fields
        let init ← optional (expression fuel) (Node.field? fields "init")
        .ok (.bind (boundNames fields) (.ofText (textOf fields "type")) init address)
    | "assign" => do
        let fields ← entries value
        let target ← required (expression fuel) fields "target"
        let source ← required (expression fuel) fields "value"
        .ok (.assign target source)
    | "expr" => do
        let inner ← expression fuel value
        .ok (.expr inner)
    | "if" => do
        let (condition, thenBlock, otherwise) ← conditionalStatement fuel value
        .ok (.conditional condition thenBlock otherwise)
    | "loop" => do
        let (label, body) ← loopBody fuel value
        .ok (.loop label body)
    | "while" => do
        let fields ← entries value
        let condition ← required (expression fuel) fields "cond"
        let body ← block fuel (Node.field? fields "body")
        .ok (.whileLoop (textOf fields "label") condition body)
    | "for" => do
        let fields ← entries value
        let first ← required (expression fuel) fields "from"
        let last ← required (expression fuel) fields "to"
        let body ← block fuel (Node.field? fields "body")
        let type := textOf fields "type"
        .ok (.forLoop (textOf fields "label") (textOf fields "var")
          (if type = "" then .u8 else .ofText type) first last
          (textOf fields "inclusive" = "true") body)
    | "break" => do
        let fields := entriesOrNone value
        let result ← optional (expression fuel) (Node.field? fields "value")
        .ok (.leave (textOf fields "label") result)
    | "continue" => .ok (.proceed (textOf (entriesOrNone value) "label"))
    | "return" =>
      match value with
      | .sequence _ items => do
          let values ← items.mapM (expression fuel)
          .ok (.giveBack values)
      | .mapping _ _ => do
          let result ← expression fuel value
          .ok (.giveBack [result])
      | .scalar _ _ _ => .ok (.giveBack [])
    | "block" => do
        let body ← block fuel (some value)
        .ok (.block body)
    | _ => failAt value ("unknown statement " ++ Text.quoted key)

def conditionalStatement : Nat → Node → Except BodyError (Expr × Block × Otherwise)
  | 0, _ => .error .exhausted
  | fuel + 1, node => do
      let fields ← entries node
      let condition ← required (expression fuel) fields "cond"
      let thenBlock ← block fuel (Node.field? fields "then")
      match Node.field? fields "else" with
      | none => .ok (condition, thenBlock, .nothing)
      | some other =>
        if other.isMapping then do
          let (key, inner) ← single other
          if key ≠ "if" then failAt other "else must be a block or an if"
          else
            let (innerCondition, innerThen, innerOtherwise) ← conditionalStatement fuel inner
            .ok (condition, thenBlock, .conditional innerCondition innerThen innerOtherwise)
        else do
          let body ← block fuel (some other)
          .ok (condition, thenBlock, .block body)

end

def fuelOf (node : Option Node) : Nat :=
  match node with
  | some node => 4 * node.size + 4
  | none => 4

def body (node : Option Node) : Except BodyError Block := block (fuelOf node) node

end Reading

end Backend65816
