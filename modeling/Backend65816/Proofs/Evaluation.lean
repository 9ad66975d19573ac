import Backend65816.Lowering.Function
import Backend65816.Proofs.GraphRun

/-!
# Evaluation of function bodies

The core language has integers and truth values, locals and globals, conditionals, loops and
returns. Its evaluator runs a tree from left to right. Fuel bounds the iterations of loops only, so
a body runs forever when it times out on any fuel.

The type of a literal follows from its context. The context of a tree is therefore typed in the
order of the text, whether or not the tree runs, while its meaning is put together.
-/

namespace Backend65816

/-! ## The core language -/

/-- The type is one of values: what has no value, or does not complete, has another type. -/
def Ty.hasValues (type : Ty) : Bool := type ≠ .void && type ≠ .never

def Expr.isAmount : Expr → Bool
  | .int value _ => 0 ≤ value
  | _ => false

/-- The operator belongs to the core language, with its right operand. -/
def BinaryOp.isCore (operator : BinaryOp) (right : Expr) : Bool :=
  match operator with
  | .arithmetic .shl | .arithmetic .shr => right.isAmount
  | .arithmetic .sar => false
  | .arithmetic _ | .compare _ | .and | .or => true
  | .routine _ | .unknown _ => false

def UnaryOp.isCore : UnaryOp → Bool
  | .negate | .complement | .not => true
  | .unknown _ => false

mutual

def Expr.isCore : Expr → Bool
  | .int _ type => type.hasValues
  | .bool _ | .name _ => true
  | .binary operator left right => operator.isCore right && left.isCore && right.isCore
  | .unary operator operand => operator.isCore && operand.isCore
  | .conditional condition thenBlock otherwise =>
    condition.isCore && thenBlock.isCore && isCoreOption otherwise
  | .block body => body.isCore
  | .loop _ body => body.isCore
  | .variant _ _ | .call _ _ | .method _ _ _ _ | .field _ _ | .select _ _ | .cast _ _
  | .isType _ _ | .tagOf _ => false

/-- An expression, if there is one, belongs to the core language. -/
def isCoreOption : Option Expr → Bool
  | none => true
  | some expression => expression.isCore

def isCoreList : List Expr → Bool
  | [] => true
  | expression :: rest => expression.isCore && isCoreList rest

/-- The statement belongs to the core language. A declaration has one name, a value and no address;
an assignment is to a name. -/
def Stmt.isCore : Stmt → Bool
  | .block body => body.isCore
  | .bind names type init address =>
    names.length = 1 && type.hasValues && init.isSome && address.isNone && isCoreOption init
  | .assign target value =>
    (match target with
      | .name _ => true
      | _ => false) && value.isCore
  | .expr expression => expression.isCore
  | .conditional condition thenBlock otherwise =>
    condition.isCore && thenBlock.isCore && otherwise.isCore
  | .loop _ body => body.isCore
  | .whileLoop _ condition body => condition.isCore && body.isCore
  | .forLoop _ _ _ _ _ _ _ => false
  | .leave _ value => isCoreOption value
  | .proceed _ => true
  | .giveBack values => isCoreList values

def Otherwise.isCore : Otherwise → Bool
  | .nothing => true
  | .block body => body.isCore
  | .conditional condition thenBlock otherwise =>
    condition.isCore && thenBlock.isCore && otherwise.isCore

def isCoreStmts : List Stmt → Bool
  | [] => true
  | statement :: rest => statement.isCore && isCoreStmts rest

def Block.isCore : Block → Bool
  | .mk statements tail => isCoreStmts statements && isCoreOption tail

end

/-! ## Running -/

/-- Values of the names in scope, innermost scope first, and contents of memory. -/
structure Env where
  scopes : List (Named Int)
  memory : Address → Int

/-- Ways out of a piece of code other than its end. -/
inductive Exit where
  | leave (label : String) (value : Option Int)
  | proceed (label : String)
  | giveBack (values : List Int)
  | timeout

/-- Code that is run with fuel and gives a value, unless it leaves in another way. -/
def Eval (α : Type) : Type := (fuel : Nat) → Env → Except Exit α × Env

instance : Monad Eval where
  pure value := fun _ env => (.ok value, env)
  bind run next := fun fuel env =>
    match run fuel env with
    | (.ok value, after) => next value fuel after
    | (.error exit, after) => (.error exit, after)

/-- A label of a break or continue names a loop; an empty one names the innermost loop. -/
def labelFits (label own : String) : Bool := label = "" || own = label

/-- Gives a value to a name in the innermost scope that has it. -/
def assignIn (name : String) (value : Int) : List (Named Int) → List (Named Int)
  | [] => []
  | scope :: outer =>
    if scope.has name then scope.put name value :: outer
    else scope :: assignIn name value outer

namespace Eval

variable {α : Type}

def exit (way : Exit) : Eval α := fun _ env => (.error way, env)

def lookUp (name : String) : Eval Int := fun _ env =>
  (.ok ((env.scopes.findSome? fun scope => scope.get? name).getD 0), env)

def declare (name : String) (value : Int) : Eval Unit := fun _ env =>
  let scopes := match env.scopes with
    | scope :: outer => scope.put name value :: outer
    | [] => [[(name, value)]]
  (.ok (), { env with scopes })

def assign (name : String) (value : Int) : Eval Unit := fun _ env =>
  (.ok (), { env with scopes := assignIn name value env.scopes })

def load (address : Address) : Eval Int := fun _ env => (.ok (env.memory address), env)

def store (address : Address) (value : Int) : Eval Unit := fun _ env =>
  (.ok (), { env with memory := Function.update env.memory address value })

def inScope (run : Eval α) : Eval α := fun fuel env =>
  let (result, after) := run fuel { env with scopes := [] :: env.scopes }
  (result, { after with scopes := after.scopes.drop 1 })

def choose (test : Eval Int) (yes no : Eval α) : Eval α := do
  if (← test) ≠ 0 then yes else no

/-- The body of a loop: nothing if another iteration follows, else the value of the loop. -/
def catching (label : String) (body : Eval Unit) : Eval (Option Int) := fun fuel env =>
  match body fuel env with
  | (.ok (), after) => (.ok none, after)
  | (.error (.leave target value), after) =>
    if labelFits target label then (.ok (some (value.getD 0)), after)
    else (.error (.leave target value), after)
  | (.error (.proceed target), after) =>
    if labelFits target label then (.ok none, after) else (.error (.proceed target), after)
  | (.error (.giveBack values), after) => (.error (.giveBack values), after)
  | (.error .timeout, after) => (.error .timeout, after)

def iterate (iteration : Eval (Option Int)) : Eval Int
  | 0, env => (.error .timeout, env)
  | fuel + 1, env =>
    match iteration fuel env with
    | (.ok none, after) => iterate iteration fuel after
    | (.ok (some value), after) => (.ok value, after)
    | (.error exit, after) => (.error exit, after)

end Eval

/-! ## Typing -/

/-- What is known of the type of an enclosing loop. -/
structure LoopTyping where
  label : String
  type : Ty := .unspecified
  hasValued : Bool := false
  hasBare : Bool := false
deriving DecidableEq, Repr

/-- Types in the context of a piece of code. -/
structure Typing where
  scopes : List (Named Ty)
  loops : List LoopTyping := []
  dead : Bool := false
deriving DecidableEq, Repr

def modifyTarget (label : String) (change : LoopTyping → LoopTyping) :
    List LoopTyping → List LoopTyping
  | [] => []
  | loop :: outer =>
    if labelFits label loop.label then change loop :: outer
    else loop :: modifyTarget label change outer

namespace Typing

def find? (typing : Typing) (name : String) : Option Ty :=
  typing.scopes.findSome? fun scope => scope.get? name

def declare (typing : Typing) (name : String) (type : Ty) : Typing :=
  match typing.scopes with
  | scope :: outer => { typing with scopes := scope.put name type :: outer }
  | [] => { typing with scopes := [[(name, type)]] }

def loopType (typing : Typing) (label : String) : Ty :=
  ((typing.loops.find? fun loop => labelFits label loop.label).map LoopTyping.type).getD
    .unspecified

def modifyLoop (typing : Typing) (label : String) (change : LoopTyping → LoopTyping) : Typing :=
  { typing with loops := modifyTarget label change typing.loops }

def revived (typing : Typing) : Typing := { typing with dead := false }

def killed (typing : Typing) : Typing := { typing with dead := true }

def pushScope (typing : Typing) : Typing := { typing with scopes := [] :: typing.scopes }

def popScope (typing : Typing) : Typing := { typing with scopes := typing.scopes.drop 1 }

def pushLoop (typing : Typing) (loop : LoopTyping) : Typing :=
  { typing with loops := loop :: typing.loops }

def popLoop (typing : Typing) : Typing := { typing with loops := typing.loops.drop 1 }

end Typing

abbrev Typed := StateM Typing

/-- The meaning of an expression where a type is wanted: its type and how it runs. -/
abbrev Meaning := Ty → Typed (Ty × Eval Int)

def CompilationUnit.widthOf (unit : CompilationUnit) (type : Ty) : Width :=
  (unit.width? type).getD .word

def CompilationUnit.fit (unit : CompilationUnit) (type : Ty) (number : Int) : Int :=
  (unit.widthOf type).truncate number

def CompilationUnit.compare (unit : CompilationUnit) (type : Ty) (condition : Cond)
    (left right : Int) : Bool :=
  if type.isSigned then
    condition.eval ((unit.widthOf type).signed left) ((unit.widthOf type).signed right)
  else condition.eval left right

/-- Address of a variable of the unit, from code in a bank. -/
def GlobalDecl.addressFrom (global : GlobalDecl) (bank : Int) : Address :=
  { symbol := global.name, fixed := global.address, far := global.bank ≠ bank }

namespace Meaning

def unknown : Meaning := fun _ => return (.never, Eval.exit .timeout)

def nothing : Meaning := fun _ => return (.void, pure 0)

def literal (unit : CompilationUnit) (number : Int) (type : Ty) : Meaning := fun want =>
  let type := literalType (number, type) want
  return (type, pure (unit.fit type number))

def name (unit : CompilationUnit) (bank : Int) (name : String) : Meaning := fun want => do
  match (← get).find? name with
  | some type => return (type, Eval.lookUp name)
  | none =>
    match unit.findGlobal? name with
    | some global =>
      return (global.type, do
        return unit.fit global.type (← Eval.load (global.addressFrom bank)))
    | none => unknown want

/-- Operands of a binary operation with their common type. A literal takes the type of the other
side, if that is one for it. Nothing is known of a right side that is never reached. -/
def operands (unit : CompilationUnit) (exchanges : Bool)
    (leftLiteral rightLiteral : Option (Int × Ty)) (left right : Meaning) (want : Ty) :
    Typed (Ty × Eval (Int × Int)) := do
  match leftLiteral, rightLiteral with
  | _, some (number, _) =>
    let (type, run) ← left want
    return (type, do return (← run, unit.fit type number))
  | some literal, none =>
    let (type, run) ← right want
    let own := if exchanges || type = .never then type else literalType literal type
    return (own, do return (unit.fit own literal.1, ← run))
  | none, none =>
    let (type, first) ← left want
    if type = .never then return (.never, do return (← first, 0))
    else
      let (other, second) ← right type
      return (if other = .never then .never else type, do return (← first, ← second))

def arithmetic (unit : CompilationUnit) (kind : BinKind)
    (leftLiteral rightLiteral : Option (Int × Ty)) (left right : Meaning) : Meaning := fun want => do
  let (type, run) ← operands unit kind.isCommutative leftLiteral rightLiteral left right want
  return (type, do
    let (first, second) ← run
    return kind.apply (unit.widthOf type) first second)

def shift (unit : CompilationUnit) (kind : BinKind) (amount : Option (Int × Ty)) (left : Meaning) :
    Meaning := fun want => do
  match amount with
  | none => unknown want
  | some (number, _) =>
    let (type, run) ← left want
    return (type, do
      return (Lower.shiftKind kind type).apply (unit.widthOf type) (← run) number)

def comparison (unit : CompilationUnit) (condition : Cond)
    (leftLiteral rightLiteral : Option (Int × Ty)) (left right : Meaning) : Meaning := fun _ => do
  let (type, run) ← operands unit true leftLiteral rightLiteral left right .unspecified
  return (if type = .never then .never else .bool, do
    let (first, second) ← run
    return (unit.compare type condition first second).toInt)

/-- A truth value that decides where the code goes on. -/
def test (meaning : Meaning) : Typed (Eval Int) := do
  let (_, run) ← meaning .bool
  modify Typing.revived
  return run

/-- A conjunction, whose right side runs only if its left side holds. -/
def both (left right : Meaning) : Meaning := fun _ => do
  let first ← left.test
  let second ← right.test
  return (.bool, .choose first (.choose second (pure 1) (pure 0)) (pure 0))

/-- A disjunction, whose right side runs only if its left side does not hold. -/
def either (left right : Meaning) : Meaning := fun _ => do
  let first ← left.test
  let second ← right.test
  return (.bool, .choose first (pure 1) (.choose second (pure 1) (pure 0)))

def unary (unit : CompilationUnit) (kind : UnKind) (operand : Meaning) : Meaning := fun want => do
  let (type, run) ← operand want
  return (type, do return kind.apply (unit.widthOf type) (← run))

/-- The type of a way that completes; the code after it is reached again. -/
def completed (type : Ty) : Typed (Option Ty) := fun typing =>
  (if type = .never || typing.dead then none else some type, typing.revived)

/-- A conditional. The first way that completes decides the type of both. -/
def conditional (condition yes no : Meaning) : Meaning := fun want => do
  let decision ← condition.test
  let (yesType, onYes) ← yes want
  let first ← completed yesType
  let (noType, onNo) ← no (first.getD want)
  let second ← completed noType
  let run := Eval.choose decision onYes onNo
  match first.or second with
  | some type => return (type, run)
  | none =>
    modify Typing.killed
    return (.never, run)

def loop (label : String) (body : Meaning) : Meaning := fun want => do
  modify fun typing => typing.revived.pushLoop { label, type := want }
  let (_, run) ← body .unspecified
  let left := (← get).loops.headD { label }
  modify fun typing => typing.popLoop.revived
  let run := Eval.iterate (Eval.catching label do let _ ← run)
  if left.hasValued then return (left.type, run)
  else if left.hasBare then return (.void, run)
  else
    modify Typing.killed
    return (.never, run)

def noTail : Meaning := fun _ => do
  return (if (← get).dead then .never else .void, pure 0)

/-- Statements in a scope of their own, and the value after them. -/
def block (statements : Typed (Eval Unit)) (tail : Option Meaning) : Meaning := fun want => do
  modify Typing.pushScope
  let first ← statements
  let (type, last) ← tail.getD noTail want
  modify Typing.popScope
  return (type, Eval.inScope do
    first
    last)

end Meaning

abbrev StmtMeaning := Typed (Eval Unit)

namespace StmtMeaning

def unknown : StmtMeaning := return Eval.exit .timeout

def ofExpr (meaning : Meaning) : StmtMeaning := do
  let (_, run) ← meaning .unspecified
  return do let _ ← run

/-- A declaration. The type is that of the value where none is declared. -/
def bind (name : String) (type : Ty) (init : Meaning) : StmtMeaning := do
  let (own, run) ← init type
  modify fun typing => typing.declare name (if type = .unspecified then own else type)
  return do Eval.declare name (← run)

def assign (unit : CompilationUnit) (bank : Int) (name : String) (value : Meaning) :
    StmtMeaning := do
  match (← get).find? name with
  | some type =>
    let (_, run) ← value type
    return do Eval.assign name (← run)
  | none =>
    match unit.findGlobal? name with
    | some global =>
      let (_, run) ← value global.type
      return do Eval.store (global.addressFrom bank) (← run)
    | none => unknown

def ways (condition thenBlock : Meaning) (otherwise : StmtMeaning) : StmtMeaning := do
  let decision ← condition.test
  let (_, yes) ← thenBlock .unspecified
  modify Typing.revived
  let no ← otherwise
  return .choose decision (do let _ ← yes) no

def conditional (condition thenBlock : Meaning) (otherwise : StmtMeaning) : StmtMeaning := do
  let run ← ways condition thenBlock otherwise
  modify Typing.revived
  return run

/-- A loop with a test in front. Breaks in the test leave a loop around it. -/
def whileLoop (label : String) (condition body : Meaning) : StmtMeaning := do
  modify Typing.revived
  let decision ← condition.test
  modify fun typing => typing.pushLoop { label }
  let (_, run) ← body .unspecified
  modify fun typing => typing.popLoop.revived
  return do
    let _ ← Eval.iterate
      (.choose decision (Eval.catching label do let _ ← run) (pure (some 0)))

def leave (label : String) : StmtMeaning := do
  modify fun typing =>
    (typing.modifyLoop label fun loop => { loop with hasBare := true }).killed
  return Eval.exit (.leave label none)

/-- Leaves a loop with a value, which has the type of the values before it. -/
def leaveWith (label : String) (value : Meaning) : StmtMeaning := do
  let want := (← get).loopType label
  modify fun typing => typing.modifyLoop label fun loop => { loop with hasValued := true }
  let (type, run) ← value want
  unless type = .never do
    modify fun typing => (typing.modifyLoop label fun loop => { loop with type }).killed
  return do Eval.exit (.leave label (some (← run)))

def proceed (label : String) : StmtMeaning := do
  modify Typing.killed
  return Eval.exit (.proceed label)

/-- The values of expressions in order, and whether all of them complete. -/
def values : List ReturnSlot → List Meaning → Typed (Bool × Eval (List Int))
  | _, [] => return (true, pure [])
  | slots, meaning :: rest => do
      let (type, first) ← meaning ((slots.head?.map ReturnSlot.type).getD .unspecified)
      if type = .never then return (false, do return [← first])
      else
        let (complete, others) ← values (slots.drop 1) rest
        return (complete, do return (← first) :: (← others))

def giveBack (slots : List ReturnSlot) (meanings : List Meaning) : StmtMeaning := do
  let (complete, run) ← values slots meanings
  if complete then modify Typing.killed
  return do Eval.exit (.giveBack (← run))

end StmtMeaning

/-! ## Trees -/

section Trees

variable (unit : CompilationUnit) (signature : Signature)

def UnaryOp.kind : UnaryOp → UnKind
  | .negate => .neg
  | .complement => .cpl
  | .not | .unknown _ => .not

mutual

def Expr.meaning : Expr → Meaning
  | .int number type => .literal unit number type
  | .bool truth => fun _ => return (.bool, pure truth.toInt)
  | .name name => .name unit signature.bank name
  | .binary operator left right =>
    match operator with
    | .and => .both left.meaning right.meaning
    | .or => .either left.meaning right.meaning
    | .compare condition =>
      .comparison unit condition left.literal? right.literal? left.meaning right.meaning
    | .arithmetic kind =>
      if kind.isShift then .shift unit kind right.literal? left.meaning
      else .arithmetic unit kind left.literal? right.literal? left.meaning right.meaning
    | .routine _ | .unknown _ => .unknown
  | .unary operator operand => .unary unit operator.kind operand.meaning
  | .conditional condition thenBlock otherwise =>
    .conditional condition.meaning thenBlock.meaning (meaningOfElse otherwise)
  | .block body => body.meaning
  | .loop label body => .loop label body.meaning
  | .variant _ _ | .call _ _ | .method _ _ _ _ | .field _ _ | .select _ _ | .cast _ _
  | .isType _ _ | .tagOf _ => .unknown

/-- The meaning of the else side of a conditional expression. -/
def meaningOfElse : Option Expr → Meaning
  | none => .nothing
  | some expression => expression.meaning

def meaningOfOption : Option Expr → Option Meaning
  | none => none
  | some expression => some expression.meaning

def meaningOfExprs : List Expr → List Meaning
  | [] => []
  | expression :: rest => expression.meaning :: meaningOfExprs rest

def Stmt.meaning : Stmt → StmtMeaning
  | .block body => .ofExpr body.meaning
  | .bind names type init _ =>
    match names, meaningOfOption init with
    | [name], some meaning => .bind name type meaning
    | _, _ => .unknown
  | .assign target value =>
    match target with
    | .name name => .assign unit signature.bank name value.meaning
    | _ => .unknown
  | .expr expression => .ofExpr expression.meaning
  | .conditional condition thenBlock otherwise =>
    .conditional condition.meaning thenBlock.meaning otherwise.meaning
  | .loop label body => .ofExpr (.loop label body.meaning)
  | .whileLoop label condition body => .whileLoop label condition.meaning body.meaning
  | .forLoop _ _ _ _ _ _ _ => .unknown
  | .leave label value =>
    match meaningOfOption value with
    | none => .leave label
    | some meaning => .leaveWith label meaning
  | .proceed label => .proceed label
  | .giveBack values => .giveBack signature.returns (meaningOfExprs values)

/-- The meaning of the else side of a conditional statement. -/
def Otherwise.meaning : Otherwise → StmtMeaning
  | .nothing => return pure ()
  | .block body => .ofExpr body.meaning
  | .conditional condition thenBlock otherwise =>
    .ways condition.meaning thenBlock.meaning otherwise.meaning

def meaningOfStmts : List Stmt → StmtMeaning
  | [] => return pure ()
  | statement :: rest => do
      let first ← statement.meaning
      let others ← meaningOfStmts rest
      return do
        first
        others

def Block.meaning : Block → Meaning
  | .mk statements tail => .block (meaningOfStmts statements) (meaningOfOption tail)

end

end Trees

/-! ## Functions -/

namespace Signature

def paramTypes (signature : Signature) : Named Ty :=
  signature.params.foldl (fun scope param => scope.put param.name param.type) []

/-- Values of the parameters, given the arguments by position. -/
def paramValues (signature : Signature) (arguments : Nat → Int) : Named Int :=
  signature.params.zipIdx.foldl
    (fun scope (param, index) => scope.put param.name (param.width.truncate (arguments index))) []

end Signature

/-- The values that a body returns and the memory that it leaves, unless it runs out of fuel. The
value of a body is returned where it has one. -/
def Block.evaluate (unit : CompilationUnit) (signature : Signature) (body : Block)
    (arguments : Nat → Int) (memory : Address → Int) (fuel : Nat) :
    Except Exit (List Int × (Address → Int)) :=
  let ((type, run), _) :=
    body.meaning unit signature (Lower.wantedType signature.returns)
      { scopes := [signature.paramTypes] }
  match run fuel { scopes := [signature.paramValues arguments], memory } with
  | (.ok value, env) => .ok (if type = .void then [] else [value], env.memory)
  | (.error (.giveBack values), env) => .ok (values, env.memory)
  | (.error exit, _) => .error exit

def Block.Returns (unit : CompilationUnit) (signature : Signature) (body : Block)
    (arguments : Nat → Int) (memory : Address → Int) (result : List Int × (Address → Int)) : Prop :=
  ∃ fuel, body.evaluate unit signature arguments memory fuel = .ok result

def Block.RunsForever (unit : CompilationUnit) (signature : Signature) (body : Block)
    (arguments : Nat → Int) (memory : Address → Int) : Prop :=
  ∀ fuel, body.evaluate unit signature arguments memory fuel = .error .timeout

end Backend65816
