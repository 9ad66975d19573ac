import Backend65816.Lowering.Choice
import Backend65816.Lowering.Operation
import Backend65816.Lowering.Statement

/-!
# Lowering of functions

The code of a tree follows its structure. A function starts by binding its parameters; control that
reaches the end of its body returns the value of the body, or nothing where nothing is declared.
-/

namespace Backend65816

mutual

/-- Steps that lower an expression, for each use that is made of it. -/
def Expr.code : Expr → ExprCode
  | .int value type => .int value type
  | .bool value => .bool value
  | .name name => .name name
  | .variant enum variant => .variant enum variant
  | .binary operator left right => .binary operator left.code right.code
  | .unary operator operand => .unary operator operand.code
  | .call function arguments => .call function (codeOfExprs arguments)
  | .method receiver traitName method arguments =>
    .method receiver.code traitName method (codeOfExprs arguments)
  | .field object field => .field object.code field
  | .conditional condition thenBlock otherwise =>
    .ofValue (.conditional condition thenBlock otherwise)
      (Lower.conditionalValue condition.code thenBlock.code (codeOfOption otherwise))
  | .block body => .ofValue (.block body) body.code
  | .loop label body => .ofValue (.loop label body) (Lower.loop label body.code)
  | .select scrutinee arms => .select scrutinee.code (codeOfArms arms)
  | .cast operand type => .cast operand.code type
  | .isType object typeName => .isType object.code typeName
  | .tagOf object => .tagOf object.code

def codeOfExprs : List Expr → List ExprCode
  | [] => []
  | expression :: rest => expression.code :: codeOfExprs rest

def codeOfOption : Option Expr → Option ExprCode
  | none => none
  | some expression => some expression.code

def codeOfArms : List Arm → List ArmCode
  | [] => []
  | arm :: rest => codeOfArm arm :: codeOfArms rest

def codeOfArm : Arm → ArmCode
  | .mk pattern body => { pattern, body := body.code }

/-- Steps that lower a statement. -/
def Stmt.code : Stmt → Lower Unit
  | .block body => do
      let _ ← body.code .unspecified
  | .bind names type init address => Lower.bind names type (codeOfOption init) address
  | .assign target value =>
    let stored := value.code
    target.code.assign (storedNames [stored]) stored.value
  | .expr expression => do
      let _ ← expression.code.value .unspecified
  | .conditional condition thenBlock otherwise =>
    Lower.conditional condition.code thenBlock.code otherwise.code
  | .loop label body => do
      let _ ← Lower.loop label body.code .unspecified
  | .whileLoop label condition body => Lower.whileLoop label condition.code body.code
  | .forLoop label counter type first last inclusive body =>
    Lower.forLoop label counter type first.code last.code inclusive body.code
  | .leave label value => Lower.leave label (codeOfOption value)
  | .proceed label => Lower.proceed label
  | .giveBack values => Lower.giveBack (codeOfExprs values)

/-- Steps that lower what follows `else`, given the block behind the whole conditional. -/
def Otherwise.code : Otherwise → Option (BlockId → Lower Unit)
  | .nothing => none
  | .block body => some (Lower.elseBlock body.code)
  | .conditional condition thenBlock otherwise =>
    some (Lower.elseConditional condition.code thenBlock.code otherwise.code)

def codeOfStmts : List Stmt → Lower Unit
  | [] => pure ()
  | statement :: rest => do
      statement.code
      codeOfStmts rest

/-- Steps that lower a block in a scope of its own, with the value of its tail. -/
def Block.code : Block → BlockCode
  | .mk statements tail => Lower.block (codeOfStmts statements) (codeOfOption tail)

end

namespace Lower

/-- Some path of the code so far leads from the entry to the current block. -/
def currentIsReached : Lower Bool := do
  let draft ← get
  return (draft.graph "" .narrow).reachable.getD draft.current false

/-- Ends a body whose end nothing reaches, and reports a problem where something does. -/
def endUnreached (code : DiagnosticCode) (message : String) : Lower Unit := do
  if ← currentIsReached then fail code message else terminate (.giveBack [])

/-- Control comes to the end of a body: its tail is returned, or nothing if nothing is declared. -/
def fallOff (tail : TypedReg) : Lower Unit := do
  let signature := (← read).signature
  if signature.noReturn then
    endUnreached .noReturnFallthrough "control reaches the end of a no-return function"
  else if tail.type ≠ .void && !tail.diverges then returnValues [tail]
  else if !signature.returns.isEmpty then
    endUnreached .missingReturn
      ("control reaches the end without returning " ++ toString signature.returns.length ++
        " values")
  else terminate (.giveBack [])

/-- The type that the tail of a body is wanted at: that of an only result. -/
def wantedType (returns : List ReturnSlot) : Ty :=
  match returns with
  | [only] => only.type
  | _ => .unspecified

/-- Lowers a whole function: its parameters, its body and the return at its end. -/
def function (body : Block) : Lower Unit := do
  enterParams
  let tail ← body.code (wantedType (← read).signature.returns)
  if !(← isDead) then fallOff tail

end Lower

/-- The block graph of a function, in the conventions and tables of its unit. -/
def UnitContext.lower (context : UnitContext) (signature : Signature) (body : Block) :
    Except LoweringFailure Graph := do
  let (_, draft) ← (Lower.function body).run { context, signature } |>.run {}
  return draft.finish signature.name signature.mode

end Backend65816
