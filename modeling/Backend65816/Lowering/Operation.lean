import Backend65816.Lowering.Transfer

/-!
# Operations

Unary and binary operations, conversions and conditions. A literal operand takes the type of the
other side and becomes a number of the instruction; on the left it changes sides where the operator
allows that. The left side is read before the right side runs. Operations that the machine lacks are
calls of routines.
-/

namespace Backend65816

def BinaryOp.exchanges : BinaryOp → Bool
  | compare _ => true
  | arithmetic kind => kind.isCommutative
  | routine _ | and | or | unknown _ => false

def BinaryOp.fold? (operator : BinaryOp) (left right : Int) : Option Int :=
  match operator with
  | arithmetic .add => some (Word.wrap (left + right))
  | arithmetic .sub => some (Word.wrap (left - right))
  | arithmetic .and => some (Word.bitwise (· &&& ·) left right)
  | arithmetic .or => some (Word.bitwise (· ||| ·) left right)
  | arithmetic .xor => some (Word.bitwise (· ^^^ ·) left right)
  | arithmetic .shl => some (Word.shiftLeft left right)
  | routine .mul => some (Word.wrap (left * right))
  | arithmetic .shr | arithmetic .sar | routine .div | routine .mod | compare _ | and | or
  | unknown _ => none

/-- Operands of a binary operation. -/
structure Operands where
  left : TypedReg
  right : Value
  swapped : Bool := false
deriving DecidableEq, Repr, Inhabited

namespace Lower

def immediate (literal : Int) (type : Ty) : Lower Value := do
  checkLiteral literal type
  let width := ((← theUnit).width? type).getD .word
  return .imm (width.truncate literal)

def operands (operator : BinaryOp) (left right : ExprCode) (want : Ty) :
    Lower (Option Operands) := do
  match left.source.literal?, right.source.literal? with
  | _, some (literal, _) =>
    let value ← left.value want
    if value.diverges then return none
    else return some { left := value, right := ← immediate literal value.type }
  | some (literal, type), none =>
    let value ← right.value want
    if value.diverges then return none
    else if operator.exchanges then
      return some { left := value, right := ← immediate literal value.type, swapped := true }
    else
      let type := literalType (literal, type) value.type
      checkLiteral literal type
      let constant ← constant literal type
      if constant.diverges then return none
      else return some { left := constant, right := .reg value.register }
  | none, none =>
    let first ← whilePending (storedNames [right]) (left.value want)
    if first.diverges then return none
    else
      let second ← right.value first.type
      if second.diverges then return none
      else if first.type ≠ second.type then
        fail .branchTypes
          ("operands of " ++ operator.text ++ " are " ++ first.type.text ++ " and " ++
            second.type.text)
      else return some { left := first, right := .reg second.register }

def orient (condition : Cond) (swapped : Bool) : Cond :=
  if swapped then condition.swap else condition

def branchOnComparison (condition : Cond) (left right : ExprCode) (yes no : BlockId) :
    Lower Unit := do
  match ← operands (.compare condition) left right .unspecified with
  | none => return
  | some found =>
    branchOn (orient condition found.swapped) found.left.register found.right yes no

def compareValue (condition : Cond) (left right : ExprCode) : Lower TypedReg := do
  match ← operands (.compare condition) left right .unspecified with
  | none => return .never
  | some found =>
    let condition := orient condition found.swapped
    let (left, right) ← comparable condition found.left.register found.right
    let register ← newReg "" .byte false
    emit (.setCond condition register left right)
    return { register, type := .bool }

def branchOnBoth (left right : ExprCode) (yes no : BlockId) : Lower Unit := do
  let middle ← newBlock "and"
  left.branch middle no
  enter middle
  right.branch yes no

def branchOnEither (left right : ExprCode) (yes no : BlockId) : Lower Unit := do
  let middle ← newBlock "or"
  left.branch yes middle
  enter middle
  right.branch yes no

def conditionValue (branch : (yes no : BlockId) → Lower Unit) : Lower TypedReg := do
  let register ← newReg "" .byte false
  let yes ← newBlock "cond.true"
  let no ← newBlock "cond.false"
  let after ← newBlock "cond.end"
  branch yes no
  enter yes
  emit (.const register 1)
  jump after
  enter no
  emit (.const register 0)
  jump after
  enter after
  return { register, type := .bool }

def inRegister (operand : Value) (type : Ty) : Lower TypedReg :=
  match operand with
  | .imm value => constant value type
  | .reg register => return { register, type }

def callRoutine (name : String) (width : Width) (type : Ty) (left : TypedReg) (right : Value) :
    Lower TypedReg := do
  let right ← inRegister right type
  let signature := Signature.helper name width (← read).signature.bank
  let results ← callDirect signature [left, right]
  return { (results.headD .void) with type }

/-- Emits an instruction on two operands. A shift by the width or more gives zero, or copies of the
sign. -/
def instruct (kind : BinKind) (width : Width) (type : Ty) (left : TypedReg) (right : Value) :
    Lower TypedReg := do
  let register ← newReg "" width type.isSigned
  match right with
  | .imm amount =>
    if kind.isShift ∧ amount ≥ width.bits then
      if kind = .sar then
        emit (.bin kind register left.register (.imm (width.bits - 1)) false)
      else emit (.const register 0)
    else emit (.bin kind register left.register right false)
  | .reg _ => emit (.bin kind register left.register right false)
  return { register, type }

def shiftKind (kind : BinKind) (type : Ty) : BinKind :=
  if kind = .shr ∧ type.isSigned then .sar else kind

def routineName (kind : RoutineKind) (type : Ty) : String :=
  if type.isSigned ∧ kind ≠ .mul then "s" ++ kind.text else kind.text

def operate (operator : BinaryOp) (found : Operands) : Lower TypedReg := do
  let type := found.left.type
  let refuse : Lower TypedReg :=
    fail .branchTypes ("operator " ++ operator.text ++ " on " ++ type.text)
  match operator with
  | .arithmetic kind =>
    if !type.isInteger && !(type = .bool && kind.isBitwise) then refuse
    else
      let width ← widthOf type
      let kind := shiftKind kind type
      match kind.isShift, found.right with
      | true, .reg _ => callRoutine kind.text width type found.left found.right
      | _, _ => instruct kind width type found.left found.right
  | .routine kind =>
    if !type.isInteger then refuse
    else
      callRoutine (routineName kind type) (← widthOf type) type found.left found.right
  | .compare _ | .and | .or | .unknown _ =>
    fail .malformed ("unknown operator " ++ operator.text)

def foldLiterals? (operator : BinaryOp) (left right : Expr) : Option (Int × (Int × Ty)) := do
  let first ← left.literal?
  let second ← right.literal?
  let value ← operator.fold? first.1 second.1
  return (value, first)

def binaryValue (operator : BinaryOp) (left right : ExprCode) (want : Ty) : Lower TypedReg := do
  match operator with
  | .and => conditionValue (branchOnBoth left right)
  | .or => conditionValue (branchOnEither left right)
  | .compare condition => compareValue condition left right
  | .arithmetic _ | .routine _ | .unknown _ =>
    match foldLiterals? operator left.source right.source with
    | some (value, literal) =>
      let type := literalType literal want
      checkLiteral value type
      constant value type
    | none =>
      match ← operands operator left right want with
      | none => return .never
      | some found => operate operator found

def unaryKind (operator : UnaryOp) (type : Ty) : Lower UnKind :=
  let refuse : Lower UnKind :=
    fail .branchTypes ("operator " ++ operator.text ++ " on " ++ type.text)
  match operator with
  | .negate => if type.isInteger then return .neg else refuse
  | .complement => if type.isInteger then return .cpl else refuse
  | .not => if type = .bool then return .not else refuse
  | .unknown text => fail .malformed ("unknown operator " ++ text)

def foldUnary? (operator : UnaryOp) (literal : Int) : Option Int :=
  match operator with
  | .negate => some (Word.wrap (-literal))
  | .complement => some (-literal - 1)
  | .not | .unknown _ => none

def unaryValue (operator : UnaryOp) (operand : ExprCode) (want : Ty) : Lower TypedReg := do
  let folded := do
    let literal ← operand.source.literal?
    let value ← foldUnary? operator literal.1
    return (value, literalType literal want)
  match folded with
  | some (value, type) => constant value type
  | none =>
    let source ← operand.value want
    if source.diverges then return source
    else
      let kind ← unaryKind operator source.type
      let info ← regInfo source.register
      let register ← newReg "" info.width source.type.isSigned
      emit (.un kind register source.register)
      return { source with register }

def castValue (operand : ExprCode) (type : Ty) : Lower TypedReg := do
  let source ← operand.value type
  if source.diverges then return source
  else
    let width ← widthOf type
    if !type.isInteger && type ≠ .bool then
      fail .branchTypes ("cannot cast to " ++ type.text)
    else if source.type.isPointer && type ≠ .u16 && type ≠ .i16 then
      fail .branchTypes ("cannot cast " ++ source.type.text ++ " to " ++ type.text)
    else
      let register ← newReg "" width type.isSigned
      let info ← regInfo source.register
      if info.width = width then emit (.move register source.register)
      else emit (.convert register source.register source.type.isSigned)
      return { register, type }

end Lower

namespace ExprCode

def binary (operator : BinaryOp) (left right : ExprCode) : ExprCode :=
  let code := ofValue (.binary operator left.source right.source)
    (Lower.binaryValue operator left right)
  match operator with
  | .and => { code with branch := Lower.branchOnBoth left right }
  | .or => { code with branch := Lower.branchOnEither left right }
  | .compare condition => { code with branch := Lower.branchOnComparison condition left right }
  | .arithmetic _ | .routine _ | .unknown _ => code

def unary (operator : UnaryOp) (operand : ExprCode) : ExprCode :=
  let code := ofValue (.unary operator operand.source) (Lower.unaryValue operator operand)
  match operator with
  | .not => { code with branch := fun yes no => operand.branch no yes }
  | .negate | .complement | .unknown _ => code

def cast (operand : ExprCode) (type : Ty) : ExprCode :=
  ofValue (.cast operand.source type) fun _ => Lower.castValue operand type

end ExprCode

end Backend65816
