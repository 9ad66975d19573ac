import Backend65816.Lowering.Builder

/-!
# Values

Constants, names and comparisons, and the meeting of the ways through a conditional. The graph
compares unsigned values only: signed operands are shifted by the weight of the sign bit, which maps
signed order onto unsigned order.
-/

namespace Backend65816

def literalType (literal : Int × Ty) (want : Ty) : Ty :=
  if want.isInteger then want
  else if literal.2 = .unspecified ∨ (literal.2 = .u8 ∧ literal.1 > 0xFF) then .u16
  else literal.2

def integerRange (type : Ty) (width : Width) : Int × Int :=
  if type.isSigned then (-width.signBit, width.signBit - 1) else (0, width.mask)

def CompilationUnit.variant? (unit : CompilationUnit) (enum variant : String) : Option Int := do
  let declaration ← unit.findEnum? enum
  let index ← declaration.variantIndex? variant
  return index

/-- Where a name is kept. -/
inductive NamedPlace where
  | inReg (value : TypedReg)
  | inMemory (global : GlobalDecl)
deriving DecidableEq, Repr, Inhabited

def NamedPlace.type : NamedPlace → Ty
  | inReg value => value.type
  | inMemory global => global.type

namespace Lower

def widthOf (type : Ty) : Lower Width := do
  match (← theUnit).width? type with
  | some width => return width
  | none => fail .noValue ("type " ++ type.text ++ " has no scalar representation")

def newTemp (name : String) (type : Ty) : Lower VReg := do
  newReg name (← widthOf type) type.isSigned

def constant (value : Int) (type : Ty) : Lower TypedReg := do
  let width ← widthOf type
  let register ← newReg "" width type.isSigned
  emit (.const register (width.truncate value))
  return { register, type }

def checkLiteral (value : Int) (type : Ty) : Lower Unit := do
  if type.isInteger then
    match (← theUnit).width? type with
    | none => return
    | some width =>
      let (least, greatest) := integerRange type width
      if value < least ∨ greatest < value then
        fail .literalRange
          ("constant " ++ toString value ++ " does not fit in " ++ type.text)

def variantValue (enum variant : String) : Lower Int := do
  let unit ← theUnit
  if (unit.findEnum? enum).isNone then fail .unknownName ("unknown enum " ++ enum)
  else
    match unit.variant? enum variant with
    | some value => return value
    | none => fail .unknownName ("enum " ++ enum ++ " has no variant " ++ variant)

def findName (name : String) : Lower NamedPlace := do
  match (← get).find? name with
  | some value => return .inReg value
  | none =>
    match (← theUnit).findGlobal? name with
    | some global => return .inMemory global
    | none => fail .unknownName ("unknown name " ++ name)

def globalAddress (global : GlobalDecl) : Lower Address := do
  return {
    symbol := global.name
    fixed := global.address
    far := global.bank ≠ (← read).signature.bank }

def readName (name : String) : Lower TypedReg := do
  match ← findName name with
  | .inReg value =>
    if name ∈ (← read).pending then
      let info ← regInfo value.register
      let register ← newReg name info.width value.type.isSigned
      emit (.move register value.register)
      return { value with register }
    else return value
  | .inMemory global =>
    let register ← newTemp name global.type
    emit (.load register (← globalAddress global))
    return { register, type := global.type }

def biasReg (register : VReg) : Lower VReg := do
  let info ← regInfo register
  let biased ← newReg "" info.width false
  emit (.bin .xor biased register (.imm info.width.signBit) false)
  return biased

def biasValue (width : Width) : Value → Lower Value
  | .imm value => return .imm (width.truncate (value + width.signBit))
  | .reg register => return .reg (← biasReg register)

/-- Operands of an unsigned comparison with the outcome of a comparison in the order of the left
operand. -/
def comparable (condition : Cond) (left : VReg) (right : Value) : Lower (VReg × Value) := do
  let info ← regInfo left
  if info.signed && !condition.isEquality then
    let biased ← biasReg left
    return (biased, ← biasValue info.width right)
  else return (left, right)

def branchOn (condition : Cond) (left : VReg) (right : Value) (yes no : BlockId) : Lower Unit := do
  let (left, right) ← comparable condition left right
  terminate (.branch condition left right yes no)

end Lower

/-- The meeting of the ways through a conditional. -/
structure Meeting where
  block : BlockId
  want : Ty
  outcome : Option TypedReg := none
deriving DecidableEq, Repr, Inhabited

namespace Meeting

def hint (meeting : Meeting) : Ty := (meeting.outcome.map TypedReg.type).getD meeting.want

def start (name : String) (want : Ty) : Lower Meeting := do
  return { block := ← Lower.newBlock name, want }

def agree (meeting : Meeting) (value : TypedReg) : Lower TypedReg := do
  match meeting.outcome with
  | none =>
    if value.type = .void then return .void
    else return { register := ← Lower.newTemp "" value.type, type := value.type }
  | some outcome =>
    if value.type = outcome.type then return outcome
    else
      Lower.fail .branchTypes
        ("branches have types " ++ outcome.type.text ++ " and " ++ value.type.text)

def add (meeting : Meeting) (value : TypedReg) : Lower Meeting := do
  if value.diverges || (← Lower.isDead) then return meeting
  else
    let outcome ← meeting.agree value
    if outcome.register ≠ 0 then Lower.emit (.move outcome.register value.register)
    Lower.jump meeting.block
    return { meeting with outcome := some outcome }

def finish (meeting : Meeting) : Lower TypedReg := do
  Lower.enter meeting.block
  match meeting.outcome with
  | some outcome => return outcome
  | none =>
    Lower.markUnreached
    return .never

end Meeting

end Backend65816
