import Backend65816.Lowering.Part
import Backend65816.Match.Emit

/-!
# Conditional expressions and matches

The ways through a conditional meet in a block after it. A match is planned without the bodies of
its arms; the commands of its plan are then carried out in order, where the command of an arm stands
for the code of its body.
-/

namespace Backend65816

/-- Code of an arm of a match. -/
structure ArmCode where
  pattern : Pattern
  body : ExprCode

def ArmCode.source (arm : ArmCode) : Arm := .mk arm.pattern arm.body.source

def CompilationUnit.constant? (unit : CompilationUnit) (expression : Expr) (want : Ty) :
    Option (Int × Ty) :=
  match expression with
  | .int value type =>
    let type := literalType (value, type) want
    (unit.width? type).map fun width => (width.truncate value, type)
  | .bool value => some (value.toInt, .bool)
  | .variant enum variant => (unit.variant? enum variant).map fun value => (value, Ty.ofText enum)
  | _ => none

/-- Type of the constant outcomes of a match and the outcomes that are constants of that type. The
first constant decides where no type is wanted. -/
def CompilationUnit.constantOutcomes (unit : CompilationUnit) (want : Ty) :
    List Expr → Ty × List (Option Int)
  | [] => (want, [])
  | body :: rest =>
    match unit.constant? body want with
    | none =>
      let (type, outcomes) := unit.constantOutcomes want rest
      (type, none :: outcomes)
    | some (value, type) =>
      let common := if want = .unspecified then type else want
      let (result, outcomes) := unit.constantOutcomes common rest
      (result, (if type = common then some value else none) :: outcomes)

/-- A match whose commands are carried out. -/
structure MatchSite where
  scrutinee : TypedReg
  constantType : Ty
  arms : List ArmCode

/-- State of a match whose commands are carried out. -/
structure MatchProgress where
  blocks : List BlockId := []
  registers : List VReg
  biased : Option VReg := none
  meeting : Meeting
deriving Repr, Inhabited

namespace MatchProgress

def block (progress : MatchProgress) (number : Nat) : BlockId :=
  progress.blocks.getD (number - 1) 0

def register (progress : MatchProgress) (number : Nat) : VReg :=
  progress.registers.getD (number - 1) 0

end MatchProgress

namespace Lower

/-- Compares a register of a match with a number. Tests form a single chain, so the first mapped
copy of a signed scrutinee serves all later tests. -/
def testMatch (progress : MatchProgress) (condition : Cond) (register : VReg) (value : Int)
    (yes no : BlockId) : Lower MatchProgress := do
  let info ← regInfo register
  let number := info.width.truncate value
  if info.signed && !condition.isEquality then
    let biased ← match progress.biased with
      | some biased => pure biased
      | none => biasReg register
    let right ← biasValue info.width (.imm number)
    terminate (.branch condition biased right yes no)
    return { progress with biased := some biased }
  else
    terminate (.branch condition register (.imm number) yes no)
    return progress

def indexFrom (register : VReg) (base : Int) : Lower VReg := do
  let info ← regInfo register
  let index ← newReg "index" info.width false
  if base = 0 then emit (.move index register)
  else emit (.bin .sub index register (.imm (info.width.truncate base)) false)
  return index

def lookUpOutcome (type : Ty) (values : List Int) (index : VReg) : Lower TypedReg := do
  let name :=
    (← read).signature.name ++ "_match" ++ toString ((← get).tables.length + 1)
  let width ← widthOf type
  let register ← newReg "" width type.isSigned
  modify fun draft => { draft with tables := draft.tables ++ [{ name, width, values }] }
  emit (.lookup register name index)
  return { register, type }

def armOutcome (scrutinee : TypedReg) (arm : ArmCode) (want : Ty) : Lower TypedReg :=
  inScope do
    match arm.pattern with
    | .bind name =>
      let info ← regInfo scrutinee.register
      let register ← newReg name info.width scrutinee.type.isSigned
      emit (.move register scrutinee.register)
      declare name { scrutinee with register }
    | _ => pure ()
    arm.body.value want

def matchStep (site : MatchSite) (progress : MatchProgress) (command : MatchCommand) :
    Lower MatchProgress := do
  match command with
  | .newBlock _ name => return { progress with blocks := progress.blocks ++ [← newBlock name] }
  | .enter number =>
    enter (progress.block number)
    return progress
  | .test condition register value yes no =>
    testMatch progress condition (progress.register register) value (progress.block yes)
      (progress.block no)
  | .jump number =>
    jump (progress.block number)
    return progress
  | .index _ register base =>
    let index ← indexFrom (progress.register register) base
    return { progress with registers := progress.registers ++ [index] }
  | .jumpTable index targets =>
    terminate (.jumpTable (progress.register index) (targets.map progress.block))
    return progress
  | .lookup values index =>
    let outcome ← lookUpOutcome site.constantType values (progress.register index)
    return { progress with meeting := ← progress.meeting.add outcome }
  | .arm number =>
    match site.arms[number]? with
    | none => return progress
    | some arm =>
      let outcome ← armOutcome site.scrutinee arm progress.meeting.hint
      return { progress with meeting := ← progress.meeting.add outcome }

def scrutineeKind (type : Ty) : Lower ScrutineeKind := do
  if type = .bool then return .bool
  else if type.isInteger then return .int
  else
    match (← theUnit).findEnum? type.text with
    | some declaration => return .enum declaration
    | none => fail .branchTypes ("cannot match on " ++ type.text)

def selectValue (scrutinee : ExprCode) (arms : List ArmCode) (want : Ty) : Lower TypedReg := do
  let value ← scrutinee.value .unspecified
  if value.diverges then return value
  else
    let width ← widthOf value.type
    let kind ← scrutineeKind value.type
    let around ← read
    let (constantType, outcomes) :=
      around.context.unit.constantOutcomes want (arms.map fun arm => arm.body.source)
    let descriptor : MatchDescriptor :=
      { declaration := around.signature.name
        kind
        width
        signed := value.type.isSigned
        arms := (arms.zip outcomes).map fun (arm, const) => { pattern := arm.pattern, const } }
    check descriptor.check
    let plan := descriptor.plan around.context.settings.density
    let meeting ← Meeting.start "match.end" want
    let site : MatchSite := { scrutinee := value, constantType, arms }
    let finished ← (descriptor.emit plan).foldlM (matchStep site)
      { registers := [value.register], meeting }
    finished.meeting.finish

def conditionalValue (condition : ExprCode) (thenBlock : BlockCode) (otherwise : Option ExprCode)
    (want : Ty) : Lower TypedReg := do
  let yes ← newBlock "if.then"
  let no ← newBlock "if.else"
  let meeting ← Meeting.start "if.end" want
  condition.branch yes no
  enter yes
  let meeting ← meeting.add (← thenBlock want)
  enter no
  let meeting ← match otherwise with
    | some code => do meeting.add (← code.value meeting.hint)
    | none => meeting.add .void
  meeting.finish

end Lower

namespace ExprCode

def select (scrutinee : ExprCode) (arms : List ArmCode) : ExprCode :=
  ofValue (.select scrutinee.source (arms.map ArmCode.source)) (Lower.selectValue scrutinee arms)

end ExprCode

end Backend65816
