import Backend65816.Lowering.Value
import Backend65816.Source.Visit

/-!
# Code of expressions

The code of an expression is built from the code of its parts. There are four uses of an expression:
for its value, as a condition, for all values of a call, and as the target of an assignment. A use
that an expression does not allow fails with a message.
-/

namespace Backend65816

/-- Code of an expression. -/
structure ExprCode where
  source : Expr
  value : Ty → Lower TypedReg
  branch : (yes no : BlockId) → Lower Unit
  results : Lower (List TypedReg)
  assign : (stored : List String) → (value : Ty → Lower TypedReg) → Lower Unit

abbrev BlockCode := Ty → Lower TypedReg

namespace Lower

def branchOnValue (value : Ty → Lower TypedReg) (yes no : BlockId) : Lower Unit := do
  let condition ← value .bool
  if condition.diverges then return
  else if condition.type ≠ .bool then
    fail .branchTypes ("condition is " ++ condition.type.text ++ ", not bool")
  else branchOn .ne condition.register (.imm 0) yes no

def noResults : Lower (List TypedReg) :=
  fail .noValue "only a call produces several values"

def notAssignable (target : Expr) : Lower Unit :=
  fail .malformed ("cannot assign to *ast." ++ target.kindName)

end Lower

def ExprCode.ofValue (source : Expr) (value : Ty → Lower TypedReg) : ExprCode where
  source := source
  value := value
  branch := Lower.branchOnValue value
  results := Lower.noResults
  assign _ _ := Lower.notAssignable source

def storedNames (parts : List ExprCode) : List String :=
  assignedNames (parts.map ExprCode.source)

def mismatchText (value : TypedReg) (subject : String) (type : Ty) : String :=
  "cannot assign " ++ value.type.text ++ " to " ++ subject ++ " of type " ++ type.text

namespace ExprCode

def int (literal : Int) (type : Ty) : ExprCode :=
  ofValue (.int literal type) fun want => do
    let type := literalType (literal, type) want
    Lower.checkLiteral literal type
    Lower.constant literal type

def bool (literal : Bool) : ExprCode :=
  { ofValue (.bool literal) fun _ => Lower.constant literal.toInt .bool with
    branch yes no := Lower.jump (if literal then yes else no) }

def assignName (name : String) (value : Ty → Lower TypedReg) : Lower Unit := do
  let place ← Lower.findName name
  let stored ← value place.type
  if stored.diverges then return
  else if stored.type ≠ place.type then
    Lower.fail .branchTypes (mismatchText stored name place.type)
  else
    match place with
    | .inMemory global =>
      Lower.emit (.store (← Lower.globalAddress global) (.reg stored.register))
    | .inReg target => Lower.emit (.move target.register stored.register)

def name (name : String) : ExprCode :=
  { ofValue (.name name) fun _ => Lower.readName name with
    assign _ value := assignName name value }

def variant (enum variant : String) : ExprCode :=
  ofValue (.variant enum variant) fun _ => do
    Lower.constant (← Lower.variantValue enum variant) (Ty.ofText enum)

def fieldSlot (object : ExprCode) (field : String) : Lower (VReg × FieldSlot) := do
  let pointer ← object.value .unspecified
  if !pointer.type.isPointer || pointer.type.isReference then
    Lower.fail .unknownName
      ("field " ++ field ++ " of non-struct-pointer " ++ pointer.type.text)
  else
    match (← read).context.plan.layout? pointer.type.pointee with
    | none => Lower.fail .unknownName ("unknown struct " ++ pointer.type.pointee)
    | some layout =>
      match layout.field? field with
      | none => Lower.fail .unknownName (layout.typeName ++ " has no field " ++ field)
      | some slot => return (pointer.register, slot)

def fieldAddress (pointer : VReg) (slot : FieldSlot) : Address :=
  { base := if pointer = 0 then none else some pointer, offset := slot.offset }

def readField (object : ExprCode) (field : String) : Lower TypedReg := do
  let (pointer, slot) ← object.fieldSlot field
  let register ← Lower.newReg field slot.width slot.type.isSigned
  Lower.emit (.load register (fieldAddress pointer slot))
  return { register, type := slot.type }

def assignField (object : ExprCode) (field : String) (stored : List String)
    (value : Ty → Lower TypedReg) : Lower Unit := do
  let (pointer, slot) ← Lower.whilePending stored (object.fieldSlot field)
  let content ← value slot.type
  if content.diverges then return
  else if content.type ≠ slot.type then
    Lower.fail .branchTypes (mismatchText content ("field " ++ field) slot.type)
  else Lower.emit (.store (fieldAddress pointer slot) (.reg content.register))

def field (object : ExprCode) (field : String) : ExprCode :=
  { ofValue (.field object.source field) fun _ => object.readField field with
    assign stored value := object.assignField field stored value }

def loadTag (object : ExprCode) : Lower VReg := do
  let pointer ← object.value .unspecified
  if !pointer.type.isReference then
    Lower.fail .branchTypes
      ("tag of " ++ pointer.type.text ++ ", which is not a polymorphic reference")
  else
    let tag ← Lower.newReg "tag" .byte false
    Lower.emit (.load tag { base := if pointer.register = 0 then none else some pointer.register })
    return tag

def tagOf (object : ExprCode) : ExprCode :=
  ofValue (.tagOf object.source) fun _ => return { register := ← object.loadTag, type := .u8 }

/-- Tests the tag of a polymorphic reference. A type without a tag implements nothing, so that no
reference is to it. -/
def testTag (object : ExprCode) (typeName : String) : Lower TypedReg := do
  let tag ← object.loadTag
  let context := (← read).context
  if (context.unit.findStruct? typeName).isNone then
    Lower.fail .unknownName ("unknown type " ++ typeName)
  else
    match context.plan.tags.tag? typeName with
    | none => Lower.constant 0 .bool
    | some expected =>
      let register ← Lower.newReg "is" .byte false
      Lower.emit (.setCond .eq register tag (.imm expected))
      return { register, type := .bool }

def isType (object : ExprCode) (typeName : String) : ExprCode :=
  ofValue (.isType object.source typeName) fun _ => object.testTag typeName

end ExprCode

end Backend65816
