import Backend65816.Convention.Calls
import Backend65816.Lowering.Part

/-!
# Transfer of values

Values move between the registers of a function and the places of a convention: parameters at the
entry, arguments and results around a call, and values at a return. Places are filled so that
filling one never disturbs another: memory first, then the index registers, then `b`, then `a`. They
are emptied in the opposite order.
-/

namespace Backend65816

def fillRank : Loc → Nat
  | .reg .x | .reg .y => 1
  | .reg .b => 2
  | .reg .a => 3
  | .nowhere | .scratch _ | .stack _ | .fixed _ _ | .symbol _ | .argument _ => 0

def fillOrder {α : Type} (place : α → Loc) (items : List α) : List α :=
  (List.range 4).flatMap fun rank => items.filter fun item => fillRank (place item) = rank

/-- A parameter in the place that the caller filled. -/
structure ParamEntry where
  fixed : VReg
  copy : Option VReg
  place : Loc
deriving DecidableEq, Repr, Inhabited

namespace Lower

/-- Binds a parameter. One in a hardware register is copied, so that the register is free after its
last use; one in memory is used in place. -/
def enterParam (param : ParamSlot) : Lower ParamEntry := do
  let signed := param.type.isSigned
  let place := match param.place with
    | .stack offset => Loc.argument offset
    | .bound location => location
  let fixed ← newFixedReg param.name param.width signed place
  match place with
  | .reg hint =>
    let copy ← newReg param.name param.width signed
    modify (·.setHint copy hint)
    declare param.name { register := copy, type := param.type }
    return { fixed, copy := some copy, place }
  | _ =>
    declare param.name { register := fixed, type := param.type }
    return { fixed, copy := none, place }

def enterParams : Lower Unit := do
  let entries ← (← read).signature.params.mapM enterParam
  if !entries.isEmpty then emit (.params (entries.map ParamEntry.fixed))
  (fillOrder ParamEntry.place entries).reverse.forM fun entry =>
    match entry.copy with
    | some copy => emit (.move copy entry.fixed)
    | none => pure ()

def fillPlace (name : String) (width : Width) (type : Ty) (place : Loc) (value : TypedReg) :
    Lower VReg := do
  let fixed ← newFixedReg name width type.isSigned place
  emit (.move fixed value.register)
  return fixed

def inOrder {α : Type} (count : Nat) (numbered : List (Nat × α)) : List (Option α) :=
  (List.range count).map fun index => numbered.lookup index

def returnValues (values : List TypedReg) : Lower Unit := do
  let signature := (← read).signature
  let returns := signature.returns
  if signature.noReturn then fail .noReturnFallthrough "no-return function returns"
  else if values.length ≠ returns.length then
    fail .returnArity
      ("returns " ++ toString values.length ++ " values, signature declares " ++
        toString returns.length)
  else
    let slots := (returns.zip values).zipIdx
    match slots.find? fun ((slot, value), _) => value.type ≠ slot.type with
    | some ((slot, value), index) =>
      fail .returnArity
        ("return " ++ toString index ++ " is " ++ value.type.text ++ ", signature declares " ++
          slot.type.text)
    | none =>
      let filled ← (fillOrder (fun entry => entry.1.1.location) slots).mapM
        fun ((slot, value), index) => do
          return (index, ← fillPlace "ret" slot.width slot.type slot.location value)
      terminate (.giveBack ((inOrder returns.length filled).map (·.getD 0)))

def pushArguments (callee : Signature) (arguments : List TypedReg) : Lower Unit :=
  (callee.params.zip arguments).forM fun (param, argument) =>
    match param.place with
    | .stack _ => emit (.push (.reg argument.register))
    | .bound _ => pure ()

def fillArguments (callee : Signature) (arguments : List TypedReg) :
    Lower (List (Option VReg)) := do
  let bound := (callee.params.zip arguments).zipIdx.filter fun ((param, _), _) =>
    match param.place with
    | .stack _ => false
    | .bound _ => true
  let filled ← (fillOrder (fun entry => entry.1.1.location) bound).mapM
    fun ((param, argument), index) => do
      return (index, ← fillPlace param.name param.width param.type param.location argument)
  return inOrder callee.params.length filled

def emptyResults (callee : Signature) (fixed : List VReg) : Lower (List TypedReg) := do
  let slots := (callee.returns.zip fixed).zipIdx
  let copied ← (fillOrder (fun entry => entry.1.1.location) slots).reverse.mapM
    fun ((slot, source), index) => do
      let register ← newReg "" slot.width slot.type.isSigned
      emit (.move register source)
      return (index, ({ register, type := slot.type } : TypedReg))
  return (inOrder callee.returns.length copied).map (·.getD .void)

/-- Passes arguments, emits a call and takes its results. The call is made from the registers of the
arguments by parameter and those of the results. -/
def callWith (callee : Signature) (arguments : List TypedReg)
    (make : (arguments : List (Option VReg)) → (results : List VReg) → Action) :
    Lower (List TypedReg) := do
  pushArguments callee arguments
  let fixed ← fillArguments callee arguments
  let results ← callee.returns.mapM fun slot =>
    newFixedReg "ret" slot.width slot.type.isSigned slot.location
  emit (make fixed results)
  emptyResults callee results

def callDirect (callee : Signature) (arguments : List TypedReg) : Lower (List TypedReg) :=
  callWith callee arguments fun fixed results =>
    .call {
      function := callee.name
      far := callee.far
      arguments := fixed.filterMap id
      results
      stackBytes := callee.stackBytes
      preserve := callee.preserve
      preservesScratch := callee.preserveScratch }

def argumentValues (callee : String) :
    List ParamSlot → List ExprCode → Lower (Option (List TypedReg))
  | param :: params, argument :: rest => do
      let value ← whilePending (storedNames rest) (argument.value param.type)
      if value.diverges then return none
      else if value.type ≠ param.type then
        fail .branchTypes
          ("argument " ++ param.name ++ " of " ++ callee ++ " is " ++ value.type.text ++
            ", parameter is " ++ param.type.text)
      else return (← argumentValues callee params rest).map (value :: ·)
  | _, _ => return some []

def passArguments (callee : Signature) (params : List ParamSlot) (arguments : List ExprCode) :
    Lower (Option (List TypedReg)) := do
  if arguments.length ≠ params.length then
    fail .arity
      (callee.name ++ " takes " ++ toString params.length ++ " arguments, " ++
        toString arguments.length ++ " given")
  else argumentValues callee.name params arguments

def callFunction (name : String) (arguments : List ExprCode) : Lower (List TypedReg) := do
  let around ← read
  match around.context.signatures.get? name with
  | none => fail .unknownFunction ("call to unknown function " ++ name)
  | some callee =>
    if callee.interrupt.isSome then
      fail .interruptSignature ("interrupt handler " ++ name ++ " cannot be called")
    else
      check (checkCall around.signature callee)
      match ← passArguments callee callee.params arguments with
      | none => return []
      | some values => callDirect callee values

def callMethod (callee : Signature) (receiver : TypedReg) (arguments : List ExprCode)
    (make : List TypedReg → Lower (List TypedReg)) : Lower (List TypedReg) := do
  match callee.params with
  | [] => throw (.fault .missingReceiver)
  | _ :: params =>
    match ← passArguments callee params arguments with
    | none => return []
    | some values => make (receiver :: values)

/-- The convention that the implementations of a trait method share: the receiver in a register of
its own, then the declared parameters. -/
def tableConvention (table : DispatchTable) (traitName : String) (method : MethodDecl) :
    Lower Signature := do
  let receiver : Param :=
    { name := "self"
      type := Ty.ofText ("&dyn " ++ traitName)
      binding := .register receiverRegister }
  let function : FunctionDecl :=
    { name := table.name
      bank := (← read).signature.bank
      far := method.far
      params := receiver :: method.params
      returns := method.returns }
  check (function.resolve table.name (← theUnit))

/-- The caller may reach every implementation in a table. A near table holds implementations of the
bank of its callers. -/
def checkEntries (table : DispatchTable) : Lower Unit := do
  let around ← read
  table.entries.forM fun entry =>
    match around.context.signatures.get? entry with
    | none => pure ()
    | some callee =>
      check ((if table.far then checkScratch else checkCall) around.signature callee)

def callTable (receiver : TypedReg) (traitName : String) (method : MethodDecl)
    (arguments : List ExprCode) : Lower (List TypedReg) := do
  match (← read).context.plan.table? traitName method.name with
  | none => fail .unknownTrait ("trait " ++ traitName ++ " has no dispatch table")
  | some table =>
    let convention ← tableConvention table traitName method
    checkEntries table
    callMethod convention receiver arguments fun values =>
      callWith convention values fun fixed results =>
        .dispatch {
          table := table.name
          far := table.far
          entryWidth := table.entryWidth
          object := (fixed.headD none).getD 0
          arguments := (fixed.drop 1).filterMap id
          results
          stackBytes := convention.stackBytes }

def callImpl (receiver : TypedReg) (traitName method : String) (arguments : List ExprCode) :
    Lower (List TypedReg) := do
  let around ← read
  let typeName := receiver.type.pointee
  match around.context.signatures.get? (methodSymbol typeName traitName method) with
  | none => fail .unknownFunction (typeName ++ " does not implement " ++ traitName)
  | some callee =>
    check (checkCall around.signature callee)
    callMethod callee receiver arguments (callDirect callee)

def callTraitMethod (object : ExprCode) (traitName method : String) (arguments : List ExprCode) :
    Lower (List TypedReg) := do
  let receiver ← whilePending (storedNames arguments) (object.value .unspecified)
  if receiver.diverges then return []
  else if !receiver.type.isPointer then
    fail .branchTypes ("method " ++ method ++ " called on " ++ receiver.type.text)
  else
    match (← theUnit).findTrait? traitName with
    | none => fail .unknownTrait ("unknown trait " ++ traitName)
    | some trait =>
      match trait.methods.reverse.find? (·.name = method) with
      | none => fail .unknownName ("trait " ++ trait.name ++ " has no method " ++ method)
      | some declared =>
        if receiver.type.isReference then
          if receiver.type.pointee ≠ trait.name then
            fail .branchTypes
              (trait.name ++ "." ++ method ++ " called on " ++ receiver.type.text)
          else callTable receiver trait.name declared arguments
        else callImpl receiver trait.name declared.name arguments

def firstResult (results : Lower (List TypedReg)) : Lower TypedReg := do
  let values ← results
  if ← isDead then return .never else return values.headD .void

end Lower

namespace ExprCode

def ofResults (source : Expr) (results : Lower (List TypedReg)) : ExprCode :=
  { ofValue source fun _ => Lower.firstResult results with results := results }

def call (function : String) (arguments : List ExprCode) : ExprCode :=
  ofResults (.call function (arguments.map ExprCode.source))
    (Lower.callFunction function arguments)

def method (object : ExprCode) (traitName method : String) (arguments : List ExprCode) :
    ExprCode :=
  ofResults (.method object.source traitName method (arguments.map ExprCode.source))
    (Lower.callTraitMethod object traitName method arguments)

end ExprCode

end Backend65816
