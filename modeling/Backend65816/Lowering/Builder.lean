import Backend65816.Dispatch.Tables
import Backend65816.Lowering.Draft
import Backend65816.Settings

/-!
# Building steps

Lowering runs in a monad that reads the surroundings of a piece of code, changes the draft and stops
at the first problem. Names that a later operand stores to are pending while the operands before it
are lowered; a read of one of them is taken as a copy.
-/

namespace Backend65816

/-- What lowering knows about the unit. -/
structure UnitContext where
  unit : CompilationUnit
  signatures : Signatures
  plan : DispatchPlan
  settings : Settings

/-- Surroundings of a piece of code. -/
structure Surroundings where
  context : UnitContext
  signature : Signature
  pending : List String := []
  rangeDepth : Nat := 0

/-- Trees that lowering does not check for, and that stop it. -/
inductive LoweringFault where
  | namelessBinding
  | missingReceiver
deriving DecidableEq, Repr, Inhabited

def LoweringFault.text : LoweringFault → String
  | namelessBinding => "runtime error: index out of range [0] with length 0"
  | missingReceiver => "runtime error: slice bounds out of range [1:0]"

/-- Why a function cannot be lowered. -/
inductive LoweringFailure where
  | report (problem : Diagnostic)
  | fault (cause : LoweringFault)
deriving DecidableEq, Repr, Inhabited

abbrev Lower : Type → Type := ReaderT Surroundings (StateT Draft (Except LoweringFailure))

namespace Lower

def fail {α : Type} (code : DiagnosticCode) (message : String) : Lower α := do
  throw (.report (code.report (← read).signature.name message))

def check {α : Type} (outcome : Except Diagnostic α) : Lower α :=
  match outcome with
  | .ok value => pure value
  | .error problem => throw (.report problem)

def theUnit : Lower CompilationUnit := return (← read).context.unit

def newBlock (name : String) : Lower BlockId := do
  let id := (← get).blocks.size
  modify (·.addBlock name)
  return id

def enter (id : BlockId) : Lower Unit := modify (·.enter id)

def markUnreached : Lower Unit := modify fun draft => { draft with unreached := true }

def isDead : Lower Bool := return (← get).isDead

def emit (action : Action) : Lower Unit := modify (·.emit action)

def terminate (terminator : Terminator) : Lower Unit := modify (·.terminate terminator)

def jump (target : BlockId) : Lower Unit := terminate (.jump target)

def regInfo (register : VReg) : Lower VRegInfo := return (← get).info register

def newRegWith (info : VRegInfo) : Lower VReg := do
  let register := (← get).vregs.size
  modify (·.addReg info)
  return register

def newReg (name : String) (width : Width) (signed : Bool) : Lower VReg :=
  newRegWith { name, width, signed }

def newFixedReg (name : String) (width : Width) (signed : Bool) (location : Loc) : Lower VReg :=
  newRegWith { name, width, signed, fixed := some location }

def declare (name : String) (value : TypedReg) : Lower Unit := modify (·.declare name value)

def inScope {α : Type} (steps : Lower α) : Lower α := do
  modify fun draft => { draft with scopes := [] :: draft.scopes }
  let result ← steps
  modify fun draft => { draft with scopes := draft.scopes.drop 1 }
  return result

def inLoop (loop : EnclosingLoop) (steps : Lower Unit) : Lower EnclosingLoop := do
  modify fun draft => { draft with loops := loop :: draft.loops }
  steps
  let draft ← get
  set { draft with loops := draft.loops.drop 1 }
  return draft.loops.headD loop

def whilePending {α : Type} (names : List String) (steps : Lower α) : Lower α :=
  withReader (fun around => { around with pending := names ++ around.pending }) steps

def inRange {α : Type} (steps : Lower α) : Lower α :=
  withReader (fun around => { around with rangeDepth := around.rangeDepth + 1 }) steps

end Lower

end Backend65816
