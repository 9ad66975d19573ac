import Backend65816.Assembly.Listing
import Backend65816.Convention.Signature
import Backend65816.Placement.Writes
import Backend65816.Settings

/-!
# State of code selection

Code is selected action by action. The accumulator has the width of the function's mode between
actions; an action of the other width switches it and switches back. Values that must pass through
memory use the temporary bytes of the settings.
-/

namespace Backend65816

/-- Why an action or a terminator is refused. -/
inductive Rejection where
  | variableShift
  | immediateStore
  | immediatePush
  | noTerminator (block : BlockId)
deriving DecidableEq, Repr

def Rejection.text : Rejection → String
  | variableShift => "shift by a variable amount must go through a helper"
  | immediateStore => "store of an immediate has no width"
  | immediatePush => "push of an immediate has no width"
  | noTerminator block => "block b" ++ toString block ++ " has no terminator"

/-- A graph that has no code. -/
inductive SelectionError where
  | rejected (function : String) (reason : Rejection)
  | notMemory (location : Loc)
  | cannotLoad (register : VReg) (location : Loc)
  | cannotStore (register : VReg) (location : Loc)
deriving DecidableEq, Repr

namespace SelectionError

def text : SelectionError → String
  | rejected function reason => "asmgen: " ++ function ++ ": " ++ reason.text
  | notMemory location => "asmgen: " ++ location.text ++ " is not memory"
  | cannotLoad register location =>
    "asmgen: cannot load v" ++ toString register ++ " from " ++ location.text
  | cannotStore register location =>
    "asmgen: cannot store v" ++ toString register ++ " to " ++ location.text

def isMisplacement : SelectionError → Bool
  | rejected _ _ => false
  | notMemory _ | cannotLoad _ _ | cannotStore _ _ => true

end SelectionError

/-- What code selection works from. -/
structure SelectionContext where
  graph : Graph
  places : Placement
  frameSize : Nat
  signature : Signature
  settings : Settings

/-- What code selection has produced. -/
structure SelectionState where
  code : Array Instr := #[]
  tables : List DataTable := []
  accumulator : Width
  depth : Int := 0
  labels : Nat := 0

abbrev Select : Type → Type :=
  ReaderT SelectionContext (StateT SelectionState (Except SelectionError))

namespace Select

def emit (code : List Instr) : Select Unit :=
  modify fun state => { state with code := state.code ++ code.toArray }

def fail {α : Type} (error : SelectionError) : Select α := fun _ _ => .error error

def reject {α : Type} (reason : Rejection) : Select α := do
  let context ← read
  fail (.rejected context.graph.name reason)

def place (register : VReg) : Select Loc := return (← read).places register

def widthOf (register : VReg) : Select Width := return (← read).graph.width register

def modeWidth : Select Width := return (← read).graph.mode.width

def operandTemp : Select Int := return (← read).settings.operandTemp

def pointerTemp : Select Int := return (← read).settings.pointerTemp

def saveTemp : Select Int := return (← read).settings.saveTemp

def freshLabel (kind : String) : Select String := do
  let number := (← get).labels + 1
  modify fun state => { state with labels := number }
  return (← read).graph.name ++ "_" ++ kind ++ toString number

def blockLabel (function : String) (id : BlockId) : String := function ++ "_L" ++ toString id

def setAccumulator (width : Width) : Select Unit := do
  if (← get).accumulator = width then pure ()
  else
    emit [if width = .word then .widenAccumulator else .narrowAccumulator]
    modify fun state => { state with accumulator := width }

end Select

end Backend65816
