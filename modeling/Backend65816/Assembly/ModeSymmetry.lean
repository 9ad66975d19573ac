import Std.Data.HashMap
import Backend65816.Assembly.Listing

/-!
# Mode symmetry

A routine starts with the accumulator at the width its caller uses and must return at that width.
The check follows all paths at once: it computes the mode and the modes saved on the stack at every
position and rejects a position that two paths reach differently. So a routine that passes returns
in its caller's mode on every path.
-/

namespace Backend65816

/-- What is known about the width of the accumulator. -/
inductive ModeView where
  | caller
  | chosen (mode : Mode)
deriving DecidableEq, Repr, Inhabited

def ModeView.text : ModeView → String
  | caller => "caller"
  | chosen mode => mode.text

/-- The mode at a position, and the modes saved on the stack with the last one first. -/
structure ModeState where
  mode : ModeView := .caller
  saved : List ModeView := []
deriving DecidableEq, Repr, Inhabited

def ModeState.text (state : ModeState) : String :=
  state.mode.text ++ "|" ++ String.intercalate "," (state.saved.reverse.map ModeView.text)

/-- A path on which the modes do not match. -/
inductive ModeError where
  | runsOff (routine : String)
  | inconsistent (routine : String) (position : Nat) (earlier later : ModeState)
  | unmatchedPull (routine : String) (position : Nat)
  | badReturn (routine : String) (op : Op) (position : Nat) (mode : ModeView)
  | unbalancedInterrupt (routine : String) (position : Nat)
deriving DecidableEq, Repr

def ModeError.text : ModeError → String
  | runsOff routine => routine ++ ": control falls off the end of the function"
  | inconsistent routine position earlier later =>
    routine ++ ": inconsistent accumulator mode at instruction " ++ toString position ++ " (" ++
      earlier.text ++ " vs " ++ later.text ++ ")"
  | unmatchedPull routine position =>
    routine ++ ": PLP without a matching PHP at instruction " ++ toString position
  | badReturn routine op position mode =>
    routine ++ ": " ++ op.text ++ " at instruction " ++ toString position ++ " returns in " ++
      mode.text ++ " mode"
  | unbalancedInterrupt routine position =>
    routine ++ ": RTI at instruction " ++ toString position ++ " with unbalanced PHP"

/-- What an instruction does to the state, and where control can go: to labels, and on if `falls`.
-/
structure ModeStep where
  /-- State after the instruction. -/
  state : ModeState
  jumps : List String := []
  falls : Bool := true

def labelPositions (code : List Instr) : Std.HashMap String Nat :=
  (code.foldl
    (fun (state : Nat × Std.HashMap String Nat) instr =>
      let labels := match instr with
        | .label name => state.2.insert name state.1
        | .run _ => state.2
      (state.1 + 1, labels))
    (0, ∅)).2

def jumpTargets (tables : List DataTable) (name : String) : List String :=
  match tables.reverse.find? fun table => table.kind = .addresses ∧ table.name = name with
  | some table => table.targets
  | none => []

def Operation.modeStep (operation : Operation) (routine : String) (tables : List DataTable)
    (position : Nat) (state : ModeState) : Except ModeError ModeStep :=
  match operation.op with
  | .rep =>
    if operation.touchesAccumulatorFlag then
      .ok { state := { state with mode := .chosen .wide } }
    else .ok { state }
  | .sep =>
    if operation.touchesAccumulatorFlag then
      .ok { state := { state with mode := .chosen .narrow } }
    else .ok { state }
  | .php => .ok { state := { state with saved := state.mode :: state.saved } }
  | .plp =>
    match state.saved with
    | [] => .error (.unmatchedPull routine position)
    | mode :: saved => .ok { state := { mode, saved } }
  | .rts | .rtl =>
    if state.mode = .caller ∧ state.saved = [] then .ok { state, falls := false }
    else .error (.badReturn routine operation.op position state.mode)
  | .rti =>
    if state.saved = [] then .ok { state, falls := false }
    else .error (.unbalancedInterrupt routine position)
  | .bra | .brl => .ok { state, jumps := [operation.symbol], falls := false }
  | .jmp =>
    match operation.mode with
    | .absolute | .long => .ok { state, jumps := [operation.symbol], falls := false }
    | .indexedIndirect =>
      .ok { state, jumps := jumpTargets tables operation.symbol, falls := false }
    | _ => .ok { state }
  | .jml =>
    match operation.mode with
    | .absolute | .long => .ok { state, jumps := [operation.symbol], falls := false }
    | _ => .ok { state }
  | op =>
    if op.isConditional then .ok { state, jumps := [operation.symbol] } else .ok { state }

def Instr.modeStep (instr : Instr) (routine : String) (tables : List DataTable) (position : Nat)
    (state : ModeState) : Except ModeError ModeStep :=
  match instr with
  | .label _ => .ok { state }
  | .run operation => operation.modeStep routine tables position state

/-- Progress of the check. -/
structure ModeSearch where
  states : Array (Option ModeState)
  pending : List Nat := []

namespace ModeSearch

def visit (routine : String) (search : ModeSearch) (position : Nat) (state : ModeState) :
    Except ModeError ModeSearch :=
  match search.states[position]? with
  | none => .error (.runsOff routine)
  | some (some earlier) =>
    if earlier = state then .ok search
    else .error (.inconsistent routine position earlier state)
  | some none =>
    .ok { states := search.states.setIfInBounds position (some state),
          pending := position :: search.pending }

def follow (routine : String) (tables : List DataTable) (code : Array Instr)
    (labels : Std.HashMap String Nat) (search : ModeSearch) (position : Nat) :
    Except ModeError ModeSearch :=
  match code[position]?, search.states[position]? with
  | some instr, some (some state) => do
      let step ← instr.modeStep routine tables position state
      let jumped ← step.jumps.foldlM
        (fun search label =>
          match labels[label]? with
          | some target => search.visit routine target step.state
          | none => pure search)
        search
      if step.falls then jumped.visit routine (position + 1) step.state else pure jumped
  | _, _ => .ok search

def run (routine : String) (tables : List DataTable) (code : Array Instr)
    (labels : Std.HashMap String Nat) : (fuel : Nat) → ModeSearch → Except ModeError ModeSearch
  | 0, search => .ok search
  | fuel + 1, search =>
    match search.pending with
    | [] => .ok search
    | position :: pending => do
        let next ← { search with pending }.follow routine tables code labels position
        run routine tables code labels fuel next

end ModeSearch

/-- Checks that every path of a routine returns in the caller's mode. A position becomes pending at
most once, so there are no more steps than positions. -/
def Routine.checkModes (routine : Routine) (tables : List DataTable) : Except ModeError Unit :=
  if routine.code.isEmpty then .ok ()
  else do
    let code := routine.code.toArray
    let start : ModeSearch := { states := Array.replicate code.size none }
    let entered ← start.visit routine.name 0 {}
    let _ ← entered.run routine.name tables code (labelPositions routine.code) (code.size + 1)
    pure ()

end Backend65816
