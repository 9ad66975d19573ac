import Backend65816.Flow.Graph
import Backend65816.Source.Ty
import Backend65816.Text.Named

/-!
# Graphs under construction

A draft is a block graph to which code is added at one block at a time. Once that block is finished,
further code goes to a fresh block that nothing reaches, so that dead statements are checked like
all others. The finished graph keeps the reachable blocks in the order in which they were entered.
-/

namespace Backend65816

/-- A value that code has computed, or the absence of one when the register is zero. -/
structure TypedReg where
  register : VReg := 0
  type : Ty
deriving DecidableEq, Repr, Inhabited

namespace TypedReg

def void : TypedReg := { type := .void }

def never : TypedReg := { type := .never }

def diverges (value : TypedReg) : Bool := value.type = .never

end TypedReg

/-- An enclosing loop. -/
structure EnclosingLoop where
  label : String
  exit : BlockId
  next : BlockId
  takesValue : Bool := false
  type : Ty := .unspecified
  result : Option VReg := none
  hasValued : Bool := false
  hasBare : Bool := false
deriving DecidableEq, Repr, Inhabited

/-- A graph under construction. -/
structure Draft where
  blocks : Array BasicBlock := #[{ name := "entry" }]
  vregs : Array VRegInfo := #[{}]
  tables : List LookupTable := []
  current : BlockId := 0
  unreached : Bool := false
  scopes : List (Named TypedReg) := [[]]
  loops : List EnclosingLoop := []
  entered : List BlockId := [0]
deriving Repr, Inhabited

namespace Draft

def currentBlock (draft : Draft) : BasicBlock := draft.blocks.getD draft.current {}

def isClosed (draft : Draft) : Bool := draft.currentBlock.terminator.isSome

def isDead (draft : Draft) : Bool := draft.unreached || draft.isClosed

def info (draft : Draft) (register : VReg) : VRegInfo := draft.vregs.getD register {}

def addBlock (draft : Draft) (name : String) : Draft :=
  { draft with blocks := draft.blocks.push { name } }

def addReg (draft : Draft) (info : VRegInfo) : Draft :=
  { draft with vregs := draft.vregs.push info }

def enter (draft : Draft) (id : BlockId) : Draft :=
  { draft with
    current := id
    unreached := false
    entered := if id ∈ draft.entered then draft.entered else draft.entered ++ [id] }

def reopen (draft : Draft) : Draft :=
  if draft.isClosed then
    { (draft.addBlock "dead").enter draft.blocks.size with unreached := true }
  else draft

def modifyCurrent (draft : Draft) (change : BasicBlock → BasicBlock) : Draft :=
  let current := draft.current
  { draft with blocks := draft.blocks.modify current change }

def emit (draft : Draft) (action : Action) : Draft :=
  draft.reopen.modifyCurrent fun block => { block with actions := block.actions ++ [action] }

def terminate (draft : Draft) (terminator : Terminator) : Draft :=
  draft.reopen.modifyCurrent fun block => { block with terminator := some terminator }

def setHint (draft : Draft) (register : VReg) (hint : Reg) : Draft :=
  { draft with vregs := draft.vregs.modify register fun info => { info with hint := some hint } }

def declare (draft : Draft) (name : String) (value : TypedReg) : Draft :=
  match draft.scopes with
  | scope :: outer => { draft with scopes := scope.put name value :: outer }
  | [] => { draft with scopes := [[(name, value)]] }

def find? (draft : Draft) (name : String) : Option TypedReg :=
  draft.scopes.findSome? fun scope => scope.get? name

def findLoop? (draft : Draft) (label : String) : Option EnclosingLoop :=
  draft.loops.find? fun loop => label = "" || loop.label = label

def modifyLoop (draft : Draft) (exit : BlockId) (change : EnclosingLoop → EnclosingLoop) : Draft :=
  { draft with
    loops := draft.loops.map fun loop => if loop.exit = exit then change loop else loop }

def graph (draft : Draft) (name : String) (mode : Mode) : Graph :=
  { name, mode, blocks := draft.blocks, vregs := draft.vregs, tables := draft.tables }

def renumber (graph : Graph) (order : List BlockId) : Graph :=
  let rename (id : BlockId) : BlockId := (order.findIdx? (· = id)).getD 0
  let renamed (id : BlockId) : BasicBlock :=
    let block := graph.blocks.getD id {}
    { block with terminator := block.terminator.map (Terminator.retarget rename) }
  { graph with blocks := (order.map renamed).toArray, entry := rename graph.entry }

/-- The finished graph: the reachable blocks in the order in which they were entered, then reachable
blocks that never were. -/
def finish (draft : Draft) (name : String) (mode : Mode) : Graph :=
  let whole := draft.graph name mode
  let reached := whole.reachable
  let isReached (id : BlockId) : Bool := reached.getD id false
  let others := (List.range draft.blocks.size).filter fun id => id ∉ draft.entered
  renumber whole ((draft.entered ++ others).filter isReached)

end Draft

end Backend65816
