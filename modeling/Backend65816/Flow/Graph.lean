import Backend65816.Flow.Operator
import Backend65816.Machine.Location

/-!
# Block graphs

A function body as basic blocks over virtual registers. A block is a list of actions and a
terminator that names the blocks control can go to. The number of a block is its position, and the
number of a virtual register is its position in the register table, whose entry zero stands for no
register.
-/

namespace Backend65816

abbrev VReg := Nat

abbrev BlockId := Nat

/-- What is known about a virtual register. -/
structure VRegInfo where
  name : String := ""
  width : Width := .none
  signed : Bool := false
  fixed : Option Loc := none
  hint : Option Reg := none
deriving DecidableEq, Repr, Inhabited

/-- An operand. -/
inductive Value where
  | reg (register : VReg)
  | imm (value : Int)
deriving DecidableEq, Repr, Inhabited

def Value.uses : Value → List VReg
  | reg 0 | imm _ => []
  | reg register => [register]

/-- An address in memory: behind a pointer, else fixed, else a symbol. -/
structure Address where
  base : Option VReg := none
  fixed : Option Int := none
  far : Bool := false
  symbol : String := ""
  offset : Int := 0
deriving DecidableEq, Repr, Inhabited

def Address.uses (address : Address) : List VReg := address.base.toList

/-- A call of a function. The registers hold values in the places of the convention. -/
structure DirectCall where
  function : String := ""
  far : Bool := false
  arguments : List VReg := []
  results : List VReg := []
  stackBytes : Nat := 0
  preserve : RegMask := .empty
  preservesScratch : Bool := false
deriving DecidableEq, Repr, Inhabited

/-- A call through a dispatch table. -/
structure TableCall where
  table : String := ""
  far : Bool := false
  entryWidth : Nat := 0
  object : VReg := 0
  arguments : List VReg := []
  results : List VReg := []
  stackBytes : Nat := 0
deriving DecidableEq, Repr, Inhabited

/-- A step of a block. -/
inductive Action where
  | params (targets : List VReg)
  | const (target : VReg) (value : Int)
  | move (target source : VReg)
  | convert (target source : VReg) (signed : Bool)
  | bin (kind : BinKind) (target left : VReg) (right : Value) (noWrap : Bool)
  | un (kind : UnKind) (target source : VReg)
  | setCond (condition : Cond) (target left : VReg) (right : Value)
  | load (target : VReg) (address : Address)
  | store (address : Address) (source : Value)
  | lookup (target : VReg) (table : String) (index : VReg)
  | push (source : Value)
  | call (details : DirectCall)
  | dispatch (details : TableCall)
deriving DecidableEq, Repr, Inhabited

namespace Action

def defs : Action → List VReg
  | params targets => targets
  | const target _ | move target _ | convert target _ _ | bin _ target _ _ _ | un _ target _
  | setCond _ target _ _ | load target _ | lookup target _ _ => [target]
  | store _ _ | push _ => []
  | call details => details.results
  | dispatch details => details.results

def uses : Action → List VReg
  | params _ | const _ _ => []
  | move _ source | convert _ source _ | un _ _ source => [source]
  | bin _ _ left right _ | setCond _ _ left right => left :: right.uses
  | load _ address => address.uses
  | store address source => address.uses ++ source.uses
  | lookup _ _ index => [index]
  | push source => source.uses
  | call details => details.arguments
  | dispatch details => details.object :: details.arguments

def isCall : Action → Bool
  | call _ | dispatch _ => true
  | _ => false

end Action

/-- The end of a block. -/
inductive Terminator where
  | jump (target : BlockId)
  | branch (condition : Cond) (left : VReg) (right : Value) (thenBlock elseBlock : BlockId)
  | jumpTable (index : VReg) (targets : List BlockId)
  | giveBack (values : List VReg)
deriving DecidableEq, Repr, Inhabited

namespace Terminator

def successors : Terminator → List BlockId
  | jump target => [target]
  | branch _ _ _ thenBlock elseBlock => [thenBlock, elseBlock]
  | jumpTable _ targets => targets
  | giveBack _ => []

def uses : Terminator → List VReg
  | jump _ => []
  | branch _ left right _ _ => left :: right.uses
  | jumpTable index _ => [index]
  | giveBack values => values

def retarget (rename : BlockId → BlockId) : Terminator → Terminator
  | jump target => jump (rename target)
  | branch condition left right thenBlock elseBlock =>
    branch condition left right (rename thenBlock) (rename elseBlock)
  | jumpTable index targets => jumpTable index (targets.map rename)
  | giveBack values => giveBack values

end Terminator

/-- A basic block. -/
structure BasicBlock where
  name : String := ""
  actions : List Action := []
  terminator : Option Terminator := none
deriving DecidableEq, Repr, Inhabited

def BasicBlock.successors (block : BasicBlock) : List BlockId :=
  (block.terminator.map Terminator.successors).getD []

/-- A constant table. -/
structure LookupTable where
  name : String := ""
  width : Width := .none
  values : List Int := []
deriving DecidableEq, Repr, Inhabited

/-- The block graph of a function. -/
structure Graph where
  name : String := ""
  mode : Mode := .narrow
  blocks : Array BasicBlock := #[]
  entry : BlockId := 0
  vregs : Array VRegInfo := #[{}]
  tables : List LookupTable := []
deriving DecidableEq, Repr, Inhabited

namespace Graph

def info (graph : Graph) (register : VReg) : VRegInfo := graph.vregs.getD register {}

def width (graph : Graph) (register : VReg) : Width := (graph.info register).width

def successors (graph : Graph) (id : BlockId) : List BlockId :=
  match graph.blocks[id]? with
  | some block => block.successors
  | none => []

def predecessors (graph : Graph) (id : BlockId) : List BlockId :=
  (List.range graph.blocks.size).flatMap fun source =>
    ((graph.successors source).filter (· = id)).map fun _ => source

def tableWidth (graph : Graph) (name : String) : Width :=
  match graph.tables.find? (·.name = name) with
  | some table => table.width
  | none => .word

def mark (graph : Graph) : (fuel : Nat) → (pending : List BlockId) → Array Bool → Array Bool
  | 0, _, seen => seen
  | _ + 1, [], seen => seen
  | fuel + 1, id :: pending, seen =>
    if seen.getD id true then mark graph fuel pending seen
    else
      mark graph fuel ((graph.successors id).reverse ++ pending)
        (seen.setIfInBounds id true)

def edgeCount (graph : Graph) : Nat :=
  graph.blocks.toList.foldl (fun total block => total + block.successors.length) 0

/-- Which blocks are reachable from the entry. Every block is entered once, and every edge makes one
block pending. -/
def reachable (graph : Graph) : Array Bool :=
  graph.mark (graph.edgeCount + 2) [graph.entry] (Array.replicate graph.blocks.size false)

def next? (graph : Graph) (id : BlockId) : Option BlockId :=
  if id + 1 < graph.blocks.size then some (id + 1) else none

end Graph

end Backend65816
