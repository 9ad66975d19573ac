import Backend65816.Placement.RegSet

/-!
# Liveness

A register is live where its value may still be read. Going backwards, a block needs what it reads
before writing it, and what its successors need and it does not write. Sweeps from the last block to
the first are repeated until one changes nothing.
-/

namespace Backend65816

/-- What a block does to registers. -/
structure BlockEffect where
  defs : RegSet := .empty
  uses : RegSet := .empty
deriving DecidableEq, Repr, Inhabited

namespace BlockEffect

def read (effect : BlockEffect) (registers : List VReg) : BlockEffect :=
  { effect with
    uses := effect.uses.insertAll
      (registers.filter fun register => !effect.defs.contains register) }

def write (effect : BlockEffect) (registers : List VReg) : BlockEffect :=
  { effect with defs := effect.defs.insertAll registers }

def step (effect : BlockEffect) (action : Action) : BlockEffect :=
  (effect.read action.uses).write action.defs

end BlockEffect

def BasicBlock.effect (block : BasicBlock) : BlockEffect :=
  let body := block.actions.foldl BlockEffect.step {}
  match block.terminator with
  | some terminator => body.read terminator.uses
  | none => body

/-- Registers that are live at the boundaries of the blocks. -/
structure Liveness where
  liveIn : Array RegSet
  liveOut : Array RegSet
deriving DecidableEq, Repr, Inhabited

namespace Liveness

def atStart (live : Liveness) (id : BlockId) : RegSet := live.liveIn.getD id .empty

def atEnd (live : Liveness) (id : BlockId) : RegSet := live.liveOut.getD id .empty

def needed (live : Liveness) (successors : List BlockId) : RegSet :=
  successors.foldl (fun set successor => set.union (live.atStart successor)) .empty

def update (graph : Graph) (effects : Array BlockEffect) (state : Liveness × Bool)
    (id : BlockId) : Liveness × Bool :=
  let (live, changed) := state
  let effect := effects.getD id {}
  let out := live.needed (graph.successors id)
  let entering := effect.uses.union (out.diff effect.defs)
  if entering = live.atStart id ∧ out = live.atEnd id then (live, changed)
  else
    ({ liveIn := live.liveIn.setIfInBounds id entering
       liveOut := live.liveOut.setIfInBounds id out }, true)

def sweep (graph : Graph) (effects : Array BlockEffect) (live : Liveness) : Liveness × Bool :=
  (List.range graph.blocks.size).reverse.foldl (update graph effects) (live, false)

def iterate (graph : Graph) (effects : Array BlockEffect) : (fuel : Nat) → Liveness → Liveness
  | 0, live => live
  | fuel + 1, live =>
    match sweep graph effects live with
    | (next, true) => iterate graph effects fuel next
    | (next, false) => next

end Liveness

def Graph.effects (graph : Graph) : Array BlockEffect := graph.blocks.map BasicBlock.effect

def Graph.useCount (graph : Graph) : Nat :=
  graph.effects.toList.foldl (fun total effect => total + effect.uses.toList.length) 0

/-- Liveness of the registers of a graph. A sweep that changes something adds a register to a set of
some block, and only registers that are read somewhere are added. -/
def Graph.liveness (graph : Graph) : Liveness :=
  let start : Liveness :=
    { liveIn := Array.replicate graph.blocks.size .empty
      liveOut := Array.replicate graph.blocks.size .empty }
  Liveness.iterate graph graph.effects (2 * graph.blocks.size * graph.useCount + 1) start

end Backend65816
