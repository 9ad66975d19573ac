import Backend65816.Placement.Liveness

/-!
# Live intervals

The actions and terminators of a graph are numbered in layout order. The position of slot `k` is `2
* k`, so block boundaries have odd positions of their own. The interval of a register reaches from
its first to its last position.
-/

namespace Backend65816

/-- What stands at a program point. -/
inductive SlotContent where
  | action (index : Nat) (action : Action)
  | terminator (terminator : Option Terminator)
deriving DecidableEq, Repr, Inhabited

/-- A numbered program point. -/
structure Slot where
  block : BlockId
  content : SlotContent
deriving DecidableEq, Repr, Inhabited

namespace Slot

def uses (slot : Slot) : List VReg :=
  match slot.content with
  | .action _ action => action.uses
  | .terminator terminator => (terminator.map Terminator.uses).getD []

def defs (slot : Slot) : List VReg :=
  match slot.content with
  | .action _ action => action.defs
  | .terminator _ => []

def move? (slot : Slot) : Option (VReg × VReg) :=
  match slot.content with
  | .action _ (.move target source) => some (target, source)
  | _ => none

end Slot

def slotPosition (index : Nat) : Int := 2 * index

/-- A range of positions with both ends. -/
structure Interval where
  first : Int
  last : Int
deriving DecidableEq, Repr, Inhabited

namespace Interval

/-- The intervals conflict. Those that only touch do not, since operands are read before results are
written. -/
def overlaps (left right : Interval) : Bool :=
  left.first < right.last && right.first < left.last

def contains (interval : Interval) (position : Int) : Bool :=
  interval.first < position && position < interval.last

def extend (interval : Interval) (position : Int) : Interval :=
  if position < interval.first then { interval with first := position }
  else if position > interval.last then { interval with last := position }
  else interval

end Interval

/-- Slots of a function in order, and the intervals of its registers. -/
structure SlotLayout where
  slots : Array Slot := #[]
  intervals : Array (Option Interval)
deriving Repr, Inhabited

namespace SlotLayout

def interval? (layout : SlotLayout) (register : VReg) : Option Interval :=
  layout.intervals.getD register none

def interval (layout : SlotLayout) (register : VReg) : Interval :=
  (layout.interval? register).getD ⟨0, 0⟩

def nextPosition (layout : SlotLayout) : Int := slotPosition layout.slots.size

def touch (position : Int) (layout : SlotLayout) (register : VReg) : SlotLayout :=
  let grown := match layout.interval? register with
    | some interval => interval.extend position
    | none => ⟨position, position⟩
  { layout with intervals := layout.intervals.setIfInBounds register (some grown) }

def touchAll (layout : SlotLayout) (position : Int) (registers : List VReg) : SlotLayout :=
  registers.foldl (touch position) layout

def append (layout : SlotLayout) (slot : Slot) : SlotLayout :=
  let touched := layout.touchAll layout.nextPosition (slot.uses ++ slot.defs)
  { touched with slots := touched.slots.push slot }

def appendBlock (live : Liveness) (layout : SlotLayout) (entry : BasicBlock × BlockId) :
    SlotLayout :=
  let (block, id) := entry
  let before := layout.nextPosition - 1
  let body := block.actions.zipIdx.foldl
    (fun layout (action, index) => layout.append ⟨id, .action index action⟩) layout
  let complete := body.append ⟨id, .terminator block.terminator⟩
  let after := body.nextPosition + 1
  (complete.touchAll before (live.atStart id).toList).touchAll after (live.atEnd id).toList

end SlotLayout

def Graph.slotLayout (graph : Graph) (live : Liveness) : SlotLayout :=
  graph.blocks.toList.zipIdx.foldl (SlotLayout.appendBlock live)
    { intervals := Array.replicate graph.vregs.size none }

end Backend65816
