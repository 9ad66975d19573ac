import Backend65816.Placement.Interval
import Backend65816.Placement.Writes

/-!
# Allocation of virtual registers

Every virtual register gets a hardware register, a place in the scratch pool or a place in the stack
frame. The question asked for a register is whether anything between the first and the last position
of the value overwrites it; `Graph.writes` answers it. There are two rounds, because a value placed
late can free a register for one that was refused. What is left goes to the scratch pool, unless a
call that may use the pool lies inside the interval, and else to the frame.
-/

namespace Backend65816

/-- Limits of an allocation. -/
structure PlacementOptions where
  scratchSize : Nat
  useScratch : Bool
deriving DecidableEq, Repr, Inhabited

/-- A place in the scratch pool that was given away. -/
structure ScratchUse where
  offset : Nat
  bytes : Nat
  lastUse : Int
deriving DecidableEq, Repr, Inhabited

/-- The result of an allocation. -/
structure Allocation where
  locations : Array Loc := #[]
  noOps : List (BlockId × Nat) := []
  frameSize : Nat := 0
  scratchUsed : Nat := 0
  coalesced : Nat × Nat := (0, 0)
deriving DecidableEq, Repr, Inhabited

def Allocation.location (allocation : Allocation) (register : VReg) : Loc :=
  allocation.locations.getD register .nowhere

/-- What allocation decides about. -/
structure AllocationProblem where
  graph : Graph
  options : PlacementOptions
  layout : SlotLayout
  partners : Array (List VReg)

abbrev Placed := Array (Option Loc)

/-- Locations that decisions are made against. A register without one counts as a stack slot, which
needs the most registers to reach. -/
def Placed.assumed (placed : Placed) (register : VReg) : Loc :=
  (placed.getD register none).getD (.stack 0)

namespace AllocationProblem

def copyPartners (count : Nat) (slots : Array Slot) : Array (List VReg) :=
  slots.foldl
    (fun partners slot =>
      match slot.move? with
      | some (target, source) =>
        (partners.modify target (· ++ [source])).modify source (· ++ [target])
      | none => partners)
    (Array.replicate count [])

def ofGraph (graph : Graph) (options : PlacementOptions) : AllocationProblem :=
  let layout := graph.slotLayout graph.liveness
  { graph, options, layout, partners := copyPartners graph.vregs.size layout.slots }

def precolor (problem : AllocationProblem) : Placed :=
  problem.graph.vregs.mapIdx fun register info => if register = 0 then none else info.fixed

def before (problem : AllocationProblem) (left right : VReg) : Bool :=
  let leftHinted := (problem.graph.info left).hint.isSome
  let rightHinted := (problem.graph.info right).hint.isSome
  let leftFirst := (problem.layout.interval left).first
  let rightFirst := (problem.layout.interval right).first
  if leftHinted ≠ rightHinted then leftHinted
  else if leftFirst ≠ rightFirst then leftFirst < rightFirst
  else left ≤ right

def unplaced (problem : AllocationProblem) (placed : Placed) : List VReg :=
  (List.range problem.graph.vregs.size).filter fun register =>
    (problem.layout.interval? register).isSome && (placed.getD register none).isNone

/-- Hardware registers to be tried: the preferred one, those of copies, then the general ones. The
high half of the accumulator is never given. -/
def candidates (problem : AllocationProblem) (placed : Placed) (register : VReg) : List Reg :=
  let preferred := (problem.graph.info register).hint.toList
  let copied := (problem.partners.getD register []).filterMap fun partner =>
    match placed.getD partner none with
    | some (.reg hardware) => some hardware
    | _ => none
  ((preferred ++ copied ++ [Reg.a, Reg.x, Reg.y]).filter (· ≠ Reg.b)).eraseDups

/-- A register that appears in the code holds the hardware register at a position of the interval.
-/
def isHeld (problem : AllocationProblem) (placed : Placed) (hardware : Reg) (interval : Interval) :
    Bool :=
  (List.range placed.size).any fun other =>
    placed.getD other none = some (.reg hardware) &&
      match problem.layout.interval? other with
      | some held => held.overlaps interval
      | none => false

/-- Registers that the code of a slot overwrites. -/
def slotWrites (graph : Graph) (places : Placement) (slot : Slot) : RegMask :=
  match slot.content with
  | .action _ action => graph.writes places action
  | .terminator (some terminator) => graph.terminatorWrites places terminator
  | .terminator none => .empty

def slotsInside (layout : SlotLayout) (interval : Interval) : List Slot :=
  let start := ((interval.first + 2) / 2).toNat
  let stop := ((interval.last + 1) / 2).toNat
  (layout.slots.extract start stop).toList

def fits (problem : AllocationProblem) (placed : Placed) (register : VReg) (hardware : Reg) :
    Bool :=
  let interval := problem.layout.interval register
  let assumed := Placed.assumed (placed.setIfInBounds register (some (.reg hardware)))
  hardware.canHold (problem.graph.width register) problem.graph.mode &&
    !problem.isHeld placed hardware interval &&
    (slotsInside problem.layout interval).all fun slot =>
      slot.defs.contains register ||
        !(slotWrites problem.graph assumed slot).has hardware

def place? (problem : AllocationProblem) (placed : Placed) (register : VReg) : Option Placed :=
  ((problem.candidates placed register).find? (problem.fits placed register)).map fun hardware =>
    placed.setIfInBounds register (some (.reg hardware))

def round (problem : AllocationProblem) (placed : Placed) (pending : List VReg) :
    Placed × List VReg :=
  let (placed, left) := pending.foldl
    (fun (state : Placed × List VReg) register =>
      match problem.place? state.1 register with
      | some placed => (placed, state.2)
      | none => (state.1, register :: state.2))
    (placed, [])
  (placed, left.reverse)

def crossesCall (problem : AllocationProblem) (interval : Interval) : Bool :=
  (slotsInside problem.layout interval).any fun slot =>
    match slot.content with
    | .action _ (.call details) => !details.preservesScratch
    | .action _ (.dispatch _) => true
    | _ => false

def isFree (taken : List ScratchUse) (offset bytes : Nat) (interval : Interval) : Bool :=
  taken.all fun use =>
    use.lastUse ≤ interval.first || offset + bytes ≤ use.offset || use.offset + use.bytes ≤ offset

def scratchOffset? (problem : AllocationProblem) (taken : List ScratchUse) (bytes : Nat)
    (interval : Interval) : Option Nat :=
  let top := taken.foldl (fun top use => max top (use.offset + use.bytes)) 0
  (List.range (top + 1)).find? fun offset =>
    offset + bytes ≤ problem.options.scratchSize && isFree taken offset bytes interval

/-- Places in memory given so far. -/
structure Spill where
  placed : Placed
  taken : List ScratchUse := []
  frame : Nat := 0
  scratch : Nat := 0

def spillOne (problem : AllocationProblem) (state : Spill) (register : VReg) : Spill :=
  let interval := problem.layout.interval register
  let bytes := (problem.graph.width register).bytes
  let offset? :=
    if problem.options.useScratch && !problem.crossesCall interval then
      problem.scratchOffset? state.taken bytes interval
    else none
  match offset? with
  | some offset =>
    { state with
      placed := state.placed.setIfInBounds register (some (.scratch offset))
      taken := ⟨offset, bytes, interval.last⟩ :: state.taken
      scratch := max state.scratch (offset + bytes) }
  | none =>
    { state with
      placed := state.placed.setIfInBounds register (some (.stack state.frame))
      frame := state.frame + bytes }

def spill (problem : AllocationProblem) (placed : Placed) (pending : List VReg) : Spill :=
  let order (left right : VReg) : Bool :=
    let leftFirst := (problem.layout.interval left).first
    let rightFirst := (problem.layout.interval right).first
    if leftFirst ≠ rightFirst then leftFirst < rightFirst else left ≤ right
  (pending.mergeSort order).foldl problem.spillOne { placed }

def noOps (problem : AllocationProblem) (placed : Placed) : List (BlockId × Nat) :=
  problem.layout.slots.toList.filterMap fun slot =>
    match slot.content with
    | .action index (.move target source) =>
      match placed.getD target none, placed.getD source none with
      | some left, some right => if left = right then some (slot.block, index) else none
      | _, _ => none
    | _ => none

def solve (problem : AllocationProblem) : Allocation :=
  let precolored := problem.precolor
  let pending := (problem.unplaced precolored).mergeSort problem.before
  let (first, refused) := problem.round precolored pending
  let (second, left) := problem.round first refused
  let firstCount := (problem.noOps first).length
  let secondCount := (problem.noOps second).length
  let spilled := problem.spill second left
  { locations := spilled.placed.map fun location => location.getD .nowhere
    noOps := problem.noOps spilled.placed
    frameSize := spilled.frame
    scratchUsed := spilled.scratch
    coalesced := (firstCount, secondCount - firstCount) }

end AllocationProblem

def Graph.allocate (graph : Graph) (options : PlacementOptions) : Allocation :=
  (AllocationProblem.ofGraph graph options).solve

def Allocation.listing (allocation : Allocation) (graph : Graph) : List String :=
  let head := graph.name ++ ": frame " ++ toString allocation.frameSize ++ ", scratch " ++
    toString allocation.scratchUsed ++ ", no-op moves " ++ toString allocation.coalesced.1 ++ "+" ++
    toString allocation.coalesced.2
  head :: (allocation.locations.toList.zipIdx.drop 1).filterMap fun (location, register) =>
    if location = .nowhere then none
    else
      let info := graph.info register
      let name := if info.name = "" then "" else " (" ++ info.name ++ ")"
      some ("    v" ++ toString register ++ name ++ " " ++ info.width.text ++ " -> " ++
        location.text)

end Backend65816
