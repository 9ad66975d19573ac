import Backend65816.Assembly.Labels
import Backend65816.Convention.Sequence
import Backend65816.Placement.Allocate
import Backend65816.Selection.Action
import Backend65816.Selection.Call

/-!
# Code of functions

The code of a function is its entry sequence, the allocation of its frame, and its blocks in order.
A jump to the next block needs no code. Labels that nothing refers to are dropped.
-/

namespace Backend65816

namespace Select

def action : Action → Select Unit
  | .params _ => pure ()
  | .const target value => const target value
  | .move target source => move target source
  | .convert target source signed => convert target source signed
  | .bin kind target left right noWrap => bin kind target left right noWrap
  | .un kind target source => un kind target source
  | .setCond condition target left right => setCond condition target left right
  | .load target address => load target address
  | .store address source => store address source
  | .lookup target table index => lookup target table index
  | .push source => push source
  | .call details => call details
  | .dispatch details => dispatch details

def saveTemporaries (base : Int) : List Instr :=
  [0, 2, 4, 6].map fun offset => .indirect .pei (base + offset)

def restoreTemporaries (base : Int) : List Instr :=
  [6, 4, 2, 0].flatMap fun offset => [.plain .pla, .direct .sta (base + offset)]

def prologue : Select Unit := do
  let context ← read
  emit context.signature.entrySequence
  if context.signature.interrupt.isSome then emit (saveTemporaries context.settings.tempBase)
  adjustStack (-(context.frameSize : Int))

def epilogue : Select Unit := do
  let context ← read
  adjustStack context.frameSize
  if context.signature.interrupt.isSome then
    let narrow := context.graph.mode = .narrow
    emitIf narrow [.widenAccumulator]
    emit (restoreTemporaries context.settings.tempBase)
    emitIf narrow [.narrowAccumulator]
  emit context.signature.exitSequence

def jumpTable (index : VReg) (targets : List BlockId) : Select Unit := do
  let function := (← read).graph.name
  let tables := (← get).tables
  let name := function ++ "_jt" ++ toString tables.length
  let table : DataTable :=
    { name, kind := .addresses, width := 2, targets := targets.map (blockLabel function) }
  modify fun state => { state with tables := tables ++ [table] }
  loadExtended index
  emit [.plain .asl, .plain .tax]
  setAccumulator (← modeWidth)
  emit [.run { op := .jmp, mode := .indexedIndirect, symbol := name }]

def terminator (id : BlockId) (terminator : Terminator) : Select Unit := do
  let graph := (← read).graph
  let next? := graph.next? id
  match terminator with
  | .jump target =>
    if next? ≠ some target then emit [.branch .bra (blockLabel graph.name target)]
  | .branch condition left right thenBlock elseBlock =>
    let thenLabel := blockLabel graph.name thenBlock
    let elseLabel := blockLabel graph.name elseBlock
    if next? = some thenBlock then compareBranch condition.negate left right elseLabel
    else
      compareBranch condition left right thenLabel
      if next? ≠ some elseBlock then emit [.branch .bra elseLabel]
  | .jumpTable index targets => jumpTable index targets
  | .giveBack _ => epilogue

def actions (noOps : List (BlockId × Nat)) (id : BlockId) (actions : List Action) :
    Select Unit :=
  actions.zipIdx.forM fun (step, index) => do
    if noOps.contains (id, index) then pure ()
    else
      action step
      setAccumulator (← modeWidth)

def block (noOps : List (BlockId × Nat)) (entry : BasicBlock × BlockId) : Select Unit := do
  let (block, id) := entry
  let context ← read
  modify fun state => { state with accumulator := context.graph.mode.width }
  emit [.label (blockLabel context.graph.name id)]
  actions noOps id block.actions
  match block.terminator with
  | some exit => terminator id exit
  | none => reject (.noTerminator id)

def function (noOps : List (BlockId × Nat)) : Select Unit := do
  prologue
  (← read).graph.blocks.toList.zipIdx.forM (block noOps)

end Select

def LookupTable.data (table : LookupTable) : DataTable where
  name := table.name
  kind := .values
  width := table.width.bytes
  values := table.values

/-- Code and tables of a function. -/
structure SelectedCode where
  routine : Routine
  tables : List DataTable
deriving DecidableEq, Repr

def Graph.select (graph : Graph) (allocation : Allocation) (signature : Signature)
    (settings : Settings) : Except SelectionError SelectedCode := do
  let context : SelectionContext :=
    { graph, places := allocation.location, frameSize := allocation.frameSize, signature, settings }
  let start : SelectionState := { accumulator := graph.mode.width }
  let (_, state) ← ((Select.function allocation.noOps).run context).run start
  let routine : Routine :=
    { name := signature.name, bank := signature.bank, far := signature.far,
      mode := signature.mode, code := state.code.toList }
  pure {
    routine := routine.dropUnusedLabels state.tables
    tables := state.tables ++ graph.tables.map LookupTable.data }

end Backend65816
