import Std.Data.HashMap
import Std.Data.HashSet
import Backend65816.Assembly.Listing

/-!
# Branch displacements

A short branch reaches 128 bytes back and 127 bytes ahead, counted from the byte after it. One that
does not reach its label is lengthened: an unconditional branch takes its long form, and a
conditional one becomes the opposite branch over a long one. Lengthening moves the code behind it,
so passes are repeated until one changes nothing. A lengthened branch stays long, and the branch
over it always reaches, so there are no more changing passes than short branches.
-/

namespace Backend65816

/-- Bytes in front of each label; of equal labels the last one counts. -/
def labelOffsets (code : List Instr) : Std.HashMap String Nat :=
  (code.foldl
    (fun (state : Nat × Std.HashMap String Nat) instr =>
      let labels := match instr with
        | .label name => state.2.insert name state.1
        | .run _ => state.2
      (state.1 + instr.size, labels))
    (0, ∅)).2

/-- Labels with their offsets, sorted by name. -/
def labelTable (code : List Instr) : List (String × Nat) :=
  (labelOffsets code).toList.mergeSort fun left right => decide (left.1 ≤ right.1)

/-- A branch that has no displacement. -/
inductive DisplacementError where
  | undefinedLabel (routine label : String)
  | tooFar (routine label : String) (distance : Int)
deriving DecidableEq, Repr

/-- The message about a branch. -/
def DisplacementError.text : DisplacementError → String
  | undefinedLabel routine label => "fixup: " ++ routine ++ ": branch to undefined label " ++ label
  | tooFar routine label distance =>
    "fixup: " ++ routine ++ ": branch to " ++ label ++ " spans " ++ toString distance ++ " bytes"

/-- Distances of a branch with a displacement of one byte. -/
def ShortReach (distance : Int) : Prop := -128 ≤ distance ∧ distance ≤ 127

/-- Distances of a branch with a displacement of two bytes. -/
def LongReach (distance : Int) : Prop := -32768 ≤ distance ∧ distance ≤ 32767

instance (distance : Int) : Decidable (ShortReach distance) := inferInstanceAs (Decidable (_ ∧ _))

instance (distance : Int) : Decidable (LongReach distance) := inferInstanceAs (Decidable (_ ∧ _))

/-- Bytes from behind a branch to its label. -/
def branchDistance (labels : Std.HashMap String Nat) (position : Nat) (branch : Operation) : Int :=
  (labels.getD branch.symbol 0 : Int) - (position + branch.size : Nat)

/-- Supply of labels that the code does not define. -/
structure LabelSupply where
  owner : String
  taken : Std.HashSet String
  count : Nat := 0

namespace LabelSupply

/-- The label of a number. -/
def labelOf (owner : String) (number : Nat) : String := owner ++ "_fx" ++ toString number

/-- The first number above a count whose label is not taken. -/
def freeNumber (owner : String) (taken : Std.HashSet String) : (fuel count : Nat) → Nat
  | 0, count => count + 1
  | fuel + 1, count =>
    if taken.contains (labelOf owner (count + 1)) then freeNumber owner taken fuel (count + 1)
    else count + 1

/-- A new label, and the supply without it. -/
def next (supply : LabelSupply) : String × LabelSupply :=
  let number := freeNumber supply.owner supply.taken supply.taken.size supply.count
  let label := labelOf supply.owner number
  (label, { supply with taken := supply.taken.insert label, count := number })

end LabelSupply

/-- State of a pass over the code. -/
structure Relaxation where
  position : Nat := 0
  supply : LabelSupply
  changed : Bool := false
  output : Array Instr := #[]

namespace Relaxation

/-- An instruction goes through unchanged. -/
def keep (state : Relaxation) (instr : Instr) : Relaxation :=
  { state with position := state.position + instr.size, output := state.output.push instr }

/-- A branch takes its long form. A conditional one is turned into a branch over a long one. -/
def lengthen (state : Relaxation) (branch : Operation) : Relaxation :=
  let position := state.position + branch.size
  let long := Instr.branch .brl branch.symbol
  if branch.op = .bra then
    { state with position, changed := true, output := state.output.push long }
  else
    let (skip, supply) := state.supply.next
    { position, supply, changed := true,
      output := state.output ++ #[.branch branch.op.invert skip, long, .label skip] }

/-- What a pass does to an instruction, with the offsets of labels before the pass. -/
def step (labels : Std.HashMap String Nat) (state : Relaxation) (instr : Instr) : Relaxation :=
  match instr with
  | .label _ => state.keep instr
  | .run operation =>
    if !operation.op.isBranch || operation.op = .brl then state.keep instr
    else if ShortReach (branchDistance labels state.position operation) then state.keep instr
    else state.lengthen operation

/-- A pass over the code. -/
def pass (supply : LabelSupply) (code : List Instr) : Relaxation :=
  code.foldl (step (labelOffsets code)) { supply }

/-- Passes up to one that changes nothing. -/
def repeatPass : (fuel : Nat) → LabelSupply → List Instr → List Instr
  | 0, _, code => code
  | fuel + 1, supply, code =>
    let result := pass supply code
    if result.changed then repeatPass fuel result.supply result.output.toList
    else result.output.toList

end Relaxation

/-- The instruction is a branch that may have to be lengthened. -/
def Instr.isShortBranch : Instr → Bool
  | .label _ => false
  | .run operation => operation.op.isBranch && operation.op ≠ .brl

/-- The first label that is branched to and not defined. -/
def undefinedTarget? (labels : Std.HashMap String Nat) (code : List Instr) : Option String :=
  code.findSome? fun instr =>
    match instr with
    | .label _ => none
    | .run operation =>
      if operation.op.isBranch && !labels.contains operation.symbol then some operation.symbol
      else none

/-- A branch with its distance. Only a long branch is refused for it. -/
def Instr.placed (routine : String) (labels : Std.HashMap String Nat) (position : Nat) :
    Instr → Except DisplacementError Instr
  | .label name => .ok (.label name)
  | .run operation =>
    if operation.op.isBranch then
      let distance := branchDistance labels position operation
      if operation.op = .brl ∧ ¬LongReach distance then
        .error (.tooFar routine operation.symbol distance)
      else .ok (.run { operation with distance })
    else .ok (.run operation)

/-- Code whose branches have their distances. -/
def placeBranches (routine : String) (code : List Instr) :
    Except DisplacementError (List Instr) := do
  let labels := labelOffsets code
  let (_, output) ← code.foldlM
    (fun (state : Nat × Array Instr) instr => do
      let placed ← instr.placed routine labels state.1
      pure (state.1 + instr.size, state.2.push placed))
    (0, #[])
  pure output.toList

/-- A routine whose branches reach their labels. -/
def Routine.resolveBranches (routine : Routine) : Except DisplacementError Routine :=
  let code := routine.code
  match undefinedTarget? (labelOffsets code) code with
  | some label => .error (.undefinedLabel routine.name label)
  | none => do
      let supply : LabelSupply :=
        { owner := routine.name, taken := Std.HashSet.ofList (code.filterMap Instr.label?) }
      let relaxed := Relaxation.repeatPass (code.countP Instr.isShortBranch + 1) supply code
      let placed ← placeBranches routine.name relaxed
      pure { routine with code := placed }

end Backend65816
