import Backend65816.Flow.Graph

/-!
# Registers that code overwrites

The hardware registers that the code of an action or a terminator writes, given the places of its
operands. Allocation keeps a value in a register only if nothing in between writes it, and code
selection stays inside these sets.
-/

namespace Backend65816

abbrev Placement := VReg → Loc

/-- Registers that an operation of the accumulator destroys. One of 16 bits in a narrow function
widens the accumulator, which takes `b` as well. -/
def accumulatorWrites (mode : Mode) (width : Width) : RegMask :=
  if mode = .narrow ∧ width = .word then (RegMask.single .a).insert .b else .single .a

def incrementsInPlace (kind : BinKind) (target left : VReg) (right : Value) (noWrap : Bool)
    (location : Loc) : Bool :=
  kind = .add && noWrap && right = .imm 1 && target = left && location.isIndexReg

def moveWrites (mode : Mode) (target source : Loc) (width : Width) : RegMask :=
  if target = source then .empty
  else if source = .reg .b then target.mask
  else if target = .reg .b then .single .b
  else if source.isIndexReg ∧ target.isIndexReg then target.mask
  else if target.isIndexReg ∧ width = .word ∧ source.isIndexable then target.mask
  else if source.isIndexReg ∧ width = .word ∧ target.isIndexable then .empty
  else if source = .reg .a then target.mask
  else (accumulatorWrites mode width).union target.mask

def loadWrites (mode : Mode) (width : Width) (target : Loc) (base : Option Loc) (far : Bool) :
    RegMask :=
  match base with
  | none =>
    if !far && target.isIndexReg && width = .word then target.mask
    else (accumulatorWrites mode width).union target.mask
  | some base =>
    if base.isIndexReg then (accumulatorWrites mode width).union target.mask
    else
      ((accumulatorWrites mode .word).union (accumulatorWrites mode width)).union target.mask

def storeWrites (mode : Mode) (width : Width) (source : Loc) (base : Option Loc) (far : Bool) :
    RegMask :=
  match base with
  | none =>
    if source = .reg .a then .empty
    else if !far && source.isIndexReg && width = .word then .empty
    else accumulatorWrites mode width
  | some base =>
    if !base.isIndexReg then (accumulatorWrites mode .word).union (accumulatorWrites mode width)
    else if source = .reg .a then .empty
    else accumulatorWrites mode width

namespace Graph

def writes (graph : Graph) (places : Placement) : Action → RegMask
  | .params _ => .empty
  | .const target value =>
    let location := places target
    if location.isReg then location.mask
    else if value = 0 ∧ location.isIndexable then .empty
    else accumulatorWrites graph.mode (graph.width target)
  | .move target source =>
    moveWrites graph.mode (places target) (places source) (graph.width target)
  | .convert target _ _ | .un _ target _ =>
    (accumulatorWrites graph.mode (graph.width target)).union (places target).mask
  | .bin kind target left right noWrap =>
    let location := places target
    if incrementsInPlace kind target left right noWrap location then location.mask
    else (accumulatorWrites graph.mode (graph.width target)).union location.mask
  | .setCond _ target left _ =>
    ((accumulatorWrites graph.mode (graph.width left)).insert .a).union (places target).mask
  | .load target address =>
    loadWrites graph.mode (graph.width target) (places target) (address.base.map places)
      address.far
  | .store _ (.imm _) => accumulatorWrites graph.mode .word
  | .store address (.reg source) =>
    storeWrites graph.mode (graph.width source) (places source) (address.base.map places)
      address.far
  | .lookup target table index =>
    let result := (accumulatorWrites graph.mode (graph.width target)).union (places target).mask
    if graph.tableWidth table = .byte ∧ places index = .reg .x then result
    else ((accumulatorWrites graph.mode .word).insert .x).union result
  | .push (.imm _) => accumulatorWrites graph.mode .word
  | .push (.reg source) =>
    let location := places source
    let width := graph.width source
    if location = .reg .a ∨ (location.isIndexReg ∧ width = .word) then .empty
    else accumulatorWrites graph.mode width
  | .call details => details.preserve.complement
  | .dispatch _ => .full

def terminatorWrites (graph : Graph) (places : Placement) : Terminator → RegMask
  | .branch _ left right _ _ =>
    let location := places left
    let width := graph.width left
    let compared := accumulatorWrites graph.mode width
    if location = .reg .a then .empty
    else if location.isIndexReg then
      match right with
      | .imm _ => .empty
      | .reg other =>
        let second := places other
        if second.isReg ∨ (width = .word ∧ second.isIndexable) then .empty else compared
    else compared
  | .jumpTable _ _ => (accumulatorWrites graph.mode .word).insert .x
  | .jump _ | .giveBack _ => .empty

end Graph

end Backend65816
