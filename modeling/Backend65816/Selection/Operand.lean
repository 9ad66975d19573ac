import Backend65816.Selection.State

/-!
# Operands

How values get into the accumulator and out of it, and how the second operand of an instruction is
reached. A byte in an index register is kept zero-extended.
-/

namespace Backend65816

namespace Reg

def indexed {α : Type} (register : Reg) (forX forY : α) : α :=
  if register = y then forY else forX

def loadOp (register : Reg) : Op := register.indexed .ldx .ldy

def compareOp (register : Reg) : Op := register.indexed .cpx .cpy

def pushOp (register : Reg) : Op := register.indexed .phx .phy

def toAccumulatorOp (register : Reg) : Op := register.indexed .txa .tya

def fromAccumulatorOp (register : Reg) : Op := register.indexed .tax .tay

end Reg

def symbolAt (symbol : String) (offset : Int) : String :=
  if offset = 0 then symbol else symbol ++ "+" ++ toString offset

def Address.instr (address : Address) (op : Op) : Instr :=
  match address.fixed with
  | some value => .absoluteAt op ((value + address.offset) % 0x10000)
  | none =>
    if address.far then .long op (symbolAt address.symbol address.offset)
    else .absolute op (symbolAt address.symbol address.offset)

def indexedInstr (op : Op) (register : Reg) (offset : Int) : Instr :=
  .run { op, mode := register.indexed .absoluteX .absoluteY, value := offset % 0x10000 }

namespace Select

def memory (op : Op) (location : Loc) : Select Instr := do
  let context ← read
  let depth := (← get).depth
  match location with
  | .scratch offset => pure (.direct op (context.settings.scratchBase + offset))
  | .stack offset => pure (.stackRelative op (1 + offset + depth))
  | .argument offset =>
    pure (.stackRelative op
      (context.signature.paramBase + context.frameSize + offset + depth))
  | .fixed address _ => pure (.absoluteAt op (address % 0x10000))
  | .symbol name => pure (.absolute op name)
  | .nowhere | .reg _ => fail (.notMemory location)

def loadAccumulator (register : VReg) : Select Unit := do
  let location ← place register
  match location with
  | .reg .a => pure ()
  | .reg .x => emit [.plain Reg.x.toAccumulatorOp]
  | .reg .y => emit [.plain Reg.y.toAccumulatorOp]
  | .reg .b | .nowhere => fail (.cannotLoad register location)
  | .scratch _ | .stack _ | .fixed _ _ | .symbol _ | .argument _ =>
    emit [← memory .lda location]

def storeIndex (hardware : Reg) (width : Width) : Select Unit := do
  if width = .word then emit [.plain hardware.fromAccumulatorOp]
  else
    let temp ← operandTemp
    emit [.direct .sta temp, .direct .stz (temp + 1), .direct hardware.loadOp temp]

def storeAccumulator (register : VReg) : Select Unit := do
  let location ← place register
  match location with
  | .reg .a => pure ()
  | .reg .x => storeIndex .x (← widthOf register)
  | .reg .y => storeIndex .y (← widthOf register)
  | .reg .b | .nowhere => fail (.cannotStore register location)
  | .scratch _ | .stack _ | .fixed _ _ | .symbol _ | .argument _ =>
    emit [← memory .sta location]

/-- The instruction with its second operand. One in a register goes through a temporary, also one in
the accumulator, since loading the first operand replaces it. -/
def operand (op : Op) (value : Value) (width : Width) : Select Instr :=
  match value with
  | .imm number => pure (.immediate op (width.truncate number) width.bytes)
  | .reg register => do
      let location ← place register
      let temp ← operandTemp
      match location with
      | .reg .a =>
        emit [.direct .sta temp]
        pure (.direct op temp)
      | .reg .x =>
        emit [.direct .stx temp]
        pure (.direct op temp)
      | .reg .y =>
        emit [.direct .sty temp]
        pure (.direct op temp)
      | _ => memory op location

def loadExtended (register : VReg) : Select Unit := do
  let location ← place register
  if (← widthOf register) = .word ∨ location.isIndexReg then
    setAccumulator .word
    loadAccumulator register
  else
    setAccumulator .byte
    loadAccumulator register
    setAccumulator .word
    emit [.immediate .and 0x00FF 2]

def computePointer (base : VReg) (offset : Int) : Select Unit := do
  setAccumulator .word
  loadAccumulator base
  if offset ≠ 0 then emit [.plain .clc, .immediate .adc (offset % 0x10000) 2]
  emit [.direct .sta (← pointerTemp)]

end Select

end Backend65816
