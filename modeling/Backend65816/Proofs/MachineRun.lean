import Backend65816.Assembly.Instr
import Backend65816.Proofs.GraphRun

/-!
# Runs of machine code

The machine is in its native mode: index registers have 16 bits, arithmetic is binary, and the
accumulator has 8 or 16 bits. Its high half keeps its contents while the accumulator has 8 bits.
Operands stand for the numbers they name, also where an encoding would have no room for them.

Code runs from its first instruction. A branch goes on behind the label that it names, if the label
stands further on, and leaves the code otherwise. Instructions that the code of actions and
terminators does not contain have no step, and neither has one with an addressing mode that the
machine lacks or an immediate value of the wrong size.
-/

namespace Backend65816

open BitVec

/-! ## Bytes -/

def joined (low high : BitVec 8) : Int := low.toNat + 0x100 * high.toNat

def lowByte (number : Int) : BitVec 8 := .ofInt 8 number

def highByte (number : Int) : BitVec 8 := .ofInt 8 (number / 0x100)

section

variable (num : Int)

theorem toNat_ofInt_eight : ((BitVec.ofInt 8 num).toNat : Int) = num % 0x100 := by
  rw [toNat_ofInt]
  omega

theorem toNat_ofInt_sixteen : ((BitVec.ofInt 16 num).toNat : Int) = num % 0x10000 := by
  rw [toNat_ofInt]
  omega

@[simp]
theorem toNat_lowByte : ((lowByte num).toNat : Int) = num % 0x100 :=
  toNat_ofInt_eight num

@[simp]
theorem toNat_highByte : ((highByte num).toNat : Int) = num / 0x100 % 0x100 :=
  toNat_ofInt_eight _

@[simp]
theorem joined_lowByte_highByte : joined (lowByte num) (highByte num) = num % 0x10000 := by
  rw [joined, toNat_lowByte, toNat_highByte]
  omega

end

theorem joined_nonneg {low high : BitVec 8} : 0 ≤ joined low high := by
  unfold joined
  omega

theorem joined_lt {low high : BitVec 8} : joined low high < 0x10000 := by
  unfold joined
  omega

@[simp]
theorem lowByte_toNat (byte : BitVec 8) : lowByte byte.toNat = byte := by
  refine eq_of_toNat_eq ?_
  have := toNat_lowByte byte.toNat
  omega

@[simp]
theorem lowByte_joined (low high : BitVec 8) : lowByte (joined low high) = low := by
  refine eq_of_toNat_eq ?_
  have := toNat_lowByte (joined low high)
  unfold joined at this ⊢
  omega

@[simp]
theorem highByte_joined (low high : BitVec 8) : highByte (joined low high) = high := by
  refine eq_of_toNat_eq ?_
  have := toNat_highByte (joined low high)
  unfold joined at this ⊢
  omega

/-! ## Memory -/

/-- Consecutive bytes in a space of addresses that wraps around. -/
structure Span where
  start : Int
  space : Int

namespace Span

def bankZero (start : Int) : Span := ⟨start, 0x10000⟩

def anyBank (start : Int) : Span := ⟨start, 0x1000000⟩

def byte (span : Span) (index : Int) : Int := (span.start + index) % span.space

def Covers (span : Span) (width : Width) (address : Int) : Prop :=
  ∃ index : Int, 0 ≤ index ∧ index < width.bytes ∧ address = span.byte index

end Span

abbrev Memory := Int → BitVec 8

namespace Memory

def read (memory : Memory) (span : Span) : Mode → Int
  | .narrow => (memory (span.byte 0)).toNat
  | .wide => joined (memory (span.byte 0)) (memory (span.byte 1))

def write (memory : Memory) (span : Span) (mode : Mode) (number : Int) : Memory := fun address =>
  if address = span.byte 0 then lowByte number
  else if mode = .wide ∧ address = span.byte 1 then highByte number
  else memory address

end Memory

/-! ## Registers -/

/-- State of the machine. -/
structure Machine where
  a : BitVec 8
  b : BitVec 8
  x : BitVec 16
  y : BitVec 16
  stack : BitVec 16
  direct : BitVec 16
  bank : BitVec 8
  mode : Mode
  carry : Bool
  zero : Bool
  memory : Memory

namespace Machine

def whole (machine : Machine) : Int := joined machine.a machine.b

def accumulator (machine : Machine) : Int :=
  match machine.mode with
  | .narrow => machine.a.toNat
  | .wide => machine.whole

def setAccumulator (machine : Machine) (number : Int) : Machine :=
  match machine.mode with
  | .narrow => { machine with a := lowByte number, zero := lowByte number = 0 }
  | .wide =>
    { machine with
      a := lowByte number
      b := highByte number
      zero := lowByte number = 0 ∧ highByte number = 0 }

def exchange (machine : Machine) : Machine :=
  { machine with a := machine.b, b := machine.a, zero := machine.b = 0 }

def setX (machine : Machine) (number : Int) : Machine :=
  { machine with x := .ofInt 16 number, zero := BitVec.ofInt 16 number = 0 }

def setY (machine : Machine) (number : Int) : Machine :=
  { machine with y := .ofInt 16 number, zero := BitVec.ofInt 16 number = 0 }

def add (machine : Machine) (number : Int) : Machine :=
  let sum := machine.accumulator + number + machine.carry.toInt
  { machine.setAccumulator sum with carry := machine.mode.width.modulus ≤ sum }

/-- Subtracts from the accumulator, with borrow, by adding the complement. -/
def subtract (machine : Machine) (number : Int) : Machine :=
  machine.add (machine.mode.width.mask - number)

def compare (machine : Machine) (left right : Int) : Machine :=
  { machine with carry := right ≤ left, zero := left = right }

def shiftLeft (machine : Machine) : Machine :=
  let number := machine.accumulator
  { machine.setAccumulator (2 * number) with carry := machine.mode.width.signBit ≤ number }

/-- Shifts the accumulator to the right and a bit in at the left. -/
def shiftRight (machine : Machine) (bit : Bool) : Machine :=
  let number := machine.accumulator
  let entering := if bit then machine.mode.width.signBit else 0
  { machine.setAccumulator (number / 2 + entering) with carry := number % 2 = 1 }

def push (machine : Machine) (byte : BitVec 8) : Machine :=
  { machine with
    memory := fun address =>
      if address = machine.stack.toNat then byte else machine.memory address
    stack := machine.stack - 1 }

def pushWord (machine : Machine) (number : Int) : Machine :=
  (machine.push (highByte number)).push (lowByte number)

def pushAccumulator (machine : Machine) : Machine :=
  match machine.mode with
  | .narrow => machine.push machine.a
  | .wide => machine.pushWord machine.whole

/-- The byte that was pushed as the last one but some. -/
def pushed (machine : Machine) (depth : Nat) : BitVec 8 :=
  machine.memory (machine.stack + 1 + BitVec.ofNat 16 depth).toNat

theorem pushed_push (m : Machine) {byte : BitVec 8} : (m.push byte).pushed 0 = byte := by
  simp [sub_add_cancel, pushed, push]

def pullAccumulator (machine : Machine) : Machine :=
  match machine.mode with
  | .narrow => { machine.setAccumulator (machine.pushed 0).toNat with stack := machine.stack + 1 }
  | .wide =>
    { machine.setAccumulator (joined (machine.pushed 0) (machine.pushed 1)) with
      stack := machine.stack + 2 }

end Machine

/-! ## Operands -/

def Operation.number (symbols : String → Int) (operation : Operation) : Int :=
  if operation.symbol = "" then operation.value else symbols operation.symbol

/-- The instruction has a form for the addressing mode of an operand in memory. -/
def Op.reaches : Op → AddressMode → Bool
  | .lda, _ | .sta, _ | .adc, _ | .sbc, _ | .and, _ | .ora, _ | .eor, _ | .cmp, _ => true
  | .ldx, .direct | .ldx, .absolute | .ldy, .direct | .ldy, .absolute | .stx, .direct
  | .stx, .absolute | .sty, .direct | .sty, .absolute | .cpx, .direct | .cpx, .absolute
  | .cpy, .direct | .cpy, .absolute | .stz, .direct | .stz, .absolute => true
  | _, _ => false

namespace Machine

variable (symbols : String → Int)

def span? (machine : Machine) (operation : Operation) : Option Span :=
  let number := operation.number symbols
  let bank := 0x10000 * (machine.bank.toNat : Int)
  match operation.mode with
  | .direct => some (.bankZero (machine.direct.toNat + number))
  | .absolute => some (.anyBank (bank + number % 0x10000))
  | .absoluteX => some (.anyBank (bank + number % 0x10000 + machine.x.toNat))
  | .absoluteY => some (.anyBank (bank + number % 0x10000 + machine.y.toNat))
  | .long => some (.anyBank number)
  | .longX => some (.anyBank (number + machine.x.toNat))
  | .stackRelative => some (.bankZero (machine.stack.toNat + number))
  | .indirect =>
    let pointer := machine.memory.read (.bankZero (machine.direct.toNat + number)) .wide
    some (.anyBank (bank + pointer))
  | _ => none

/-- The value of an operand. An immediate value has the size of the register. -/
def fetch? (machine : Machine) (operation : Operation) (mode : Mode) : Option Int :=
  if operation.mode = .immediate then
    if operation.width = mode.width.bytes then some (mode.width.truncate (operation.number symbols))
    else none
  else if operation.op.reaches operation.mode then
    (machine.span? symbols operation).map fun span => machine.memory.read span mode
  else none

def put? (machine : Machine) (operation : Operation) (mode : Mode) (number : Int) :
    Option Machine :=
  if operation.op.reaches operation.mode then
    (machine.span? symbols operation).map fun span =>
      { machine with memory := machine.memory.write span mode number }
  else none

/-! ## Instructions -/

def perform (machine : Machine) : Op → Option Machine
  | .inc => some (machine.setAccumulator (machine.accumulator + 1))
  | .inx => some (machine.setX (machine.x.toNat + 1))
  | .iny => some (machine.setY (machine.y.toNat + 1))
  | .asl => some machine.shiftLeft
  | .lsr => some (machine.shiftRight false)
  | .ror => some (machine.shiftRight machine.carry)
  | .clc => some { machine with carry := false }
  | .sec => some { machine with carry := true }
  | .tax => some (machine.setX machine.whole)
  | .tay => some (machine.setY machine.whole)
  | .txa => some (machine.setAccumulator machine.x.toNat)
  | .tya => some (machine.setAccumulator machine.y.toNat)
  | .txy => some (machine.setY machine.x.toNat)
  | .tyx => some (machine.setX machine.y.toNat)
  | .xba => some machine.exchange
  | .pha => some machine.pushAccumulator
  | .phx => some (machine.pushWord machine.x.toNat)
  | .phy => some (machine.pushWord machine.y.toNat)
  | .pla => some machine.pullAccumulator
  | _ => none

def switch (machine : Machine) (operation : Operation) (mode : Mode) : Option Machine :=
  if operation.mode = .immediate ∧ operation.width = 1 ∧ operation.value = accumulatorFlag then
    some { machine with mode }
  else none

def access (machine : Machine) (operation : Operation) : Option Machine :=
  match operation.op with
  | .lda => (machine.fetch? symbols operation machine.mode).map machine.setAccumulator
  | .ldx => (machine.fetch? symbols operation .wide).map machine.setX
  | .ldy => (machine.fetch? symbols operation .wide).map machine.setY
  | .sta => machine.put? symbols operation machine.mode machine.accumulator
  | .stx => machine.put? symbols operation .wide machine.x.toNat
  | .sty => machine.put? symbols operation .wide machine.y.toNat
  | .stz => machine.put? symbols operation machine.mode 0
  | .adc => (machine.fetch? symbols operation machine.mode).map machine.add
  | .sbc => (machine.fetch? symbols operation machine.mode).map machine.subtract
  | .and =>
    (machine.fetch? symbols operation machine.mode).map fun number =>
      machine.setAccumulator (machine.accumulator.toNat &&& number.toNat : Nat)
  | .ora =>
    (machine.fetch? symbols operation machine.mode).map fun number =>
      machine.setAccumulator (machine.accumulator.toNat ||| number.toNat : Nat)
  | .eor =>
    (machine.fetch? symbols operation machine.mode).map fun number =>
      machine.setAccumulator (machine.accumulator.toNat ^^^ number.toNat : Nat)
  | .cmp =>
    (machine.fetch? symbols operation machine.mode).map (machine.compare machine.accumulator)
  | .cpx => (machine.fetch? symbols operation .wide).map (machine.compare machine.x.toNat)
  | .cpy => (machine.fetch? symbols operation .wide).map (machine.compare machine.y.toNat)
  | .rep => machine.switch operation .wide
  | .sep => machine.switch operation .narrow
  | _ => none

/-- The state after an instruction that control passes. -/
def execute (machine : Machine) (operation : Operation) : Option Machine :=
  if operation.mode = .implied then machine.perform operation.op
  else machine.access symbols operation

def takes? (machine : Machine) : Op → Option Bool
  | .bra => some true
  | .beq => some machine.zero
  | .bne => some !machine.zero
  | .bcs => some machine.carry
  | .bcc => some !machine.carry
  | _ => none

end Machine

/-! ## Code -/

/-- Where control is. -/
inductive Control where
  | running
  | seeking (label : String)
  | away (table : String) (offset : BitVec 16)
deriving DecidableEq

abbrev MachinePoint := Control × Machine

section Code

variable (symbols : String → Int)

/-- The next point of a run that is about to execute an instruction. -/
def Operation.advance (operation : Operation) (machine : Machine) : Option MachinePoint :=
  match operation.mode with
  | .relative =>
    (machine.takes? operation.op).map fun taken =>
      (if taken then .seeking operation.symbol else .running, machine)
  | .indexedIndirect =>
    if operation.op = .jmp then some (.away operation.symbol machine.x, machine) else none
  | _ => (machine.execute symbols operation).map (Control.running, ·)

def Instr.advance (point : MachinePoint) (instr : Instr) : Option MachinePoint :=
  match point.1, instr with
  | .running, .label _ => some point
  | .running, .run operation => operation.advance symbols point.2
  | .seeking sought, .label name =>
    some (if name = sought then .running else .seeking sought, point.2)
  | .seeking _, .run _ | .away _ _, _ => some point

def runCode (code : List Instr) (point : MachinePoint) : Option MachinePoint :=
  code.foldlM (Instr.advance symbols) point

variable {symbols}

@[simp]
theorem runCode_cons (instr : Instr) (code : List Instr) (point : MachinePoint) :
    runCode symbols (instr :: code) point =
      (Instr.advance symbols point instr).bind (runCode symbols code) :=
  List.foldlM_cons ..

theorem runCode_append (front back : List Instr) (point : MachinePoint) :
    runCode symbols (front ++ back) point =
      (runCode symbols front point).bind (runCode symbols back) :=
  List.foldlM_append

theorem runCode_append_of {front back : List Instr} {point mid after : MachinePoint}
    (first : runCode symbols front point = some mid)
    (second : runCode symbols back mid = some after) :
    runCode symbols (front ++ back) point = some after := by
  rw [runCode_append, first]
  exact second

end Code

end Backend65816
