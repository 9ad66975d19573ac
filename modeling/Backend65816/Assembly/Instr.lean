import Backend65816.Machine.Location

/-!
# Instructions

One record per machine instruction, with a symbolic operand where code or data is referred to by
name, and labels between them. The size of an instruction follows from its addressing mode alone.
-/

namespace Backend65816

/-- Mnemonics. -/
inductive Op where
  | lda | ldx | ldy | sta | stx | sty | stz | adc | sbc | and | ora | eor | cmp | cpx | cpy | inc
  | dec | inx | iny | dex | dey | asl | lsr | ror | clc | sec | tax | tay | txa | tya | txy | tyx
  | tsc | tcs | xba | pha | pla | phx | plx | phy | ply | phb | plb | phk | phd | pld | php | plp
  | per | pea | pei | rep | sep | jsr | jsl | rts | rtl | rti | jmp | jml | bra | brl | beq | bne
  | bcc | bcs | bmi | bpl | bvc | bvs | brk | nop
  | other (text : String)
deriving DecidableEq, Repr, Inhabited

namespace Op

def text : Op → String
  | lda => "LDA"
  | ldx => "LDX"
  | ldy => "LDY"
  | sta => "STA"
  | stx => "STX"
  | sty => "STY"
  | stz => "STZ"
  | adc => "ADC"
  | sbc => "SBC"
  | and => "AND"
  | ora => "ORA"
  | eor => "EOR"
  | cmp => "CMP"
  | cpx => "CPX"
  | cpy => "CPY"
  | inc => "INC"
  | dec => "DEC"
  | inx => "INX"
  | iny => "INY"
  | dex => "DEX"
  | dey => "DEY"
  | asl => "ASL"
  | lsr => "LSR"
  | ror => "ROR"
  | clc => "CLC"
  | sec => "SEC"
  | tax => "TAX"
  | tay => "TAY"
  | txa => "TXA"
  | tya => "TYA"
  | txy => "TXY"
  | tyx => "TYX"
  | tsc => "TSC"
  | tcs => "TCS"
  | xba => "XBA"
  | pha => "PHA"
  | pla => "PLA"
  | phx => "PHX"
  | plx => "PLX"
  | phy => "PHY"
  | ply => "PLY"
  | phb => "PHB"
  | plb => "PLB"
  | phk => "PHK"
  | phd => "PHD"
  | pld => "PLD"
  | php => "PHP"
  | plp => "PLP"
  | per => "PER"
  | pea => "PEA"
  | pei => "PEI"
  | rep => "REP"
  | sep => "SEP"
  | jsr => "JSR"
  | jsl => "JSL"
  | rts => "RTS"
  | rtl => "RTL"
  | rti => "RTI"
  | jmp => "JMP"
  | jml => "JML"
  | bra => "BRA"
  | brl => "BRL"
  | beq => "BEQ"
  | bne => "BNE"
  | bcc => "BCC"
  | bcs => "BCS"
  | bmi => "BMI"
  | bpl => "BPL"
  | bvc => "BVC"
  | bvs => "BVS"
  | brk => "BRK"
  | nop => "NOP"
  | other text => text

def listed : List Op :=
  [
    .lda, .ldx, .ldy, .sta, .stx, .sty, .stz, .adc, .sbc, .and, .ora, .eor, .cmp, .cpx, .cpy,
    .inc, .dec, .inx, .iny, .dex, .dey, .asl, .lsr, .ror, .clc, .sec, .tax, .tay, .txa, .tya,
    .txy, .tyx, .tsc, .tcs, .xba, .pha, .pla, .phx, .plx, .phy, .ply, .phb, .plb, .phk, .phd,
    .pld, .php, .plp, .per, .pea, .pei, .rep, .sep, .jsr, .jsl, .rts, .rtl, .rti, .jmp, .jml,
    .bra, .brl, .beq, .bne, .bcc, .bcs, .bmi, .bpl, .bvc, .bvs, .brk, .nop]

def ofText (text : String) : Op := (listed.find? (·.text = text)).getD (other text)

def isConditional : Op → Bool
  | beq | bne | bcc | bcs | bmi | bpl | bvc | bvs => true
  | _ => false

def isBranch (op : Op) : Bool := op.isConditional || op = bra || op = brl

def invert : Op → Op
  | beq => bne
  | bne => beq
  | bcc => bcs
  | bcs => bcc
  | bmi => bpl
  | bpl => bmi
  | bvc => bvs
  | bvs => bvc
  | op => op

theorem invert_invert (op : Op) : op.invert.invert = op := by
  cases op <;> rfl

theorem isConditional_invert (op : Op) : op.invert.isConditional = op.isConditional := by
  cases op <;> rfl

end Op

/-- Addressing modes. -/
inductive AddressMode where
  | implied
  | immediate
  | direct
  | directX
  | absolute
  | absoluteX
  | absoluteY
  | long
  | longX
  | stackRelative
  | indirect
  | indirectY
  | indirectLong
  | indexedIndirect
  | relative
  | relativeLong
  | other
deriving DecidableEq, Repr, Inhabited

def AddressMode.ofName (name : String) : AddressMode :=
  match name with
  | "imm" => immediate
  | "dp" => direct
  | "dpx" => directX
  | "abs" => absolute
  | "absx" => absoluteX
  | "absy" => absoluteY
  | "long" => long
  | "longx" => longX
  | "sr" => stackRelative
  | "ind" => indirect
  | "indy" => indirectY
  | "indlong" => indirectLong
  | "absxind" => indexedIndirect
  | "rel" => relative
  | "rellong" => relativeLong
  | "other" => other
  | _ => implied

/-- An instruction of the machine. -/
structure Operation where
  op : Op
  mode : AddressMode := .implied
  value : Int := 0
  symbol : String := ""
  width : Nat := 0
  distance : Int := 0
deriving DecidableEq, Repr, Inhabited

/-- A piece of code. -/
inductive Instr where
  | label (name : String)
  | run (operation : Operation)
deriving DecidableEq, Repr, Inhabited

def accumulatorFlag : Int := 0x20

namespace Operation

def size (operation : Operation) : Nat :=
  match operation.mode with
  | .implied | .other => 1
  | .immediate => if operation.width = 2 then 3 else 2
  | .direct | .directX | .stackRelative | .indirect | .indirectY | .indirectLong | .relative => 2
  | .absolute | .absoluteX | .absoluteY | .indexedIndirect | .relativeLong => 3
  | .long | .longX => 4

theorem size_pos (operation : Operation) : 0 < operation.size := by
  unfold size
  split <;> (try split) <;> decide

def reference (operation : Operation) : String :=
  if operation.symbol = "" then "$" ++ Text.hex operation.value else operation.symbol

def operandText (operation : Operation) : String :=
  match operation.mode with
  | .implied => ""
  | .immediate =>
    if operation.symbol ≠ "" then "#" ++ operation.symbol
    else if operation.width = 2 then "#$" ++ Text.hexPadded 4 (operation.value % 0x10000)
    else "#$" ++ Text.hexPadded 2 (operation.value % 0x100)
  | .direct | .absolute | .relative | .relativeLong | .other => operation.reference
  | .directX | .absoluteX => operation.reference ++ ",X"
  | .absoluteY => operation.reference ++ ",Y"
  | .long => "f:" ++ operation.reference
  | .longX => "f:" ++ operation.reference ++ ",X"
  | .stackRelative => toString operation.value ++ ",S"
  | .indirect => "(" ++ operation.reference ++ ")"
  | .indirectY => "(" ++ operation.reference ++ "),Y"
  | .indirectLong => "[" ++ operation.reference ++ "]"
  | .indexedIndirect => "(" ++ operation.reference ++ ",X)"

def textWith (gap : String) (operation : Operation) : String :=
  match operation.operandText with
  | "" => operation.op.text
  | operand => operation.op.text ++ gap ++ operand

def touchesAccumulatorFlag (operation : Operation) : Bool :=
  operation.value / accumulatorFlag % 2 = 1

end Operation

namespace Instr

def size : Instr → Nat
  | label _ => 0
  | run operation => operation.size

def label? : Instr → Option String
  | label name => some name
  | run _ => none

def operation? : Instr → Option Operation
  | label _ => none
  | run operation => some operation

def isBranch : Instr → Bool
  | label _ => false
  | run operation => operation.op.isBranch

def text : Instr → String
  | label name => name ++ ":"
  | run operation => operation.textWith " "

def plain (op : Op) : Instr := run { op }

def immediate (op : Op) (value : Int) (width : Nat) : Instr :=
  run { op, mode := .immediate, value, width }

def immediateSymbol (op : Op) (symbol : String) (width : Nat) : Instr :=
  run { op, mode := .immediate, symbol, width }

def direct (op : Op) (value : Int) : Instr := run { op, mode := .direct, value }

def absolute (op : Op) (symbol : String) : Instr := run { op, mode := .absolute, symbol }

def absoluteAt (op : Op) (value : Int) : Instr := run { op, mode := .absolute, value }

def long (op : Op) (symbol : String) : Instr := run { op, mode := .long, symbol }

def indirect (op : Op) (value : Int) : Instr := run { op, mode := .indirect, value }

def stackRelative (op : Op) (value : Int) : Instr := run { op, mode := .stackRelative, value }

def branch (op : Op) (symbol : String) : Instr :=
  run { op, mode := if op = .brl then .relativeLong else .relative, symbol }

def widenAccumulator : Instr := immediate .rep accumulatorFlag 1

def narrowAccumulator : Instr := immediate .sep accumulatorFlag 1

def selectMode : Mode → Instr
  | .wide => widenAccumulator
  | .narrow => narrowAccumulator

end Instr

end Backend65816
