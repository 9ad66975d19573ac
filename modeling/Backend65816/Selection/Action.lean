import Backend65816.Selection.Compare

/-!
# Code of actions

One definition per kind of action. The case distinctions follow those of `Graph.writes`, which says
what registers the code may overwrite.
-/

namespace Backend65816

namespace Select

def const (target : VReg) (value : Int) : Select Unit := do
  let location ← place target
  let width ← widthOf target
  let number := width.truncate value
  match location with
  | .reg .x => emit [.immediate .ldx number 2]
  | .reg .y => emit [.immediate .ldy number 2]
  | .reg .b => emit [.plain .xba, .immediate .lda number 1, .plain .xba]
  | _ =>
    setAccumulator width
    if number = 0 ∧ location.isIndexable then emit [← memory .stz location]
    else
      emit [.immediate .lda number width.bytes]
      storeAccumulator target

def moveFromB (target : Loc) : Select Unit := do
  setAccumulator .byte
  let temp ← operandTemp
  match target with
  | .reg .a => emit [.plain .xba, .plain .pha, .plain .xba, .plain .pla]
  | .reg .x =>
    emit [.plain .xba, .direct .sta temp, .plain .xba, .direct .stz (temp + 1),
      .direct .ldx temp]
  | .reg .y =>
    emit [.plain .xba, .direct .sta temp, .plain .xba, .direct .stz (temp + 1),
      .direct .ldy temp]
  | _ => emit [.plain .xba, ← memory .sta target, .plain .xba]

def moveToB (source : Loc) : Select Unit := do
  setAccumulator .byte
  match source with
  | .reg .a => emit [.plain .pha, .plain .xba, .plain .pla]
  | .reg .x => emit [.plain .xba, .plain .txa, .plain .xba]
  | .reg .y => emit [.plain .xba, .plain .tya, .plain .xba]
  | _ => emit [.plain .xba, ← memory .lda source, .plain .xba]

def moveThroughAccumulator (target source : VReg) (width : Width) : Select Unit := do
  setAccumulator width
  loadAccumulator source
  storeAccumulator target

def move (target source : VReg) : Select Unit := do
  let targetPlace ← place target
  let sourcePlace ← place source
  let width ← widthOf target
  if targetPlace = sourcePlace then pure ()
  else
    match sourcePlace, targetPlace with
    | .reg .b, _ => moveFromB targetPlace
    | _, .reg .b => moveToB sourcePlace
    | .reg .x, .reg .y => emit [.plain .txy]
    | .reg .y, .reg .x => emit [.plain .tyx]
    | _, .reg .x =>
      if width = .word ∧ sourcePlace.isIndexable then emit [← memory .ldx sourcePlace]
      else moveThroughAccumulator target source width
    | _, .reg .y =>
      if width = .word ∧ sourcePlace.isIndexable then emit [← memory .ldy sourcePlace]
      else moveThroughAccumulator target source width
    | .reg .x, _ =>
      if width = .word ∧ targetPlace.isIndexable then emit [← memory .stx targetPlace]
      else moveThroughAccumulator target source width
    | .reg .y, _ =>
      if width = .word ∧ targetPlace.isIndexable then emit [← memory .sty targetPlace]
      else moveThroughAccumulator target source width
    | _, _ => moveThroughAccumulator target source width

def convert (target source : VReg) (signed : Bool) : Select Unit := do
  let targetWidth ← widthOf target
  let sourceWidth ← widthOf source
  if targetWidth.bytes > sourceWidth.bytes then
    loadExtended source
    if signed then emit [.immediate .eor 0x0080 2, .plain .sec, .immediate .sbc 0x0080 2]
  else
    setAccumulator targetWidth
    loadAccumulator source
  storeAccumulator target

def shiftStep (kind : BinKind) (width : Width) : List Instr :=
  match kind with
  | .shl => [.plain .asl]
  | .sar => [.immediate .cmp width.signBit width.bytes, .plain .ror]
  | _ => [.plain .lsr]

def shift (kind : BinKind) (target left : VReg) (right : Value) (width : Width) :
    Select Unit := do
  match right with
  | .reg _ => reject .variableShift
  | .imm amount =>
    loadAccumulator left
    let steps := (min amount width.bits).toNat
    emit (List.replicate steps (shiftStep kind width)).flatten
    storeAccumulator target

def arithmeticOp (kind : BinKind) : List Instr × Op :=
  match kind with
  | .add => ([.plain .clc], .adc)
  | .sub => ([.plain .sec], .sbc)
  | .and => ([], .and)
  | .or => ([], .ora)
  | _ => ([], .eor)

def arithmetic (kind : BinKind) (target left : VReg) (right : Value) (width : Width) :
    Select Unit := do
  let (carry, op) := arithmeticOp kind
  let instr ← operand op right width
  loadAccumulator left
  emit (carry ++ [instr])
  storeAccumulator target

def bin (kind : BinKind) (target left : VReg) (right : Value) (noWrap : Bool) : Select Unit := do
  let location ← place target
  let width ← widthOf target
  if incrementsInPlace kind target left right noWrap location then
    emit [.plain (if location = .reg .y then .iny else .inx)]
  else
    setAccumulator width
    if kind.isShift then shift kind target left right width
    else arithmetic kind target left right width

def un (kind : UnKind) (target source : VReg) : Select Unit := do
  let width ← widthOf target
  setAccumulator width
  loadAccumulator source
  match kind with
  | .neg => emit [.immediate .eor width.mask width.bytes, .plain .inc]
  | .cpl => emit [.immediate .eor width.mask width.bytes]
  | .not => emit [.immediate .eor 1 width.bytes]
  storeAccumulator target

def setCond (condition : Cond) (target left : VReg) (right : Value) : Select Unit := do
  let yes ← freshLabel "t"
  let done ← freshLabel "d"
  compareBranch condition left right yes
  let width := (← get).accumulator.bytes
  emit [.immediate .lda 0 width, .branch .bra done, .label yes, .immediate .lda 1 width,
    .label done]
  setAccumulator (← widthOf target)
  storeAccumulator target

def loadAbsolute (target : VReg) (location : Loc) (width : Width) (address : Address) :
    Select Unit := do
  let throughAccumulator : Select Unit := do
    setAccumulator width
    emit [address.instr .lda]
    storeAccumulator target
  match location with
  | .reg .x =>
    if !address.far && width = .word then emit [address.instr .ldx] else throughAccumulator
  | .reg .y =>
    if !address.far && width = .word then emit [address.instr .ldy] else throughAccumulator
  | _ => throughAccumulator

def load (target : VReg) (address : Address) : Select Unit := do
  let location ← place target
  let width ← widthOf target
  match address.base with
  | none => loadAbsolute target location width address
  | some base =>
    match ← place base with
    | .reg .x =>
      setAccumulator width
      emit [indexedInstr .lda .x address.offset]
    | .reg .y =>
      setAccumulator width
      emit [indexedInstr .lda .y address.offset]
    | _ =>
      computePointer base address.offset
      setAccumulator width
      emit [.indirect .lda (← pointerTemp)]
    storeAccumulator target

def storeAbsolute (source : VReg) (location : Loc) (width : Width) (address : Address) :
    Select Unit := do
  let throughAccumulator : Select Unit := do
    setAccumulator width
    loadAccumulator source
    emit [address.instr .sta]
  match location with
  | .reg .x =>
    if !address.far && width = .word then emit [address.instr .stx] else throughAccumulator
  | .reg .y =>
    if !address.far && width = .word then emit [address.instr .sty] else throughAccumulator
  | _ => throughAccumulator

/-- A write behind a pointer that no index register holds. A value in the accumulator waits in a
temporary while the address is computed. -/
def storeIndirect (source base : VReg) (location : Loc) (width : Width) (offset : Int) :
    Select Unit := do
  let temp ← operandTemp
  if location = .reg .a then
    setAccumulator width
    emit [.direct .sta temp]
    computePointer base offset
    setAccumulator width
    emit [.direct .lda temp]
  else
    computePointer base offset
    setAccumulator width
    loadAccumulator source
  emit [.indirect .sta (← pointerTemp)]

def store (address : Address) (value : Value) : Select Unit := do
  match value with
  | .imm _ => reject .immediateStore
  | .reg source =>
    let location ← place source
    let width ← widthOf source
    match address.base with
    | none => storeAbsolute source location width address
    | some base =>
      match ← place base with
      | .reg .x =>
        setAccumulator width
        loadAccumulator source
        emit [indexedInstr .sta .x address.offset]
      | .reg .y =>
        setAccumulator width
        loadAccumulator source
        emit [indexedInstr .sta .y address.offset]
      | _ => storeIndirect source base location width address.offset

def lookup (target : VReg) (table : String) (index : VReg) : Select Unit := do
  let width ← widthOf target
  let tableWidth := (← read).graph.tableWidth table
  if tableWidth = .byte ∧ (← place index) = .reg .x then setAccumulator width
  else
    loadExtended index
    if tableWidth = .word then emit [.plain .asl]
    emit [.plain .tax]
    setAccumulator width
  emit [.run { op := .lda, mode := .longX, symbol := table }]
  storeAccumulator target

end Select

end Backend65816
