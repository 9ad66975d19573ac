import Backend65816.Selection.Operand

/-!
# Code of calls

Arguments on the stack are pushed before a call and released after it. While they are there, other
operands on the stack are farther away. A call through a table scales the tag of the receiver and
jumps to the entry.
-/

namespace Backend65816

namespace Select

def emitIf (condition : Bool) (code : List Instr) : Select Unit :=
  if condition then emit code else pure ()

def adjustStack (bytes : Int) : Select Unit := do
  if bytes = 0 then pure ()
  else
    let temp ← saveTemp
    let narrow := (← read).graph.mode = .narrow
    emitIf narrow [.widenAccumulator]
    emit [.direct .sta temp, .plain .tsc]
    if bytes > 0 then emit [.plain .clc, .immediate .adc bytes 2]
    else emit [.plain .sec, .immediate .sbc (-bytes) 2]
    emit [.plain .tcs, .direct .lda temp]
    emitIf narrow [.narrowAccumulator]

def releaseArguments (bytes : Nat) : Select Unit := do
  if bytes = 0 then pure ()
  else
    adjustStack bytes
    modify fun state => { state with depth := state.depth - bytes }

def push (value : Value) : Select Unit := do
  match value with
  | .imm _ => reject .immediatePush
  | .reg source =>
    let width ← widthOf source
    let throughAccumulator : Select Unit := do
      setAccumulator width
      loadAccumulator source
      emit [.plain .pha]
    match ← place source with
    | .reg .x => if width = .word then emit [.plain .phx] else throughAccumulator
    | .reg .y => if width = .word then emit [.plain .phy] else throughAccumulator
    | _ => throughAccumulator
    modify fun state => { state with depth := state.depth + width.bytes }

def call (details : DirectCall) : Select Unit := do
  if details.far then emit [.long .jsl details.function]
  else emit [.absolute .jsr details.function]
  releaseArguments details.stackBytes

/-- Jumps to an entry of a table of long jumps, with a return address of three bytes pushed by
hand. The doubled tag is in the accumulator of 16 bits. -/
def jumpThroughTrampoline (table : String) (narrow : Bool) : Select Unit := do
  let pointer ← pointerTemp
  let back ← freshLabel "r"
  emit [
    .plain .asl,
    .plain .clc,
    .immediateSymbol .adc table 2,
    .direct .sta pointer,
    .narrowAccumulator,
    .immediateSymbol .lda ("^" ++ table) 1,
    .direct .sta (pointer + 2),
    .widenAccumulator,
    .direct .lda (← saveTemp)]
  emitIf narrow [.narrowAccumulator]
  emit [
    .plain .phk,
    .run { op := .per, mode := .relativeLong, symbol := back ++ "-1" },
    .run { op := .jml, mode := .indirectLong, value := pointer },
    .label back]

/-- A call through a dispatch table. The receiver is in `y`, and its first byte is the tag; `x`
takes the scaled tag, so no argument may be there. -/
def dispatch (details : TableCall) : Select Unit := do
  let temp ← saveTemp
  let narrow := (← read).graph.mode = .narrow
  emitIf narrow [.widenAccumulator]
  emit [
    .direct .sta temp,
    .run { op := .lda, mode := .absoluteY },
    .immediate .and 0x00FF 2,
    .plain .asl]
  if details.far then jumpThroughTrampoline details.table narrow
  else
    emit [.plain .tax, .direct .lda temp]
    emitIf narrow [.narrowAccumulator]
    emit [.run { op := .jsr, mode := .indexedIndirect, symbol := details.table }]
  releaseArguments details.stackBytes

end Select

end Backend65816
