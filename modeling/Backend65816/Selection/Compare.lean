import Backend65816.Selection.Operand

/-!
# Comparisons

The carry flag answers "less" and "not less" after a comparison, the zero flag "equal". A comparison
with a number that the flags do not answer directly is changed to one with the next number; one that
no value or every value satisfies needs no code.
-/

namespace Backend65816

/-- A comparison as the flags can answer it. -/
inductive Comparison where
  | always
  | never
  | test (condition : Cond) (right : Value)
deriving DecidableEq, Repr

def Comparison.ofCond (condition : Cond) (right : Value) (width : Width) : Comparison :=
  match right with
  | .reg register => .test condition (.reg register)
  | .imm number =>
    let bound := width.truncate number
    match condition with
    | .le => if bound = width.mask then .always else .test .lt (.imm (bound + 1))
    | .gt => if bound = width.mask then .never else .test .ge (.imm (bound + 1))
    | .lt => if bound = 0 then .never else .test .lt (.imm bound)
    | .ge => if bound = 0 then .always else .test .ge (.imm bound)
    | .eq => .test .eq (.imm bound)
    | .ne => .test .ne (.imm bound)

namespace Select

def compareIndexWithAccumulator (op : Op) (width : Width) : Select Unit := do
  let temp ← operandTemp
  emit [.direct .sta temp]
  if width = .byte then emit [.direct .stz (temp + 1)]
  emit [.direct op temp]

def compareIndex (hardware : Reg) (right : Value) (width : Width) : Select Unit := do
  let op := hardware.compareOp
  match right with
  | .imm number => emit [.immediate op number 2]
  | .reg register => do
      let location ← place register
      match location with
      | .reg .x => emit [.direct .stx (← operandTemp), .direct op (← operandTemp)]
      | .reg .y => emit [.direct .sty (← operandTemp), .direct op (← operandTemp)]
      | .reg .a =>
        setAccumulator width
        compareIndexWithAccumulator op width
      | _ =>
        if width = .word ∧ location.isIndexable then emit [← memory op location]
        else
          setAccumulator width
          loadAccumulator register
          compareIndexWithAccumulator op width

def compare (left : VReg) (right : Value) (width : Width) : Select Unit := do
  match ← place left with
  | .reg .x => compareIndex .x right width
  | .reg .y => compareIndex .y right width
  | _ =>
    setAccumulator width
    let instr ← operand .cmp right width
    loadAccumulator left
    emit [instr]

def branchOn (condition : Cond) (label : String) : Select Unit := do
  match condition with
  | .eq => emit [.branch .beq label]
  | .ne => emit [.branch .bne label]
  | .lt => emit [.branch .bcc label]
  | .ge => emit [.branch .bcs label]
  | .le => emit [.branch .bcc label, .branch .beq label]
  | .gt =>
    let skip ← freshLabel "s"
    emit [.branch .beq skip, .branch .bcs label, .label skip]

/-- Branches to a label when a condition holds, and falls through otherwise. The accumulator has the
width of the mode when the branch runs; switching it leaves the flags alone. -/
def compareBranch (condition : Cond) (left : VReg) (right : Value) (label : String) :
    Select Unit := do
  let width ← widthOf left
  match Comparison.ofCond condition right width with
  | .always => emit [.branch .bra label]
  | .never => pure ()
  | .test condition right =>
    compare left right width
    setAccumulator (← modeWidth)
    branchOn condition label

end Select

end Backend65816
