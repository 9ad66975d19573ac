import Backend65816.Lowering.Function
import Backend65816.Proofs.FunctionModes

/-!
# Balance of the stack

The code of a function leaves the stack as it found it. On the way, every block starts and ends with
the saved registers and the frame on the stack, provided that the actions of each block release the
bytes that they push.
-/

namespace Backend65816

variable {routine : Routine}

namespace Routine

/-- On every path from the entry, the stack has grown by as many bytes at all labels of blocks and at
all branches and jumps, and it is back at every return. -/
structure StackBalanced (routine : Routine) (tables : List DataTable) (bytes : Int) : Prop where
  label {position : Nat} {state : StackState} {name : String}
    (reaches : routine.StackReaches tables (some 0) (position, state))
    (here : routine.code[position]? = some (.label name)) (target : resumesCall name = false) :
    state.level = some bytes
  jump {position : Nat} {state : StackState} {operation : Operation}
    (reaches : routine.StackReaches tables (some 0) (position, state))
    (here : routine.code[position]? = some (.run operation)) (jumps : operation.CanJump) :
    state.level = some bytes
  giveBack {position : Nat} {state : StackState} {operation : Operation}
    (reaches : routine.StackReaches tables (some 0) (position, state))
    (here : routine.code[position]? = some (.run operation))
    (returns : operation.Returns ∨ operation.op = .rti) : state.level = some 0

theorem stackBalanced_of_leadsModes {tables : List DataTable} {body : StackState} {bytes : Int}
    (leads : LeadsModes body (some { level := some 0 }) routine.code none)
    (bare : body.held = none) (counted : body.level = some bytes)
    (free : ∀ table ∈ tables, ∀ target ∈ table.targets, resumesCall target = false) :
    routine.StackBalanced tables bytes := by
  have open_labels (name label) (listed : ListsTarget tables name label) : ¬body.Passes label := by
    obtain ⟨front, table, back, rfl, -, -, mem⟩ := listed
    have other := free table (by simp) label mem
    exact fun passes => absurd passes.2 (other ▸ Bool.false_ne_true)
  obtain ⟨view, fits, -, seen⟩ := exists_seen leads bare open_labels
  refine ⟨fun reaches here target => ?_, fun reaches here jumps => ?_,
    fun reaches here returns => ?_⟩
  · have at_body := (seen _ reaches).eq_body fits here fun passes => by simp [passes.2] at target
    simp_all
  · obtain ⟨-, -, leads⟩ := ((seen _ reaches).leads fits here).2
    simp_all
  · obtain ⟨-, -, leads⟩ := ((seen _ reaches).leads fits here).2
    simp_all

end Routine

/-- Where the actions of each block release what they push, the stack holds the saved registers and
the frame at every boundary of blocks, whether its label is kept or not, and nothing at a return. -/
theorem Graph.select_stackBalanced (graph : Graph) (allocation : Allocation)
    (signature : Signature) (settings : Settings) (selected : SelectedCode)
    (nonempty : graph.blocks ≠ #[]) (same_mode : signature.mode = graph.mode)
    (balances : ∀ entry ∈ graph.blocks.toList.zipIdx,
      graph.Balances allocation.noOps entry.2 entry.1.actions.zipIdx 0)
    (selects : graph.select allocation signature settings = .ok selected) :
    let bytes : Int := signature.savedBytes + (if signature.interrupt.isSome then 8 else 0) +
      allocation.frameSize
    selected.routine.StackBalanced selected.tables bytes ∧
      ∃ final, Select.function allocation.noOps (graph.selecting allocation signature settings)
          { accumulator := graph.mode.width } = .ok ((), final) ∧
        { selected.routine with code := final.code.toList }.StackBalanced selected.tables bytes := by
  intro bytes
  obtain ⟨final, outcome, code_eq, jumps⟩ := Graph.select_ok selects
  let context := graph.selecting allocation signature settings
  have modes : final.InModes context (context.body (some 0)) [] none :=
    Select.function_inModes same_mode rfl nonempty (.inr balances) _ _ outcome
  have counted : (context.body (some 0)).level = some bytes := congrArg some (Int.zero_add _)
  have free (table) (listed : table ∈ selected.tables) (target) (mem : target ∈ table.targets) :
      resumesCall target = false := by
    obtain ⟨_, -, id, -, rfl⟩ := modes.2.targets table (jumps table listed target mem) target mem
    exact resumesCall_blockLabel _ _
  exact ⟨Routine.stackBalanced_of_leadsModes (code_eq ▸ modes.1.filter _) rfl counted free,
    final, outcome, Routine.stackBalanced_of_leadsModes modes.1 rfl counted free⟩

/-- A loop around a call with three bytes of arguments, in a function with a frame. -/
def passing : Graph where
  name := "f"
  blocks := #[
    { actions := [.push (.reg 1), .push (.reg 2), .call { function := "g", stackBytes := 3 }]
      terminator := some (.branch .eq 1 (.imm 5) 0 1) },
    { terminator := some (.giveBack []) }]
  vregs := #[{}, { width := .word }, { width := .byte }]

theorem passing_stackBalanced :
    ∃ selected, passing.select { locations := #[.nowhere, .reg .x, .scratch 0], frameSize := 4 }
        { name := "f" } .standard = .ok selected ∧
      selected.routine.StackBalanced selected.tables 5 := by
  obtain ⟨selected, selects⟩ : ∃ selected,
      passing.select { locations := #[.nowhere, .reg .x, .scratch 0], frameSize := 4 }
        { name := "f" } .standard = .ok selected := ⟨_, rfl⟩
  refine ⟨selected, selects, (passing.select_stackBalanced _ _ _ _ (by decide) rfl ?_ selects).1⟩
  intro entry listed
  obtain rfl | rfl : entry = _ ∨ entry = _ := by simpa [passing] using listed
  · exact ⟨rfl, rfl, trivial, rfl⟩
  · exact rfl

/-! ## Receivers -/

namespace Routine.StackReaches

variable {tables : List DataTable} {start : Option Int} {pos : Nat} {state : StackState}
  {op : Operation}

/-- A step to the next instruction. -/
theorem fall (next : StackState) (reaches : routine.StackReaches tables start (pos, state))
    (here : routine.code[pos]? = some (.run op))
    (other : op.op ∉ [.rts, .rtl, .rti, .bra, .brl, .jmp, .jml]) (shifts : op.Shifts state next) :
    routine.StackReaches tables start (pos + 1, next) := by
  have falls : ¬op.EndsPath := by
    rintro ((isOp | isOp) | isOp | isOp | isOp | ⟨isOp | isOp, -⟩ | ⟨isOp, -⟩) <;>
      simp [isOp] at other
  refine reaches.tail ⟨.fall here shifts.1 falls, fun _ found => ?_⟩
  cases here.symm.trans found
  exact shifts.2

/-- A step that keeps the modes. -/
theorem stay (level held : Option Int) (reaches : routine.StackReaches tables start (pos, state))
    (here : routine.code[pos]? = some (.run op))
    (other : op.op ∉ [.rts, .rtl, .rti, .bra, .brl, .jmp, .jml])
    (keeps : op.op ∉ [.rep, .sep, .php, .plp]) (shift_eq : (level, held) = op.shift state) :
    routine.StackReaches tables start (pos + 1, { state with level, held }) := by
  refine fall _ reaches here other ⟨.keep ?_, shift_eq⟩
  rintro (⟨isOp | isOp, -⟩ | isOp | isOp) <;> simp [isOp] at keeps

end Routine.StackReaches

/-- A function with the name of a method, whose parameter has one byte. -/
def drawSignature : Signature where
  name := "Sprite__Draw__draw"
  params := [{ name := "level", type := .u8, width := .byte, place := .stack 0 }]
  stackBytes := 1

def showSignature : Signature where
  name := "show"
  params := [{ name := "p", type := .pointer "Sprite", width := .word, place := .bound (.reg .x) }]

def showContext : UnitContext where
  unit := {
    structs := [{ name := "Sprite", fields := [{ name := "x", type := .u8 }] }]
    traits := [{ name := "Draw", methods := [{ name := "draw" }] }] }
  signatures := [("Sprite__Draw__draw", drawSignature), ("show", showSignature)]
  plan := { tags := { limit := 0 } }
  settings := .standard

/-- A function that calls the method on its parameter. -/
def showBody : Block := .mk [.expr (.method (.name "p") "Draw" "draw" [])] none

/-- Its code with the receiver in `x`. The call releases one byte. -/
def showCode (labels : List Instr) : List Instr :=
  [.plain .php, .narrowAccumulator] ++ labels ++
    [.plain .phx, .absolute .jsr "Sprite__Draw__draw", .widenAccumulator, .direct .sta 0xD,
      .plain .tsc, .plain .clc, .immediate .adc 1 2, .plain .tcs, .direct .lda 0xD,
      .narrowAccumulator, .plain .plp, .plain .rts]

theorem showCode_filter (used : Std.HashSet String) (unused : used.contains "show_L0" = false) :
    (showCode [.label "show_L0"]).filter (Instr.isKept used) = showCode [] := by
  change (([.plain .php, .narrowAccumulator] ++ [.label "show_L0"]) ++ _ : List Instr).filter _ = _
  rw [List.filter_append, List.filter_append, List.filter_singleton, Instr.isKept, unused]
  rfl

theorem showCode_reaches (code_eq : routine.code = showCode []) (tables : List DataTable) :
    routine.StackReaches tables (some 0) (13, ⟨⟨.caller, []⟩, some 1, none⟩) := by
  obtain ⟨name, bank, far, mode, code⟩ := routine
  subst code_eq
  have start : Routine.StackReaches ⟨name, bank, far, mode, showCode []⟩ tables (some 0)
      (0, { level := some 0 }) := .refl
  have saved := start.fall ⟨⟨.caller, [.caller]⟩, some 1, none⟩ rfl (by decide) ⟨.save rfl, rfl⟩
  have entered := saved.fall ⟨⟨.chosen .narrow, [.caller]⟩, some 1, none⟩ rfl (by decide)
    ⟨.narrow rfl (by decide), rfl⟩
  have pushed := entered.stay (some 3) none rfl (by decide) (by decide) rfl
  have called := pushed.stay (some 3) none rfl (by decide) (by decide) rfl
  have wide := called.fall ⟨⟨.chosen .wide, [.caller]⟩, some 3, none⟩ rfl (by decide)
    ⟨.widen rfl (by decide), rfl⟩
  have kept := wide.stay (some 3) none rfl (by decide) (by decide) rfl
  have held := kept.stay (some 3) (some 3) rfl (by decide) (by decide) rfl
  have cleared := held.stay (some 3) (some 3) rfl (by decide) (by decide) rfl
  have added := cleared.stay (some 3) (some 2) rfl (by decide) (by decide) rfl
  have released := added.stay (some 2) none rfl (by decide) (by decide) rfl
  have loaded := released.stay (some 2) none rfl (by decide) (by decide) rfl
  have narrow := loaded.fall ⟨⟨.chosen .narrow, [.caller]⟩, some 2, none⟩ rfl (by decide)
    ⟨.narrow rfl (by decide), rfl⟩
  exact narrow.fall _ rfl (by decide) ⟨.restore rfl, rfl⟩

/-- The two bytes of the receiver are pushed, one is released, and the function returns with the other
one on the stack. -/
theorem show_keeps_byte :
    ∃ graph selected state, showContext.lower showSignature showBody = .ok graph ∧
      graph.select { locations := #[.nowhere, .reg .x, .reg .x], noOps := [(0, 1)] } showSignature
        .standard = .ok selected ∧
      selected.routine.code[13]? = some (.plain .rts) ∧
      selected.routine.StackReaches selected.tables (some 0) (13, state) ∧
      state.level = some 1 := by
  obtain ⟨graph, lowered⟩ : ∃ graph, showContext.lower showSignature showBody = .ok graph := ⟨_, rfl⟩
  obtain ⟨selected, selects, code_eq⟩ : ∃ selected,
      graph.select { locations := #[.nowhere, .reg .x, .reg .x], noOps := [(0, 1)] } showSignature
        .standard = .ok selected ∧ selected.routine.code = showCode [] := by
    cases lowered
    refine ⟨_, rfl, showCode_filter _ ?_⟩
    change Std.HashSet.contains (.ofList ["Sprite__Draw__draw"]) _ = false
    simp
  exact ⟨graph, selected, _, lowered, selects, by rw [code_eq]; rfl, showCode_reaches code_eq _, rfl⟩

end Backend65816
