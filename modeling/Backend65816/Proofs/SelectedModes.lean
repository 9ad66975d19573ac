import Backend65816.Proofs.ModeFlow
import Backend65816.Proofs.SelectionRun

/-!
# Modes and stack of selected code

Code selection tracks the width that the accumulator has at run time and the bytes that were pushed
for a call. All that most steps emit is switches of the accumulator, which are tracked, and
instructions that leave modes and stack alone.
-/

namespace Backend65816

open Instr List

variable {op : Op} {code : List Instr} {instr : Instr}

/-! ## Instructions that leave modes and stack alone -/

/-- The mnemonic does not lead control away, in any addressing mode. -/
def Op.isInline (op : Op) : Bool := !op.isBranch && op ∉ [rts, rtl, rti, jmp, jml]

/-- The mnemonic changes no modes either and moves the stack pointer by pushing and pulling only. -/
def Op.isPlain (op : Op) : Bool := op.isInline && op ∉ [rep, sep, php, plp, tsc, tcs]

/-- The mnemonic leaves modes and the stack pointer alone. -/
def Op.isStraight (op : Op) : Bool := op.isPlain && op.pushed? .caller = some 0

def Instr.isStraight : Instr → Bool
  | label _ => false
  | run operation => operation.op.isStraight

/-- Bytes that plain code pushes. -/
def pushedBy (view : ModeView) : List Instr → Option Int
  | [] => some 0
  | .label _ :: _ => none
  | .run operation :: code => do
    if operation.op.isPlain then return (← operation.op.pushed? view) + (← pushedBy view code)
    else none

namespace StackState

/-- The state of a body with the accumulator at a width and bytes pushed. -/
def within (body : StackState) (width : Width) (depth : Int) : StackState :=
  { body with mode := .chosen width.mode, held := none }.push depth

end StackState

section Straight

variable {body state next : StackState} {operation : Operation}

theorem leadsModes_of_shifts (still : ¬operation.CanJump) (stays : ¬operation.EndsPath)
    (shifts : operation.Shifts state next) :
    (run operation).LeadsModes body (some state) (some next) := by
  refine ⟨fun conditional => ?_, fun jumps => ?_, fun cur reached => ?_⟩
  · exact absurd (.inl (by simp [Op.isBranch, conditional])) still
  · exact absurd (jumps.imp_right .inl) still
  · cases reached
    refine ⟨⟨fun isPlp empty => ?_, fun returns => ?_, fun isRti => ?_⟩, fun returns => ?_,
      fun jumps => absurd jumps still, fun _ => ⟨next, shifts, rfl⟩⟩
    · have alters := shifts.1
      generalize state.toModeState = modes at alters empty
      generalize next.toModeState = after at alters
      cases alters <;> simp_all [Operation.TouchesModes]
    · exact absurd (.inl returns) stays
    · exact absurd (.inr (.inl isRti)) stays
    · exact absurd (returns.imp_right .inl) stays

theorem leadsModes_inline (inline : operation.op.isInline = true)
    (shifts : operation.Shifts state next) :
    (run operation).LeadsModes body (some state) (some next) := by
  simp only [Op.isInline, Op.isBranch, Bool.and_eq_true, Bool.not_eq_true', Bool.or_eq_false_iff,
    decide_eq_true_eq, decide_eq_false_iff_not, mem_cons, not_mem_nil, or_false,
    not_or] at inline
  apply leadsModes_of_shifts _ _ shifts <;>
    simp [Operation.EndsPath, Operation.CanJump, Operation.Returns, Operation.JumpsDirectly,
      Operation.JumpsThroughTable, Op.isBranch, inline]

variable {bytes : Int}

theorem Op.pushed?_of_caller (pushed : op.pushed? .caller = some bytes) (view : ModeView) :
    op.pushed? view = some bytes := by
  unfold pushed? at pushed ⊢
  split at pushed <;> first | exact pushed | cases pushed

/-- An instruction that pushes or pulls bytes and does nothing else. -/
theorem leadsModes_plain (plain : operation.op.isPlain = true)
    (pushed : operation.op.pushed? state.mode = some bytes) (bare : state.held = none) :
    (run operation).LeadsModes body (some state) (some (state.push bytes)) := by
  simp only [Op.isPlain, Bool.and_eq_true] at plain
  refine leadsModes_inline plain.1 ⟨.keep ?_, ?_⟩
  · rintro (⟨isRep | isSep, -⟩ | isPhp | isPlp) <;> simp_all
  · by_cases adds : operation.op ∈ [.clc, .sec, .adc, .sbc]
    · have none_pushed : bytes = 0 := by
        grind [Op.pushed?]
      rw [none_pushed, state.push_zero]
      grind [Operation.shift]
    · rw [Operation.shift_of_pushed _ pushed]
      · exact congrArg _ bare
      · simp_all [Op.isInline]

theorem leadsModes_pushedBy (pushed : pushedBy state.mode code = some bytes)
    (bare : state.held = none) : LeadsModes body (some state) code (some (state.push bytes)) := by
  induction code generalizing state bytes with
  | nil =>
    cases pushed
    exact .inr (congrArg some state.push_zero.symm)
  | cons instr code ih =>
    cases instr with
    | label name => cases pushed
    | run operation =>
      rw [pushedBy] at pushed
      split at pushed
      · rename_i plain
        obtain ⟨first, first_eq, later⟩ := Option.bind_eq_some_iff.mp pushed
        obtain ⟨rest, rest_eq, sum_eq⟩ := Option.bind_eq_some_iff.mp later
        cases sum_eq
        rw [← state.push_push]
        exact ⟨_, leadsModes_plain plain first_eq bare, ih rest_eq bare⟩
      · cases pushed

theorem pushedBy_straight (straight : code.all isStraight = true) (view : ModeView) :
    pushedBy view code = some 0 := by
  induction code with
  | nil => rfl
  | cons instr code ih =>
    rw [all_cons, Bool.and_eq_true] at straight
    cases instr with
    | label name => cases straight.1
    | run operation =>
      have first := straight.1
      simp only [isStraight, Op.isStraight] at first
      simp_all [pushedBy, Op.pushed?_of_caller]

theorem leadsModes_straight (straight : code.all isStraight = true) (bare : state.held = none)
    : LeadsModes body (some state) code (some state) := by
  have leads : LeadsModes body (some state) code (some (state.push 0)) :=
    leadsModes_pushedBy (pushedBy_straight straight _) bare
  rwa [state.push_zero] at leads

theorem Instr.leadsModes_straight (straight : instr.isStraight = true)
    (bare : state.held = none) : instr.LeadsModes body (some state) (some state) := by
  cases instr with
  | label name => cases straight
  | run operation =>
    simp only [isStraight, Op.isStraight, Bool.and_eq_true, decide_eq_true_eq] at straight
    have leads : (run operation).LeadsModes body (some state) (some (state.push 0)) :=
      leadsModes_plain straight.1 (Op.pushed?_of_caller straight.2 _) bare
    rwa [state.push_zero] at leads

theorem leadsModes_selectMode (mode : Mode) (bare : state.held = none) :
    (selectMode mode).LeadsModes body (some state)
      (some { state with mode := .chosen mode }) := by
  cases mode with
  | narrow =>
    exact leadsModes_inline rfl ⟨.narrow rfl rfl, by simp [Operation.shift, Op.pushed?, bare]⟩
  | wide => exact leadsModes_inline rfl ⟨.widen rfl rfl, by simp [Operation.shift, Op.pushed?, bare]⟩

variable {label : String}

theorem leadsModes_branchTo (bare : body.held = none) (branch : op.isBranch = true)
    (target : resumesCall label = false) {after : Option StackState}
    (passed : op.isConditional = true → after = some body) :
    (Instr.branch op label).LeadsModes body (some body) after :=
  (leadsModes_branch bare branch).mpr
    ⟨passed, fun passes => Bool.false_ne_true (target.symm.trans passes.2),
      fun _ same => (Option.some.inj same).symm⟩

theorem leadsModes_label {name : String} :
    (Instr.label name).LeadsModes body (some body) (some body) :=
  .inl ⟨.inr rfl, rfl⟩

end Straight

/-! ## Labels -/

namespace Select

def numbered (function kind : String) (number : Nat) : String :=
  function ++ "_" ++ kind ++ toString number

theorem blockLabel_eq (fn : String) (id : BlockId) : blockLabel fn id = numbered fn "L" id := by
  rw [numbered, @String.append_assoc fn]
  rfl

theorem numbered_inj {fn kind other : String} {first second : Nat}
    (sizes : kind.length = other.length) (same : numbered fn kind first = numbered fn other second) :
    kind = other ∧ first = second := by
  have lists := congrArg String.toList same
  simp only [numbered, String.toList_append, append_assoc, append_cancel_left_eq] at lists
  obtain ⟨kinds, numbers⟩ := append_inj lists (by simpa only [String.length_toList] using sizes)
  exact ⟨String.toList_inj.mp kinds, Nat.repr_inj.mp (String.toList_inj.mp numbers)⟩

end Select

theorem definedLabels_of_pushedBy {view : ModeView} {bytes : Int}
    (pushed : pushedBy view code = some bytes) : definedLabels code = [] := by
  induction code generalizing bytes with
  | nil => rfl
  | cons instr code ih =>
    cases instr with
    | label name => cases pushed
    | run operation =>
      cases rest_eq : pushedBy view code with
      | none => simp [pushedBy, rest_eq] at pushed
      | some rest => exact ih rest_eq

/-! ## Steps that keep the tracked width right -/

/-- Labels that the code defines and labels that are due are distinct. Those of blocks are among
them, and of other kinds none with a later number. Tables lead where blocks lead. -/
structure Labelled (graph : Graph) (due : List String) (code : List Instr) (count : Nat)
    (tables : List DataTable) : Prop where
  distinct : (due ++ definedLabels code).Nodup
  blocks : ∀ id < graph.blocks.size, Select.blockLabel graph.name id ∈ due ++ definedLabels code
  free : ∀ kind number, kind.length = 1 → kind ≠ "L" → count < number →
    Select.numbered graph.name kind number ∉ due ++ definedLabels code
  targets : ∀ table ∈ tables, ∀ target ∈ table.targets, ∃ block ∈ graph.blocks,
    ∃ id ∈ block.successors, target = Select.blockLabel graph.name id

theorem Labelled.append {graph : Graph} {due rest : List String} {front : List Instr} {count : Nat}
    {tables : List DataTable} (labelled : Labelled graph due front count tables)
    (taken : due.Perm (definedLabels code ++ rest)) :
    Labelled graph rest (front ++ code) count tables := by
  have perm : (due ++ definedLabels front).Perm (rest ++ definedLabels (front ++ code)) := by
    rw [definedLabels, definedLabels, filterMap_append, ← append_assoc]
    refine (taken.append_right _).trans ?_
    rw [append_assoc]
    exact perm_append_comm
  exact ⟨perm.nodup_iff.mp labelled.distinct,
    fun id inside => perm.subset (labelled.blocks id inside),
    fun kind number single other later mem =>
      labelled.free kind number single other later (perm.symm.subset mem), labelled.targets⟩

namespace SelectionState

/-- The code leads from the start of a function to a state. -/
def InModes (context : SelectionContext) (body : StackState) (due : List String)
    (current : Option StackState) (state : SelectionState) : Prop :=
  LeadsModes body (some { level := body.level.map fun _ => 0 }) state.code.toList current ∧
    Labelled context.graph due state.code.toList state.labels state.tables

/-- The accumulator has the width that is tracked, and the bytes that are tracked are pushed. -/
def Tracks (context : SelectionContext) (body : StackState) (due : List String) (depth : Int)
    (state : SelectionState) : Prop :=
  state.InModes context body due (some (body.within state.accumulator depth)) ∧
    state.depth = depth

variable {ctx : SelectionContext} {body : StackState} {due rest : List String}
  {before after : Option StackState} {state : SelectionState}

theorem InModes.emit (modes : state.InModes ctx body due before)
    (leads : LeadsModes body before code after) (taken : due.Perm (definedLabels code ++ rest)) :
    InModes ctx body rest after { state with code := state.code ++ code.toArray } := by
  unfold InModes
  rw [Array.toList_append]
  exact ⟨modes.1.append leads, modes.2.append taken⟩

theorem InModes.emit_bare (modes : state.InModes ctx body due before)
    (leads : LeadsModes body before code after) (bare : definedLabels code = []) :
    InModes ctx body due after { state with code := state.code ++ code.toArray } :=
  modes.emit leads (by rw [bare]; rfl)

end SelectionState

namespace Select

variable {α β : Type} {ctx : SelectionContext} {body : StackState} {depth : Int} {due : List String}
  {state : SelectionState} {goal : α → SelectionState → Prop} {step : Select α}
  {next : α → Select β} {result : α → Prop} {kept : SelectionState → Prop}

def Always (context : SelectionContext) (step : Select α) (goal : α → SelectionState → Prop)
    (state : SelectionState) : Prop :=
  ∀ result final, step context state = .ok (result, final) → goal result final

theorem always_pure {value : α} (holds : goal value state) :
    Always ctx (pure value) goal state := by
  intro result final res
  cases res
  exact holds

theorem Always.bind {goal : β → SelectionState → Prop}
    (first : Always ctx step (fun value => Always ctx (next value) goal) state) :
    Always ctx (step >>= next) goal state := by
  intro result final res
  have unfolded : (step >>= next) ctx state =
      (step ctx state).bind fun pair => next pair.1 ctx pair.2 := rfl
  rw [unfolded] at res
  cases taken : step ctx state with
  | error error =>
    rw [taken] at res
    cases res
  | ok pair =>
    rw [taken] at res
    exact first pair.1 pair.2 taken result final res

theorem Always.mono {wider : α → SelectionState → Prop} (always : Always ctx step goal state)
    (implies : ∀ value final, goal value final → wider value final) : Always ctx step wider state :=
  fun result final res => implies result final (always result final res)

theorem always_emit {goal : Unit → SelectionState → Prop}
    (holds : goal () { state with code := state.code ++ code.toArray }) :
    Always ctx (emit code) goal state := by
  intro result final res
  cases res
  exact holds

theorem always_get {next : SelectionState → Select α}
    (rest : Always ctx (next state) goal state) : Always ctx (get >>= next) goal state :=
  rest

/-- The property is kept by plain code that pulls what it pushes and by switches of the
accumulator. -/
class Steady (kept : SelectionState → Prop) : Prop where
  emit {state : SelectionState} {code : List Instr} (holds : kept state)
    (level : ∀ mode : Mode, pushedBy (.chosen mode) code = some 0) :
    kept { state with code := state.code ++ code.toArray }
  switch {state : SelectionState} (holds : kept state) (width : Width) :
    kept { state with
      code := state.code ++ #[if width = .word then .widenAccumulator else .narrowAccumulator]
      accumulator := width }

/-- From states with a property the step leads to the goal. -/
def Leads (context : SelectionContext) (start : SelectionState → Prop) (step : Select α)
    (goal : α → SelectionState → Prop) : Prop :=
  ∀ state, start state → Always context step goal state

/-- The step keeps a property of states, and its result has one. -/
abbrev Keeps (context : SelectionContext) (kept : SelectionState → Prop) (step : Select α)
    (result : α → Prop) : Prop :=
  Leads context kept step fun value final => kept final ∧ result value

abbrev Stays (context : SelectionContext) (kept : SelectionState → Prop) (step : Select α) : Prop :=
  Leads context kept step fun _ => kept

theorem keeps_pure {value : α} (holds : result value) : Keeps ctx kept (pure value) result :=
  fun _ tracks => always_pure ⟨tracks, holds⟩

theorem stays_pure {value : α} : Stays ctx kept (pure value) := fun _ holds => always_pure holds

section

variable {start between : SelectionState → Prop} {goal : β → SelectionState → Prop}

theorem leads_fail {error : SelectionError} : Leads ctx start (fail error) goal :=
  fun _ _ _ _ res => nomatch res

theorem leads_reject {reason : Rejection} : Leads ctx start (reject reason) goal :=
  fun _ _ _ _ res => nomatch res

theorem Keeps.bind (first : Keeps ctx kept step result)
    (rest : ∀ value, result value → Leads ctx kept (next value) goal) :
    Leads ctx kept (step >>= next) goal :=
  fun state holds => .bind ((first state holds).mono
    fun value final both => rest value both.2 final both.1)

theorem Leads.bind (first : Leads ctx start step fun _ => between)
    (rest : ∀ value, Leads ctx between (next value) goal) : Leads ctx start (step >>= next) goal :=
  fun state holds => .bind ((first state holds).mono rest)

theorem Leads.seq {rest : Select β} (first : Leads ctx start step fun _ => between)
    (last : Leads ctx between rest goal) : Leads ctx start (step >>= fun _ => rest) goal :=
  first.bind fun _ => last

theorem Leads.look {found : SelectionState → α}
    (looks : step ctx = fun state => .ok (found state, state))
    (rest : ∀ state, Leads ctx start (next (found state)) goal) :
    Leads ctx start (step >>= next) goal := by
  intro state holds
  refine .bind fun value final res => ?_
  cases (congrFun looks state).symm.trans res
  exact rest _ _ holds

end

instance steady_tracks : Steady (SelectionState.Tracks ctx body due depth) where
  emit {state code} tracks level := by
    have leads : LeadsModes body _ code (some ((body.within state.accumulator depth).push 0)) :=
      leadsModes_pushedBy (level _) rfl
    rw [StackState.push_zero] at leads
    exact ⟨tracks.1.emit_bare leads (definedLabels_of_pushedBy (level .wide)), tracks.2⟩
  switch {state} tracks width := by
    have switch_eq : (if width = .word then .widenAccumulator else .narrowAccumulator) =
        selectMode width.mode := by
      unfold Width.mode
      split <;> rfl
    rw [switch_eq]
    exact ⟨tracks.1.emit_bare (.single (leadsModes_selectMode width.mode rfl))
      (by cases width.mode <;> rfl), tracks.2⟩

variable [Steady kept]

/-- Plain code that pulls what it pushes. -/
theorem keeps_emit_level (level : ∀ mode : Mode, pushedBy (.chosen mode) code = some 0) :
    Stays ctx kept (emit code) :=
  fun _ holds => always_emit (Steady.emit holds level)

theorem keeps_emit (straight : code.all isStraight = true) : Stays ctx kept (emit code) :=
  keeps_emit_level fun _ => pushedBy_straight straight _

theorem keeps_emit_one (straight : instr.isStraight = true) : Stays ctx kept (emit [instr]) :=
  keeps_emit (by simp [straight])

theorem always_setAccumulator (holds : kept state) {width : Width} :
    Always ctx (setAccumulator width)
      (fun _ final => kept final ∧ final.accumulator = width) state := by
  refine always_get ?_
  split
  · simp_all [always_pure]
  · intro result final res
    cases res
    exact ⟨Steady.switch holds width, rfl⟩

variable {reg target src left : VReg} {width : Width} {num : Int} {right : Value} {loc : Loc}
  {addr : Address} {kind : BinKind} {hw : Reg}

theorem keeps_setAccumulator : Stays ctx kept (setAccumulator width) :=
  fun _ tracks => (always_setAccumulator tracks).mono fun _ _ holds => holds.1

/-! ## Operands -/

omit [Steady kept] in
theorem keeps_memory :
    Keeps ctx kept (memory op loc) fun instr => instr.isStraight = op.isStraight := by
  refine .look rfl fun _ => .look rfl fun _ => ?_
  split
  all_goals first | exact keeps_pure rfl | exact leads_fail

theorem keeps_emit_memory (straight : op.isStraight = true) :
    Stays ctx kept (do emit [← memory op loc]) := by
  exact keeps_memory.bind fun instr same => keeps_emit_one (same.trans straight)

theorem keeps_loadAccumulator : Stays ctx kept (loadAccumulator reg) := by
  refine .look rfl fun _ => ?_
  split
  · exact stays_pure
  · exact keeps_emit rfl
  · exact keeps_emit rfl
  · exact leads_fail
  · exact leads_fail
  all_goals exact keeps_emit_memory rfl

theorem keeps_storeIndex : Stays ctx kept (storeIndex hw width) := by
  unfold storeIndex
  split
  · exact keeps_emit (by cases hw <;> rfl)
  · exact .look rfl fun _ => keeps_emit (by cases hw <;> rfl)

theorem keeps_storeAccumulator : Stays ctx kept (storeAccumulator reg) := by
  refine .look rfl fun _ => ?_
  split
  · exact stays_pure
  · exact .look rfl fun _ => keeps_storeIndex
  · exact .look rfl fun _ => keeps_storeIndex
  · exact leads_fail
  · exact leads_fail
  all_goals exact keeps_emit_memory rfl

theorem keeps_operand (straight : op.isStraight = true) :
    Keeps ctx kept (operand op right width) fun instr => instr.isStraight = true := by
  unfold operand
  split
  · exact keeps_pure straight
  · refine .look rfl fun _ => .look rfl fun _ => ?_
    split
    iterate 3 exact (keeps_emit rfl).seq <| keeps_pure straight
    exact fun state tracks => (keeps_memory state tracks).mono fun instr final holds =>
      ⟨holds.1, holds.2.trans straight⟩

theorem keeps_loadExtended : Stays ctx kept (loadExtended reg) := by
  refine .look rfl fun _ => .look rfl fun _ => ?_
  split
  · exact keeps_setAccumulator.seq <| keeps_loadAccumulator
  · exact keeps_setAccumulator.seq <| keeps_loadAccumulator.seq <|
      keeps_setAccumulator.seq <| keeps_emit rfl

theorem keeps_computePointer : Stays ctx kept (computePointer reg num) := by
  refine keeps_setAccumulator.seq <| keeps_loadAccumulator.seq ?_
  split
  · exact (keeps_emit rfl).seq <| .look rfl fun _ => keeps_emit rfl
  · exact .look rfl fun _ => keeps_emit rfl

/-! ## Actions -/

theorem keeps_const : Stays ctx kept (const target num) := by
  refine .look rfl fun _ => .look rfl fun _ => ?_
  split
  · exact keeps_emit rfl
  · exact keeps_emit rfl
  · exact keeps_emit rfl
  · refine keeps_setAccumulator.seq ?_
    split
    · exact keeps_emit_memory rfl
    · exact (keeps_emit rfl).seq <| keeps_storeAccumulator

theorem keeps_moveFromB : Stays ctx kept (moveFromB loc) := by
  refine keeps_setAccumulator.seq <| .look rfl fun _ => ?_
  split
  · exact keeps_emit_level fun mode => by cases mode <;> rfl
  iterate 2 exact keeps_emit rfl
  refine keeps_memory.bind fun instr same => keeps_emit ?_
  simp only [all_cons, same]
  rfl

theorem keeps_moveToB : Stays ctx kept (moveToB loc) := by
  refine keeps_setAccumulator.seq ?_
  split
  · exact keeps_emit_level fun mode => by cases mode <;> rfl
  iterate 2 exact keeps_emit rfl
  refine keeps_memory.bind fun instr same => keeps_emit ?_
  simp only [all_cons, same]
  rfl

theorem keeps_moveThroughAccumulator : Stays ctx kept (moveThroughAccumulator target src width) :=
  keeps_setAccumulator.seq <| keeps_loadAccumulator.seq <| keeps_storeAccumulator

theorem keeps_move : Stays ctx kept (move target src) := by
  refine .look rfl fun _ => .look rfl fun _ => .look rfl fun _ => ?_
  split
  · exact stays_pure
  · split
    · exact keeps_moveFromB
    · exact keeps_moveToB
    · exact keeps_emit rfl
    · exact keeps_emit rfl
    iterate 4
      split
      · exact keeps_emit_memory rfl
      · exact keeps_moveThroughAccumulator
    exact keeps_moveThroughAccumulator

theorem keeps_convert {signed : Bool} : Stays ctx kept (convert target src signed) := by
  refine .look rfl fun _ => .look rfl fun _ => ?_
  split
  · refine keeps_loadExtended.seq ?_
    split
    · exact (keeps_emit rfl).seq <| keeps_storeAccumulator
    · exact keeps_storeAccumulator
  · exact keeps_setAccumulator.seq <| keeps_loadAccumulator.seq <| keeps_storeAccumulator

theorem keeps_shift : Stays ctx kept (shift kind target left right width) := by
  unfold shift
  split
  · exact leads_reject
  · refine keeps_loadAccumulator.seq <| (keeps_emit ?_).seq <| keeps_storeAccumulator
    have straight : (shiftStep kind width).all isStraight = true := by
      cases kind <;> rfl
    simp_all

theorem keeps_arithmetic : Stays ctx kept (arithmetic kind target left right width) := by
  have straight : (arithmeticOp kind).1.all isStraight = true ∧
      (arithmeticOp kind).2.isStraight = true := by
    cases kind <;> exact ⟨rfl, rfl⟩
  refine (keeps_operand straight.2).bind fun instr instr_straight =>
    keeps_loadAccumulator.seq <| (keeps_emit ?_).seq <| keeps_storeAccumulator
  change ((arithmeticOp kind).1 ++ [instr]).all isStraight = true
  simp_all

theorem keeps_bin {noWrap : Bool} : Stays ctx kept (bin kind target left right noWrap) := by
  refine .look rfl fun _ => .look rfl fun _ => ?_
  split
  · exact keeps_emit (by split <;> rfl)
  · refine keeps_setAccumulator.seq ?_
    split
    · exact keeps_shift
    · exact keeps_arithmetic

theorem keeps_un {kind : UnKind} : Stays ctx kept (un kind target src) := by
  refine .look rfl fun _ => keeps_setAccumulator.seq <| keeps_loadAccumulator.seq ?_
  cases kind <;> exact (keeps_emit rfl).seq <| keeps_storeAccumulator

theorem keeps_emit_address (straight : op.isStraight = true) :
    Stays ctx kept (emit [addr.instr op]) := by
  refine keeps_emit_one ?_
  unfold Address.instr
  split
  · exact straight
  · split <;> exact straight

theorem keeps_loadAbsolute : Stays ctx kept (loadAbsolute target loc width addr) := by
  have throughAccumulator : Stays ctx kept
      (do setAccumulator width; emit [addr.instr .lda]; storeAccumulator target) :=
    keeps_setAccumulator.seq <| (keeps_emit_address rfl).seq <| keeps_storeAccumulator
  unfold loadAbsolute
  split
  iterate 2
    split
    · exact keeps_emit_address rfl
    · exact throughAccumulator
  exact throughAccumulator

theorem keeps_load : Stays ctx kept (load target addr) := by
  refine .look rfl fun _ => .look rfl fun _ => ?_
  split
  · exact keeps_loadAbsolute
  · refine .look rfl fun _ => ?_
    split
    iterate 2 exact keeps_setAccumulator.seq <| (keeps_emit rfl).seq <| keeps_storeAccumulator
    exact keeps_computePointer.seq <| keeps_setAccumulator.seq <|
      .look rfl fun _ => (keeps_emit rfl).seq <| keeps_storeAccumulator

theorem keeps_storeAbsolute : Stays ctx kept (storeAbsolute src loc width addr) := by
  have throughAccumulator : Stays ctx kept
      (do setAccumulator width; loadAccumulator src; emit [addr.instr .sta]) :=
    keeps_setAccumulator.seq <| keeps_loadAccumulator.seq <| keeps_emit_address rfl
  unfold storeAbsolute
  split
  iterate 2
    split
    · exact keeps_emit_address rfl
    · exact throughAccumulator
  exact throughAccumulator

theorem keeps_storeIndirect : Stays ctx kept (storeIndirect src reg loc width num) := by
  refine .look rfl fun _ => ?_
  split
  · exact keeps_setAccumulator.seq <| (keeps_emit rfl).seq <|
      keeps_computePointer.seq <| keeps_setAccumulator.seq <|
      (keeps_emit rfl).seq <| .look rfl fun _ => keeps_emit rfl
  · exact keeps_computePointer.seq <| keeps_setAccumulator.seq <|
      keeps_loadAccumulator.seq <| .look rfl fun _ => keeps_emit rfl

theorem keeps_store : Stays ctx kept (store addr right) := by
  unfold store
  split
  · exact leads_reject
  · refine .look rfl fun _ => .look rfl fun _ => ?_
    split
    · exact keeps_storeAbsolute
    · refine .look rfl fun _ => ?_
      split
      iterate 2 exact keeps_setAccumulator.seq <| keeps_loadAccumulator.seq <| keeps_emit rfl
      exact keeps_storeIndirect

theorem keeps_lookup {table : String} : Stays ctx kept (lookup target table reg) := by
  have reads : Stays ctx kept (do
      emit [.run { op := .lda, mode := .longX, symbol := table }]
      storeAccumulator target) :=
    (keeps_emit rfl).seq <| keeps_storeAccumulator
  refine .look rfl fun _ => .look rfl fun _ => .look rfl fun _ => ?_
  split
  · exact keeps_setAccumulator.seq reads
  · refine keeps_loadExtended.seq ?_
    split
    · exact (keeps_emit rfl).seq <| (keeps_emit rfl).seq <| keeps_setAccumulator.seq reads
    · exact (keeps_emit rfl).seq <| keeps_setAccumulator.seq reads

/-! ## Comparisons -/

theorem keeps_compareIndexWithAccumulator (straight : op.isStraight = true) :
    Stays ctx kept (compareIndexWithAccumulator op width) := by
  have last (temp : Int) : Stays ctx kept (emit [.direct op temp]) :=
    keeps_emit_one straight
  refine .look rfl fun _ => (keeps_emit rfl).seq ?_
  split
  · exact (keeps_emit rfl).seq (last _)
  · exact last _

theorem keeps_compareIndex : Stays ctx kept (compareIndex hw right width) := by
  have straight : hw.compareOp.isStraight = true := by
    cases hw <;> rfl
  unfold compareIndex
  split
  · exact keeps_emit_one straight
  · refine .look rfl fun _ => ?_
    split
    iterate 2 exact .look rfl fun _ => .look rfl fun _ =>
        keeps_emit (by cases hw <;> rfl)
    · exact keeps_setAccumulator.seq <| keeps_compareIndexWithAccumulator straight
    · split
      · exact keeps_emit_memory straight
      · exact keeps_setAccumulator.seq <| keeps_loadAccumulator.seq <|
          keeps_compareIndexWithAccumulator straight

theorem keeps_compare : Stays ctx kept (compare left right width) := by
  refine .look rfl fun _ => ?_
  split
  · exact keeps_compareIndex
  · exact keeps_compareIndex
  · exact keeps_setAccumulator.seq <| (keeps_operand rfl).bind fun instr straight =>
        keeps_loadAccumulator.seq <| keeps_emit_one straight

end Select

end Backend65816
