import Backend65816.Proofs.SelectedModes

/-!
# Modes and stack of the code of functions

The code between two actions is at the modes of the body, and so is every label and every branch: an
action that needs the other width switches back before it branches or ends. From the entry of a
function to its returns, the status register of the caller is saved once; a handler saves none,
since the return from an interrupt restores it. Where actions release what they push, the stack is
the same at all boundaries of blocks.
-/

namespace Backend65816

open List StackState Int SelectionContext Instr

variable {step : Select Unit} {ctx : SelectionContext} {label : String} {α : Type}
  {due : List String} {code : List Instr}

/-! ## Labels -/

theorem resumesCall_numbered (front : String) (num : Nat) :
    resumesCall (front ++ toString num) = resumesCall front := by
  have digits : (toString num).toList.reverse.all Char.isDigit = true := by
    rw [all_eq_true]
    intro character listed
    exact Nat.isDigit_of_mem_toDigits (b := 10) (by decide) (by decide)
      (by simpa [toString, Nat.repr] using listed)
  simp_all [resumesCall]

theorem resumesCall_blockLabel (fn : String) (id : BlockId) :
    resumesCall (Select.blockLabel fn id) = false := by
  rw [Select.blockLabel, resumesCall_numbered]
  simp [resumesCall]

/-! ## Steps between two states -/

/-- The code leads to a state, and the tracked width is the one between actions. -/
structure SelectionState.Stands (context : SelectionContext) (body : StackState)
    (due : List String) (depth : Int) (current : StackState) (state : SelectionState) : Prop where
  modes : state.InModes context body due (some current)
  width : state.accumulator = context.graph.mode.width
  depth : state.depth = depth

/-- The state of a body between actions, with bytes pushed. -/
def SelectionContext.between (context : SelectionContext) (body : StackState) (depth : Int) :
    StackState :=
  body.within context.graph.mode.width depth

theorem SelectionContext.between_mode (ctx : SelectionContext) (body : StackState)
    (depth : Int) : (ctx.between body depth).mode = .chosen ctx.graph.mode :=
  congrArg _ (Mode.mode_width _)

/-- Where no bytes are pushed, or where they are not counted, the state is that of the body. -/
theorem SelectionContext.between_eq {body : StackState} {depth : Int}
    (fits : ctx.between body 0 = body) (even : body.level = none ∨ depth = 0) :
    ctx.between body depth = body := by
  grind [between, within, push]

theorem SelectionState.Stands.tracks {body : StackState} {depth : Int}
    {state : SelectionState} (stands : state.Stands ctx body due depth (ctx.between body depth)) :
    state.Tracks ctx body due depth := by
  have modes := stands.modes
  rw [between, ← stands.width] at modes
  exact ⟨modes, stands.depth⟩

/-- The code leads to a state, and no bytes are pushed if bytes are counted. -/
def SelectionState.AtBody (context : SelectionContext) (body : StackState) (due : List String)
    (current : Option StackState) (state : SelectionState) : Prop :=
  state.InModes context body due current ∧ (body.level = none ∨ state.depth = 0)

/-! ## Actions and the stack -/

namespace Graph

variable (graph : Graph)

/-- Bytes by which the stack has grown after an action. -/
def pushedBy : Action → Int
  | .push (.reg source) => (graph.width source).bytes
  | .call details => -details.stackBytes
  | .dispatch details => -details.stackBytes
  | _ => 0

/-- The action can be taken with bytes pushed: what is pushed has one or two bytes, and a truth value
is computed by branches. -/
def TakenAt (depth : Int) : Action → Prop
  | .push (.reg source) => (graph.width source).mode.width = graph.width source
  | .setCond _ _ _ _ => depth = 0
  | _ => True

/-- The actions of a block release what they push. -/
def Balances (noOps : List (BlockId × Nat)) (id : BlockId) : List (Action × Nat) → Int → Prop
  | [], depth => depth = 0
  | (step, index) :: rest, depth =>
    if noOps.contains (id, index) then Balances noOps id rest depth
    else graph.TakenAt depth step ∧ Balances noOps id rest (depth + graph.pushedBy step)

end Graph

namespace Select

variable {β : Type} {body before mid after : StackState} {depth : Int}
  {goal : α → SelectionState → Prop}

/-- The step leads from state to state, between actions. -/
abbrev Moves (context : SelectionContext) (body : StackState) (due : List String) (depth : Int)
    (step : Select α) (before after : StackState) : Prop :=
  Leads context (·.Stands context body due depth before) step
    fun _ => (·.Stands context body due depth after)

theorem Leads.freshLabel {kind : String} {next : String → Select α} (single : kind.length = 1)
    (other : kind ≠ "L")
    (rest : ∀ num : Nat,
      Leads ctx (·.Stands ctx body (numbered ctx.graph.name kind num :: due) depth before)
        (next (numbered ctx.graph.name kind num)) goal) :
    Leads ctx (·.Stands ctx body due depth before) (freshLabel kind >>= next) goal := by
  rintro state ⟨⟨led, labels⟩, width_eq, depth_eq⟩
  have new := labels.free kind (state.labels + 1) single other (Nat.lt_succ_self _)
  refine rest (state.labels + 1) { state with labels := state.labels + 1 }
    ⟨⟨led, nodup_cons.mpr ⟨new, labels.distinct⟩, fun id inside => .tail _ (labels.blocks id inside),
      fun kind' num single' other' later mem => ?_, labels.targets⟩, width_eq, depth_eq⟩
  rcases mem_cons.mp mem with same | mem
  · exact Nat.ne_of_gt later (numbered_inj (single'.trans single.symm) same).2
  · exact labels.free kind' num single' other' (Nat.lt_of_succ_lt later) mem

theorem leads_emit {rest : List String} (leads : LeadsModes body (some before) code (some after))
    (taken : due.Perm (definedLabels code ++ rest)) :
    Leads ctx (·.Stands ctx body due depth before) (emit code)
      fun _ => (·.Stands ctx body rest depth after) :=
  fun _ stands => always_emit ⟨stands.modes.emit leads taken, stands.width, stands.depth⟩

theorem moves_emit (leads : LeadsModes body (some before) code (some after))
    (bare : definedLabels code = []) : Moves ctx body due depth (emit code) before after :=
  leads_emit leads (by rw [bare]; rfl)

theorem moves_emit_straight (bare : before.held = none)
    (straight : code.all isStraight = true) : Moves ctx body due depth (emit code) before before :=
  moves_emit (leadsModes_straight straight bare)
    (definedLabels_of_pushedBy (pushedBy_straight straight .caller))

theorem moves_branchOn (bare : body.held = none) (cond : Cond)
    (target : resumesCall label = false) :
    Moves ctx body due depth (branchOn cond label) body body := by
  have branches {op : Op} (branch : op.isBranch = true) :
      (Instr.branch op label).LeadsModes body (some body) (some body) :=
    leadsModes_branchTo bare branch target fun _ => rfl
  cases cond with
  | eq | ne | lt | ge => exact moves_emit (.single (branches rfl)) rfl
  | le => exact moves_emit ⟨_, branches rfl, .single (branches rfl)⟩ rfl
  | gt =>
    refine Leads.freshLabel rfl (by decide) fun num => leads_emit
      ⟨_, leadsModes_branchTo bare rfl ?_ fun _ => rfl, _, branches rfl, .single leadsModes_label⟩
      (.refl _)
    rw [numbered, resumesCall_numbered]
    simp [resumesCall]

/-- The step may start between actions, and leaves the tracked width and depth right. -/
abbrev Acts (context : SelectionContext) (body : StackState) (due : List String)
    (depth next : Int) (step : Select α) : Prop :=
  Leads context (·.Stands context body due depth (context.between body depth)) step
    fun _ => (·.Tracks context body due next)

theorem Stays.acts {step : Select α} (stays : Stays ctx (·.Tracks ctx body due depth) step) :
    Acts ctx body due depth depth step :=
  fun state stands => stays state stands.tracks

/-- A switch back to the width between actions. -/
theorem Acts.settle {next : Int} (acts : Acts ctx body due depth next step) :
    Leads ctx (·.Stands ctx body due depth (ctx.between body depth))
      (do step; setAccumulator (← modeWidth))
      fun _ => (·.Stands ctx body due next (ctx.between body next)) := by
  intro state stands
  refine .bind ((acts state stands).mono fun _ mid tracks => ?_)
  refine (always_setAccumulator tracks).mono fun _ final holds => ?_
  obtain ⟨⟨modes, depth_eq⟩, width_eq⟩ := holds
  rw [width_eq] at modes
  exact ⟨modes, width_eq, depth_eq⟩

section

variable (even : ctx.between body depth = body)
include even

theorem Acts.settle_bind {next : Select α} (acts : Acts ctx body due depth depth step)
    (rest : Leads ctx (·.Stands ctx body due depth body) next goal) :
    Leads ctx (·.Stands ctx body due depth body) (do step; setAccumulator (← modeWidth); next) goal := by
  have settled := acts.settle
  rw [even] at settled
  simpa only [bind_assoc] using settled.bind fun _ => rest

/-! ## Comparisons -/

/-- Branches need a depth at which the state is that of the body. -/
theorem moves_compareBranch (cond : Cond)
    (left : VReg) (right : Value) (target : resumesCall label = false) :
    Moves ctx body due depth (compareBranch cond left right label) body body := by
  have bare : body.held = none := by
    rw [← even]
    rfl
  refine .look rfl fun _ => ?_
  split
  · exact moves_emit (.single (leadsModes_branchTo bare rfl target nofun)) rfl
  · exact stays_pure
  · exact keeps_compare.acts.settle_bind even (moves_branchOn bare _ target)

theorem acts_setCond (cond : Cond) {target left : VReg} (right : Value) :
    Acts ctx body due depth depth (setCond cond target left right) := by
  have bare : body.held = none := by
    rw [← even]
    rfl
  have straight {instr : Instr} (plain : instr.isStraight = true) :
      instr.LeadsModes body (some body) (some body) :=
    instr.leadsModes_straight plain bare
  have answer (yes : String) {done : String} (target : resumesCall done = false) (width : Nat) :
      LeadsModes body (some body)
        [.immediate .lda 0 width, .branch .bra done, .label yes, .immediate .lda 1 width,
          .label done] (some body) :=
    ⟨_, straight rfl, _, leadsModes_branchTo bare rfl target nofun, _, leadsModes_label,
      _, straight rfl, .single leadsModes_label⟩
  have stores : Leads ctx (·.Stands ctx body due depth (ctx.between body depth)) (do
      setAccumulator (← widthOf target)
      storeAccumulator target) fun _ => (·.Tracks ctx body due depth) :=
    Stays.acts (.look rfl fun _ => keeps_setAccumulator.seq <| keeps_storeAccumulator)
  have free {kind : String} (num : Nat)
      (other : resumesCall (ctx.graph.name ++ "_" ++ kind) = false) :
      resumesCall (numbered ctx.graph.name kind num) = false :=
    (resumesCall_numbered _ _).trans other
  unfold Acts
  rw [even] at stores ⊢
  refine .freshLabel rfl (by decide) fun first => .freshLabel rfl (by decide) fun second =>
    (moves_compareBranch even _ _ _ (free first (by simp [resumesCall]))).seq ?_
  exact .look rfl fun _ =>
    (leads_emit (answer _ (free second (by simp [resumesCall])) _) (.swap ..)).seq stores

end

/-! ## The stack and calls -/

/-- The state with the accumulator of 16 bits. -/
def widened (state : StackState) : StackState := { state with mode := .chosen .wide }

theorem widened_eq (at_mode : before.mode = .chosen ctx.graph.mode)
    (wide : ctx.graph.mode = .wide) : widened before = before := by
  rw [widened, ← wide, ← at_mode]

section

variable (at_mode : before.mode = .chosen ctx.graph.mode) (bare : before.held = none)
include at_mode bare

theorem moves_widen :
    Moves ctx body due depth (emitIf (ctx.graph.mode = .narrow) [.widenAccumulator]) before
      (widened before) := by
  cases mode_eq : ctx.graph.mode with
  | narrow => exact moves_emit (.single (leadsModes_selectMode .wide bare)) rfl
  | wide =>
    rw [widened_eq at_mode mode_eq]
    exact stays_pure

theorem moves_narrow :
    Moves ctx body due depth (emitIf (ctx.graph.mode = .narrow) [.narrowAccumulator])
      (widened before) before := by
  cases mode_eq : ctx.graph.mode with
  | narrow =>
    have back : before = { widened before with mode := .chosen .narrow } := by
      rw [← mode_eq, ← at_mode]
      rfl
    have leads : LeadsModes body (some (widened before)) [.narrowAccumulator]
        (some { widened before with mode := .chosen .narrow }) :=
      .single (leadsModes_selectMode .narrow bare)
    rw [← back] at leads
    exact moves_emit leads rfl
  | wide =>
    rw [widened_eq at_mode mode_eq]
    exact stays_pure

theorem moves_adjustStack {bytes : Int} :
    Moves ctx body due depth (adjustStack bytes) before (before.push (-bytes)) := by
  have keeps {op : Operation} (other : op.op ∉ [.rep, .sep, .php, .plp]) : ¬op.TouchesModes := by
    rintro (⟨isRep | isSep, -⟩ | isPhp | isPlp) <;> simp_all
  let holding (held : Option Int) : Option StackState := some { widened before with held }
  let target := before.push (-bytes)
  have takes (temp : Int) : LeadsModes body (some (widened before))
      [.direct .sta temp, .plain .tsc] (holding before.level) :=
    ⟨_, Instr.leadsModes_straight rfl bare, .single (leadsModes_inline rfl
      ⟨.keep (keeps (by simp)), rfl⟩)⟩
  have puts (temp : Int) : LeadsModes body (holding target.level)
      [.plain .tcs, .direct .lda temp] (some (widened target)) :=
    ⟨some (widened target), leadsModes_inline rfl ⟨.keep (keeps (by simp)), congrArg _ bare⟩,
      .single (Instr.leadsModes_straight rfl bare)⟩
  have adds : LeadsModes body (holding before.level) [.plain .clc, .immediate .adc bytes 2]
        (holding target.level) ∧
      LeadsModes body (holding before.level) [.plain .sec, .immediate .sbc (-bytes) 2]
        (holding target.level) := by
    obtain ⟨modes, level, held⟩ := before
    constructor <;> refine ⟨_, leadsModes_inline rfl ⟨.keep (keeps (by simp)), rfl⟩, .single
      (leadsModes_inline rfl ⟨.keep (keeps (by simp)), ?_⟩)⟩ <;> cases level <;> rfl
  unfold adjustStack
  split
  · simp_all [push_zero, stays_pure]
  · refine .look rfl fun _ => .look rfl fun _ => ?_
    refine (moves_widen at_mode bare).seq <| (moves_emit (takes _) rfl).seq ?_
    split
    · exact (moves_emit adds.1 rfl).seq <| (moves_emit (puts _) rfl).seq <| moves_narrow at_mode bare
    · exact (moves_emit adds.2 rfl).seq <| (moves_emit (puts _) rfl).seq <| moves_narrow at_mode bare

end

theorem acts_releaseArguments (bytes : Nat) :
    Acts ctx body due depth (depth + -bytes) (releaseArguments bytes) := by
  unfold releaseArguments
  split
  · rename_i none_pushed
    rw [none_pushed, Int.natCast_zero, Int.neg_zero, Int.add_zero]
    exact stays_pure.acts
  · refine (moves_adjustStack (ctx.between_mode body depth) rfl).bind
      fun _ state stands res final outcome => ?_
    cases outcome
    have modes := stands.modes
    rw [between, within, push_push, ← stands.width] at modes
    exact ⟨modes, congrArg (· - (bytes : Int)) stands.depth⟩

theorem always_loadAccumulator (reg : VReg) (state : SelectionState) :
    Always ctx (loadAccumulator reg) (fun _ final => final.accumulator = state.accumulator) state := by
  refine .bind fun loc mid taken => ?_
  cases taken
  have reads (loc : Loc) : Always ctx (do emit [← memory .lda loc])
      (fun _ final => final.accumulator = state.accumulator) state := by
    refine .bind fun instr mid taken => ?_
    cases loc <;> cases taken <;> exact always_emit rfl
  split
  · exact always_pure rfl
  iterate 2 exact always_emit rfl
  iterate 2 exact fun _ _ res => nomatch res
  all_goals exact reads _

theorem acts_push {value : Value}
    (sized : body.level = none ∨ ctx.graph.TakenAt depth (.push value)) :
    Acts ctx body due depth (depth + ctx.graph.pushedBy (.push value)) (push value) := by
  cases value with
  | imm num => exact fun _ _ _ _ res => nomatch res
  | reg src =>
    let width := ctx.graph.width src
    let count : Select Unit := modify fun state => { state with depth := state.depth + width.bytes }
    let goal (_ : Unit) (final : SelectionState) : Prop := final.Tracks ctx body due (depth + width.bytes)
    have grown (cur : Width) : (body.within cur depth).push width.mode.width.bytes =
        body.within cur (depth + width.bytes) := by
      obtain uncounted | sized := sized
      · simp [StackState.within, StackState.push, uncounted]
      · rw [StackState.within, push_push, show width.mode.width = width from sized]
        rfl
    have counts {state : SelectionState} (op : Op) (tracks : state.Tracks ctx body due depth)
        (pushed : pushedBy (.chosen state.accumulator.mode) [.plain op] =
          some width.mode.width.bytes) :
        Always ctx (do emit [.plain op]; count) goal state := by
      have leads : LeadsModes body _ [.plain op] (some ((body.within _ depth).push _)) :=
        leadsModes_pushedBy pushed rfl
      rw [grown] at leads
      refine .bind (always_emit fun _ final res => ?_)
      cases res
      exact ⟨tracks.1.emit_bare leads rfl, congrArg (· + _) tracks.2⟩
    have throughAccumulator {state : SelectionState} (tracks : state.Tracks ctx body due depth) :
        Always ctx (do setAccumulator width; loadAccumulator src; emit [.plain .pha]; count)
          goal state := by
      refine Always.bind ((always_setAccumulator tracks).mono fun _ mid switched => ?_)
      refine Always.bind fun value final taken => ?_
      have width_eq := (always_loadAccumulator src mid _ _ taken).trans switched.2
      refine counts .pha (keeps_loadAccumulator mid switched.1 _ _ taken) ?_
      rw [width_eq]
      cases width.mode <;> rfl
    refine .look rfl fun _ => .look rfl fun _ state stands => ?_
    change Always ctx _ goal state
    split
    iterate 2
      split
      · rename_i word
        exact counts _ stands.tracks (by rw [show width = .word from word]; rfl)
      · simpa only [bind_assoc] using throughAccumulator stands.tracks
    · simpa only [bind_assoc] using throughAccumulator stands.tracks

theorem acts_call {details : DirectCall} :
    Acts ctx body due depth (depth + -details.stackBytes) (call details) := by
  unfold call
  split <;> exact (moves_emit_straight rfl rfl).seq <| acts_releaseArguments _

section

variable (fits : ctx.between body 0 = body)
include fits

theorem moves_jumpThroughTrampoline (table : String) :
    Moves ctx body due depth (jumpThroughTrampoline table (ctx.graph.mode = .narrow))
      (widened (ctx.between body depth)) (ctx.between body depth) := by
  let cur := ctx.between body depth
  have straight {instr : Instr} {state : StackState} (plain : instr.isStraight = true)
      (bare : state.held = none) : instr.LeadsModes body (some state) (some state) :=
    Instr.leadsModes_straight plain bare
  have points (pointer saved : Int) : LeadsModes body (some (widened cur))
      [.plain .asl, .plain .clc, .immediateSymbol .adc table 2, .direct .sta pointer,
        .narrowAccumulator, .immediateSymbol .lda ("^" ++ table) 1, .direct .sta (pointer + 2),
        .widenAccumulator, .direct .lda saved] (some (widened cur)) :=
    ⟨_, straight rfl rfl, _, straight rfl rfl, _, straight rfl rfl, _, straight rfl rfl,
      _, leadsModes_selectMode .narrow rfl, _, straight rfl rfl, _, straight rfl rfl,
      _, leadsModes_selectMode .wide rfl, .single (straight rfl rfl)⟩
  have pushes (back : String) : LeadsModes body (some cur)
      [.plain .phk, .run { op := .per, mode := .relativeLong, symbol := back }]
      (some (cur.push 3)) :=
    leadsModes_pushedBy rfl rfl
  have jumps (pointer : Int) :
      (Instr.run { op := .jml, mode := .indirectLong, value := pointer }).LeadsModes body
        (some (cur.push 3)) (some cur) := by
    have back : (cur.push 3).push (-3) = cur := by
      rw [push_push]
      exact cur.push_zero
    refine leadsModes_of_shifts ?_ ?_ ⟨.keep (by simp [Operation.TouchesModes]),
      congrArg (fun state : StackState => (state.level, none)) back.symm⟩ <;>
      simp [Operation.EndsPath, Operation.CanJump, Operation.Returns, Operation.JumpsDirectly,
        Operation.JumpsThroughTable, Op.isBranch, Op.isConditional]
  have comes (num : Nat) :
      (Instr.label (numbered ctx.graph.name "r" num)).LeadsModes body (some cur) (some cur) := by
    by_cases uncounted : body.level = none
    · have same : cur = body := between_eq fits (.inl uncounted)
      rw [same]
      exact leadsModes_label
    · refine .inr ⟨⟨uncounted, ?_⟩, .inr rfl⟩
      rw [numbered, resumesCall_numbered]
      simp [resumesCall]
  refine .look rfl fun _ => .freshLabel rfl (by decide) fun num => .look rfl fun _ => ?_
  exact (moves_emit (points _ _) rfl).seq <| (moves_narrow (ctx.between_mode body depth) rfl).seq <|
    leads_emit ((pushes _).append ⟨_, jumps _, .single (comes num)⟩) (.refl _)

theorem acts_dispatch (details : TableCall) :
    Acts ctx body due depth (depth + -details.stackBytes) (dispatch details) := by
  have at_mode := ctx.between_mode body depth
  refine .look rfl fun _ => .look rfl fun _ => ?_
  refine (moves_widen at_mode rfl).seq <| (moves_emit_straight rfl rfl).seq ?_
  split
  · exact (moves_jumpThroughTrampoline fits _).seq <| acts_releaseArguments _
  · exact (moves_emit_straight rfl rfl).seq <| (moves_narrow at_mode rfl).seq <|
      (moves_emit_straight rfl rfl).seq <| acts_releaseArguments _

theorem acts_action (step : Action) (taken : body.level = none ∨ ctx.graph.TakenAt depth step) :
    Acts ctx body due depth (depth + ctx.graph.pushedBy step) (action step) := by
  have level {code : Select Unit} (acts : Acts ctx body due depth depth code) :
      Acts ctx body due depth (depth + 0) code := by
    rwa [add_zero]
  cases step with
  | params => exact level stays_pure.acts
  | const target value => exact level keeps_const.acts
  | move target src => exact level keeps_move.acts
  | convert target src signed => exact level keeps_convert.acts
  | bin kind target left right noWrap => exact level keeps_bin.acts
  | un kind target src => exact level keeps_un.acts
  | setCond cond target left right =>
    exact level (acts_setCond (between_eq fits taken) cond right)
  | load target addr => exact level keeps_load.acts
  | store addr src => exact level keeps_store.acts
  | lookup target table idx => exact level keeps_lookup.acts
  | push src => exact acts_push taken
  | call details => exact acts_call
  | dispatch details => exact acts_dispatch fits details

/-- What a block's actions push they release, or nothing is counted. -/
theorem leads_actions (noOps : List (BlockId × Nat)) (id : BlockId) {steps : List Action}
    (balances : body.level = none ∨ ctx.graph.Balances noOps id steps.zipIdx depth) :
    Leads ctx (·.Stands ctx body due depth (ctx.between body depth)) (actions noOps id steps)
      fun _ final => ∃ depth, (body.level = none ∨ depth = 0) ∧
        final.Stands ctx body due depth (ctx.between body depth) := by
  unfold actions
  generalize steps.zipIdx = numbered at balances
  induction numbered generalizing depth with
  | nil => exact fun _ stands => always_pure ⟨depth, balances, stands⟩
  | cons entry numbered ih =>
    obtain ⟨step, idx⟩ := entry
    rw [Graph.Balances] at balances
    split at balances <;> rename_i skipped
    · simp_all
    · refine .bind ?_ fun _ => ih (balances.imp_right And.right)
      dsimp only
      rw [if_neg skipped]
      exact (acts_action fits step (balances.imp_right And.left)).settle

end

/-! ## Functions -/

/-- The step ends where control goes on to the next block, if there is one. -/
abbrev EndsBlock (context : SelectionContext) (body : StackState) (due : List String)
    (depth : Int) (id : BlockId) (step : Select Unit) : Prop :=
  Leads context (·.Stands context body due depth body) step fun _ final =>
    final.InModes context body due ((context.graph.next? id).map fun _ => body) ∧ final.depth = depth

variable {id : BlockId}

/-- Control does not come out of the step. -/
theorem endsBlock_of_ends {code : List Instr} (leads : LeadsModes body (some before) code none)
    (bare : definedLabels code = []) :
    Leads ctx (·.Stands ctx body due depth before) (emit code) fun _ final =>
      final.InModes ctx body due ((ctx.graph.next? id).map fun _ => body) ∧ final.depth = depth :=
  fun _ stands => always_emit ⟨stands.modes.emit_bare (leads.to_any _) bare, stands.depth⟩

/-- Control passes the step and goes on to the next block. -/
theorem Moves.endsBlock {next : BlockId} (moves : Moves ctx body due depth step body body)
    (follows : ctx.graph.next? id = some next) : EndsBlock ctx body due depth id step := by
  intro state stands
  rw [follows]
  exact (moves state stands).mono fun _ _ moved => ⟨moved.modes, moved.depth⟩

theorem endsBlock_bra (bare : body.held = none) (target : BlockId) :
    EndsBlock ctx body due depth id (emit [.branch .bra (blockLabel ctx.graph.name target)]) :=
  endsBlock_of_ends (.single (leadsModes_branchTo bare rfl (resumesCall_blockLabel _ _) nofun)) rfl

end Select

/-- Modes of the body of a function: the caller's status register is saved, except by handlers. -/
def Signature.entered (signature : Signature) (level : Option Int) : StackState where
  mode := .chosen signature.mode
  saved := if signature.interrupt.isSome then [] else [.caller]
  level := level

namespace Signature

variable (sig : Signature) {body : StackState} {level : Option Int} {saved : List ModeView}

/-- The switch from the width of all saved registers to the one of the body, or back. -/
theorem leadsModes_codeIf : LeadsModes body (some ⟨⟨.chosen .wide, saved⟩, level, none⟩)
        (codeIf (sig.mode = .narrow) [.narrowAccumulator])
        (some ⟨⟨.chosen sig.mode, saved⟩, level, none⟩) ∧
      LeadsModes body (some ⟨⟨.chosen sig.mode, saved⟩, level, none⟩)
        (codeIf (sig.mode = .narrow) [.widenAccumulator])
        (some ⟨⟨.chosen .wide, saved⟩, level, none⟩) := by
  cases sig.mode with
  | narrow =>
    exact ⟨.single (leadsModes_selectMode .narrow rfl), .single (leadsModes_selectMode .wide rfl)⟩
  | wide => exact ⟨.inr rfl, .inr rfl⟩

theorem leadsModes_interruptEntry : LeadsModes body (some { level }) sig.interruptEntry
      (some ⟨⟨.chosen sig.mode, []⟩, level.map (· + 9), none⟩) := by
  have widens : (immediate .rep 0x30 1).LeadsModes body (some { level })
      (some ⟨⟨.chosen .wide, []⟩, level, none⟩) :=
    leadsModes_inline rfl ⟨.widen rfl rfl, by simp [Operation.shift, Op.pushed?]⟩
  have pushes : LeadsModes body (some ⟨⟨.chosen .wide, []⟩, level, none⟩)
      ([.plain .pha, .plain .phx, .plain .phy, .plain .phb, .plain .phd] ++
        codeIf (sig.dataBank = .set) [.plain .phk, .plain .plb])
      (some ⟨⟨.chosen .wide, []⟩, level.map (· + 9), none⟩) := by
    refine leadsModes_pushedBy ?_ rfl
    cases decide (sig.dataBank = .set) <;> rfl
  exact ((LeadsModes.single widens).append pushes).append sig.leadsModes_codeIf.1

/-- A return ends the path. -/
theorem leadsModes_return {state : StackState} {op : Op}
    (isReturn : op = .rts ∨ op = .rtl ∨ op = .rti) (empty : state.saved = [])
    (callers : op = .rti ∨ state.mode = .caller)
    (level_eq : state.level = body.level.map fun _ => 0) :
    (plain op).LeadsModes body (some state) none := by
  obtain ⟨⟨mode, saved⟩, level, held⟩ := state
  cases empty
  refine ⟨?_, ?_, fun cur reached => ?_⟩
  · obtain rfl | rfl | rfl := isReturn <;> nofun
  · grind [Operation.JumpsDirectly, Op.isBranch, Op.isConditional]
  · cases reached
    refine ⟨⟨fun isPlp => ?_, fun returns => ?_, fun _ => rfl⟩, fun _ => level_eq, fun jumps => ?_,
      fun goes => ?_⟩
    · simp_all
    · obtain rfl | isCaller := callers
      · obtain returns | returns := returns <;> cases returns
      · simp_all
    · grind [Operation.CanJump, Operation.JumpsDirectly, Operation.JumpsThroughTable, Op.isBranch,
        Op.isConditional]
    · refine absurd ?_ goes
      obtain rfl | rfl | rfl := isReturn
      exacts [.inl (.inl rfl), .inl (.inr rfl), .inr (.inl rfl)]

theorem leadsModes_interruptExit (level_eq : level = body.level.map fun _ => 0) :
    LeadsModes body (some ⟨⟨.chosen sig.mode, []⟩, level.map (· + 9), none⟩)
      sig.interruptExit none := by
  have pulls : LeadsModes body (some ⟨⟨.chosen .wide, []⟩, level.map (· + 9), none⟩)
      [.plain .pld, .plain .plb, .plain .ply, .plain .plx, .plain .pla]
      (some (push ⟨⟨.chosen .wide, []⟩, level.map (· + 9), none⟩ (-9))) :=
    leadsModes_pushedBy rfl rfl
  have returns : (plain .rti).LeadsModes body
      (some (push ⟨⟨.chosen .wide, []⟩, level.map (· + 9), none⟩ (-9))) none := by
    refine leadsModes_return (.inr (.inr rfl)) rfl (.inl rfl) (.trans ?_ level_eq)
    cases level <;> simp [push]
  have exits := (sig.leadsModes_codeIf.2.append pulls).append (.single returns)
  rwa [append_assoc] at exits

theorem definedLabels_sequences :
    definedLabels sig.entrySequence = [] ∧ definedLabels sig.exitSequence = [] := by
  obtain ⟨_, mode, _, _, _, _, _, ⟨hasA, hasB, hasX, hasY⟩, _, bank, interrupt⟩ := sig
  cases interrupt <;> cases mode <;> cases bank <;> cases hasA <;> cases hasB <;> cases hasX <;>
    cases hasY <;> exact ⟨rfl, rfl⟩

theorem pushedBy_kept (called : sig.interrupt.isSome = false) :
    pushedBy (.chosen sig.mode) (sig.saveAccumulator ++
        codeIf (sig.preserve.has .x) [.plain .phx] ++
        codeIf (sig.preserve.has .y) [.plain .phy] ++
        codeIf (sig.dataBank = .set) [.plain .phb, .plain .phk, .plain .plb]) =
        some ((sig.savedBytes : Int) - 1) ∧
      pushedBy (.chosen sig.mode) (codeIf (sig.dataBank = .set) [.plain .plb] ++
        codeIf (sig.preserve.has .y) [.plain .ply] ++
        codeIf (sig.preserve.has .x) [.plain .plx] ++ sig.restoreAccumulator) =
        some (1 - (sig.savedBytes : Int)) := by
  unfold saveAccumulator restoreAccumulator savedBytes savedAccumulatorBytes
  rw [called]
  generalize sig.preserve = mask
  obtain ⟨hasA, hasB, hasX, hasY⟩ := mask
  cases sig.mode <;> cases sig.dataBank <;> cases hasA <;> cases hasB <;>
    cases hasX <;> cases hasY <;> exact ⟨rfl, rfl⟩

theorem entered_push_handler (isHandler : sig.interrupt.isSome = true) :
    (sig.entered level).push sig.savedBytes =
      ⟨⟨.chosen sig.mode, []⟩, level.map (· + 9), none⟩ := by
  simp [entered, savedBytes, isHandler, push]

theorem leadsModes_entrySequence : LeadsModes body (some { level }) sig.entrySequence
      (some ((sig.entered level).push sig.savedBytes)) := by
  unfold entrySequence
  split <;> rename_i isHandler
  · rw [sig.entered_push_handler isHandler]
    exact sig.leadsModes_interruptEntry
  · have called := Bool.not_eq_true _ ▸ isHandler
    have enters : LeadsModes body (some { level }) [.plain .php, .selectMode sig.mode]
        (some ((sig.entered level).push 1)) := by
      rw [entered, if_neg isHandler]
      refine ⟨some ⟨⟨.caller, [.caller]⟩, level.map (· + 1), none⟩, leadsModes_inline rfl
        ⟨.save rfl, ?_⟩, .single (leadsModes_selectMode sig.mode rfl)⟩
      cases level <;> rfl
    have saves : LeadsModes body (some ((sig.entered level).push 1)) _
        (some (((sig.entered level).push 1).push (sig.savedBytes - 1))) :=
      leadsModes_pushedBy (sig.pushedBy_kept called).1 rfl
    rw [push_push, show (1 : Int) + (sig.savedBytes - 1) = sig.savedBytes by
      omega] at saves
    simpa only [append_assoc] using enters.append saves

theorem leadsModes_exitSequence (level_eq : level = body.level.map fun _ => 0) :
    LeadsModes body (some ((sig.entered level).push sig.savedBytes)) sig.exitSequence none := by
  unfold exitSequence
  split <;> rename_i isHandler
  · rw [sig.entered_push_handler isHandler]
    exact sig.leadsModes_interruptExit level_eq
  · have called := Bool.not_eq_true _ ▸ isHandler
    have restores : LeadsModes body (some ((sig.entered level).push sig.savedBytes)) _
        (some (((sig.entered level).push sig.savedBytes).push (1 - sig.savedBytes))) :=
      leadsModes_pushedBy (sig.pushedBy_kept called).2 rfl
    rw [push_push, show (sig.savedBytes : Int) + (1 - sig.savedBytes) = 1 by
      omega] at restores
    have leaves : LeadsModes body (some ((sig.entered level).push 1))
        [.plain .plp, .plain (if sig.far then .rtl else .rts)] none := by
      rw [entered, if_neg isHandler]
      refine ⟨some { level }, leadsModes_inline rfl ⟨.restore rfl, ?_⟩,
        .single (leadsModes_return ?_ rfl (.inr rfl) level_eq)⟩
      · cases level <;> simp [push, Operation.shift, Op.pushed?]
      · grind
    exact restores.append leaves

end Signature

/-- Bytes of a function on the stack between actions: what the entry saves, the eight temporary bytes
that a handler saves, and the frame. -/
def SelectionContext.bodyBytes (context : SelectionContext) : Int :=
  context.signature.savedBytes + (if context.signature.interrupt.isSome then 8 else 0) +
    context.frameSize

/-- The state of the body of a function that was entered at a level. -/
def SelectionContext.body (context : SelectionContext) (level : Option Int) : StackState :=
  (context.signature.entered level).push context.bodyBytes

namespace Select

variable {body : StackState} {depth : Int} {id : BlockId} {level : Option Int}
  {state : SelectionState}

section

variable (same_mode : ctx.signature.mode = ctx.graph.mode)
include same_mode

theorem moves_adjustStack_entered {first last bytes : Int} (sum_eq : first + -bytes = last) :
    Moves ctx body due depth (adjustStack bytes) ((ctx.signature.entered level).push first)
      ((ctx.signature.entered level).push last) := by
  rw [← sum_eq, ← push_push]
  exact moves_adjustStack (congrArg _ same_mode) rfl

theorem moves_prologue : Moves ctx body due depth prologue { level } (ctx.body level) := by
  refine .look rfl fun _ => ((moves_emit ctx.signature.leadsModes_entrySequence
    ctx.signature.definedLabels_sequences.1).seq ?_)
  split <;> rename_i isHandler
  · have saves : LeadsModes body
        (some ((ctx.signature.entered level).push ctx.signature.savedBytes))
        (saveTemporaries ctx.settings.tempBase)
        (some (((ctx.signature.entered level).push ctx.signature.savedBytes).push 8)) :=
      leadsModes_pushedBy rfl rfl
    rw [push_push] at saves
    refine (moves_emit saves rfl).seq <| moves_adjustStack_entered same_mode ?_
    rw [bodyBytes, if_pos isHandler, neg_neg]
  · refine moves_adjustStack_entered same_mode ?_
    rw [bodyBytes, if_neg isHandler, neg_neg, add_zero]

theorem endsBlock_epilogue (start : level = level.map fun _ => 0) :
    EndsBlock ctx (ctx.body level) due depth id epilogue := by
  have leaves := @endsBlock_of_ends ctx due (ctx.body level)
    ((ctx.signature.entered level).push ctx.signature.savedBytes) depth id _
    (ctx.signature.leadsModes_exitSequence (start.trans (by cases level <;> rfl)))
    ctx.signature.definedLabels_sequences.2
  refine .look rfl fun _ => ?_
  split <;> rename_i isHandler
  · have restores : LeadsModes (ctx.body level)
        (some (widened ((ctx.signature.entered level).push (ctx.signature.savedBytes + 8))))
        (restoreTemporaries ctx.settings.tempBase)
        (some ((widened ((ctx.signature.entered level).push
          (ctx.signature.savedBytes + 8))).push (-8))) :=
      leadsModes_pushedBy rfl rfl
    have ran : (widened ((ctx.signature.entered level).push
        (ctx.signature.savedBytes + 8))).push (-8) =
        widened ((ctx.signature.entered level).push ctx.signature.savedBytes) := by
      change widened (((ctx.signature.entered level).push _).push _) = _
      rw [push_push, add_neg_cancel_right]
    rw [ran] at restores
    have at_mode (bytes : Int) : ((ctx.signature.entered level).push bytes).mode =
        .chosen ctx.graph.mode := congrArg _ same_mode
    refine (moves_adjustStack_entered same_mode ?_).seq <|
      (moves_widen (at_mode _) rfl).seq <| (moves_emit restores rfl).seq <|
      (moves_narrow (at_mode _) rfl).seq leaves
    rw [bodyBytes, if_pos isHandler, add_neg_cancel_right]
  · refine (moves_adjustStack_entered same_mode ?_).seq leaves
    rw [bodyBytes, if_neg isHandler, add_neg_cancel_right, add_zero]

end

theorem endsBlock_jumpTable (even : ctx.between body depth = body) (idx : VReg)
    {targets : List BlockId} {block : BasicBlock} (mem : block ∈ ctx.graph.blocks)
    (ends : block.successors = targets) :
    EndsBlock ctx body due depth id (jumpTable idx targets) := by
  have jumps (name : String) : EndsBlock ctx body due depth id
      (emit [.run { op := .jmp, mode := .indexedIndirect, symbol := name }]) := by
    refine endsBlock_of_ends (.single ⟨nofun, ?_, fun state reached => ?_⟩) rfl
    · rintro (branch | ⟨-, direct | direct⟩)
      · cases branch
      · cases direct
      · cases direct
    cases reached
    refine ⟨⟨nofun, ?_, nofun⟩, ?_, fun _ => rfl, fun goes => absurd ?_ goes⟩
    · rintro (isRts | isRtl)
      · cases isRts
      · cases isRtl
    · rintro ((isRts | isRtl) | isRti)
      all_goals simp_all
    · exact .inr (.inr (.inr (.inr (.inr ⟨rfl, rfl⟩))))
  have indexes : Acts ctx body due depth depth (do
      loadExtended idx
      emit [.plain .asl, .plain .tax]) :=
    Stays.acts (keeps_loadExtended.seq <| keeps_emit rfl)
  have leaves (name : String) := indexes.settle_bind even (jumps name)
  simp only [bind_assoc] at leaves
  intro state stands
  obtain ⟨led, labelled⟩ := stands.modes
  refine leaves _ _ ⟨⟨led, labelled.distinct, labelled.blocks, labelled.free,
    fun table listed target target_mem => ?_⟩, stands.width, stands.depth⟩
  obtain old | new := mem_append.mp listed
  · exact labelled.targets table old target target_mem
  · cases mem_singleton.mp new
    obtain ⟨id, id_mem, rfl⟩ := mem_map.mp target_mem
    exact ⟨block, mem, id, ends ▸ id_mem, rfl⟩

theorem endsBlock_terminator (same_mode : ctx.signature.mode = ctx.graph.mode)
    (start : level = level.map fun _ => 0)
    (even : ctx.between (ctx.body level) depth = ctx.body level) {block : BasicBlock}
    (mem : block ∈ ctx.graph.blocks) {exit : Terminator} (ends : block.terminator = some exit) :
    EndsBlock ctx (ctx.body level) due depth id (terminator id exit) := by
  have free (target : BlockId) := resumesCall_blockLabel ctx.graph.name target
  refine .look rfl fun _ => ?_
  cases exit with
  | jump target =>
    dsimp only
    split
    · exact endsBlock_bra rfl _
    · grind [Moves.endsBlock, stays_pure]
  | branch cond left right thenBlock elseBlock =>
    dsimp only
    split
    · grind [Moves.endsBlock, moves_compareBranch]
    · refine (moves_compareBranch even _ _ _ (free _)).seq ?_
      split
      · exact endsBlock_bra rfl _
      · grind [Moves.endsBlock, stays_pure]
  | jumpTable idx targets =>
    exact endsBlock_jumpTable even idx mem (by rw [BasicBlock.successors, ends]; rfl)
  | giveBack values => exact endsBlock_epilogue same_mode start

theorem always_read {next : SelectionContext → Select α} {goal : α → SelectionState → Prop}
    (rest : Always ctx (next ctx) goal state) : Always ctx (read >>= next) goal state :=
  rest

theorem between_body (same_mode : ctx.signature.mode = ctx.graph.mode) :
    ctx.between (ctx.body level) 0 = ctx.body level := by
  rw [between, within, push_zero, Mode.mode_width, ← same_mode]
  rfl

section

variable (same_mode : ctx.signature.mode = ctx.graph.mode) (start : level = level.map fun _ => 0)
include same_mode start

/-- Code of a block, from its label to where control goes on. -/
theorem block_atBody (noOps : List (BlockId × Nat)) {entry : BasicBlock × BlockId}
    (mem : entry.1 ∈ ctx.graph.blocks) (balances : (ctx.body level).level = none ∨
      ctx.graph.Balances noOps entry.2 entry.1.actions.zipIdx 0)
    (stands : state.AtBody ctx (ctx.body level) (blockLabel ctx.graph.name entry.2 :: due)
      (some (ctx.body level))) :
    Always ctx (block noOps entry) (fun _ final => final.AtBody ctx (ctx.body level) due
        ((ctx.graph.next? entry.2).map fun _ => ctx.body level)) state := by
  obtain ⟨block, id⟩ := entry
  obtain ⟨modes, even⟩ := stands
  have fits : ctx.between (ctx.body level) 0 = ctx.body level := between_body same_mode
  have balanced : (ctx.body level).level = none ∨
      ctx.graph.Balances noOps id block.actions.zipIdx state.depth := by
    grind
  refine always_read (.bind fun _ _ opened => ?_)
  cases opened
  refine .bind (always_emit (.bind
    (.mono (@leads_actions ctx due _ _ fits noOps id _ balanced _ ?_) ?_)))
  · refine ⟨?_, rfl, rfl⟩
    rw [between_eq fits even]
    exact .emit modes (.single leadsModes_label) (.refl _)
  · rintro _ final ⟨depth, even, stands⟩
    have same := between_eq fits even
    rw [same] at stands
    split
    · next ends =>
      exact (endsBlock_terminator same_mode start same mem ends final stands).mono
        fun _ _ ended => ⟨ended.1, even.imp_right (ended.2.trans ·)⟩
    · exact fun _ _ res => nomatch res

/-- Code of blocks that are the last ones of the graph. -/
theorem blocks_atBody (noOps : List (BlockId × Nat)) (blocks : List BasicBlock) (first : Nat)
    (all : first + blocks.length = ctx.graph.blocks.size)
    (listed : ∀ block ∈ blocks, block ∈ ctx.graph.blocks)
    (balances : (ctx.body level).level = none ∨ ∀ entry ∈ blocks.zipIdx first,
      ctx.graph.Balances noOps entry.2 entry.1.actions.zipIdx 0)
    (stands : state.AtBody ctx (ctx.body level)
      ((range' first blocks.length).map (blockLabel ctx.graph.name))
      (if blocks = [] then none else some (ctx.body level))) :
    Always ctx ((blocks.zipIdx first).forM (Select.block noOps))
      (fun _ final => final.AtBody ctx (ctx.body level) [] none) state := by
  induction blocks generalizing first state with
  | nil => exact always_pure stands
  | cons block blocks ih =>
    have own := balances.imp_right fun balanced =>
      balanced (block, first) (.head _ ..)
    refine .bind
      ((block_atBody same_mode start noOps (listed block (.head _)) own stands).mono ?_)
    intro _ final ended
    have follows : (ctx.graph.next? first).map (fun _ => ctx.body level) =
        if blocks = [] then none else some (ctx.body level) := by
      cases blocks <;> grind [Graph.next?]
    rw [follows] at ended
    exact ih (first + 1) (by grind) (fun other mem => listed other (.tail _ mem))
      (balances.imp_right fun balanced entry mem => balanced entry (.tail _ mem)) ended

theorem function_inModes (nonempty : ctx.graph.blocks ≠ #[]) {noOps : List (BlockId × Nat)}
    (balances : (ctx.body level).level = none ∨ ∀ entry ∈ ctx.graph.blocks.toList.zipIdx,
        ctx.graph.Balances noOps entry.2 entry.1.actions.zipIdx 0) :
    Always ctx (function noOps) (fun _ final => final.InModes ctx (ctx.body level) [] none)
      { accumulator := ctx.graph.mode.width } := by
  have at_start : (ctx.body level).level.map (fun _ => (0 : Int)) = level :=
    .trans (by cases level <;> rfl) start.symm
  have due_eq : (range' 0 ctx.graph.blocks.size).map (blockLabel ctx.graph.name) =
      (List.range ctx.graph.blocks.size).map (numbered ctx.graph.name "L") := by
    rw [range_eq_range', funext (blockLabel_eq ctx.graph.name)]
  have entered : SelectionState.Stands ctx (ctx.body level)
      ((range' 0 ctx.graph.blocks.size).map (blockLabel ctx.graph.name)) 0 { level }
      { accumulator := ctx.graph.mode.width } := by
    rw [due_eq]
    refine ⟨⟨.inr (by rw [at_start]), ?_, fun id inside => ?_,
      fun kind num single other _ mem => ?_, nofun⟩, rfl, rfl⟩
    · exact (append_nil _).symm ▸ nodup_range.map fun _ _ same => (numbered_inj rfl same).2
    · rw [blockLabel_eq]
      exact mem_append_left _ (mem_map_of_mem (mem_range.mpr inside))
    · obtain ⟨id, -, same⟩ := mem_map.mp ((mem_append.mp mem).resolve_right nofun)
      exact other (@numbered_inj _ "L" kind _ _ single.symm same).1.symm
  refine .bind ((moves_prologue same_mode _ entered).mono fun _ state stands => always_read ?_)
  refine (blocks_atBody same_mode start noOps _ 0 (by simp) (by simp) balances ?_).mono
    fun _ _ holds => holds.1
  rw [if_neg (by simpa using nonempty), Array.length_toList]
  exact ⟨stands.modes, .inr stands.depth⟩

end

end Select

/-- What is known where the code of a graph is selected. -/
def Graph.selecting (graph : Graph) (allocation : Allocation) (signature : Signature)
    (settings : Settings) : SelectionContext :=
  { graph, places := allocation.location, frameSize := allocation.frameSize, signature, settings }

/-- Selected code is what the function emits, without the labels that nothing refers to. -/
theorem Graph.select_ok {graph : Graph} {allocation : Allocation} {sig : Signature}
    {settings : Settings} {selected : SelectedCode}
    (selects : graph.select allocation sig settings = .ok selected) :
    ∃ final, Select.function allocation.noOps (graph.selecting allocation sig settings)
        { accumulator := graph.mode.width } = .ok ((), final) ∧
      selected.routine.code =
        final.code.toList.filter (isKept (labelsInUse final.code.toList final.tables)) ∧
      ∀ table ∈ selected.tables, ∀ target ∈ table.targets, table ∈ final.tables := by
  unfold Graph.select at selects
  cases res : Select.function allocation.noOps
      (graph.selecting allocation sig settings) { accumulator := graph.mode.width } with
  | error error =>
    simp_all [ReaderT.run, StateT.run, selecting]
  | ok pair =>
    refine ⟨pair.2, rfl, ?_⟩
    simp only [ReaderT.run, StateT.run, selecting] at res selects
    rw [res] at selects
    cases selects
    refine ⟨rfl, fun table listed target mem => (mem_append.mp listed).resolve_right fun values => ?_⟩
    obtain ⟨lookup, -, rfl⟩ := mem_map.mp values
    cases mem

/-- The code of a function returns in its caller's mode on all paths, with branches lengthened as
needed, wherever registers are placed. -/
theorem Graph.select_modeSymmetric (graph : Graph) (allocation : Allocation)
    (signature : Signature) (settings : Settings) (selected : SelectedCode) (resolved : Routine)
    (nonempty : graph.blocks ≠ #[]) (same_mode : signature.mode = graph.mode)
    (selects : graph.select allocation signature settings = .ok selected)
    (resolves : selected.routine.resolveBranches = .ok resolved) :
    resolved.checkModes selected.tables = .ok () := by
  obtain ⟨final, outcome, code_eq, -⟩ := Graph.select_ok selects
  let context := graph.selecting allocation signature settings
  have modes : final.InModes context (context.body none) [] none :=
    Select.function_inModes same_mode rfl nonempty (.inl rfl) _ _ outcome
  exact Routine.checkModes_resolved rfl rfl (code_eq ▸ modes.1.filter _) resolves _

def polling : Graph where
  name := "f"
  blocks := #[
    { actions := [.const 1 300], terminator := some (.branch .eq 1 (.imm 5) 0 1) },
    { terminator := some (.giveBack []) }]
  vregs := #[{}, { width := .word }]

/-- Its code with the word in the scratch pool, and with code between the loop and the return. -/
def pollingRoutine (between : List Instr) : Routine where
  name := "f"
  code :=
    [.plain .php, .narrowAccumulator, .label "f_L0", .widenAccumulator, .immediate .lda 300 2,
      .direct .sta 0x10, .narrowAccumulator, .widenAccumulator, .direct .lda 0x10,
      .immediate .cmp 5 2, .narrowAccumulator, .branch .beq "f_L0"] ++ between ++
      [.plain .plp, .plain .rts]

theorem Routine.dropUnusedLabels_eq (routine : Routine) :
    (routine.dropUnusedLabels []).code = routine.code.filter fun instr => instr.label?.all
      (routine.code.filterMap referredLabel?).contains := by
  have kept : isKept (labelsInUse routine.code []) = fun instr => instr.label?.all
      (routine.code.filterMap referredLabel?).contains := by
    funext instr
    cases instr <;> simp [isKept, label?, labelsInUse]
  rw [Routine.dropUnusedLabels, kept]

theorem polling_modeSymmetric : ∃ selected resolved,
      polling.select { locations := #[.nowhere, .scratch 0] } { name := "f" } .standard =
        .ok selected ∧
      selected.routine.resolveBranches = .ok resolved ∧
      resolved.checkModes selected.tables = .ok () := by
  have selects : polling.select { locations := #[.nowhere, .scratch 0] } { name := "f" }
      .standard = .ok ⟨(pollingRoutine [.label "f_L1"]).dropUnusedLabels [], []⟩ := rfl
  obtain ⟨resolved, resolves⟩ := @Routine.exists_resolveBranches
    ((pollingRoutine [.label "f_L1"]).dropUnusedLabels [])
    (undefinedTarget_eq_none_iff.mpr (by rw [Routine.dropUnusedLabels_eq]; decide +kernel))
    (by rw [Routine.dropUnusedLabels_eq]; decide +kernel)
  exact ⟨_, resolved, selects, resolves,
    Graph.select_modeSymmetric _ _ _ _ _ _ (by decide) rfl selects resolves⟩

end Backend65816
