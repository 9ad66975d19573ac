import Backend65816.Proofs.SelectionRun

/-!
# Registers that selected code leaves alone

The parts that the code of actions is made of, with the registers that each one may change: loads
and stores of the accumulator, second operands, and computed addresses. Whatever the machine holds,
their code leads to its end.
-/

namespace Backend65816

open Instr

variable {num : Int} {m : Machine} {hw : Reg} {mask wider left right : RegMask} {width : Width}

variable {code : List Instr} {instr : Instr} {loc : Loc} {syms : String → Int}

/-- The instruction leads on and changes registers of the set only. -/
def Instr.Steady (mask : RegMask) (mode current : Mode) (instr : Instr) : Prop :=
  ∃ operation, instr = .run operation ∧ operation.fits current = true ∧
    operation.op.Inside mask mode current

theorem Operation.fits_of_isMemory {op : Operation} {cur : Mode} (mem : op.mode.isMemory = true)
    (reaches : op.op.reaches op.mode = true) : op.fits cur = true := by
  unfold fits
  split
  · next implied => rw [implied] at mem; cases mem
  · next immediate => rw [immediate] at mem; cases mem
  · rw [mem, reaches]
    rfl

theorem Operation.Names.steady {ctx : SelectionContext} {depth : Int} {op : Op}
    {operation : Operation} {mode cur : Mode} (names : operation.Names syms ctx depth op loc)
    (reaches : op.reaches operation.mode = true) (inside : op.Inside mask mode cur) :
    (Instr.run operation).Steady mask mode cur :=
  ⟨operation, rfl, fits_of_isMemory names.isMemory (names.op_eq ▸ reaches), names.op_eq ▸ inside⟩

namespace Instr

variable {mode cur : Mode}

theorem steady_plain (op : Op) (fits : Operation.fits { op } cur = true)
    (inside : op.Inside mask mode cur) : (plain op).Steady mask mode cur :=
  ⟨_, rfl, fits, inside⟩

theorem steady_direct (op : Op) (reaches : op.reaches .direct = true)
    (inside : op.Inside mask mode cur) : (direct op num).Steady mask mode cur :=
  ⟨_, rfl, Operation.fits_of_isMemory rfl reaches, inside⟩

theorem steady_immediate (op : Op) {width : Nat} {read : Mode}
    (reads : op.reads cur = some read) (width_eq : width = read.width.bytes)
    (inside : op.Inside mask mode cur) : (immediate op num width).Steady mask mode cur :=
  ⟨_, rfl, by simp [Operation.fits, reads, width_eq], inside⟩

end Instr

/-- From every state with the width, the code leads to its end, keeps the width and changes
registers of the set only. -/
def KeepsOutside (symbols : String → Int) (mask : RegMask) (mode current : Mode)
    (code : List Instr) : Prop :=
  ∀ machine : Machine, machine.mode = current →
    ∃ after, runCode symbols code (.running, machine) = some (.running, after) ∧
      after.mode = current ∧ machine.SameOutside mode mask after

namespace KeepsOutside

variable {mode cur : Mode}

theorem append {front back : List Instr} (first : KeepsOutside syms mask mode cur front)
    (second : KeepsOutside syms mask mode cur back) :
    KeepsOutside syms mask mode cur (front ++ back) := by
  intro m at_width
  obtain ⟨mid, front_runs, middle_mode, front_same⟩ := first m at_width
  obtain ⟨after, back_runs, after_mode, back_same⟩ := second mid middle_mode
  refine ⟨after, ?_, after_mode, front_same.trans back_same⟩
  simp_all [runCode_append]

theorem mono (keeps : KeepsOutside syms mask mode cur code)
    (subset : ∀ reg, mask.has reg = true → wider.has reg = true) :
    KeepsOutside syms wider mode cur code := by
  intro m at_width
  obtain ⟨after, runs, after_mode, same⟩ := keeps m at_width
  exact ⟨after, runs, after_mode, same.mono subset⟩

theorem single (steady : instr.Steady mask mode cur) : KeepsOutside syms mask mode cur [instr] := by
  obtain ⟨op, rfl, fits, inside⟩ := steady
  rintro m rfl
  obtain ⟨after, advanced, mode_eq, same⟩ := Machine.advance_frame syms inside fits
  refine ⟨after, ?_, mode_eq, same⟩
  change (op.advance syms m).bind _ = _
  rw [advanced]
  rfl

theorem cons (steady : instr.Steady mask mode cur) (rest : KeepsOutside syms mask mode cur code) :
    KeepsOutside syms mask mode cur (instr :: code) :=
  (single steady).append rest

theorem nil : KeepsOutside syms mask mode cur [] := fun m at_width => ⟨m, rfl, at_width, .refl m⟩

theorem replicate (keeps : KeepsOutside syms mask mode cur code) (count : Nat) :
    KeepsOutside syms mask mode cur (List.replicate count code).flatten := by
  induction count with
  | zero => exact nil
  | succ count hypothesis => exact keeps.append hypothesis

end KeepsOutside

def Value.registers : Value → List VReg
  | reg register => [register]
  | imm _ => []

def Action.sources : Action → List VReg
  | params _ | const _ _ => []
  | move _ source | convert _ source _ | un _ _ source => [source]
  | bin _ _ left right _ | setCond _ _ left right => left :: right.registers
  | load _ address => address.uses
  | store address source => address.uses ++ source.registers
  | lookup _ _ index => [index]
  | push source => source.registers
  | call details => details.arguments
  | dispatch details => details.object :: details.arguments

def Action.operands (action : Action) : List VReg := action.defs ++ action.sources

/-- The registers have values of one or two bytes, and those in hardware registers fit there. -/
structure SelectionContext.Suits (context : SelectionContext) (registers : List VReg) : Prop where
  mode : ∀ register ∈ registers, ∃ mode : Mode, context.graph.width register = mode.width
  holds : ∀ register ∈ registers, ∀ hardware, context.places register = .reg hardware →
    hardware.canHold (context.graph.width register) context.graph.mode = true

theorem Reg.canHold_b {mode : Mode} :
    Reg.canHold .b width mode = true ↔ mode = .narrow ∧ width = .byte := by
  simp [canHold]

/-! ## Sets -/

namespace RegMask

variable {mode cur : Mode}

theorem TakesAccumulator.mono (takes : mask.TakesAccumulator mode cur)
    (subset : ∀ reg, mask.has reg = true → wider.has reg = true) :
    wider.TakesAccumulator mode cur :=
  ⟨subset _ takes.1, fun wide => subset _ (takes.2 wide)⟩

theorem takesAccumulator_writes (mode cur : Mode) :
    (accumulatorWrites mode cur.width).TakesAccumulator mode cur := by
  cases mode <;> cases cur <;> exact ⟨rfl, by decide⟩

/-- A value in the accumulator is no wider than the mode, so that its register is all it needs. -/
theorem takesAccumulator_single (holds : Reg.canHold .a cur.width mode = true) :
    (single .a).TakesAccumulator mode cur := by
  cases mode <;> cases cur <;> first | exact ⟨rfl, by decide⟩ | cases holds

theorem takesAccumulator_low : (single .a).TakesAccumulator .narrow .narrow := ⟨rfl, nofun⟩

theorem has_of_single {mem : Reg} (has : mask.has mem = true) (reg : Reg)
    (inside : (single mem).has reg = true) : mask.has reg = true := by
  simp_all

theorem has_union_left (reg : Reg) (has : left.has reg = true) :
    (left.union right).has reg = true := by
  rw [has_union, has, Bool.true_or]

theorem has_union_right (reg : Reg) (has : right.has reg = true) :
    (left.union right).has reg = true := by
  rw [has_union, has, Bool.or_true]

end RegMask

abbrev RegMask.Covers (mask : RegMask) (loc : Loc) : Prop :=
  ∀ hw, loc = .reg hw → mask.has hw = true

theorem Loc.has_mask (location_eq : loc = .reg hw) : loc.mask.has hw = true := by
  simp_all [mask]

@[grind =]
theorem Loc.isIndexReg_iff : loc.isIndexReg = true ↔ loc = .reg .x ∨ loc = .reg .y := by
  cases loc with
  | reg hw => cases hw <;> simp [isIndexReg, Reg.isIndex]
  | _ => simp [isIndexReg]

theorem Loc.eq_of_isReg (isReg : loc.isReg = true) :
    loc = .reg .a ∨ loc = .reg .b ∨ loc = .reg .x ∨ loc = .reg .y := by
  cases loc with
  | reg hw => cases hw <;> simp
  | _ => cases isReg

/-- The set for code between exchanges of the halves of the accumulator. -/
def RegMask.exchange (mask : RegMask) : RegMask := ⟨mask.hasB, mask.hasA, mask.hasX, mask.hasY⟩

theorem runCode_exchange {after : Machine}
    (runs : runCode syms code (.running, m.exchange) = some (.running, after)) :
    runCode syms (.plain .xba :: (code ++ [.plain .xba])) (.running, m) =
      some (.running, after.exchange) := by
  have back : runCode syms [.plain .xba] (.running, after) = some (.running, after.exchange) := rfl
  exact (runCode_cons ..).trans (runCode_append_of runs back)

theorem KeepsOutside.exchanged (keeps : KeepsOutside syms mask .narrow .narrow code) :
    KeepsOutside syms mask.exchange .narrow .narrow (.plain .xba :: (code ++ [.plain .xba])) := by
  intro m narrow
  obtain ⟨mid, runs, mode_eq, same⟩ := keeps m.exchange narrow
  refine ⟨mid.exchange, ?_, mode_eq, same.b, same.a, same.x, same.y⟩
  exact runCode_exchange runs

/-- An instruction that gives the accumulator a value gives it to the high half between
exchanges. -/
theorem KeepsOutside.highHalf (steady : instr.Steady (.single .a) .narrow .narrow)
    (has : mask.has .b = true) :
    KeepsOutside syms mask .narrow .narrow [.plain .xba, instr, .plain .xba] :=
  (KeepsOutside.single steady).exchanged.mono (RegMask.has_of_single has)

theorem KeepsOutside.aside (steady : instr.Steady .empty .narrow .narrow) :
    KeepsOutside syms mask .narrow .narrow [.plain .xba, instr, .plain .xba] :=
  (KeepsOutside.single steady).exchanged.mono fun reg inside => by
    cases reg <;> cases inside

theorem runCode_lowToHigh (narrow : m.mode = .narrow) :
    runCode syms [.plain .pha, .plain .xba, .plain .pla] (.running, m) = some (.running,
        { m with
          b := m.a
          zero := m.a = 0
          memory := fun addr =>
            if addr = m.stack.toNat then m.a else m.memory addr }) := by
  obtain ⟨a, b, x, y, stack, direct, bank, mode, carry, zero, mem⟩ := m
  subst narrow
  let pushed := Machine.push ⟨a, b, x, y, stack, direct, bank, .narrow, carry, zero, mem⟩ a
  have pulled : pushed.pushed 0 = a := Machine.pushed_push ..
  have stack_eq : stack - 1 + 1 = stack := BitVec.sub_add_cancel ..
  change some (Control.running, ({ pushed with
    a := lowByte (pushed.pushed 0).toNat
    b := a
    zero := decide (lowByte (pushed.pushed 0).toNat = 0)
    stack := stack - 1 + 1 } : Machine)) = _
  rw [pulled, lowByte_toNat, stack_eq]
  rfl

namespace Select

/-- Between two parts of the code of an action, the registers outside the set are as they were at
its start. -/
structure Kept (context : SelectionContext) (mask : RegMask) (start : Machine) (current : Mode)
    (state : SelectionState) (point : MachinePoint) : Prop where
  accumulator : state.accumulator = current.width
  running : point.1 = .running
  mode_eq : point.2.mode = current
  same : start.SameOutside context.graph.mode mask point.2

/-- At the end of the code of an action the accumulator has one of its widths. -/
def Ended (context : SelectionContext) (mask : RegMask) (start : Machine) (state : SelectionState)
    (point : MachinePoint) : Prop :=
  ∃ current, Kept context mask start current state point

section Parts

variable {ctx : SelectionContext} {start : Machine} {cur : Mode} {state : SelectionState}
  {point : MachinePoint}

variable {reg : VReg}

/-- From a point where the registers outside the set are kept, so does the step, up to a width. -/
abbrev Kept.Leads (_ : Kept ctx mask start cur state point) (symbols : String → Int)
    (step : Select Unit) (after : Mode) : Prop :=
  Ensures symbols ctx True step (fun _ => Kept ctx mask start after) state point

/-- From such a point, the step ends the code of an action. -/
abbrev Kept.Ends (_ : Kept ctx mask start cur state point) (symbols : String → Int)
    (step : Select Unit) : Prop :=
  Ensures symbols ctx True step (fun _ => Ended ctx mask start) state point

variable (kept : Kept ctx mask start cur state point)

theorem Kept.emit (keeps : KeepsOutside syms mask ctx.graph.mode cur code) :
    kept.Leads syms (Select.emit code) cur := by
  unfold Leads
  obtain ⟨control, m⟩ := point
  obtain ⟨acc, rfl, mode_eq, same⟩ := kept
  obtain ⟨after, runs, mode_eq, after_same⟩ := keeps m mode_eq
  exact ensures_emit runs ⟨acc, rfl, mode_eq, same.trans after_same⟩

theorem Ensures.ended {step : Select Unit}
    (ensures : Ensures syms ctx True step (fun _ => Kept ctx mask start cur) state point) :
    Ensures syms ctx True step (fun _ => Ended ctx mask start) state point :=
  ensures.mono fun _ _ _ kept => ⟨_, kept⟩

theorem Kept.setAccumulator (mode : Mode) :
    kept.Leads syms (Select.setAccumulator mode.width) mode := by
  unfold Leads
  obtain ⟨control, m⟩ := point
  obtain ⟨acc, rfl, rfl, same⟩ := kept
  exact ensures_setAccumulator _ acc fun _ =>
    ⟨rfl, rfl, rfl, same.a, same.b, same.x, same.y⟩

theorem Kept.emit_one (steady : instr.Steady mask ctx.graph.mode cur) :
    kept.Leads syms (Select.emit [instr]) cur :=
  kept.emit (.single steady)

theorem Kept.memory (op : Op) (reaches : ∀ operation : Operation,
      operation.Names syms ctx state.depth op loc → op.reaches operation.mode = true)
    (inside : op.Inside mask ctx.graph.mode cur) :
    kept.Leads syms (Select.memory op loc >>= fun instr => Select.emit [instr]) cur := by
  refine (ensures_memory (fun _ operation names => ?_) fun _ => trivial).bind
  exact kept.emit_one (names.steady (reaches _ names) inside)

theorem Kept.loadAccumulator
    (takes : ctx.places reg = .reg .a ∨ mask.TakesAccumulator ctx.graph.mode cur) :
    kept.Leads syms (Select.loadAccumulator reg) cur := by
  unfold Leads Select.loadAccumulator
  rw [ensures_place]
  cases loc : ctx.places reg with
  | reg hw =>
    cases hw with
    | a => exact ensures_pure kept
    | b => exact ensures_fail trivial
    | x | y =>
      have takes := takes.resolve_left (by rw [loc]; nofun)
      exact kept.emit_one (steady_plain _ rfl takes)
  | nowhere => exact ensures_fail trivial
  | _ =>
    have takes := takes.resolve_left (by rw [loc]; nofun)
    exact kept.memory .lda (fun _ _ => rfl) takes

theorem Kept.storeIndex (idx : hw.isIndex = true) (has : mask.has hw = true) :
    kept.Leads syms (Select.storeIndex hw width) cur := by
  unfold Select.storeIndex
  split
  · cases hw with
    | a | b => cases idx
    | x | y => exact kept.emit_one (steady_plain _ rfl has)
  · refine kept.emit (.cons (steady_direct .sta rfl trivial)
      (.cons (steady_direct .stz rfl trivial) (.single ?_)))
    cases hw with
    | a | b => cases idx
    | x | y => exact steady_direct _ rfl has

theorem Kept.storeAccumulator (has : mask.Covers (ctx.places reg)) :
    kept.Leads syms (Select.storeAccumulator reg) cur := by
  unfold Leads Select.storeAccumulator
  rw [ensures_place]
  cases loc : ctx.places reg with
  | reg hw =>
    cases hw with
    | a => exact ensures_pure kept
    | b => exact ensures_fail trivial
    | x | y => exact kept.storeIndex rfl (has _ loc)
  | nowhere => exact ensures_fail trivial
  | _ => exact kept.memory .sta (fun _ _ => rfl) trivial

include kept in
theorem Kept.operand {op : Op} {value : Value} (reaches : ∀ mode, op.reaches mode = true)
    (reads : op.reads cur = some cur) (inside : op.Inside mask ctx.graph.mode cur) :
    Ensures syms ctx True (Select.operand op value cur.width)
      (fun instr final after => Kept ctx mask start cur final after ∧
        instr.Steady mask ctx.graph.mode cur)
      state point := by
  unfold Select.operand
  cases value with
  | imm num => simp_all [ensures_pure, steady_immediate]
  | reg reg =>
    rw [ensures_place]
    split
    case h_4 =>
        refine ensures_memory (fun _ operation names => ⟨kept, ?_⟩) fun _ => trivial
        exact names.steady (reaches _) inside
    all_goals
      refine (kept.emit_one ?_).andThen fun kept =>
        ensures_pure ⟨kept, steady_direct op (reaches _) inside⟩
      exact steady_direct _ rfl trivial

variable (takes : mask.TakesAccumulator ctx.graph.mode .wide)
include takes

theorem Kept.loadExtended : kept.Leads syms (Select.loadExtended reg) .wide := by
  have low : mask.TakesAccumulator ctx.graph.mode .narrow := ⟨takes.1, nofun⟩
  unfold Leads Select.loadExtended
  rw [ensures_place, ensures_widthOf]
  split
  · exact (kept.setAccumulator .wide).andThen fun kept => kept.loadAccumulator (.inr takes)
  · refine (kept.setAccumulator .narrow).andThen fun kept => ?_
    refine (kept.loadAccumulator (.inr low)).andThen fun kept => ?_
    refine (kept.setAccumulator .wide).andThen fun kept => ?_
    exact kept.emit_one (steady_immediate .and rfl rfl takes)

theorem Kept.computePointer {base : VReg} {offset : Int} :
    kept.Leads syms (Select.computePointer base offset) .wide := by
  refine (kept.setAccumulator .wide).andThen fun kept => ?_
  refine (kept.loadAccumulator (.inr takes)).andThen fun kept => ?_
  have store {state : SelectionState} {point : MachinePoint}
      (kept : Kept ctx mask start .wide state point) :
      kept.Leads syms (do .emit [.direct .sta (← pointerTemp)]) .wide :=
    kept.emit_one (steady_direct .sta rfl trivial)
  split
  · exact (kept.emit (.cons (steady_plain .clc rfl trivial)
      (.single (steady_immediate .adc rfl rfl takes)))).andThen fun kept => store kept
  · exact store kept

end Parts

end Select

end Backend65816
