import Backend65816.Proofs.LocationContents

/-!
# Transfers between locations and the accumulator

Selected code loads the accumulator from the location of a virtual register, reads a second operand
where it is, and stores the accumulator into a location. Operands in hardware registers, and bytes
on their way to an index register, pass through the operand temporary.
-/

namespace Backend65816

open Operation SelectionContext Machine

variable {m : Machine} {op : Op} {ctx : SelectionContext} {syms : String → Int} {reg : VReg}
  {mode : Mode}

variable {loc : Loc}

/-! ## Instructions on locations -/

theorem Operation.advance_of_isMemory {op : Operation} (mem : op.mode.isMemory = true) :
    op.advance syms m = (m.access syms op).map (Control.running, ·) := by
  have not_implied : op.mode ≠ .implied := by
    intro implied
    rw [implied] at mem
    cases mem
  have passed : op.advance syms m = (m.execute syms op).map (.running, ·) := by
    unfold Operation.advance
    cases mode_eq : op.mode with
    | relative | indexedIndirect =>
      rw [mode_eq] at mem
      cases mem
    | _ => rfl
  rw [passed, execute, if_neg not_implied]

section Immediate

theorem Machine.fetch?_immediate (op : Op) (num : Int) (mode : Mode) :
    m.fetch? syms { op, mode := .immediate, value := num, width := mode.width.bytes }
      mode = some (mode.width.truncate num) := by
  rw [fetch?, if_pos rfl, if_pos rfl]
  rfl

theorem runCode_immediate {num : Int} {width : Nat} {after : Machine}
    (access_eq : m.access syms { op, mode := .immediate, value := num, width } = some after) :
    runCode syms [.immediate op num width] (.running, m) = some (.running, after) := by
  change ((m.access syms _).map (Control.running, ·)).bind _ = _
  rw [access_eq]
  rfl

theorem runCode_lda (at_width : m.mode = mode) (num : Int) :
    runCode syms [.immediate .lda num mode.width.bytes] (.running, m) =
      some (.running, m.setAccumulator (mode.width.truncate num)) := by
  subst at_width
  refine runCode_immediate ?_
  change (m.fetch? syms _ m.mode).map _ = _
  rw [m.fetch?_immediate]
  rfl

theorem runCode_eor (at_width : m.mode = mode) (num : Int) :
    runCode syms [.immediate .eor num mode.width.bytes] (.running, m) =
      some (.running, m.setAccumulator
        (m.accumulator.toNat ^^^ (mode.width.truncate num).toNat : Nat)) := by
  subst at_width
  refine runCode_immediate ?_
  change (m.fetch? syms _ m.mode).map _ = _
  rw [m.fetch?_immediate]
  rfl

end Immediate

namespace Operation.Names

variable {depth : Int} {operation : Operation} {span : Span}

section

variable (names : operation.Names syms ctx depth op loc)
include names

theorem runCode_eq : runCode syms [.run operation] (.running, m) =
      (m.access syms operation).map (Control.running, ·) := by
  change (operation.advance syms m).bind _ = _
  rw [advance_of_isMemory names.isMemory]
  cases m.access syms operation <;> rfl

variable (span_eq : ctx.span? syms depth m loc = some span)
include span_eq

theorem fetch?_eq (reaches : op.reaches operation.mode = true) :
    m.fetch? syms operation mode = some (m.memory.read span mode) := by
  have not_immediate : operation.mode ≠ .immediate := by
    intro immediate
    have mem := names.isMemory
    rw [immediate] at mem
    cases mem
  rw [fetch?, if_neg not_immediate, names.op_eq, if_pos reaches, names.span_eq, span_eq]
  rfl

theorem put?_eq (reaches : op.reaches operation.mode = true) (mode : Mode) (num : Int) :
    m.put? syms operation mode num = some { m with memory := m.memory.write span mode num } := by
  rw [put?, names.op_eq, if_pos reaches, names.span_eq, span_eq]
  rfl

end

end Operation.Names

theorem SelectionContext.exists_span? (mem : loc.isMemory = true) (syms : String → Int)
    (depth : Int) (m : Machine) : ∃ span, ctx.span? syms depth m loc = some span := by
  cases loc with
  | nowhere | reg hw => cases mem
  | _ => exact ⟨_, rfl⟩

theorem Loc.isMemory_of_isIndexable (indexable : loc.isIndexable = true) : loc.isMemory = true := by
  cases loc <;> first | rfl | cases indexable

/-- The location can be loaded into the accumulator and stored from it. -/
def Loc.isPlain (location : Loc) : Bool := location ≠ .nowhere && location ≠ .reg .b

theorem Loc.isPlain_cases (plain : loc.isPlain = true) :
    loc = .reg .a ∨ loc = .reg .x ∨ loc = .reg .y ∨ loc.isMemory = true := by
  cases loc with
  | nowhere => cases plain
  | reg hw =>
    cases hw with
    | b => cases plain
    | _ => simp
  | _ => simp [isMemory]

def SelectionContext.operandValue (context : SelectionContext) (symbols : String → Int)
    (depth : Int) (machine : Machine) (width : Mode) : Value → Int
  | .imm number => width.width.truncate number
  | .reg register => context.contents symbols depth machine width (context.places register)

/-- The instruction reads a number, also after a value is loaded into the accumulator. -/
structure Operation.Provides (operation : Operation) (symbols : String → Int) (op : Op)
    (machine : Machine) (number : Int) : Prop where
  op_eq : operation.op = op
  advance_eq : ∀ later : Machine, operation.advance symbols later =
    (later.access symbols operation).map (Control.running, ·)
  fetch_eq : ∀ carried later, machine.Carries carried later →
    later.fetch? symbols operation machine.mode = some number

theorem Operation.provides_immediate (syms : String → Int)
    (at_width : m.mode = mode) (op : Op) (num : Int) :
    ({ op, mode := .immediate, value := num, width := mode.width.bytes } : Operation).Provides
      syms op m (mode.width.truncate num) where
  op_eq := rfl
  advance_eq _ := rfl
  fetch_eq _ later _ := by
    rw [at_width]
    exact later.fetch?_immediate op num mode

/-- Registers and locations keep their contents while a second operand is made ready. -/
structure SelectionContext.Prepares (context : SelectionContext) (before after : Machine) :
    Prop where
  undisturbed : context.Undisturbed before after
  mode : after.mode = before.mode
  a : after.a = before.a
  b : after.b = before.b
  x : after.x = before.x
  y : after.y = before.y

theorem Operation.Names.provides {depth : Int}
    {operation : Operation} (names : operation.Names syms ctx depth op loc)
    (mem : loc.isMemory = true) (reaches : ∀ mode, op.reaches mode = true) :
    operation.Provides syms op m (ctx.contents syms depth m m.mode loc) where
  op_eq := names.op_eq
  advance_eq _ := advance_of_isMemory names.isMemory
  fetch_eq carried later carries := by
    obtain ⟨span, span_eq⟩ := ctx.exists_span? mem syms depth m
    have span_later : ctx.span? syms depth later loc = some span := by
      rw [← span_eq]
      exact SelectionContext.span?_congr carries.direct carries.stack carries.bank
    rw [names.fetch?_eq span_later (reaches _), contents_of_span? span_eq, carries.memory]

namespace Select

section Transfers

variable {failing : Prop} {state : SelectionState}
  {goal : Unit → SelectionState → MachinePoint → Prop}

variable {width : Mode} {num : Int}

theorem ensures_access (mem : loc.isMemory = true)
    (reached : ∀ code operation, operation.Names syms ctx state.depth op loc →
      ∃ after, m.access syms operation = some after ∧
        goal () { state with code } (.running, after)) :
    Ensures syms ctx failing (Select.memory op loc >>= fun instr => emit [instr]) goal
      state (.running, m) := by
  refine (ensures_memory (fun _ operation names => ?_) fun refused => ?_).bind
  · obtain ⟨after, accessed, last⟩ := reached _ operation names
    refine ensures_emit ?_ last
    rw [names.runCode_eq, accessed]
    rfl
  · rw [mem] at refused
    cases refused

section

variable (mem : loc.isMemory = true) (reaches : ∀ operation : Operation,
  operation.Names syms ctx state.depth op loc → op.reaches operation.mode = true)
include mem reaches

theorem ensures_fetch {set : Int → Machine} (loads : ∀ operation : Operation, operation.op = op →
      m.access syms operation = (m.fetch? syms operation width).map set)
    (reached : ∀ code, goal () { state with code }
      (.running, set (ctx.contents syms state.depth m width loc))) :
    Ensures syms ctx failing (Select.memory op loc >>= fun instr => emit [instr]) goal
      state (.running, m) := by
  refine ensures_access mem fun code operation names => ?_
  obtain ⟨span, span_eq⟩ := ctx.exists_span? mem syms state.depth m
  rw [loads operation names.op_eq, names.fetch?_eq span_eq (reaches operation names)]
  simp_all [contents_of_span?]

theorem ensures_put (puts : ∀ operation : Operation, operation.op = op →
      m.access syms operation = m.put? syms operation width num) (holds : width.width.Holds num)
    (reached : ∀ code after, ctx.Delivers syms state.depth m width loc num after →
      after.mode = m.mode → goal () { state with code } (.running, after)) :
    Ensures syms ctx failing (Select.memory op loc >>= fun instr => emit [instr]) goal
      state (.running, m) := by
  refine ensures_access mem fun code operation names => ?_
  obtain ⟨span, span_eq⟩ := ctx.exists_span? mem syms state.depth m
  rw [puts operation names.op_eq, names.put?_eq span_eq (reaches operation names)]
  simp_all [delivers_write]

end

theorem ensures_loadAccumulator (plain : (ctx.places reg).isPlain = true) (reached : ∀ code after,
      m.Carries (ctx.contents syms state.depth m m.mode (ctx.places reg)) after →
      goal () { state with code } (.running, after)) :
    Ensures syms ctx failing (loadAccumulator reg) goal state (.running, m) := by
  unfold loadAccumulator
  rw [ensures_place]
  cases loc : ctx.places reg with
  | nowhere => simp [loc, Loc.isPlain] at plain
  | reg hw =>
    rw [loc] at reached
    cases hw with
    | a => exact ensures_pure (reached _ m m.carries_self)
    | b => simp [loc, Loc.isPlain] at plain
    | x | y => exact ensures_emit rfl (reached _ _ (m.carries_setAccumulator ..))
  | _ =>
    rw [loc] at reached
    exact ensures_fetch rfl (fun _ _ => rfl) (fun op op_eq => by rw [access, op_eq])
      fun _ => reached _ _ (m.carries_of_holds (ctx.holds_contents ..))

theorem ensures_storeIndex {hw : Reg} (idx : hw.isIndex = true) (reached : ∀ code after,
      ctx.Delivers syms state.depth m m.mode (.reg hw) m.accumulator after →
      after.mode = m.mode → goal () { state with code } (.running, after)) :
    Ensures syms ctx failing (storeIndex hw m.mode.width) goal state (.running, m) := by
  unfold storeIndex
  split
  · next word =>
    have wide : m.mode = .wide := Mode.width_injective word
    have whole : m.accumulator = m.whole := by rw [accumulator, wide]
    have holds := m.holds_accumulator
    rw [whole] at holds reached
    cases hw with
    | a | b => cases idx
    | x | y =>
      refine ensures_emit rfl (reached _ _ ?_ rfl)
      exact delivers_setIndex rfl (.refl m) holds
  · next byte =>
    have narrow : m.mode = .narrow := by
      cases mode : m.mode with
      | narrow => rfl
      | wide => exact absurd (congrArg Mode.width mode) byte
    have acc : m.accumulator = m.a.toNat := by
      rw [accumulator, narrow]
    have holds := m.holds_accumulator
    rw [acc] at holds reached
    have undisturbed := ctx.undisturbed_extendedTemp m m.a.toNat
    refine ensures_emit (runCode_append_of (runCode_extendTemp narrow)
      (ctx.runCode_extendedTemp syms m idx Width.holds_toNat))
      (reached _ _ (delivers_setIndex idx undisturbed holds) ?_)
    cases hw <;> rfl

theorem ensures_storeAccumulator (width_eq : ctx.graph.width reg = m.mode.width)
    (plain : (ctx.places reg).isPlain = true) (reached : ∀ code after,
      ctx.Delivers syms state.depth m m.mode (ctx.places reg) m.accumulator after →
      after.mode = m.mode → goal () { state with code } (.running, after)) :
    Ensures syms ctx failing (storeAccumulator reg) goal state (.running, m) := by
  unfold storeAccumulator
  rw [ensures_place]
  cases loc : ctx.places reg with
  | nowhere => simp [loc, Loc.isPlain] at plain
  | reg hw =>
    rw [loc] at reached
    cases hw with
    | a =>
      exact ensures_pure (reached _ m ⟨rfl, rfl, rfl, rfl, ⟨nofun, nofun⟩, fun _ _ _ => rfl⟩ rfl)
    | b => simp [loc, Loc.isPlain] at plain
    | x | y =>
      rw [ensures_widthOf, width_eq]
      exact ensures_storeIndex rfl reached
  | _ =>
    rw [loc] at reached
    exact ensures_put rfl (fun _ _ => rfl) (fun op op_eq => by rw [access, op_eq])
      m.holds_accumulator reached

theorem provides_temp {span : Span} {value : Int} (reaches : op.reaches .direct = true)
    (span_eq : span = .bankZero (m.direct.toNat + ctx.settings.operandTemp))
    (read_eq : (m.memory.write span width num).read span m.mode = value) :
    ({ op, mode := .direct, value := ctx.settings.operandTemp } : Operation).Provides syms op
      { m with memory := m.memory.write span width num } value where
  op_eq := rfl
  advance_eq _ := rfl
  fetch_eq carried later carries := by
    have span_at : later.span? syms
        { op, mode := .direct, value := ctx.settings.operandTemp } = some span := by
      rw [span_eq]
      exact congrArg (fun direct : BitVec 16 =>
        some (Span.bankZero (direct.toNat + ctx.settings.operandTemp))) carries.direct
    rw [fetch?, if_pos reaches, span_at]
    have read_later : later.memory.read span m.mode = value := by rw [carries.memory, read_eq]
    exact congrArg some read_later

theorem ensures_operand {value : Value}
    {goal : Instr → SelectionState → MachinePoint → Prop} (reaches : ∀ mode, op.reaches mode = true)
    (plain : ∀ reg, value = .reg reg → (ctx.places reg).isPlain = true)
    (reached : ∀ code operation prepared, ctx.Prepares m prepared →
      operation.Provides syms op prepared (ctx.operandValue syms state.depth m m.mode value) →
      goal (.run operation) { state with code } (.running, prepared)) :
    Ensures syms ctx failing (operand op value m.mode.width) goal state (.running, m) := by
  unfold operand
  cases value with
  | imm num =>
    have provides : Operation.Provides _ syms op m _ :=
      provides_immediate syms rfl op (m.mode.width.truncate num)
    rw [Width.truncate_truncate] at provides
    exact ensures_pure (reached _ _ m ⟨.refl m, rfl, rfl, rfl, rfl, rfl⟩ provides)
  | reg reg =>
    rw [ensures_place]
    refine .look rfl ?_
    have waits {width : Mode} {num : Int} (code : Array Instr) (read_eq : (m.memory.write
          (.bankZero (m.direct.toNat + ctx.settings.operandTemp)) width num).read
            (.bankZero (m.direct.toNat + ctx.settings.operandTemp)) m.mode =
              ctx.contents syms state.depth m m.mode (ctx.places reg)) :
        goal (.direct op ctx.settings.operandTemp) { state with code } (.running,
          { m with
            memory := m.memory.write
              (.bankZero (m.direct.toNat + ctx.settings.operandTemp)) width num }) :=
      reached code _ _
        ⟨ctx.undisturbed_operandTemp m width num, rfl, rfl, rfl, rfl, rfl⟩
        (provides_temp (reaches _) rfl read_eq)
    cases loc : ctx.places reg with
    | nowhere => simp [loc, Loc.isPlain] at plain
    | reg hw =>
      rw [loc] at waits
      cases hw with
      | b => simp [loc, Loc.isPlain] at plain
      | a =>
        exact (ensures_emit rfl (ensures_pure (waits _
          ((Memory.read_write _ Span.two_le_bankZero).trans m.holds_accumulator)))).bind
      | x | y =>
        exact (ensures_emit rfl (ensures_pure (waits _
          (Memory.read_write_wide _ Span.two_le_bankZero ..)))).bind
    | _ =>
      rw [SelectionContext.operandValue, loc] at reached
      refine ensures_memory (fun mem operation names => ?_) nofun
      exact reached _ operation m ⟨.refl m, rfl, rfl, rfl, rfl, rfl⟩ (names.provides mem reaches)

end Transfers

end Select

end Backend65816
