import Backend65816.Proofs.RegisterFrame
import Backend65816.Selection.Routine

/-!
# Runs of selected code

A step of code selection appends code. What holds after a run of that code is derived along the
step: where the step goes on with another one, the goal of the first is a statement about the second
at the point that the code so far leads to.
-/

namespace Backend65816

variable {goal : Unit → SelectionState → MachinePoint → Prop} {reg : VReg} {ctx : SelectionContext}
  {syms : String → Int}

theorem Mode.width_injective {first second : Mode} (same : first.width = second.width) :
    first = second := by
  cases first <;> cases second <;> first | rfl | cases same

def Width.mode (width : Width) : Mode := if width = .word then .wide else .narrow

@[simp]
theorem Mode.mode_width (mode : Mode) : mode.width.mode = mode := by
  cases mode <;> rfl

namespace Select

section Rules

variable (symbols : String → Int) (context : SelectionContext) (failing : Prop)

/-- The step fails only if it may, and otherwise the code that it appends leads from a point to one
with the goal. -/
def Ensures {α : Type} (step : Select α) (goal : α → SelectionState → MachinePoint → Prop)
    (state : SelectionState) (point : MachinePoint) : Prop :=
  (∃ result final code after, step context state = .ok (result, final) ∧
      final.code.toList = state.code.toList ++ code ∧ runCode symbols code point = some after ∧
      goal result final after) ∨
    failing ∧ ∃ error, step context state = .error error

variable {symbols context failing} {α β : Type} {state : SelectionState} {point : MachinePoint}

section

variable {goal : α → SelectionState → MachinePoint → Prop}

theorem ensures_pure {value : α} (reached : goal value state point) :
    Ensures symbols context failing (pure value) goal state point :=
  .inl ⟨value, state, [], point, rfl, (List.append_nil _).symm, rfl, reached⟩

theorem ensures_fail {error : SelectionError}
    (allowed : failing) : Ensures symbols context failing (fail error) goal state point :=
  .inr ⟨allowed, error, rfl⟩

theorem ensures_reject {reason : Rejection}
    (allowed : failing) : Ensures symbols context failing (reject reason) goal state point :=
  .inr ⟨allowed, _, rfl⟩

end

section

variable {step : Select α} {next : α → Select β}

theorem Ensures.bind
    {goal : β → SelectionState → MachinePoint → Prop} (first : Ensures symbols context failing step
      (fun value => Ensures symbols context failing (next value) goal) state point) :
    Ensures symbols context failing (step >>= next) goal state point := by
  have unfolded : (step >>= next) context state =
      (step context state).bind fun pair => next pair.1 context pair.2 := rfl
  rcases first with ⟨value, mid, front, between, taken, front_eq, front_runs, rest⟩ |
    ⟨allowed, error, failed⟩
  · rw [taken] at unfolded
    rcases rest with ⟨res, final, back, after, taken', back_eq, back_runs, reached⟩ |
      ⟨allowed, error, failed⟩
    · refine .inl ⟨res, final, front ++ back, after, unfolded.trans taken', ?_, ?_, reached⟩
      all_goals simp_all [runCode_append]
    · exact .inr ⟨allowed, error, unfolded.trans failed⟩
  · rw [failed] at unfolded
    exact .inr ⟨allowed, error, unfolded⟩

theorem Ensures.mono {goal wider : α → SelectionState → MachinePoint → Prop}
    (ensures : Ensures symbols context failing step goal state point)
    (implies : ∀ value final after, goal value final after → wider value final after) :
    Ensures symbols context failing step wider state point := by
  rcases ensures with ⟨value, final, code, after, taken, code_eq, runs, reached⟩ | failed
  · exact .inl ⟨value, final, code, after, taken, code_eq, runs, implies _ _ _ reached⟩
  · exact .inr failed

theorem Ensures.andThen {middle : α → SelectionState → MachinePoint → Prop}
    {goal : β → SelectionState → MachinePoint → Prop}
    (first : Ensures symbols context failing step middle state point)
    (rest : ∀ {value final after}, middle value final after →
      Ensures symbols context failing (next value) goal final after) :
    Ensures symbols context failing (step >>= next) goal state point :=
  (first.mono fun _ _ _ => rest).bind

end

theorem ensures_emit {code : List Instr}
    {after : MachinePoint} (runs : runCode symbols code point = some after)
    (reached : goal () { state with code := state.code ++ code.toArray } after) :
    Ensures symbols context failing (emit code) goal state point :=
  .inl ⟨(), _, code, after, rfl, by simp, runs, reached⟩

theorem ensures_modify {change : SelectionState → SelectionState}
    (code_eq : (change state).code = state.code) (reached : goal () (change state) point) :
    Ensures symbols context failing (modify change) goal state point :=
  .inl ⟨(), _, [], point, rfl, by rw [code_eq, List.append_nil], rfl, reached⟩

/-! Steps that only look something up. -/

variable {goal : α → SelectionState → MachinePoint → Prop}

theorem Ensures.look {step : Select β} {value : β} {next : β → Select α}
    (known : step context state = .ok (value, state))
    (rest : Ensures symbols context failing (next value) goal state point) :
    Ensures symbols context failing (step >>= next) goal state point :=
  bind (.inl ⟨value, state, [], point, known, (List.append_nil _).symm, rfl, rest⟩)

@[simp]
theorem ensures_place {next : Loc → Select α} :
    Ensures symbols context failing (place reg >>= next) goal state point ↔
      Ensures symbols context failing (next (context.places reg)) goal state point :=
  Iff.rfl

@[simp]
theorem ensures_widthOf {next : Width → Select α} :
    Ensures symbols context failing (widthOf reg >>= next) goal state point ↔
      Ensures symbols context failing (next (context.graph.width reg)) goal state point :=
  Iff.rfl

@[simp]
theorem ensures_freshLabel {kind : String} {next : String → Select α} :
    Ensures symbols context failing (freshLabel kind >>= next) goal state point ↔
      Ensures symbols context failing
        (next (context.graph.name ++ "_" ++ kind ++ toString (state.labels + 1))) goal
        { state with labels := state.labels + 1 } point :=
  Iff.rfl

theorem ensures_setAccumulator {goal : Unit → SelectionState → MachinePoint → Prop} {m : Machine}
    (mode : Mode) (synced : state.accumulator = m.mode.width)
    (reached : ∀ code, goal () { state with code, accumulator := mode.width }
      (.running, { m with mode })) :
    Ensures symbols context failing (setAccumulator mode.width) goal state (.running, m) := by
  have switches : runCode symbols
      [if mode.width = .word then .widenAccumulator else .narrowAccumulator] (.running, m) =
        some (.running, { m with mode }) := by
    cases mode <;> rfl
  unfold setAccumulator
  refine .look rfl ?_
  split
  · next unchanged =>
    have same : m.mode = mode := Mode.width_injective (synced.symm.trans unchanged)
    have stays := reached state.code
    rw [← unchanged, ← same] at stays
    exact ensures_pure stays
  · exact (ensures_emit switches (ensures_modify rfl (reached _))).bind

end Rules

end Select

/-! ## Locations in memory -/

/-- The bytes of a location. Bytes pushed below the frame move the stack pointer away from it. -/
def SelectionContext.span? (context : SelectionContext) (symbols : String → Int) (depth : Int)
    (machine : Machine) : Loc → Option Span
  | .scratch offset =>
    some (.bankZero (machine.direct.toNat + (context.settings.scratchBase + offset)))
  | .stack offset => some (.bankZero (machine.stack.toNat + (1 + offset + depth)))
  | .argument offset =>
    some (.bankZero (machine.stack.toNat +
      (context.signature.paramBase + context.frameSize + offset + depth)))
  | .fixed address _ => some (.anyBank (0x10000 * machine.bank.toNat + address % 0x10000))
  | .symbol name =>
    some (.anyBank (0x10000 * machine.bank.toNat +
      (if name = "" then 0 else symbols name) % 0x10000))
  | .nowhere | .reg _ => none

/-- The instruction is the one for a location. -/
structure Operation.Names (operation : Operation) (symbols : String → Int)
    (context : SelectionContext) (depth : Int) (op : Op) (location : Loc) : Prop where
  op_eq : operation.op = op
  isMemory : operation.mode.isMemory = true
  indexed : location.isIndexable = true →
    operation.mode = .direct ∨ operation.mode = .absolute
  span_eq : ∀ machine : Machine,
    machine.span? symbols operation = context.span? symbols depth machine location

theorem Operation.Names.reaches {depth : Int}
    {op : Op} {loc : Loc} {operation : Operation} (names : operation.Names syms ctx depth op loc)
    (indexable : loc.isIndexable = true) (direct : op.reaches .direct = true)
    (absolute : op.reaches .absolute = true) : op.reaches operation.mode = true := by
  rcases names.indexed indexable with mode_eq | mode_eq <;> rw [mode_eq] <;> assumption

namespace Select

theorem ensures_memory {failing : Prop} {state : SelectionState} {point : MachinePoint} {op : Op}
    {loc : Loc} {goal : Instr → SelectionState → MachinePoint → Prop}
    (reached : loc.isMemory = true → ∀ operation : Operation,
      operation.Names syms ctx state.depth op loc → goal (.run operation) state point)
    (refused : loc.isMemory = false → failing) :
    Ensures syms ctx failing (memory op loc) goal state point := by
  have found (operation : Operation) (memory_eq : loc.isMemory = true)
      (names : operation.Names syms ctx state.depth op loc)
      (selected : memory op loc ctx state = .ok (.run operation, state)) :
      Ensures syms ctx failing (memory op loc) goal state point :=
    .inl ⟨_, state, [], point, selected, (List.append_nil _).symm, rfl,
      reached memory_eq operation names⟩
  cases loc with
  | scratch offset => exact found _ rfl ⟨rfl, rfl, fun _ => .inl rfl, fun _ => rfl⟩ rfl
  | stack offset | argument offset => exact found _ rfl ⟨rfl, rfl, nofun, fun _ => rfl⟩ rfl
  | fixed address name =>
    refine found { op, mode := .absolute, value := address % 0x10000 } rfl
      ⟨rfl, rfl, fun _ => .inr rfl, fun machine => ?_⟩ rfl
    simp [Machine.span?, Operation.number, SelectionContext.span?]
  | symbol name => exact found _ rfl ⟨rfl, rfl, fun _ => .inr rfl, fun _ => rfl⟩ rfl
  | nowhere | reg reg => exact .inr ⟨refused rfl, _, rfl⟩

end Select

end Backend65816
