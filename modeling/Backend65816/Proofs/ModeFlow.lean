import Backend65816.Assembly.Labels
import Backend65816.Proofs.BranchExpansion
import Backend65816.Proofs.ModePaths

/-!
# Code with one state at all labels

Where every label stands at the modes and the stack of the body, and every branch and jump is taken
there, both can be followed along the code without asking where a jump goes. Code that follows on a
jump or a return is not reached from above, so it may be taken to be in any state. Dropping labels
and lengthening branches keeps such code as it is.
-/

namespace Backend65816

variable {instr : Instr} {code : List Instr} {op : Op} {first second : StackState}
  {level : Option Int}

variable {operation : Operation} {state body : StackState} {before after : Option StackState}

/-! ## The stack along a path -/

/-- Modes at a position and the bytes that were pushed since the entry, if they are counted. While
the stack pointer is moved, the accumulator holds how many there will be. -/
structure StackState extends ModeState where
  level : Option Int := none
  held : Option Int := none
deriving DecidableEq

namespace StackState

def push (state : StackState) (bytes : Int) : StackState :=
  { state with level := state.level.map (· + bytes) }

variable (state)

theorem push_push (first second : Int) :
    (state.push first).push second = state.push (first + second) := by
  simp [push]

theorem push_zero : state.push 0 = state := by
  simp [push]

end StackState

def ModeView.bytes? : ModeView → Option Int
  | caller => none
  | chosen mode => some mode.width.bytes

/-- Bytes that the instruction pushes, if that is known; pulled bytes count as negative. -/
def Op.pushed? (view : ModeView) : Op → Option Int
  | pha => view.bytes?
  | pla => view.bytes?.map (-·)
  | phx | phy | phd | per | pea | pei => some 2
  | plx | ply | pld => some (-2)
  | php | phb | phk => some 1
  | plp | plb => some (-1)
  | other _ => none
  | _ => some 0

/-- Level and held level after the instruction. A jump through a long pointer is a call whose place
to return to was pushed by hand, and which the callee pulls. -/
def Operation.shift (operation : Operation) (state : StackState) : Option Int × Option Int :=
  let number? :=
    if operation.mode = .immediate ∧ operation.symbol = "" then some operation.value else none
  match operation.op with
  | .tsc => (state.level, state.level)
  | .tcs => (state.held, none)
  | .clc | .sec => (state.level, state.held)
  | .adc => (state.level, do return (← state.held) - (← number?))
  | .sbc => (state.level, do return (← state.held) + (← number?))
  | .jml => (if operation.mode = .indirectLong then state.level.map (· - 3) else state.level, none)
  | op => (do return (← state.level) + (← op.pushed? state.mode), none)

theorem Operation.shift_of_pushed {bytes : Int}
    (plain : operation.op ∉ [.tsc, .tcs, .clc, .sec, .adc, .sbc, .jml])
    (pushed : operation.op.pushed? state.mode = some bytes) :
    operation.shift state = ((state.push bytes).level, none) := by
  unfold shift
  split <;> simp_all [StackState.push, Option.map_eq_bind]

def Instr.shift (state : StackState) : Instr → Option Int × Option Int
  | label _ => (state.level, state.held)
  | run operation => operation.shift state

/-- What an instruction does to the modes and the stack. -/
def Operation.Shifts (operation : Operation) (state next : StackState) : Prop :=
  operation.Alters state.toModeState next.toModeState ∧
    (next.level, next.held) = operation.shift state

theorem Operation.Shifts.unique (shifts : operation.Shifts state first)
    (other : operation.Shifts state second) : first = second := by
  obtain ⟨modes, level, held⟩ := first
  cases shifts.1.unique other.1
  cases shifts.2.trans other.2.symm
  rfl

namespace Routine

variable (routine : Routine) (tables : List DataTable)

/-- One step of a path that follows the stack. -/
def StackGoes (point next : Nat × StackState) : Prop :=
  routine.ModeGoes tables ⟨point.1, point.2.toModeState⟩ ⟨next.1, next.2.toModeState⟩ ∧
    ∀ instr, routine.code[point.1]? = some instr →
      (next.2.level, next.2.held) = instr.shift point.2

/-- A path leads to the point from the start of the routine, in the caller's mode. -/
def StackReaches (level : Option Int) (point : Nat × StackState) : Prop :=
  Relation.ReflTransGen (routine.StackGoes tables) (0, { level }) point

variable {routine tables}

theorem ModeReaches.exists_stackReaches {point : ModePoint}
    (reaches : routine.ModeReaches tables point) :
    ∃ state : StackState, state.toModeState = point.state ∧
      routine.StackReaches tables level (point.position, state) := by
  induction reaches with
  | refl => exact ⟨_, rfl, .refl⟩
  | @tail point next _ goes ih =>
    obtain ⟨state, same, reaches⟩ := ih
    have found : ∃ instr, routine.code[point.position]? = some instr := by
      cases goes with
      | pass here | fall here | jump here => exact ⟨_, here⟩
    obtain ⟨instr, here⟩ := found
    refine ⟨⟨next.state, (instr.shift state).1, (instr.shift state).2⟩, rfl, reaches.tail ⟨?_, ?_⟩⟩
    all_goals simp_all

end Routine

/-! ## Code that leads from state to state -/

/-- The label is one at which calls through tables of long jumps come back. -/
def resumesCall (label : String) : Bool :=
  (label.toList.reverse.dropWhile Char.isDigit).head? = some 'r'

/-- The label may stand at another state than the body, since nothing jumps there. -/
def StackState.Passes (body : StackState) (label : String) : Prop :=
  body.level ≠ none ∧ resumesCall label = true

/-- The instruction may send control to a label. -/
def Operation.CanJump (operation : Operation) : Prop :=
  operation.op.isBranch = true ∨ operation.JumpsDirectly ∨ operation.JumpsThroughTable

/-- The piece of code leads from state to state; without a state control is not there. Behind a
branch that may be passed, the state is that of the body even if the branch is not reached. -/
def Instr.LeadsModes (body : StackState) (before after : Option StackState) : Instr → Prop
  | .label name => (before = none ∨ before = some body) ∧ after = some body ∨
      body.Passes name ∧ (before = none ∨ before = after)
  | .run operation =>
      (operation.op.isConditional = true → after = some body) ∧
        (operation.op.isBranch = true ∨ operation.JumpsDirectly → ¬body.Passes operation.symbol) ∧
        ∀ state, before = some state →
          operation.Permits state.toModeState ∧
            (operation.Returns ∨ operation.op = .rti → state.level = body.level.map fun _ => 0) ∧
            (operation.CanJump → state = body) ∧
            (¬operation.EndsPath → ∃ next, operation.Shifts state next ∧ after = some next)

def LeadsModes (body : StackState) : Option StackState → List Instr → Option StackState → Prop
  | before, [], after => before = none ∨ before = after
  | before, instr :: code, after =>
      ∃ middle, instr.LeadsModes body before middle ∧ LeadsModes body middle code after

section Code

variable {mid : Option StackState}

theorem Instr.LeadsModes.of_none (leads : instr.LeadsModes body before after) :
    instr.LeadsModes body none after := by
  cases instr with
  | label name =>
    obtain ⟨-, at_body⟩ | ⟨passes, -⟩ := leads
    · exact .inl ⟨.inl rfl, at_body⟩
    · exact .inr ⟨passes, .inl rfl⟩
  | run operation => exact ⟨leads.1, leads.2.1, fun state reached => nomatch reached⟩

/-- Code that is not reached from above leads anywhere that it leads from some modes. -/
theorem LeadsModes.of_none (leads : LeadsModes body before code after) :
    LeadsModes body none code after := by
  cases code with
  | nil => exact .inl rfl
  | cons instr code =>
    obtain ⟨mid, first, rest⟩ := leads
    exact ⟨mid, first.of_none, rest⟩

theorem LeadsModes.append {front back : List Instr} (first : LeadsModes body before front mid)
    (second : LeadsModes body mid back after) : LeadsModes body before (front ++ back) after := by
  induction front generalizing before with
  | nil =>
    obtain rfl | rfl := first
    · exact second.of_none
    · exact second
  | cons instr front ih =>
    obtain ⟨between, head, rest⟩ := first
    exact ⟨between, head, ih rest⟩

theorem LeadsModes.to_any (leads : LeadsModes body before code none) (after : Option StackState) :
    LeadsModes body before code after := by
  rw [← List.append_nil code]
  exact leads.append (.inl rfl)

theorem LeadsModes.single (leads : instr.LeadsModes body before after) :
    LeadsModes body before [instr] after :=
  ⟨after, leads, .inr rfl⟩

end Code

/-! ## The check accepts such code -/

theorem LeadsModes.exists_view (leads : LeadsModes body before code after) :
    ∃ view : Nat → Option StackState, view 0 = before ∧
      (view code.length = none ∨ view code.length = after) ∧
      ∀ (pos : Nat) (instr : Instr), code[pos]? = some instr →
        instr.LeadsModes body (view pos) (view (pos + 1)) := by
  induction code generalizing before with
  | nil => exact ⟨fun _ => before, rfl, leads, fun pos instr here => nomatch here⟩
  | cons instr code ih =>
    obtain ⟨mid, head, rest⟩ := leads
    obtain ⟨view, start, last, inner⟩ := ih rest
    refine ⟨fun pos => pos.casesOn before view, rfl, last, ?_⟩
    intro pos found here
    cases pos with
    | zero =>
      simp_all
    | succ pos => exact inner pos found here

theorem Operation.MayJump.canJump {tables : List DataTable} {label : String}
    (jumps : operation.MayJump tables label) : operation.CanJump := by
  obtain branch | direct | ⟨throughTable, -⟩ := jumps
  · exact .inl branch
  · exact .inr (.inl direct)
  · exact .inr (.inr throughTable)

theorem Operation.CanJump.alters {state next : ModeState} (jumps : operation.CanJump)
    (alters : operation.Alters state next) : next = state := by
  refine alters.unique (.keep ?_)
  rintro (⟨isRep | isSep, -⟩ | isPhp | isPlp) <;>
    simp_all [CanJump, JumpsDirectly, JumpsThroughTable, Op.isBranch, Op.isConditional]

theorem Op.pushed?_of_jumps (jumps : op.isBranch = true ∨ op = .jmp) {view : ModeView} :
    op.pushed? view = some 0 := by
  cases op <;> simp_all [isBranch, isConditional, pushed?]

theorem Operation.CanJump.shift (jumps : operation.CanJump) (state : StackState) :
    operation.shift state = (state.level, none) := by
  by_cases long : operation.op = .jml
  · grind [CanJump, JumpsDirectly, JumpsThroughTable, Op.isBranch, Op.isConditional, Operation.shift]
  · have short : operation.op.isBranch = true ∨ operation.op = .jmp := by
      obtain branch | ⟨isJmp | isJml, -⟩ | ⟨isJmp, -⟩ := jumps
      all_goals simp_all
    rw [Operation.shift_of_pushed _ (Op.pushed?_of_jumps short), state.push_zero]
    grind [Op.isBranch, Op.isConditional]

theorem Operation.CanJump.shifts {next : StackState} (jumps : operation.CanJump)
    (bare : state.held = none) (shifts : operation.Shifts state next) : next = state :=
  shifts.unique ⟨(jumps.alters shifts.1).symm ▸ shifts.1, by rw [jumps.shift, bare]⟩

namespace Routine

variable {routine : Routine} {tables : List DataTable} {view : Nat → Option StackState}
  {point next : Nat × StackState}

/-- A path is in the state of the view, or it has just jumped to a label. -/
def Seen (routine : Routine) (view : Nat → Option StackState) (body : StackState)
    (point : Nat × StackState) : Prop :=
  view point.1 = some point.2 ∨
    (∃ name, routine.code[point.1]? = some (.label name) ∧ ¬body.Passes name) ∧ point.2 = body

/-- The view goes with the code. -/
def Fits (routine : Routine) (view : Nat → Option StackState) (body : StackState) : Prop :=
  ∀ (position : Nat) (instr : Instr), routine.code[position]? = some instr →
    instr.LeadsModes body (view position) (view (position + 1))

/-- At a label that code jumps to, the view knows no other state than that of the body. -/
theorem Seen.eq_body {name : String} (seen : routine.Seen view body point)
    (fits : routine.Fits view body) (here : routine.code[point.1]? = some (.label name))
    (target : ¬body.Passes name) : point.2 = body := by
  obtain inView | ⟨-, same⟩ := seen
  · obtain ⟨unreached | same, -⟩ | ⟨passes, -⟩ := fits _ _ here
    all_goals simp_all
  · exact same

theorem Seen.unique {pos : Nat} (fits : routine.Fits view body)
    (seen : routine.Seen view body (pos, first))
    (other : routine.Seen view body (pos, second)) : first = second := by
  obtain inView | ⟨⟨name, here, target⟩, same⟩ := seen
  · obtain inView' | ⟨⟨name, here, target⟩, same⟩ := other
    · simp_all
    · exact (Seen.eq_body (.inl inView) fits here target).trans same.symm
  · exact same.trans (other.eq_body fits here target).symm

theorem Seen.leads (seen : routine.Seen view body point) (fits : routine.Fits view body)
    (here : routine.code[point.1]? = some (.run operation)) :
    view point.1 = some point.2 ∧
      (Instr.run operation).LeadsModes body (some point.2) (view (point.1 + 1)) := by
  obtain inView | ⟨⟨name, at_label, -⟩, -⟩ := seen
  · exact ⟨inView, inView ▸ fits _ _ here⟩
  · cases here.symm.trans at_label

theorem Seen.goes (seen : routine.Seen view body point) (fits : routine.Fits view body)
    (bare : body.held = none)
    (free : ∀ name label, ListsTarget tables name label → ¬body.Passes label)
    (goes : routine.StackGoes tables point next) : routine.Seen view body next := by
  obtain ⟨pos, ⟨mode, saved⟩, level, held⟩ := point
  obtain ⟨target, ⟨nextMode, nextSaved⟩, nextLevel, nextHeld⟩ := next
  obtain ⟨goes, shifts⟩ := goes
  cases goes with
  | pass here =>
    cases shifts _ here
    obtain ⟨above, below⟩ | ⟨passes, above⟩ := fits _ _ here
    · refine .inl (below.trans ?_)
      obtain inView | ⟨-, same⟩ := seen
      all_goals simp_all
    · obtain inView | ⟨⟨name, at_label, target⟩, -⟩ := seen
      · obtain unreached | same := above
        · cases unreached.symm.trans inView
        · exact .inl (same.symm.trans inView)
      · simp_all
  | fall here alters falls =>
    obtain ⟨-, -, -, leads⟩ := seen.leads fits here
    obtain ⟨-, -, -, leads⟩ := leads _ rfl
    obtain ⟨next, shifted, next_eq⟩ := leads falls
    cases Operation.Shifts.unique ⟨alters, shifts _ here⟩ shifted
    exact .inl next_eq
  | jump here alters jumps at_target =>
    obtain ⟨-, -, open_label, leads⟩ := seen.leads fits here
    obtain ⟨-, -, at_body, -⟩ := leads _ rfl
    cases at_body jumps.canJump
    refine .inr ⟨⟨_, at_target.1, ?_⟩, jumps.canJump.shifts bare ⟨alters, shifts _ here⟩⟩
    cases jumps with
    | branch branch => exact open_label (.inl branch)
    | direct direct => exact open_label (.inr direct)
    | throughTable _ listed => exact free _ _ listed

/-- Paths stay in the states that the code leads through. -/
theorem exists_seen
    (leads : LeadsModes body (some { level }) routine.code none) (bare : body.held = none)
    (free : ∀ name label, ListsTarget tables name label → ¬body.Passes label) :
    ∃ view, routine.Fits view body ∧ view routine.code.length = none ∧
      ∀ point, routine.StackReaches tables level point → routine.Seen view body point := by
  obtain ⟨view, start, last, fits⟩ := leads.exists_view
  refine ⟨view, fits, last.elim id id, fun point reaches => ?_⟩
  induction reaches with
  | refl => exact .inl start
  | tail _ goes ih => exact ih.goes fits bare free goes

/-- Code that starts in the caller's mode and whose end is not reached is symmetric, whatever tables
it jumps through. -/
theorem modeSymmetric_of_leadsModes (leads : LeadsModes body (some {}) routine.code none)
    (bare : body.held = none) (uncounted : body.level = none) (tables : List DataTable) :
    routine.ModeSymmetric tables := by
  obtain ⟨view, fits, last, seen⟩ := exists_seen leads bare fun _ _ _ passes => passes.1 uncounted
  refine ⟨fun first second => ?_, fun reaches here => ?_, @fun point next reaches goes => ?_⟩
  · obtain ⟨state, rfl, reaches⟩ := first.exists_stackReaches
    obtain ⟨other, rfl, reaches'⟩ := second.exists_stackReaches
    rw [Seen.unique fits (seen _ reaches) (seen _ reaches')]
  · obtain ⟨state, rfl, reaches⟩ := reaches.exists_stackReaches
    exact (((seen _ reaches).leads fits here).2.2.2 _ rfl).1
  · obtain ⟨state, -, later⟩ := ModeReaches.exists_stackReaches (reaches.tail goes)
    obtain inView | ⟨⟨name, at_label, -⟩, -⟩ := seen _ later
    · cases goes with
      | pass here | fall here =>
        grind
      | jump _ _ _ at_target => exact (List.getElem?_eq_some_iff.mp at_target.1).1
    · grind

end Routine

/-! ## What keeps such code -/

theorem LeadsModes.filter (leads : LeadsModes body before code after) (used : Std.HashSet String) :
    LeadsModes body before (code.filter (Instr.isKept used)) after := by
  induction code generalizing before with
  | nil => exact leads
  | cons instr code ih =>
    obtain ⟨mid, head, rest⟩ := leads
    by_cases kept : instr.isKept used = true
    · rw [List.filter_cons_of_pos kept]
      exact ⟨mid, head, ih rest⟩
    · cases instr with
      | run operation => exact absurd rfl kept
      | label name =>
        obtain ⟨rfl | rfl, rfl⟩ | ⟨-, rfl | rfl⟩ := head
        all_goals grind [of_none]

theorem Op.ne_of_isBranch {other : Op} (branch : op.isBranch = true)
    (straight : other.isBranch = false) : op ≠ other := by
  grind

variable (bare : body.held = none)
include bare

/-- A branch is taken, and passed, at the state of the body. -/
theorem leadsModes_branch (branch : operation.op.isBranch = true) :
    (Instr.run operation).LeadsModes body before after ↔
      (operation.op.isConditional = true → after = some body) ∧
        ¬body.Passes operation.symbol ∧ ∀ state, before = some state → state = body := by
  have differs {other : Op} (straight : other.isBranch = false) : operation.op ≠ other :=
    Op.ne_of_isBranch branch straight
  have permits (state : ModeState) : operation.Permits state :=
    ⟨fun isPlp => absurd isPlp (differs rfl),
      fun returns => returns.elim (absurd · (differs rfl)) (absurd · (differs rfl)),
      fun isRti => absurd isRti (differs rfl)⟩
  have keeps : operation.Shifts body body := by
    constructor
    · apply Operation.Alters.keep
      rintro (⟨isRep | isSep, -⟩ | isPhp | isPlp)
      exacts [differs rfl isRep, differs rfl isSep, differs rfl isPhp, differs rfl isPlp]
    · rw [Operation.CanJump.shift (.inl branch), bare]
  have conditional (goes : ¬operation.EndsPath) : operation.op.isConditional = true := by
    by_contra always
    have : operation.op = .bra ∨ operation.op = .brl := by
      simpa [Op.isBranch, always] using branch
    exact goes (.inr (.inr (or_assoc.mp (.inl this))))
  constructor
  · rintro ⟨next, target, leads⟩
    exact ⟨next, target (.inl branch), fun state reached =>
      (leads state reached).2.2.1 (.inl branch)⟩
  · rintro ⟨next, target, at_body⟩
    refine ⟨next, fun _ => target, fun state reached => ?_⟩
    obtain rfl := at_body state reached
    refine ⟨permits _, ?_, fun _ => rfl, fun goes => ⟨state, keeps, next (conditional goes)⟩⟩
    rintro ((isRts | isRtl) | isRti)
    exacts [absurd isRts (differs rfl), absurd isRtl (differs rfl), absurd isRti (differs rfl)]

theorem LeadsModes.expands {longer : List Instr} {skips : List String}
    (uncounted : body.level = none) (leads : LeadsModes body before code after)
    (expands : Expands code skips longer) : LeadsModes body before longer after := by
  induction expands generalizing before with
  | nil => exact leads
  | label name _ ih =>
    obtain ⟨mid, head, rest⟩ := leads
    exact ⟨mid, head, ih rest⟩
  | plain operation straight _ ih =>
    obtain ⟨mid, head, rest⟩ := leads
    exact ⟨mid, head, ih rest⟩
  | kept operation branch distance _ ih =>
    obtain ⟨mid, head, rest⟩ := leads
    rw [leadsModes_branch bare branch] at head
    have same : Op.isBranch (Operation.op { operation with distance }) = true := branch
    exact ⟨mid, (leadsModes_branch bare same).mpr head, ih rest⟩
  | long operation always distance _ ih =>
    obtain ⟨mid, head, rest⟩ := leads
    rw [leadsModes_branch bare (by rw [always]; rfl)] at head
    exact ⟨mid, (leadsModes_branch bare rfl).mpr ⟨nofun, head.2⟩, ih rest⟩
  | around operation conditional skip near far _ ih =>
    obtain ⟨mid, head, rest⟩ := leads
    have branch : operation.op.isBranch = true := by simp [Op.isBranch, conditional]
    rw [leadsModes_branch bare branch] at head
    obtain ⟨next, target, at_body⟩ := head
    obtain rfl := next conditional
    exact ⟨some body, (leadsModes_branch bare (Op.isBranch_invert conditional)).mpr
        ⟨fun _ => rfl, fun passes => passes.1 uncounted, at_body⟩,
      none, (leadsModes_branch bare rfl).mpr
        ⟨nofun, target, fun state reached => (Option.some.inj reached).symm⟩,
      some body, .inl ⟨.inl rfl, rfl⟩, ih rest⟩

/-- The check accepts such code with its branches resolved. -/
theorem Routine.checkModes_resolved {routine resolved : Routine} (uncounted : body.level = none)
    (leads : LeadsModes body (some {}) routine.code none)
    (resolves : routine.resolveBranches = .ok resolved) (tables : List DataTable) :
    resolved.checkModes tables = .ok () := by
  obtain ⟨skips, expands, -⟩ := Routine.resolveBranches_expands resolves
  exact checkModes_of_modeSymmetric
    (modeSymmetric_of_leadsModes (leads.expands bare uncounted expands) bare uncounted tables)

end Backend65816
