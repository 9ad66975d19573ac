import Mathlib.Tactic.Common
import Backend65816.Match.Emit

/-!
# Running the decision code of a match

The commands of a match build a graph of blocks. A run starts in block zero with the value in the
register of the scrutinee. It ends with an arm or with a constant of a table; a block without an end
and an index outside its table give no outcome.
-/

namespace Backend65816

open List

variable {value : Int} {state : MatchState} {idx target : Nat}

/-- How the decision code of a match ends. -/
inductive MatchOutcome where
  | arm (index : Nat)
  | constant (value : Int)
deriving DecidableEq, Repr, Inhabited

/-- A point of a run of decision code. -/
structure MatchState where
  rest : List MatchCommand
  registers : Nat → Int

namespace MatchCommand

/-- Commands that a list adds to a block, when it starts in the block `current`. -/
def codeOf (id : Nat) : (current : Nat) → List MatchCommand → List MatchCommand
  | _, [] => []
  | current, command :: rest =>
    match command with
    | .newBlock _ _ => codeOf id current rest
    | .enter next => codeOf id next rest
    | _ => (if current = id then [command] else []) ++ codeOf id current rest

/-- The entry of a table for an index, if the table has one. -/
def slotAt? {α : Type} (table : List α) (index : Int) : Option α :=
  if 0 ≤ index then table[index.toNat]? else none

/-- Carries out the next command of a block: the run continues or ends. -/
def step (width : Width) (blocks : Nat → List MatchCommand) (state : MatchState) :
    Option (MatchState ⊕ MatchOutcome) :=
  match state.rest with
  | [] | .newBlock _ _ :: _ | .enter _ :: _ => none
  | .test condition register value thenBlock elseBlock :: _ =>
    let target :=
      if condition.eval (state.registers register) value then thenBlock else elseBlock
    some (.inl { state with rest := blocks target })
  | .jump target :: _ => some (.inl { state with rest := blocks target })
  | .index target register base :: rest =>
    let distance := width.truncate (state.registers register - base)
    some (.inl { rest, registers := Function.update state.registers target distance })
  | .jumpTable register targets :: _ =>
    (slotAt? targets (state.registers register)).map fun target =>
      .inl { state with rest := blocks target }
  | .lookup values register :: _ =>
    (slotAt? values (state.registers register)).map fun value => .inr (.constant value)
  | .arm number :: _ => some (.inr (.arm number))

def runBlocks (width : Width) (blocks : Nat → List MatchCommand) :
    (fuel : Nat) → MatchState → Option MatchOutcome
  | 0, _ => none
  | fuel + 1, state =>
    match step width blocks state with
    | some (.inl next) => runBlocks width blocks fuel next
    | some (.inr outcome) => some outcome
    | none => none

/-- The outcome of decision code on a value, whatever the other registers hold, within at most
`fuel` commands. -/
def run (width : Width) (commands : List MatchCommand) (registers : Nat → Int) (value : Int)
    (fuel : Nat) : Option MatchOutcome :=
  runBlocks width (fun id => codeOf id 0 commands) fuel
    { rest := codeOf 0 0 commands
      registers := Function.update registers MatchEmit.scrutinee value }

def Ends (width : Width) (blocks : Nat → List MatchCommand) (state : MatchState)
    (outcome : MatchOutcome) : Prop :=
  ∃ fuel, runBlocks width blocks fuel state = some outcome

section Ends

variable {width : Width} {blocks : Nat → List MatchCommand} {rest : List MatchCommand}
  {regs : Nat → Int} {res : MatchOutcome}

theorem Ends.of_step {next : MatchState} (stepped : step width blocks state = some (.inl next))
    (later : Ends width blocks next res) : Ends width blocks state res := by
  obtain ⟨fuel, finished⟩ := later
  exact ⟨fuel + 1, by rw [runBlocks, stepped]; exact finished⟩

theorem Ends.of_outcome
    (stepped : step width blocks state = some (.inr res)) : Ends width blocks state res :=
  ⟨1, by rw [runBlocks, stepped]⟩

theorem ends_arm : Ends width blocks ⟨.arm idx :: rest, regs⟩ (.arm idx) :=
  .of_outcome rfl

theorem Ends.jump (later : Ends width blocks ⟨blocks target, regs⟩ res) :
    Ends width blocks ⟨.jump target :: rest, regs⟩ res :=
  .of_step rfl later

theorem Ends.test {cond : Cond} {reg : Nat} {yes no : Nat} (later : Ends width blocks
      ⟨blocks (if cond.eval (regs reg) value then yes else no), regs⟩ res) :
    Ends width blocks ⟨.test cond reg value yes no :: rest, regs⟩ res :=
  .of_step rfl later

theorem Ends.jumpTable {targets : List Nat} (found : slotAt? targets (regs idx) = some target)
    (later : Ends width blocks ⟨blocks target, regs⟩ res) :
    Ends width blocks ⟨.jumpTable idx targets :: rest, regs⟩ res :=
  .of_step (by simp only [step, found, Option.map_some]) later

end Ends

/-! ## Parts of the graph -/

theorem codeOf_eq_nil {id cur : Nat} {commands : List MatchCommand} (elsewhere : cur ≠ id)
    (never : .enter id ∉ commands) : codeOf id cur commands = [] := by
  induction commands generalizing cur with
  | nil => rfl
  | cons command rest ih =>
    have later : .enter id ∉ rest := fun found => never (.tail _ found)
    cases command with
    | enter next =>
      have next_ne : next ≠ id := by
        grind
      exact ih next_ne later
    | _ => simp [codeOf, elsewhere, ih elsewhere later]

theorem codeOf_append_enter (id cur next : Nat) (front back : List MatchCommand) :
    codeOf id cur (front ++ .enter next :: back) = codeOf id cur front ++ codeOf id next back := by
  induction front generalizing cur with
  | nil => rfl
  | cons command rest ih =>
    cases command <;> simp [codeOf, ih]

/-- Every block that a list of commands enters starts with what the list adds to it. -/
def Fills (blocks : Nat → List MatchCommand) (current : Nat) (commands : List MatchCommand) :
    Prop :=
  ∀ id, .enter id ∈ commands → codeOf id current commands <+: blocks id

theorem codeOf_prefix_append (id cur : Nat) {front back : List MatchCommand} :
    codeOf id cur front <+: codeOf id cur (front ++ back) := by
  induction front generalizing cur with
  | nil => exact nil_prefix
  | cons command rest ih =>
    cases command with
    | newBlock _ _ | enter _ => exact ih _
    | _ =>
      grind [codeOf]

namespace Fills

variable {blocks : Nat → List MatchCommand} {cur next : Nat} {front back : List MatchCommand}

theorem of_append (fills : Fills blocks cur (front ++ back)) : Fills blocks cur front :=
  fun id entered => (codeOf_prefix_append id cur).trans (fills id (mem_append_left _ entered))

theorem after_enter (fills : Fills blocks cur (front ++ .enter next :: back))
    (fresh : ∀ id, .enter id ∈ MatchCommand.enter next :: back → cur ≠ id ∧ .enter id ∉ front) :
    Fills blocks next back ∧ codeOf next next back <+: blocks next := by
  have later : ∀ id, .enter id ∈ MatchCommand.enter next :: back →
      codeOf id next back <+: blocks id := by
    intro id entered
    obtain ⟨elsewhere, never⟩ := fresh id entered
    have filled := fills id (mem_append_right _ entered)
    simp_all [codeOf_append_enter, codeOf_eq_nil]
  exact ⟨fun id entered => later id (.tail _ entered), later next (.head _)⟩

end Fills

end MatchCommand

/-! ## Emission -/

/-- Emission appends commands, which enter only blocks above a number. -/
structure Emits (floor : Nat) (before after : MatchCode) (commands : List MatchCommand) : Prop where
  commands_eq : after.commands.toList = before.commands.toList ++ commands
  blocks_le : before.blocks ≤ after.blocks
  entered : ∀ id, .enter id ∈ commands → floor < id ∧ id ≤ after.blocks

namespace Emits

variable {floor : Nat} {before mid after : MatchCode} {front back : List MatchCommand}

theorem trans (first : Emits floor before mid front) (second : Emits floor mid after back) :
    Emits floor before after (front ++ back) := by
  refine ⟨?_, Nat.le_trans first.blocks_le second.blocks_le, ?_⟩
  · rw [second.commands_eq, first.commands_eq, append_assoc]
  · intro id entered
    rcases mem_append.mp entered with entered | entered
    · have early := first.entered id entered
      exact ⟨early.1, Nat.le_trans early.2 second.blocks_le⟩
    · exact second.entered id entered

theorem mono {lower : Nat} (emits : Emits floor before after front) (le : lower ≤ floor) :
    Emits lower before after front :=
  ⟨emits.commands_eq, emits.blocks_le, fun id entered =>
    ⟨Nat.lt_of_le_of_lt le (emits.entered id entered).1, (emits.entered id entered).2⟩⟩

variable (code : MatchCode)

theorem command (command : MatchCommand) (not_enter : ∀ id, command ≠ .enter id) :
    Emits floor code ((MatchEmit.command command).run code).2 [command] :=
  ⟨Array.toList_push, Nat.le_refl _, fun id entered =>
    absurd (mem_singleton.mp entered).symm (not_enter id)⟩

theorem enter {id : Nat} (above : floor < id) (le : id ≤ code.blocks) :
    Emits floor code ((MatchEmit.command (.enter id)).run code).2 [.enter id] := by
  refine ⟨Array.toList_push, Nat.le_refl _, fun other entered => ?_⟩
  cases mem_singleton.mp entered
  exact ⟨above, le⟩

theorem newBlock (name : String) :
    Emits floor code ((MatchEmit.newBlock name).run code).2 [.newBlock (code.blocks + 1) name] :=
  ⟨Array.toList_push, Nat.le_succ _, by simp⟩

end Emits

end Backend65816
