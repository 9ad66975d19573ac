import Mathlib.Data.List.Basic
import Mathlib.Data.List.Induction
import Mathlib.Logic.Relation
import Backend65816.Assembly.ModeSymmetry

/-!
# Paths of a routine and the width of the accumulator

A path goes from instruction to instruction and carries the mode and the modes that are saved on the
stack. A branch may go to the label it names or on, a jump through a table to any entry of the
table, and everything else goes on, calls included. Paths leave the routine at returns and at jumps
to labels of other routines.

The check follows each position once, with the first state that reaches it. It accepts a routine
exactly if no path shows it another state.
-/

namespace Backend65816

open List Operation ModeSearch

variable {instr : Instr} {tables : List DataTable} {code : List Instr} {point : ModePoint}
  {first second state : ModeState} {labels : Std.HashMap String Nat} {name : String}

variable {label : String} {position : Nat}

/-! ## Steps of a path -/

/-- A position and the modes there. -/
structure ModePoint where
  position : Nat
  state : ModeState

/-- The label refers to the position: of equal labels the last one counts. -/
def LabelAt (code : List Instr) (label : String) (position : Nat) : Prop :=
  code[position]? = some (.label label) ∧
    ∀ later, position < later → code[later]? ≠ some (.label label)

/-- The label is an entry of a table of addresses; of equal names the last table counts. -/
def ListsTarget (tables : List DataTable) (name label : String) : Prop :=
  ∃ front table back, tables = front ++ table :: back ∧
    (table.kind = .addresses ∧ table.name = name) ∧
    (∀ other ∈ back, ¬(other.kind = .addresses ∧ other.name = name)) ∧ label ∈ table.targets

namespace Operation

variable (operation : Operation)

/-- The instruction selects, saves or restores a mode. -/
def TouchesModes : Prop :=
  (operation.op = .rep ∨ operation.op = .sep) ∧ operation.touchesAccumulatorFlag = true ∨
    operation.op = .php ∨ operation.op = .plp

/-- What an instruction does to the modes. -/
inductive Alters : ModeState → ModeState → Prop
  | widen {state : ModeState} : operation.op = .rep → operation.touchesAccumulatorFlag = true →
      Alters state { state with mode := .chosen .wide }
  | narrow {state : ModeState} : operation.op = .sep → operation.touchesAccumulatorFlag = true →
      Alters state { state with mode := .chosen .narrow }
  | save {mode : ModeView} {saved : List ModeView} : operation.op = .php →
      Alters ⟨mode, saved⟩ ⟨mode, mode :: saved⟩
  | restore {mode top : ModeView} {saved : List ModeView} : operation.op = .plp →
      Alters ⟨mode, top :: saved⟩ ⟨top, saved⟩
  | keep {state : ModeState} : ¬operation.TouchesModes → Alters state state

def JumpsDirectly : Prop :=
  (operation.op = .jmp ∨ operation.op = .jml) ∧
    (operation.mode = .absolute ∨ operation.mode = .long)

def JumpsThroughTable : Prop := operation.op = .jmp ∧ operation.mode = .indexedIndirect

def Returns : Prop := operation.op = .rts ∨ operation.op = .rtl

/-- Control may go to the label. -/
inductive MayJump (tables : List DataTable) : String → Prop
  | branch : operation.op.isBranch = true → MayJump tables operation.symbol
  | direct : operation.JumpsDirectly → MayJump tables operation.symbol
  | throughTable {label : String} : operation.JumpsThroughTable →
      ListsTarget tables operation.symbol label → MayJump tables label

def EndsPath : Prop :=
  operation.Returns ∨ operation.op = .rti ∨ operation.op = .bra ∨ operation.op = .brl ∨
    operation.JumpsDirectly ∨ operation.JumpsThroughTable

/-- The instruction can be executed with these modes: it pulls a mode only where one is saved, and
returns only in the caller's mode. -/
structure Permits (state : ModeState) : Prop where
  pull : operation.op = .plp → state.saved ≠ []
  returns : operation.Returns → state = {}
  interrupt : operation.op = .rti → state.saved = []

end Operation

namespace Routine

variable (routine : Routine) (tables : List DataTable)

/-- One step of a path. -/
inductive ModeGoes : ModePoint → ModePoint → Prop
  | pass {position : Nat} {state : ModeState} {name : String} :
      routine.code[position]? = some (.label name) →
      ModeGoes ⟨position, state⟩ ⟨position + 1, state⟩
  | fall {position : Nat} {state next : ModeState} {operation : Operation} :
      routine.code[position]? = some (.run operation) → operation.Alters state next →
      ¬operation.EndsPath → ModeGoes ⟨position, state⟩ ⟨position + 1, next⟩
  | jump {position target : Nat} {state next : ModeState} {operation : Operation}
      {label : String} :
      routine.code[position]? = some (.run operation) → operation.Alters state next →
      operation.MayJump tables label → LabelAt routine.code label target →
      ModeGoes ⟨position, state⟩ ⟨target, next⟩

/-- A path leads to the point from the start of the routine, in the caller's mode. -/
def ModeReaches (point : ModePoint) : Prop :=
  Relation.ReflTransGen (routine.ModeGoes tables) ⟨0, {}⟩ point

/-- All paths agree about the modes, and return in the caller's. -/
structure ModeSymmetric : Prop where
  agree : ∀ {position first second}, routine.ModeReaches tables ⟨position, first⟩ →
    routine.ModeReaches tables ⟨position, second⟩ → first = second
  permits : ∀ {position state operation}, routine.ModeReaches tables ⟨position, state⟩ →
    routine.code[position]? = some (.run operation) → operation.Permits state
  inside : ∀ {point next}, routine.ModeReaches tables point →
    routine.ModeGoes tables point next → next.position < routine.code.length

end Routine

/-! ## What the check reads off an instruction -/

theorem mem_jumpTargets : label ∈ jumpTargets tables name ↔ ListsTarget tables name label := by
  unfold jumpTargets ListsTarget
  constructor
  · intro member
    split at member
    · rename_i table found
      obtain ⟨matching, front, back, split, others⟩ := List.find?_eq_some_iff_append.mp found
      refine ⟨back.reverse, table, front.reverse, ?_, by simpa using matching, ?_, member⟩
      all_goals grind
    · cases member
  · rintro ⟨front, table, back, rfl, matching, others, member⟩
    have found : (front ++ table :: back).reverse.find?
        (fun table => table.kind = .addresses ∧ table.name = name) = some table := by
      refine List.find?_eq_some_iff_append.mpr ⟨by simpa using matching, back.reverse,
        front.reverse, by simp, ?_⟩
      intro other mem
      have differs := others other (mem_reverse.mp mem)
      simpa [-not_and, Decidable.not_and_iff_not_or_not] using differs
    rw [found]
    exact member

theorem labelAt_append_singleton : LabelAt (code ++ [instr]) label position ↔
      instr = .label label ∧ position = code.length ∨
        instr ≠ .label label ∧ LabelAt code label position := by
  unfold LabelAt
  constructor
  · by_cases new : instr = .label label
    · grind
    · grind
  · rintro (⟨rfl, rfl⟩ | ⟨old, here, last⟩)
    · grind
    · grind

theorem foldl_labels {note : Nat × Std.HashMap String Nat → Instr → Nat × Std.HashMap String Nat}
    (label_eq : ∀ state name, note state (.label name) = (state.1 + 1, state.2.insert name state.1))
    (run_eq : ∀ state op, note state (.run op) = (state.1 + 1, state.2)) (code : List Instr) :
    (code.foldl note (0, ∅)).1 = code.length ∧
      ∀ label position, (code.foldl note (0, ∅)).2[label]? = some position ↔
        LabelAt code label position := by
  induction code using List.reverseRecOn with
  | nil => simp [LabelAt]
  | append_singleton code instr ih =>
    obtain ⟨count, known⟩ := ih
    rw [foldl_append, foldl_cons]
    cases instr with
    | run op =>
      simp_all [labelAt_append_singleton]
    | label name =>
      rw [label_eq, count]
      refine ⟨by simp, fun label position => ?_⟩
      rw [labelAt_append_singleton]
      grind

theorem labelPositions_eq_some :
    (labelPositions code)[label]? = some position ↔ LabelAt code label position :=
  (foldl_labels (fun _ _ => rfl) (fun _ _ => rfl) code).2 label position

/-- What the check's step says about an instruction. -/
structure ModeStep.Describes (step : ModeStep) (operation : Operation) (tables : List DataTable)
    (state : ModeState) : Prop where
  alters : ∀ next, operation.Alters state next ↔ next = step.state
  jumps : ∀ label, operation.MayJump tables label ↔ label ∈ step.jumps
  falls : ¬operation.EndsPath ↔ step.falls = true

namespace Operation

variable {op : Operation} {state next : ModeState}

theorem Alters.unique (alters : op.Alters state first)
    (other : op.Alters state second) : first = second := by
  cases alters <;> cases other <;> simp_all [TouchesModes]

theorem Alters.iff (alters : op.Alters state next) (other : ModeState) :
    op.Alters state other ↔ other = next :=
  ⟨fun altered => altered.unique alters, fun same => same ▸ alters⟩

theorem mayJump_iff : op.MayJump tables label ↔
      (op.op.isBranch = true ∨ op.JumpsDirectly) ∧ label = op.symbol ∨
        op.JumpsThroughTable ∧ label ∈ jumpTargets tables op.symbol := by
  rw [mem_jumpTargets]
  constructor
  · rintro (branch | direct | ⟨throughTable, listed⟩)
    all_goals simp_all
  · rintro (⟨branch | direct, rfl⟩ | ⟨throughTable, listed⟩)
    · exact .branch branch
    · exact .direct direct
    · exact .throughTable throughTable listed

variable {pos : Nat} {step : ModeStep}

section

variable (step_eq : op.modeStep name tables position state = .ok step)
include step_eq

theorem alters_of_modeStep : op.Alters state step.state := by
  by_cases isPlp : op.op = .plp
  · obtain ⟨mode, saved⟩ := state
    cases saved with
    | nil => simp [modeStep, isPlp] at step_eq
    | cons top saved =>
      simp only [modeStep, isPlp] at step_eq
      cases step_eq
      exact .restore isPlp
  unfold modeStep at step_eq
  split at step_eq <;> (try contradiction) <;> (try split at step_eq) <;> cases step_eq
  case h_1.isTrue isRep flag => exact .widen isRep flag
  case h_2.isTrue isSep flag => exact .narrow isSep flag
  case h_3 isPhp => exact .save isPhp
  all_goals
    refine .keep ?_
    simp_all [TouchesModes]

theorem describes_of_modeStep : step.Describes op tables state ∧ op.Permits state := by
  have alters := alters_of_modeStep step_eq
  suffices facts : (∀ label, op.MayJump tables label ↔ label ∈ step.jumps) ∧
      (¬op.EndsPath ↔ step.falls = true) ∧ (op.op = .plp → state.saved ≠ []) ∧
      (op.Returns → state.mode = .caller ∧ state.saved = []) ∧
      (op.op = .rti → state.saved = []) by
    obtain ⟨jumps, falls, pull, returns, interrupt⟩ := facts
    refine ⟨⟨alters.iff, jumps, falls⟩, pull, fun isReturn => ?_, interrupt⟩
    obtain ⟨mode, saved⟩ := state
    simp_all
  unfold modeStep at step_eq
  split at step_eq <;> (try split at step_eq) <;> cases step_eq <;>
    simp_all [mayJump_iff, EndsPath, JumpsDirectly, JumpsThroughTable, Returns, Op.isBranch,
      Op.isConditional]

end

theorem modeStep_of_permits (permits : op.Permits state) (tables : List DataTable) (name : String)
    (pos : Nat) : ∃ step, op.modeStep name tables pos state = .ok step := by
  unfold modeStep
  split <;> (try split) <;> try exact ⟨_, rfl⟩
  case h_1 isPlp _ none_saved => exact absurd none_saved (permits.pull isPlp)
  case h_5.isFalse isRts other => exact absurd (by simp [permits.returns (.inl isRts)]) other
  case h_6.isFalse isRtl other => exact absurd (by simp [permits.returns (.inr isRtl)]) other
  case h_7.isFalse isRti other => exact absurd (permits.interrupt isRti) other

end Operation

/-! ## Progress of the check -/

namespace ModeSearch

def Knows (search : ModeSearch) (point : ModePoint) : Prop :=
  search.states[point.position]? = some (some point.state)

/-- How many positions can still become pending or be taken. -/
def reserve (search : ModeSearch) : Nat :=
  search.pending.length + search.states.toList.count none

/-- The search went on to know the points. -/
structure Adds (search next : ModeSearch) (points : List ModePoint) : Prop where
  knows : ∀ point, next.Knows point ↔ search.Knows point ∨ point ∈ points
  pending : ∀ position, position ∈ next.pending ↔
    position ∈ search.pending ∨
      (∃ state, next.Knows ⟨position, state⟩) ∧ ∀ state, ¬search.Knows ⟨position, state⟩
  size : next.states.size = search.states.size
  reserve : next.reserve = search.reserve

variable {routine : String} {search next : ModeSearch} {points : List ModePoint}

theorem Knows.unique (knows : search.Knows ⟨position, first⟩)
    (other : search.Knows ⟨position, second⟩) : first = second := by
  simp_all [Knows]

theorem Knows.lt_size (knows : search.Knows point) : point.position < search.states.size :=
  (Array.getElem?_eq_some_iff.mp knows).1

theorem Adds.refl (search : ModeSearch) : search.Adds search [] where
  knows := by simp
  pending position := by
    grind
  size := rfl
  reserve := rfl

theorem Adds.trans {last : ModeSearch} {more : List ModePoint} (adds : search.Adds next points)
    (adds_more : next.Adds last more) : search.Adds last (points ++ more) where
  knows point := by
    rw [adds_more.knows, adds.knows, mem_append, or_assoc]
  pending position := by
    rw [adds_more.pending, adds.pending]
    constructor
    · rintro ((pending | ⟨⟨state, known⟩, unknown⟩) | ⟨known, unknown⟩)
      · exact .inl pending
      · exact .inr ⟨⟨state, (adds_more.knows _).mpr (.inl known)⟩, unknown⟩
      · exact .inr ⟨known, fun state knows => unknown state ((adds.knows _).mpr (.inl knows))⟩
    · grind
  size := adds_more.size.trans adds.size
  reserve := adds_more.reserve.trans adds.reserve

theorem Adds.of_known (known : search.Knows point) : search.Adds search [point] where
  knows other := by
    simp_all
  pending := (Adds.refl search).pending
  size := rfl
  reserve := rfl

theorem Adds.of_unknown (unknown : search.states[position]? = some none) :
    search.Adds
      { states := search.states.setIfInBounds position (some state)
        pending := position :: search.pending } [⟨position, state⟩] := by
  obtain ⟨inside, unknown_eq⟩ := Array.getElem?_eq_some_iff.mp unknown
  have none_known (found : ModeState) : ¬search.Knows ⟨position, found⟩ := by
    simp [Knows, unknown]
  have knows (point : ModePoint) : Knows
      { states := search.states.setIfInBounds position (some state)
        pending := position :: search.pending } point ↔
      search.Knows point ∨ point = ⟨position, state⟩ := by
    obtain ⟨place, found⟩ := point
    by_cases same : position = place
    · subst same
      simp_all [Knows, eq_comm]
    · simp [Knows, same, Ne.symm same]
  refine ⟨by simpa using knows, fun place => ?_, by simp, ?_⟩
  · simp only [knows, ModePoint.mk.injEq]
    grind
  · grind [ModeSearch.reserve]

theorem adds_of_visit (visited : search.visit routine point.position point.state = .ok next) :
    search.Adds next [point] := by
  unfold visit at visited
  split at visited
  · cases visited
  · rename_i earlier known
    split at visited
    · rename_i same
      cases visited
      subst same
      exact .of_known known
    · cases visited
  · rename_i unknown
    cases visited
    exact .of_unknown unknown

theorem exists_visit (inside : point.position < search.states.size)
    (agree : ∀ state, search.Knows ⟨point.position, state⟩ → state = point.state) :
    ∃ next, search.visit routine point.position point.state = .ok next := by
  unfold visit
  split
  · simp_all
  · rename_i earlier known
    rw [if_pos (agree earlier known)]
    exact ⟨_, rfl⟩
  · exact ⟨_, rfl⟩

def visitAll (routine : String) (search : ModeSearch) (points : List ModePoint) :
    Except ModeError ModeSearch :=
  points.foldlM (fun reached point => visit routine reached point.position point.state) search

theorem visitAll_cons (search : ModeSearch) (point : ModePoint) (points : List ModePoint) :
    search.visitAll routine (point :: points) =
      search.visit routine point.position point.state >>= (·.visitAll routine points) :=
  foldlM_cons ..

theorem adds_of_visitAll (points : List ModePoint)
    (visited : search.visitAll routine points = .ok next) : search.Adds next points := by
  induction points generalizing search with
  | nil =>
    cases visited
    exact .refl _
  | cons point points ih =>
    rw [visitAll_cons] at visited
    cases first : search.visit routine point.position point.state with
    | error error =>
      rw [first] at visited
      cases visited
    | ok mid =>
      rw [first] at visited
      exact (adds_of_visit first).trans (ih visited)

/-- Points inside the code that agree with each other and with what is known can be visited. -/
theorem exists_visitAll (points : List ModePoint)
    (inside : ∀ point ∈ points, point.position < search.states.size)
    (agree : ∀ point ∈ points, ∀ state,
      search.Knows ⟨point.position, state⟩ ∨ ⟨point.position, state⟩ ∈ points →
        state = point.state) : ∃ next, search.visitAll routine points = .ok next := by
  induction points generalizing search with
  | nil => exact ⟨search, rfl⟩
  | cons point points ih =>
    have head : point ∈ point :: points := .head _
    obtain ⟨mid, first⟩ := exists_visit (inside point head)
      fun state known => agree point head state (.inl known)
    have adds := adds_of_visit first
    rw [visitAll_cons, first]
    refine ih (fun other mem => adds.size ▸ inside other (.tail _ mem))
      fun other mem state known => agree other (.tail _ mem) state ?_
    rw [adds.knows, mem_singleton] at known
    rw [mem_cons]
    tauto

end ModeSearch

/-! ## One position -/

def ModeStep.points (step : ModeStep) (labels : Std.HashMap String Nat) (position : Nat) :
    List ModePoint :=
  (step.jumps.filterMap fun label => labels[label]?.map (⟨·, step.state⟩)) ++
    if step.falls then [⟨position + 1, step.state⟩] else []

theorem ModeSearch.follow_eq {code : Array Instr} {search : ModeSearch}
    (here : code[position]? = some instr) (known : search.Knows ⟨position, state⟩) :
    search.follow name tables code labels position =
      instr.modeStep name tables position state >>= fun step =>
        search.visitAll name (step.points labels position) := by
  unfold follow
  rw [here, show search.states[position]? = some (some state) from known]
  refine bind_congr fun step => ?_
  unfold visitAll ModeStep.points
  rw [foldlM_append, foldlM_filterMap]
  congr 1
  · grind
  · cases step.falls <;> simp

namespace Routine

variable {routine : Routine} {pos : Nat} {state : ModeState} {step : ModeStep}

theorem mem_points_iff : point ∈ step.points labels pos ↔ point.state = step.state ∧
        ((∃ label ∈ step.jumps, labels[label]? = some point.position) ∨
          step.falls = true ∧ point.position = pos + 1) := by
  obtain ⟨place, state⟩ := point
  simp only [ModeStep.points, mem_append, mem_filterMap, Option.map_eq_some_iff,
    ModePoint.mk.injEq, mem_ite_nil_right, mem_singleton]
  grind

theorem mem_points_iff_goes (here : routine.code[pos]? = some instr)
    (step_eq : instr.modeStep routine.name tables pos state = .ok step) (point : ModePoint) :
    point ∈ step.points (labelPositions routine.code) pos ↔
      routine.ModeGoes tables ⟨pos, state⟩ point := by
  rw [mem_points_iff]
  obtain ⟨place, after⟩ := point
  cases instr with
  | label name =>
    cases step_eq
    constructor
    · rintro ⟨rfl, ⟨_, none_jumps, _⟩ | ⟨_, rfl⟩⟩
      · cases none_jumps
      · exact .pass here
    · intro goes
      cases goes with
      | pass => exact ⟨rfl, .inr ⟨rfl, rfl⟩⟩
      | fall other | jump other => cases here.symm.trans other
  | run op =>
    obtain ⟨describes, -⟩ := describes_of_modeStep step_eq
    constructor
    · rintro ⟨rfl, ⟨label, jumps, at_label⟩ | ⟨falls, rfl⟩⟩
      · exact .jump here ((describes.alters _).mpr rfl) ((describes.jumps label).mpr jumps)
          (labelPositions_eq_some.mp at_label)
      · exact .fall here ((describes.alters _).mpr rfl) (describes.falls.mpr falls)
    · intro goes
      cases goes with
      | pass other => cases here.symm.trans other
      | fall other alters falls =>
        cases here.symm.trans other
        exact ⟨(describes.alters _).mp alters, .inr ⟨describes.falls.mp falls, rfl⟩⟩
      | jump other alters jumps at_label =>
        cases here.symm.trans other
        exact ⟨(describes.alters _).mp alters, .inl ⟨_, (describes.jumps _).mp jumps,
          labelPositions_eq_some.mpr at_label⟩⟩

/-- A point that is followed: its instruction can be executed, and what it leads to is known. -/
structure FollowedIn (routine : Routine) (tables : List DataTable) (search : ModeSearch)
    (point : ModePoint) : Prop where
  permits : ∀ operation, routine.code[point.position]? = some (.run operation) →
    operation.Permits point.state
  goes : ∀ next, routine.ModeGoes tables point next → search.Knows next

/-- Progress of the check of a routine: what is known is reached, and all but the pending positions
are followed. -/
structure Explores (routine : Routine) (tables : List DataTable) (search : ModeSearch) : Prop where
  size : search.states.size = routine.code.length
  start : search.Knows ⟨0, {}⟩
  reached : ∀ point, search.Knows point → routine.ModeReaches tables point
  pending : ∀ position ∈ search.pending, ∃ state, search.Knows ⟨position, state⟩
  followed : ∀ point, search.Knows point → point.position ∉ search.pending →
    routine.FollowedIn tables search point

variable {search next : ModeSearch} {rest : List Nat}

theorem FollowedIn.mono (followed : routine.FollowedIn tables search point)
    (more : ∀ point, search.Knows point → next.Knows point) :
    routine.FollowedIn tables next point :=
  ⟨followed.permits, fun other goes => more other (followed.goes other goes)⟩

theorem exists_instr (known : search.Knows ⟨pos, state⟩) (inside : pos < routine.code.length) :
    ∃ instr, routine.code[pos]? = some instr ∧
      search.follow routine.name tables routine.code.toArray (labelPositions routine.code) pos =
        instr.modeStep routine.name tables pos state >>= fun step =>
          search.visitAll routine.name (step.points (labelPositions routine.code) pos) := by
  refine ⟨routine.code[pos], List.getElem?_eq_getElem inside, ?_⟩
  grind [follow_eq]

section

variable (explores : routine.Explores tables search)
include explores

/-- What one round of the check does: it takes a pending pos and adds where it leads. -/
theorem Explores.follow (taken : search.pending = pos :: rest)
    (followed : ModeSearch.follow routine.name tables routine.code.toArray
      (labelPositions routine.code) { search with pending := rest } pos = .ok next) :
    routine.Explores tables next ∧ next.reserve + 1 = search.reserve := by
  obtain ⟨state, known⟩ := explores.pending pos (taken ▸ .head _)
  have reached := explores.reached _ known
  obtain ⟨instr, here, follow_eq⟩ := exists_instr
    (show ModeSearch.Knows { search with pending := rest } ⟨pos, state⟩ from known)
    (explores.size ▸ known.lt_size)
  rw [follow_eq] at followed
  cases step_eq : instr.modeStep routine.name tables pos state with
  | error error =>
    rw [step_eq] at followed
    cases followed
  | ok step =>
    rw [step_eq] at followed
    have adds := adds_of_visitAll _ followed
    have kept (point : ModePoint) (before : search.Knows point) : next.Knows point :=
      (adds.knows point).mpr (.inl before)
    have goes := mem_points_iff_goes here step_eq
    refine ⟨⟨adds.size.trans explores.size, kept _ explores.start, fun point after => ?_,
      fun place after => ?_, fun point after free => ?_⟩, ?_⟩
    · obtain before | new := (adds.knows point).mp after
      · exact explores.reached point before
      · exact reached.tail ((goes point).mp new)
    · obtain before | ⟨known_after, -⟩ := (adds.pending place).mp after
      · obtain ⟨found, known_before⟩ := explores.pending place (taken ▸ .tail _ before)
        exact ⟨found, kept _ known_before⟩
      · exact known_after
    · obtain ⟨place, found⟩ := point
      have old : ∃ before, search.Knows ⟨place, before⟩ := by
        by_contra none_known
        exact free ((adds.pending place).mpr
          (.inr ⟨⟨found, after⟩, fun before knows => none_known ⟨before, knows⟩⟩))
      obtain ⟨before, known_before⟩ := old
      obtain rfl := (kept _ known_before).unique after
      by_cases same : place = pos
      · subst same
        obtain rfl := known.unique known_before
        refine ⟨fun op is_run => ?_,
          fun point gone => (adds.knows point).mpr (.inr ((goes point).mpr gone))⟩
        cases here.symm.trans is_run
        exact (describes_of_modeStep step_eq).2
      · refine (explores.followed _ known_before fun pending => free ?_).mono kept
        rw [taken] at pending
        exact (adds.pending place).mpr (.inl (mem_of_ne_of_mem same pending))
    · rw [adds.reserve]
      grind [ModeSearch.reserve]

theorem Explores.run {fuel : Nat} (enough : search.reserve ≤ fuel)
    (ran : search.run routine.name tables routine.code.toArray (labelPositions routine.code) fuel =
      .ok next) : routine.Explores tables next ∧ next.pending = [] := by
  induction fuel generalizing search with
  | zero =>
    cases ran
    simp_all [ModeSearch.reserve]
  | succ fuel ih =>
    rw [ModeSearch.run] at ran
    cases taken : search.pending with
    | nil =>
      simp_all
    | cons pos rest =>
      rw [taken] at ran
      cases followed : ModeSearch.follow routine.name tables routine.code.toArray
          (labelPositions routine.code) { search with pending := rest } pos with
      | error error =>
        simp only [followed] at ran
        cases ran
      | ok mid =>
        simp only [followed] at ran
        obtain ⟨explores_middle, spent⟩ := explores.follow taken followed
        exact ih explores_middle (by omega) ran

theorem Explores.modeSymmetric (done : search.pending = []) : routine.ModeSymmetric tables := by
  have followed (point : ModePoint) (known : search.Knows point) :
      routine.FollowedIn tables search point :=
    explores.followed point known (done ▸ not_mem_nil)
  have known (point : ModePoint) (reaches : routine.ModeReaches tables point) :
      search.Knows point := by
    induction reaches with
    | refl => exact explores.start
    | tail _ goes ih => exact (followed _ ih).goes _ goes
  refine ⟨fun first second => (known _ first).unique (known _ second), fun reaches here => ?_,
    fun reaches goes => ?_⟩
  · exact (followed _ (known _ reaches)).permits _ here
  · rw [← explores.size]
    exact ((followed _ (known _ reaches)).goes _ goes).lt_size

end

/-! ## The check decides symmetry -/

theorem exists_entered (tables : List DataTable) (nonempty : routine.code ≠ []) :
    ∃ search, ModeSearch.visit routine.name
        { states := Array.replicate routine.code.toArray.size none } 0 {} = .ok search ∧
      routine.Explores tables search ∧ search.reserve = routine.code.length := by
  have inside : 0 < routine.code.length := length_pos_iff.mpr nonempty
  have none_known (point : ModePoint) :
      ¬ModeSearch.Knows { states := Array.replicate routine.code.toArray.size none } point := by
    simp [ModeSearch.Knows, Array.getElem?_replicate]
  have start_inside : (ModePoint.mk 0 {}).position < (ModeSearch.mk
      (.replicate routine.code.toArray.size none) []).states.size := by
    simpa using inside
  obtain ⟨search, visited⟩ := exists_visit start_inside
    fun state known => absurd known (none_known _)
  have adds := adds_of_visit visited
  have knows (point : ModePoint) : search.Knows point ↔ point = ⟨0, {}⟩ := by
    rw [adds.knows, mem_singleton]
    exact or_iff_right (none_known point)
  refine ⟨search, visited, ⟨?_, (knows _).mpr rfl, ?_, ?_, ?_⟩, ?_⟩
  · simpa using adds.size
  · intro point known
    rw [(knows point).mp known]
    exact .refl
  · intro pos pending
    exact ((adds.pending pos).mp pending).elim (fun before => nomatch before) And.left
  · intro point known free
    exact absurd ((adds.pending _).mpr (.inr ⟨⟨_, known⟩, fun _ => none_known _⟩)) free
  · rw [adds.reserve]
    simp [ModeSearch.reserve]

theorem modeSymmetric_of_nil (empty : routine.code = []) : routine.ModeSymmetric tables := by
  have stuck {point next : ModePoint} : ¬routine.ModeGoes tables point next := by
    rintro (here | here | here) <;> simp [empty] at here
  have only_start {point : ModePoint} (reaches : routine.ModeReaches tables point) :
      point = ⟨0, {}⟩ := by
    cases reaches with
    | refl => rfl
    | tail _ goes => exact absurd goes stuck
  refine ⟨fun first second => ?_, fun _ here => ?_, fun _ goes => absurd goes stuck⟩
  all_goals grind

theorem modeSymmetric_of_checkModes (accepted : routine.checkModes tables = .ok ()) :
    routine.ModeSymmetric tables := by
  by_cases empty : routine.code = []
  · exact modeSymmetric_of_nil empty
  · obtain ⟨search, visited, explores, reserve⟩ := exists_entered tables empty
    unfold checkModes at accepted
    rw [if_neg (by simpa using empty)] at accepted
    simp only [visited, bind, Except.bind] at accepted
    cases ran : search.run routine.name tables routine.code.toArray (labelPositions routine.code)
        (routine.code.toArray.size + 1) with
    | error error =>
      rw [ran] at accepted
      cases accepted
    | ok last =>
      obtain ⟨finished, done⟩ := explores.run (by rw [reserve]; simp) ran
      exact finished.modeSymmetric done

theorem Explores.exists_follow (explores : routine.Explores tables search)
    (symmetric : routine.ModeSymmetric tables) (taken : search.pending = pos :: rest) :
    ∃ next, ModeSearch.follow routine.name tables routine.code.toArray
      (labelPositions routine.code) { search with pending := rest } pos = .ok next := by
  obtain ⟨state, known⟩ := explores.pending pos (taken ▸ .head _)
  have reached := explores.reached _ known
  obtain ⟨instr, here, follow_eq⟩ := exists_instr
    (show ModeSearch.Knows { search with pending := rest } ⟨pos, state⟩ from known)
    (explores.size ▸ known.lt_size)
  obtain ⟨step, step_eq⟩ : ∃ step, instr.modeStep routine.name tables pos state = .ok step := by
    cases instr with
    | label name => exact ⟨_, rfl⟩
    | run op => exact modeStep_of_permits (symmetric.permits reached here) _ _ _
  have goes := mem_points_iff_goes here step_eq
  rw [follow_eq, step_eq]
  refine exists_visitAll _ (fun point leads => ?_) fun point leads other either => ?_
  · exact explores.size ▸ symmetric.inside reached ((goes point).mp leads)
  · have point_reached := reached.tail ((goes point).mp leads)
    obtain known | led := either
    · exact symmetric.agree (explores.reached _ known) point_reached
    · exact symmetric.agree (reached.tail ((goes _).mp led)) point_reached

theorem Explores.exists_run (explores : routine.Explores tables search)
    (symmetric : routine.ModeSymmetric tables) (fuel : Nat) :
    ∃ next, search.run routine.name tables routine.code.toArray (labelPositions routine.code)
      fuel = .ok next := by
  induction fuel generalizing search with
  | zero => exact ⟨search, rfl⟩
  | succ fuel ih =>
    rw [ModeSearch.run]
    cases taken : search.pending with
    | nil => exact ⟨search, rfl⟩
    | cons pos rest =>
      obtain ⟨mid, followed⟩ := explores.exists_follow symmetric taken
      obtain ⟨explores_middle, -⟩ := explores.follow taken followed
      simp only [followed]
      exact ih explores_middle

theorem checkModes_of_modeSymmetric (symmetric : routine.ModeSymmetric tables) :
    routine.checkModes tables = .ok () := by
  unfold checkModes
  split
  · rfl
  · rename_i nonempty
    obtain ⟨search, visited, explores, -⟩ := exists_entered tables (by simpa using nonempty)
    obtain ⟨last, ran⟩ := explores.exists_run symmetric (routine.code.toArray.size + 1)
    simp only [visited, bind, Except.bind, ran]
    rfl

/-- A jump or branch that only goes to labels of other routines. -/
def Leaves (routine : Routine) (tables : List DataTable) (operation : Operation) : Prop :=
  (operation.op = .bra ∨ operation.op = .brl ∨ operation.JumpsDirectly ∨
      operation.JumpsThroughTable) ∧
    ∀ label, operation.MayJump tables label → ∀ target, ¬LabelAt routine.code label target

/-- Every path, of any length, goes on or has ended as it should: it has returned in the caller's
mode, or from an interrupt with no saved mode, or it has left for another routine. -/
def PathsReturn (routine : Routine) (tables : List DataTable) : Prop :=
  ∀ position state operation, routine.ModeReaches tables ⟨position, state⟩ →
    routine.code[position]? = some (.run operation) →
    (∃ next, routine.ModeGoes tables ⟨position, state⟩ next) ∨
      operation.Returns ∧ state = {} ∨ operation.op = .rti ∧ state.saved = [] ∨
      routine.Leaves tables operation

theorem ModeSymmetric.pathsReturn (symmetric : routine.ModeSymmetric tables) :
    routine.PathsReturn tables := by
  intro position state op reached here
  have permits := symmetric.permits reached here
  obtain ⟨step, step_eq⟩ := modeStep_of_permits permits tables routine.name 0
  have alters := alters_of_modeStep step_eq
  by_cases ends : op.EndsPath
  · obtain returns | isRti | jumps := ends
    · exact .inr (.inl ⟨returns, permits.returns returns⟩)
    · exact .inr (.inr (.inl ⟨isRti, permits.interrupt isRti⟩))
    · by_cases stays : ∃ label target, op.MayJump tables label ∧ LabelAt routine.code label target
      · obtain ⟨label, target, jumps, at_label⟩ := stays
        exact .inl ⟨_, .jump here alters jumps at_label⟩
      · refine .inr (.inr (.inr ⟨jumps, fun label goes target at_label => ?_⟩))
        simp_all
  · exact .inl ⟨_, .fall here alters ends⟩

/-- The check accepts exactly the routines on which all paths agree about the modes, execute only
what the modes permit and stay inside the code. Then every path returns in the caller's mode. -/
theorem checkModes_eq_ok_iff (routine : Routine) (tables : List DataTable) :
    routine.checkModes tables = .ok () ↔
      routine.ModeSymmetric tables ∧ routine.PathsReturn tables :=
  ⟨fun accepted => ⟨modeSymmetric_of_checkModes accepted,
    (modeSymmetric_of_checkModes accepted).pathsReturn⟩,
    fun holds => checkModes_of_modeSymmetric holds.1⟩

end Routine

end Backend65816
