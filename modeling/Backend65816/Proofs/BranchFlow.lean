import Backend65816.Proofs.BranchExpansion

/-!
# Control flow of lengthened branches

A run of a code shows the instructions that it executes and where each branch goes. Instructions
other than branches are left to a processor, which may do anything with its state and may transfer
control to any label. A branch to a label that is not one of the code's own only leads around the
branch behind it, so taking it shows that the branch was passed.

Resolved code shows the same as the code it was made from, from corresponding positions.
-/

namespace Backend65816

open List Routine

variable {name : String} {code out rest restOut front back frontOut : List Instr}
  {skips frontSkips : List String} {jumps : Bool} {State : Type}

/-! ## Runs of a step function -/

section Runs

variable {α β ε : Type}

/-- The state after a number of steps and what they show; a state without a step stays. -/
def runSteps (step : α → Option (α × List ε)) : (count : Nat) → α → α × List ε
  | 0, state => (state, [])
  | count + 1, state =>
    match step state with
    | none => (state, [])
    | some (next, events) =>
      let (last, later) := runSteps step count next
      (last, events ++ later)

def Shows (step : α → Option (α × List ε)) (state : α) (events : List ε) : Prop :=
  ∃ count, events <+: (runSteps step count state).2

/-- The run shows the events and then stops in a state. -/
def StopsIn (step : α → Option (α × List ε)) (state : α) (events : List ε) (last : α) : Prop :=
  step last = none ∧ ∃ count, runSteps step count state = (last, events)

variable {step : α → Option (α × List ε)} {state next : α} {events : List ε}

theorem runSteps_of_none (stuck : step state = none) (count : Nat) :
    runSteps step count state = (state, []) := by
  cases count with
  | zero => rfl
  | succ count => rw [runSteps, stuck]

theorem runSteps_succ (stepped : step state = some (next, events)) (count : Nat) :
    runSteps step (count + 1) state =
      ((runSteps step count next).1, events ++ (runSteps step count next).2) := by
  rw [runSteps, stepped]

theorem runSteps_one (stepped : step state = some (next, events)) :
    runSteps step 1 state = (next, events) := by
  rw [runSteps_succ stepped, runSteps, append_nil]

theorem runSteps_two {last : α} {later : List ε} (first : step state = some (next, events))
    (second : step next = some (last, later)) :
    runSteps step 2 state = (last, events ++ later) := by
  rw [runSteps_succ first, runSteps_one second]

theorem runSteps_add (first second : Nat) (state : α) : runSteps step (first + second) state =
      ((runSteps step second (runSteps step first state).1).1, (runSteps step first state).2 ++
          (runSteps step second (runSteps step first state).1).2) := by
  induction first generalizing state with
  | zero => rw [Nat.zero_add]; rfl
  | succ first ih =>
    cases stepped : step state with
    | none =>
      have stays := runSteps_of_none stepped
      rw [stays, stays, stays]
      rfl
    | some res =>
      obtain ⟨next, events⟩ := res
      rw [Nat.succ_add, runSteps_succ stepped, runSteps_succ stepped, ih, append_assoc]

/-- Related states stop together, and a step of one is some steps of the other that show the
same. -/
structure Simulates (related : α → β → Prop) (step : α → Option (α × List ε))
    (other : β → Option (β × List ε)) : Prop where
  stuck : ∀ {state image}, related state image → (step state = none ↔ other image = none)
  advance : ∀ {state image next events}, related state image → step state = some (next, events) →
    ∃ count last, runSteps other (count + 1) image = (last, events) ∧ related next last

namespace Simulates

variable {related : α → β → Prop} {other : β → Option (β × List ε)} {image : β}

section

variable (simulates : Simulates related step other) (start : related state image)
include simulates start

theorem runSteps_related (count : Nat) : ∃ more, count ≤ more ∧
      (runSteps other more image).2 = (runSteps step count state).2 ∧
      related (runSteps step count state).1 (runSteps other more image).1 := by
  induction count generalizing state image with
  | zero => exact ⟨0, Nat.le_refl 0, rfl, start⟩
  | succ count ih =>
    cases stepped : step state with
    | none =>
      have image_stuck := (simulates.stuck start).mp stepped
      refine ⟨count + 1, Nat.le_refl _, ?_, ?_⟩ <;>
        rw [runSteps_of_none stepped, runSteps_of_none image_stuck]
      exact start
    | some res =>
      obtain ⟨next, events⟩ := res
      obtain ⟨steps, last, ran, next_related⟩ := simulates.advance start stepped
      obtain ⟨more, le, shown, end_related⟩ := ih next_related
      refine ⟨steps + 1 + more, by omega, ?_, ?_⟩ <;> rw [runSteps_succ stepped, runSteps_add, ran]
      all_goals simp_all

theorem shows_iff (events : List ε) : Shows step state events ↔ Shows other image events := by
  constructor <;> rintro ⟨count, shown⟩ <;>
    obtain ⟨more, le, same, _⟩ := simulates.runSteps_related start count
  · exact ⟨more, same.symm ▸ shown⟩
  · obtain ⟨later, rfl⟩ := Nat.exists_eq_add_of_le le
    rw [runSteps_add] at same
    exact ⟨count, same ▸ shown.trans (prefix_append _ _)⟩

theorem stopsIn {last : α} (stops : StopsIn step state events last) :
    ∃ final, StopsIn other image events final ∧ related last final := by
  obtain ⟨stuck, count, ran⟩ := stops
  obtain ⟨more, _, same, end_related⟩ := simulates.runSteps_related start count
  rw [ran] at same end_related
  exact ⟨_, ⟨(simulates.stuck end_related).mp stuck, more, Prod.ext rfl same⟩, end_related⟩

theorem stopsIn_of_image {final : β} (stops : StopsIn other image events final) :
    ∃ last, StopsIn step state events last ∧ related last final := by
  obtain ⟨stuck, count, ran⟩ := stops
  obtain ⟨more, le, same, end_related⟩ := simulates.runSteps_related start count
  obtain ⟨later, rfl⟩ := Nat.exists_eq_add_of_le le
  rw [runSteps_add count later, ran, runSteps_of_none stuck] at same end_related
  rw [append_nil] at same
  exact ⟨_, ⟨(simulates.stuck end_related).mpr stuck, count, Prod.ext rfl same.symm⟩, end_related⟩

end

end Simulates

end Runs

/-! ## Runs of code -/

/-- Flags of the status register that branches test. -/
structure StatusFlags where
  zero : Bool
  carry : Bool
  negative : Bool
  overflow : Bool
deriving DecidableEq, Repr

def Op.taken (op : Op) (flags : StatusFlags) : Bool :=
  match op with
  | .beq => flags.zero
  | .bne => !flags.zero
  | .bcs => flags.carry
  | .bcc => !flags.carry
  | .bmi => flags.negative
  | .bpl => !flags.negative
  | .bvs => flags.overflow
  | .bvc => !flags.overflow
  | _ => true

theorem Op.taken_invert {op : Op} (conditional : op.isConditional = true) (flags : StatusFlags) :
    op.invert.taken flags = !op.taken flags := by
  cases op <;> cases conditional <;> simp [Op.invert, Op.taken]

/-- What instructions other than branches do. -/
structure Processor (State : Type) where
  flags : State → StatusFlags
  execute : Operation → State → State
  transfer : Operation → State → Option String

/-- What a run of code shows. -/
inductive FlowEvent where
  | ran (operation : Operation)
  | took (label : String)
  | passed
deriving DecidableEq, Repr

/-- A point of a run of code. -/
structure FlowPoint (State : Type) where
  rest : List Instr
  state : State

/-- Code behind a label, of equal labels behind the last one. -/
def codeAfter (name : String) : List Instr → List Instr
  | [] => []
  | instr :: rest =>
    if name ∈ definedLabels rest then codeAfter name rest
    else if instr = .label name then rest
    else []

/-- A step of a run of a code. Control that goes to none of its own labels leaves the code. -/
def flowStep {State : Type} (processor : Processor State) (own : List String) (code : List Instr)
    (point : FlowPoint State) : Option (FlowPoint State × List FlowEvent) :=
  match point.rest with
  | [] => none
  | .label _ :: rest => some ({ point with rest }, [])
  | .run operation :: rest =>
    if operation.op.isBranch then
      let inner := decide (operation.symbol ∈ own)
      if operation.op.taken (processor.flags point.state) then
        some ({ point with rest := codeAfter operation.symbol code },
          [if inner then .took operation.symbol else .passed])
      else some ({ point with rest }, if inner then [.passed] else [])
    else
      let rest := match processor.transfer operation point.state with
        | none => rest
        | some label => if label ∈ own then codeAfter label code else []
      some ({ rest, state := processor.execute operation point.state }, [.ran operation])

theorem definedLabels_append (front back : List Instr) :
    definedLabels (front ++ back) = definedLabels front ++ definedLabels back :=
  filterMap_append

theorem codeAfter_append (front : List Instr) (last : name ∉ definedLabels back)
    : codeAfter name (front ++ .label name :: back) = back := by
  induction front with
  | nil => rw [nil_append, codeAfter, if_neg last, if_pos rfl]
  | cons instr front ih =>
    have later : name ∈ definedLabels (front ++ .label name :: back) := by
      rw [definedLabels_append]
      exact mem_append_right _ (.head _)
    rw [cons_append, codeAfter, if_pos later, ih]

/-! ## Corresponding positions -/

namespace Expands

theorem append {backOut : List Instr} {backSkips : List String}
    (first : Expands front frontSkips frontOut) (second : Expands back backSkips backOut) :
    Expands (front ++ back) (frontSkips ++ backSkips) (frontOut ++ backOut) := by
  induction first with
  | nil => exact second
  | label name rest ih => exact .label name ih
  | plain op straight rest ih => exact .plain op straight ih
  | kept op branch distance rest ih => exact .kept op branch distance ih
  | long op always distance rest ih => exact .long op always distance ih
  | around op conditional skip near far rest ih =>
    simp_all [around]

/-- The longer code for a piece of code stands in front of the longer code for the rest. -/
theorem uncons {instr : Instr} (expands : Expands (instr :: code) skips out) :
    ∃ headSkips tailSkips headOut tailOut, skips = headSkips ++ tailSkips ∧
      out = headOut ++ tailOut ∧ Expands [instr] headSkips headOut ∧
      Expands code tailSkips tailOut := by
  cases expands with
  | label name rest => exact ⟨[], _, [_], _, rfl, rfl, .label name .nil, rest⟩
  | plain op straight rest =>
    exact ⟨[], _, [_], _, rfl, rfl, .plain op straight .nil, rest⟩
  | kept op branch distance rest =>
    exact ⟨[], _, [_], _, rfl, rfl, .kept op branch distance .nil, rest⟩
  | long op always distance rest =>
    exact ⟨[], _, [_], _, rfl, rfl, .long op always distance .nil, rest⟩
  | around op conditional skip near far rest =>
    exact ⟨[skip], _, [_, _, _], _, rfl, rfl, .around op conditional skip near far .nil, rest⟩

end Expands

/-- The rest of a code and the rest of its longer code stand behind corresponding code. -/
def Corresponds (code : List Instr) (skips : List String) (out rest restOut : List Instr) : Prop :=
  ∃ front frontOut frontSkips restSkips,
    code = front ++ rest ∧ out = frontOut ++ restOut ∧ skips = frontSkips ++ restSkips ∧
      Expands front frontSkips frontOut ∧ Expands rest restSkips restOut

namespace Corresponds

theorem behind {head headOut : List Instr}
    {headSkips restSkips : List String} (before : Expands front frontSkips frontOut)
    (piece : Expands head headSkips headOut) (after : Expands rest restSkips restOut) :
    Corresponds (front ++ (head ++ rest)) (frontSkips ++ (headSkips ++ restSkips))
      (frontOut ++ (headOut ++ restOut)) rest restOut :=
  ⟨front ++ head, frontOut ++ headOut, frontSkips ++ headSkips, restSkips,
    (append_assoc ..).symm, (append_assoc ..).symm, (append_assoc ..).symm,
    before.append piece, after⟩

theorem exists_of_append (expands : Expands (front ++ rest) skips out) :
    ∃ restOut, Corresponds (front ++ rest) skips out rest restOut := by
  induction front generalizing skips out with
  | nil => exact ⟨out, [], [], [], skips, rfl, rfl, rfl, .nil, expands⟩
  | cons instr front ih =>
    obtain ⟨headSkips, tailSkips, headOut, tailOut, rfl, rfl, head, tail⟩ := expands.uncons
    obtain ⟨restOut, front', frontOut, frontSkips, restSkips, code_eq, rfl, rfl, before, after⟩ :=
      ih tail
    cases append_cancel_right code_eq
    have whole := head.append before
    exact ⟨restOut, instr :: front, headOut ++ frontOut, headSkips ++ frontSkips, restSkips, rfl,
      (append_assoc ..).symm, (append_assoc ..).symm, whole, after⟩

theorem codeAfter (expands : Expands code skips out) (defined : name ∈ definedLabels code)
    (not_added : name ∉ skips) :
    Corresponds code skips out (codeAfter name code) (codeAfter name out) := by
  obtain ⟨front, back, rfl, last⟩ := exists_split_of_mem_definedLabels defined
  obtain ⟨restOut, front', frontOut, frontSkips, restSkips, code_eq, rfl, rfl, before, after⟩ :=
    exists_of_append expands
  cases append_cancel_right code_eq
  cases after with
  | @label _ backOut _ _ after =>
    have last_out : name ∉ definedLabels backOut := by
      intro again
      rcases after.mem_definedLabels again with early | added
      all_goals simp_all
    rw [codeAfter_append front last, codeAfter_append frontOut last_out]
    exact behind before (.label name .nil) after

end Corresponds

/-- Longer code whose added labels are new, for code whose branches stay inside it. -/
structure Lengthened (code : List Instr) (skips : List String) (out : List Instr) : Prop where
  expands : Expands code skips out
  distinct : skips.Nodup
  apart : ∀ skip ∈ skips, skip ∉ definedLabels code
  inside : ∀ operation, .run operation ∈ code → operation.op.isBranch = true →
    operation.symbol ∈ definedLabels code

section Steps

variable {State : Type} {processor : Processor State} {own : List String} {state : State}
  {op : Operation}

theorem flowStep_plain (straight : op.op.isBranch = false) :
    flowStep processor own code ⟨.run op :: rest, state⟩ =
      some (⟨match processor.transfer op state with
          | none => rest
          | some label => if label ∈ own then codeAfter label code else [],
        processor.execute op state⟩, [.ran op]) := by
  simp only [flowStep, straight, Bool.false_eq_true, if_false]

theorem flowStep_branch (branch : op.op.isBranch = true) (inner : op.symbol ∈ own)
    (taken : op.op.taken (processor.flags state) = jumps) :
    flowStep processor own code ⟨.run op :: rest, state⟩ =
      some (⟨bif jumps then codeAfter op.symbol code else rest, state⟩,
        [bif jumps then .took op.symbol else .passed]) := by
  cases jumps <;> simp_all [flowStep]

theorem flowStep_skip {op : Op} (conditional : op.isConditional = true) {skip : String}
    (outer : skip ∉ own) (near : Int) (taken : op.taken (processor.flags state) = jumps) :
    flowStep processor own code ⟨.skipBranch op skip near :: rest, state⟩ =
      some (⟨bif jumps then rest else codeAfter skip code, state⟩,
        bif jumps then [] else [.passed]) := by
  cases jumps <;>
    simp_all [Op.isBranch, Op.isConditional_invert, flowStep, Instr.skipBranch, Op.taken_invert]

theorem flowStep_long {symbol : String} (inner : symbol ∈ own) {distance : Int} :
    flowStep processor own code ⟨.longBranch symbol distance :: rest, state⟩ =
      some (⟨codeAfter symbol code, state⟩, [.took symbol]) :=
  flowStep_branch rfl inner rfl

theorem flowStep_eq_none {point : FlowPoint State} :
    flowStep processor own code point = none ↔ point.rest = [] := by
  obtain ⟨rest, state⟩ := point
  cases rest with
  | nil => exact ⟨fun _ => rfl, fun _ => rfl⟩
  | cons instr rest =>
    grind [flowStep]

end Steps

/-! ## Simulation -/

/-- Points with the same state at corresponding positions. -/
def FlowPoint.Matches {State : Type} (code : List Instr) (skips : List String) (out : List Instr)
    (point image : FlowPoint State) : Prop :=
  point.state = image.state ∧ Corresponds code skips out point.rest image.rest

theorem Corresponds.matches (corresponds : Corresponds code skips out rest restOut)
    (state : State) : FlowPoint.Matches code skips out ⟨rest, state⟩ ⟨restOut, state⟩ :=
  ⟨rfl, corresponds⟩

namespace Lengthened

variable {State : Type} {processor : Processor State}

section

variable (lengthened : Lengthened code skips out)
include lengthened

theorem jump (defined : name ∈ definedLabels code) :
    Corresponds code skips out (codeAfter name code) (codeAfter name out) :=
  .codeAfter lengthened.expands defined fun added => lengthened.apart name added defined

theorem corresponds_nil : Corresponds code skips out [] [] :=
  ⟨code, out, skips, [], (append_nil _).symm, (append_nil _).symm,
    (append_nil _).symm, lengthened.expands, .nil⟩

theorem advance {point image next : FlowPoint State}
    {events : List FlowEvent} (matched : point.Matches code skips out image)
    (stepped : flowStep processor (definedLabels code) code point = some (next, events)) :
    ∃ count last, runSteps (flowStep processor (definedLabels code) out) (count + 1) image =
      (last, events) ∧ next.Matches code skips out last := by
  obtain ⟨rest, state⟩ := point
  obtain ⟨restOut, _⟩ := image
  obtain ⟨rfl, front, frontOut, frontSkips, restSkips, rfl, rfl, rfl, before, after⟩ := matched
  have inside := fun op mem => lengthened.inside op (mem_append_right front mem)
  cases after with
  | nil => cases stepped
  | label name after =>
    cases stepped
    exact ⟨0, _, runSteps_one rfl, rfl, .behind before (.label name .nil) after⟩
  | plain op straight after =>
    rw [flowStep_plain straight] at stepped
    cases stepped
    refine ⟨0, _, runSteps_one (flowStep_plain straight), rfl, ?_⟩
    simp only
    split
    · exact .behind before (.plain op straight .nil) after
    · split
      · rename_i inner
        exact lengthened.jump inner
      · exact lengthened.corresponds_nil
  | kept op branch distance after =>
    have inner := inside op (.head _) branch
    rw [flowStep_branch branch inner rfl] at stepped
    cases stepped
    refine ⟨0, _, runSteps_one (flowStep_branch branch inner rfl), rfl, ?_⟩
    cases op.op.taken (processor.flags state) with
    | true => exact lengthened.jump inner
    | false => exact .behind before (.kept op branch distance .nil) after
  | long op always distance after =>
    have branch : op.op.isBranch = true := by rw [always]; rfl
    have inner := inside op (.head _) branch
    rw [flowStep_branch branch inner (by rw [always]; rfl : _ = true)] at stepped
    cases stepped
    exact ⟨0, _, runSteps_one (flowStep_long inner), rfl, lengthened.jump inner⟩
  | @around code' out' skips' op conditional skip near far after =>
    have branch : op.op.isBranch = true := by simp [Op.isBranch, conditional]
    have inner := inside op (.head _) branch
    have added : skip ∈ frontSkips ++ skip :: skips' := mem_append_right _ (.head _)
    have outer := lengthened.apart skip added
    cases taken : op.op.taken (processor.flags state) with
    | true =>
      rw [flowStep_branch branch inner taken] at stepped
      cases stepped
      exact ⟨1, _, runSteps_two (flowStep_skip conditional outer near taken)
        (flowStep_long inner), rfl, lengthened.jump inner⟩
    | false =>
      rw [flowStep_branch branch inner taken] at stepped
      cases stepped
      refine ⟨0, _, runSteps_one (flowStep_skip conditional outer near taken), rfl, ?_⟩
      have last : skip ∉ definedLabels out' := by
        intro again
        rcases after.mem_definedLabels again with early | later
        · rw [definedLabels_append] at outer
          exact outer (mem_append_right _ early)
        · exact (nodup_cons.mp (nodup_append.mp lengthened.distinct).2.1).1 later
      have behind_skip := codeAfter_append (frontOut ++ [.skipBranch op.op skip near,
        .longBranch op.symbol far]) last
      rw [append_assoc] at behind_skip
      simp only [cons_append, nil_append] at behind_skip
      rw [behind_skip]
      exact .behind before (.around op conditional skip near far .nil) after

theorem simulates (processor : Processor State) :
    Simulates (FlowPoint.Matches code skips out) (flowStep processor (definedLabels code) code)
      (flowStep processor (definedLabels code) out) where
  stuck := by
    rintro ⟨rest, state⟩ ⟨restOut, _⟩ ⟨rfl, _, _, _, _, _, _, _, _, after⟩
    rw [flowStep_eq_none, flowStep_eq_none]
    cases after <;> simp
  advance := lengthened.advance

end

end Lengthened

/-! ## Resolved routines -/

/-- The piece of code is neither a branch nor one of the added labels. -/
def Instr.isUntouched (added : List String) (instr : Instr) : Bool :=
  !instr.isBranch && instr.label?.all fun name => !added.contains name

theorem Instr.isUntouched_label (added : List String) (name : String) :
    Instr.isUntouched added (.label name) = !added.contains name := by
  rw [Instr.isUntouched, Instr.isBranch, Instr.label?, Option.all_some, Bool.not_false,
    Bool.true_and]

theorem Instr.isUntouched_run (added : List String) (op : Operation) :
    Instr.isUntouched added (.run op) = !op.op.isBranch := by
  rw [Instr.isUntouched, Instr.isBranch, Instr.label?, Option.all_none, Bool.and_true]

theorem Instr.isBranch_run (op : Operation) : (Instr.run op).isBranch = op.op.isBranch := rfl

theorem Expands.filter_isUntouched {added : List String} (expands : Expands code skips out)
    (listed : ∀ skip ∈ skips, skip ∈ added) (apart : ∀ skip ∈ added, skip ∉ definedLabels code) :
    out.filter (Instr.isUntouched added) = code.filter fun instr => !instr.isBranch := by
  induction expands with
  | nil => rfl
  | label name rest ih =>
    have own : name ∉ added := fun mem => apart name mem (.head _)
    have stays : Instr.isUntouched added (.label name) = true := by
      simp [Instr.isUntouched_label, own]
    rw [filter_cons_of_pos stays, filter_cons_of_pos rfl,
      ih listed fun skip mem defined => apart skip mem (.tail _ defined)]
  | plain op straight rest ih =>
    simp only [filter_cons, Instr.isUntouched_run, Instr.isBranch_run, straight]
    exact congrArg (.run op :: ·) (ih listed apart)
  | kept op branch distance rest ih =>
    simp only [filter_cons, Instr.isUntouched_run, Instr.isBranch_run, branch]
    exact ih listed apart
  | long op always distance rest ih =>
    have branch : op.op.isBranch = true := by rw [always]; rfl
    simp only [filter_cons, Instr.longBranch, Instr.isUntouched_run, Instr.isBranch_run, branch]
    exact ih listed apart
  | around op conditional skip near far rest ih =>
    have branch : op.op.isBranch = true := by simp [Op.isBranch, conditional]
    have opposite := Op.isBranch_invert conditional
    have new : added.contains skip = true :=
      contains_iff_mem.mpr (listed skip (.head _))
    simp only [filter_cons, Instr.skipBranch, Instr.longBranch, Instr.isUntouched_run,
      Instr.isUntouched_label, Instr.isBranch_run, branch, opposite, new]
    exact ih (fun other mem => listed other (.tail _ mem)) apart

theorem Routine.resolveBranches_lengthened {routine resolved : Routine}
    (resolves : routine.resolveBranches = .ok resolved) :
    ∃ skips, Lengthened routine.code skips resolved.code := by
  obtain ⟨skips, expands, distinct, apart⟩ := resolveBranches_expands resolves
  refine ⟨skips, expands, distinct, apart, fun op mem branch => ?_⟩
  exact undefinedTarget_eq_none_iff.mp (undefinedTarget_eq_none resolves) op
    (mem_filterMap.mpr ⟨_, mem, rfl⟩) branch

/-- Code has the control flow of the code from which it was made by adding labels. -/
structure SameFlow (code : List Instr) (added : List String) (out : List Instr) : Prop where
  distinct : added.Nodup
  apart : ∀ label ∈ added, label ∉ definedLabels code
  expands : Expands code added out
  untouched : out.filter (Instr.isUntouched added) = code.filter fun instr => !instr.isBranch
  position : ∀ front rest, code = front ++ rest → ∃ restOut, Corresponds code added out rest restOut
  shows : ∀ rest restOut, Corresponds code added out rest restOut →
    ∀ (State : Type) (processor : Processor State) (state : State) (events : List FlowEvent),
      Shows (flowStep processor (definedLabels code) code) ⟨rest, state⟩ events ↔
        Shows (flowStep processor (definedLabels code) out) ⟨restOut, state⟩ events
  stops : ∀ rest restOut, Corresponds code added out rest restOut →
    ∀ (State : Type) (processor : Processor State) (state final : State) (events : List FlowEvent),
      (∃ last, last.state = final ∧
        StopsIn (flowStep processor (definedLabels code) code) ⟨rest, state⟩ events last) ↔
      ∃ last, last.state = final ∧
        StopsIn (flowStep processor (definedLabels code) out) ⟨restOut, state⟩ events last

theorem Lengthened.stops_iff (lengthened : Lengthened code skips out)
    (corresponds : Corresponds code skips out rest restOut)
    {processor : Processor State} {state final : State} (events : List FlowEvent) :
    (∃ last, last.state = final ∧
      StopsIn (flowStep processor (definedLabels code) code) ⟨rest, state⟩ events last) ↔
    ∃ last, last.state = final ∧
      StopsIn (flowStep processor (definedLabels code) out) ⟨restOut, state⟩ events last := by
  have simulates := lengthened.simulates processor
  have start := corresponds.matches state
  constructor
  · rintro ⟨last, rfl, stops⟩
    obtain ⟨image, image_stops, matched⟩ := simulates.stopsIn start stops
    exact ⟨image, matched.1.symm, image_stops⟩
  · rintro ⟨image, rfl, stops⟩
    obtain ⟨last, last_stops, matched⟩ := simulates.stopsIn_of_image start stops
    exact ⟨last, matched.1, last_stops⟩

theorem Routine.resolveBranches_preserves_flow {routine resolved : Routine}
    (resolves : routine.resolveBranches = .ok resolved) :
    ∃ added, SameFlow routine.code added resolved.code := by
  obtain ⟨skips, lengthened⟩ := resolveBranches_lengthened resolves
  exact ⟨skips,
    { distinct := lengthened.distinct
      apart := lengthened.apart
      expands := lengthened.expands
      untouched := lengthened.expands.filter_isUntouched (fun _ mem => mem) lengthened.apart
      position := by
        intro front rest code_eq
        have expands := lengthened.expands
        rw [code_eq] at expands ⊢
        exact Corresponds.exists_of_append expands
      shows := fun rest restOut corresponds State processor state events =>
        (lengthened.simulates processor).shows_iff (corresponds.matches state) events
      stops := fun rest restOut corresponds State processor state final events =>
        lengthened.stops_iff corresponds events }⟩

/-- A routine whose conditional branch does not reach its label. -/
def farBranch : Routine where
  name := "far"
  code :=
    .branch .bcc "end" :: (List.replicate 32 (.run { op := .lda, mode := .long }) ++ [.label "end"])

theorem farBranch_resolves : ∃ resolved, farBranch.resolveBranches = .ok resolved :=
  exists_resolveBranches (undefinedTarget_eq_none_iff.mpr (by decide +kernel)) (by decide +kernel)

theorem farBranch_preserves_flow : ∃ resolved added, farBranch.resolveBranches = .ok resolved ∧
      SameFlow farBranch.code added resolved.code := by
  obtain ⟨resolved, resolves⟩ := farBranch_resolves
  obtain ⟨added, same⟩ := resolveBranches_preserves_flow resolves
  exact ⟨resolved, added, resolves, same⟩

end Backend65816
