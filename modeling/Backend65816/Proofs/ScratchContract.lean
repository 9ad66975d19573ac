import Backend65816.Proofs.CompiledUnits
import Backend65816.Proofs.FunctionModes
import Backend65816.Proofs.SharedStorage

/-!
# Who uses the scratch pool

A value stays in the scratch pool across a call only if the callee promises to leave the pool alone.
A function that promises so calls only functions that do so too, and so does an interrupt handler.
Along every chain of calls of a program the promise is passed on, and whoever makes it places
nothing in the pool.
-/

namespace Backend65816

open List CompilationUnit Routine

/-! ## Calls -/

/-- Names that are left to the routines of the runtime. -/
def IsRoutine (name : String) : Prop :=
  ∃ operation width bank, name = (Signature.helper operation width bank).name

/-- A call leads to a function, itself or through the table that it was lowered for. A routine of the
runtime is not the function that has its name. -/
def CompiledFunction.Enters (caller : CompiledFunction) (context : UnitContext) (action : Action)
    (callee : CompiledFunction) : Prop :=
  match action with
  | .call details => details.function = callee.name ∧
      (details.preservesScratch = callee.signature.preserveScratch ∨ ¬IsRoutine callee.name)
  | .dispatch details => ∃ table,
      details.Through context caller.signature caller.graph.vregs table ∧
        callee.name ∈ table.entries
  | _ => False

/-- A register of the function that has no fixed place is in the scratch pool. -/
def CompiledFunction.InPool (function : CompiledFunction) (register : VReg) : Prop :=
  (function.graph.info register).fixed = none ∧
    ∃ offset, function.allocation.location register = .scratch offset

namespace Compilation

variable (compilation : Compilation) (context : UnitContext)

def Calls (caller callee : CompiledFunction) : Prop :=
  callee ∈ compilation.functions ∧ ∃ block ∈ caller.graph.blocks, ∃ action ∈ block.actions,
    caller.Enters context action callee

/-- A chain of calls leads from one function to the other. -/
def CallsOn : CompiledFunction → CompiledFunction → Prop :=
  Relation.ReflTransGen (compilation.Calls context)

/-- A value in the pool is safe across every call inside its interval: no function that the call
leads to places a value there. Nor does one that a handler, or a function that leaves the pool alone,
leads to. -/
structure KeepsScratch : Prop where
  tables : ∀ caller ∈ compilation.functions, ∀ block ∈ caller.graph.blocks,
    ∀ details, .dispatch details ∈ block.actions →
      ∃ table, details.Through context caller.signature caller.graph.vregs table
  across : ∀ caller ∈ compilation.functions, ∀ register, caller.InPool register →
    ∀ id block index action, caller.graph.blocks[id]? = some block →
      block.actions[index]? = some action →
      ((caller.graph.slotLayout caller.graph.liveness).interval register).contains
        (slotPosition (caller.graph.slotBase id + index)) = true →
      ∀ callee ∈ compilation.functions, caller.Enters context action callee →
        ∀ last, compilation.CallsOn context callee last → ∀ other, ¬last.InPool other
  promised : ∀ first ∈ compilation.functions,
    (first.signature.preserveScratch = true ∨ first.signature.interrupt.isSome = true) →
    ∀ last, compilation.CallsOn context first last → ∀ other, ¬last.InPool other

end Compilation

theorem checkScratch_of_checkCall {caller callee : Signature}
    (checked : checkCall caller callee = .ok ()) : checkScratch caller callee = .ok () := by
  grind [checkCall]

/-- The entries of a table were checked as callees. -/
theorem UnitContext.Finds.checkScratch {ctx : UnitContext} {caller : Signature}
    {table : DispatchTable} (checked : ctx.Finds caller (Lower.checkEntries table) ()) :
    ∀ entry ∈ table.entries, ∀ callee, ctx.signatures.get? entry = some callee →
      Backend65816.checkScratch caller callee = .ok () := by
  obtain ⟨due, depth, draft, ran⟩ := checked
  unfold Lower.checkEntries at ran
  rw [Lower.read_bind] at ran
  generalize table.entries = entries at ran ⊢
  induction entries with
  | nil => exact forall_mem_nil _
  | cons entry rest ih =>
    rw [List.forM] at ran
    obtain ⟨_, mid, first, others⟩ := Lower.bind_ok.mp ran
    cases known : ctx.signatures.get? entry with
    | none =>
      rw [known] at first
      cases first
      grind
    | some callee =>
      rw [known] at first
      obtain ⟨checked, rfl⟩ := Lower.check_ok first
      grind [checkScratch_of_checkCall]

namespace Compilation.MadeFrom

variable {compilation : Compilation} {ctx : UnitContext}

theorem promises (made : compilation.MadeFrom ctx) {fn : CompiledFunction}
    (mem : fn ∈ compilation.functions) (handler : fn.signature.interrupt.isSome = true) :
    fn.signature.preserveScratch = true := by
  obtain ⟨job, job_mem, made_from⟩ := made.functions fn mem
  rw [made_from.signature] at handler ⊢
  exact (FunctionDecl.resolve_promises (ctx.unit.resolve_sound.resolved job job_mem)).2 handler

theorem preserveScratch_of_checkScratch {caller callee : Signature}
    (checked : checkScratch caller callee = .ok ()) (promised : caller.preserveScratch = true) :
    callee.preserveScratch = true := by
  simp_all [checkScratch]

/-- The promise is passed on to what is called. -/
theorem promised_of_enters (made : compilation.MadeFrom ctx) {caller callee : CompiledFunction}
    (caller_mem : caller ∈ compilation.functions) (callee_mem : callee ∈ compilation.functions)
    {block : BasicBlock} (block_mem : block ∈ caller.graph.blocks) {action : Action}
    (mem : action ∈ block.actions) (enters : caller.Enters ctx action callee)
    (promised : caller.signature.preserveScratch = true ∨
      ∃ details, action = .call details ∧ details.preservesScratch = true) :
    callee.signature.preserveScratch = true := by
  obtain ⟨job, -, made_from⟩ := made.functions caller caller_mem
  have known := made.get?_name callee_mem
  cases made_from.allowed block block_mem action mem with
  | plain quiet => cases action <;> first | exact enters.elim | cases quiet
  | global found reached => cases action <;> first | exact enters.elim | cases reached
  | direct found checked fn scratch =>
    have same := (made.name_eq found).symm.trans (fn.symm.trans enters.1)
    rw [same, known] at found
    cases found
    obtain promised | ⟨_, ⟨⟩, promised⟩ := promised
    · exact preserveScratch_of_checkScratch (checkScratch_of_checkCall checked) promised
    · exact scratch.symm.trans promised
  | routine fn scratch =>
    obtain same | other := enters.2
    · exact same.symm.trans scratch
    · exact absurd ⟨_, _, _, enters.1.symm.trans fn⟩ other
  | table =>
    obtain ⟨table, ⟨_, _, _, ran⟩, listed⟩ := enters
    obtain promised | ⟨_, ⟨⟩, -⟩ := promised
    exact preserveScratch_of_checkScratch (ran.checked.checkScratch _ listed _ known) promised

/-- Nothing is placed in the pool along a chain of calls from a function that leaves it alone. -/
theorem not_inPool_of_callsOn (made : compilation.MadeFrom ctx) {first last : CompiledFunction}
    (mem : first ∈ compilation.functions) (promised : first.signature.preserveScratch = true)
    (chain : compilation.CallsOn ctx first last) (reg : VReg) : ¬last.InPool reg := by
  have kept : last ∈ compilation.functions ∧ last.signature.preserveScratch = true := by
    induction chain with
    | refl => exact ⟨mem, promised⟩
    | tail _ calls ih =>
      obtain ⟨callee_mem, block, block_mem, action, action_mem, enters⟩ := calls
      exact ⟨callee_mem, made.promised_of_enters ih.1 callee_mem block_mem action_mem enters
        (.inl ih.2)⟩
  rintro ⟨movable, offset, placed⟩
  obtain ⟨job, -, made_from⟩ := made.functions last kept.1
  rw [made_from.allocation] at placed
  obtain ⟨⟨allowed, -⟩, -⟩ := last.graph.allocate_mayPool _ movable placed
  change (!last.signature.preserveScratch && _) = true at allowed
  rw [kept.2] at allowed
  cases allowed

end Compilation.MadeFrom

/-- The pool is kept across the whole program. -/
theorem CompilationUnit.compile_keepsScratch (unit : CompilationUnit) (settings : Settings)
    (calledOff : Bool) (compilation : Compilation)
    (compiles : unit.compile settings calledOff = .ok compilation) :
    ∃ plan problems, Dispatch.build unit settings.maxTypeTags = .ok (plan, problems) ∧
      compilation.KeepsScratch { unit, signatures := unit.resolve.signatures, plan, settings } := by
  obtain ⟨plan, problems, built, made⟩ := compile_ok compiles
  refine ⟨plan, problems, built, ?_, ?_, ?_⟩
  · intro caller caller_mem block block_mem details mem
    obtain ⟨job, -, made_from⟩ := made.functions caller caller_mem
    exact (made_from.allowed block block_mem _ mem).exists_through
  · intro caller caller_mem register inPool id block index action at_block at_action inside callee
      callee_mem enters last chain
    obtain ⟨movable, offset, placed⟩ := inPool
    obtain ⟨job, -, made_from⟩ := made.functions caller caller_mem
    rw [made_from.allocation] at placed
    obtain ⟨⟨-, uncrossed⟩, -⟩ := caller.graph.allocate_mayPool _ movable placed
    have slot_at : (caller.graph.blockSlots id)[index]? = some ⟨id, .action index action⟩ := by
      have bound := (List.getElem?_eq_some_iff.mp at_action).1
      rw [Graph.blockSlots_of_found at_block, BasicBlock.slots,
        List.getElem?_append_left (by simpa using bound)]
      simp [at_action]
    have crossed := any_eq_false.mp uncrossed _
      (AllocationProblem.mem_slotsInside (Graph.slotLayout_slots _ slot_at) inside)
    have promised : ∃ details, action = .call details ∧ details.preservesScratch = true := by
      cases action with
      | call details => exact ⟨details, rfl, by simpa using crossed⟩
      | dispatch details => exact absurd rfl crossed
      | _ => exact enters.elim
    have mem := mem_of_getElem? at_action
    exact made.not_inPool_of_callsOn callee_mem (made.promised_of_enters caller_mem callee_mem
      (Array.mem_of_getElem? at_block) mem enters (.inr promised)) chain
  · intro first mem promised last chain
    exact made.not_inPool_of_callsOn mem (promised.elim id (made.promises mem)) chain

/-! ## A value in the pool -/

theorem Job.exists_compile {job : Job} {ctx : UnitContext} {graph : Graph} {allocation : Allocation}
    {selected : SelectedCode}
    (calls : checkCalls ctx.signatures job.signature job.function.body = .ok ())
    (lowers : ctx.lower job.signature job.function.body = .ok graph)
    (laid : graph.linearize = graph)
    (placed : graph.allocate (ctx.settings.placement job.signature) = allocation)
    (nonempty : graph.blocks ≠ #[]) (same_mode : job.signature.mode = graph.mode)
    (selects : graph.select allocation job.signature ctx.settings = .ok selected)
    (defined : undefinedTarget? (labelOffsets selected.routine.code) selected.routine.code = none)
    (short : 5 * codeSize selected.routine.code ≤ 32767) :
    ∃ fn, job.compile ctx = .ok fn ∧ fn.graph = graph ∧ fn.allocation = allocation := by
  obtain ⟨resolved, resolves⟩ := exists_resolveBranches defined short
  obtain ⟨final, res, code_eq, -⟩ := Graph.select_ok selects
  have modes : final.InModes _ ((graph.selecting allocation job.signature ctx.settings).body none)
      [] none :=
    Select.function_inModes same_mode rfl nonempty (.inl rfl) _ _ res
  have checked := checkModes_resolved rfl rfl (code_eq ▸ modes.1.filter _) resolves
  unfold Job.compile
  simp only [calls, lowers, laid, placed, selects, resolves, checked, Except.mapError, bind,
    Except.bind]
  exact ⟨_, rfl, rfl, rfl⟩

theorem CompilationUnit.exists_compile {unit : CompilationUnit} {settings : Settings}
    {plan : DispatchPlan} {problems : List Diagnostic} {harvest : Harvest}
    (built : Dispatch.build unit settings.maxTypeTags = .ok (plan, problems))
    (compiled : compileJobs { unit, signatures := unit.resolve.signatures, plan, settings }
      unit.resolve.jobs = .ok harvest) :
    ∃ compilation, unit.compile settings false = .ok compilation ∧
      compilation.functions = harvest.functions := by
  unfold CompilationUnit.compile
  simp only [built, compiled, Except.mapError, bind, Except.bind]
  exact ⟨_, rfl, rfl⟩

/-- Lists of at most one register need no sorting. -/
theorem AllocationProblem.solve_eq {prob : AllocationProblem} {placed : Placed} {due : List VReg}
    (short : due.length ≤ 1) (precolor : prob.precolor = placed)
    (unplaced : prob.unplaced placed = due) (round : prob.round placed due = (placed, due)) :
    prob.solve = let spilled := due.foldl prob.spillOne { placed }
      { locations := spilled.placed.map fun loc => loc.getD .nowhere
        noOps := prob.noOps spilled.placed
        frameSize := spilled.frame
        scratchUsed := spilled.scratch
        coalesced := ((prob.noOps placed).length, 0) } := by
  have sorted (order : VReg → VReg → Bool) : due.mergeSort order = due := by
    match due, short with
    | [], _ => exact mergeSort_nil
    | [reg], _ => exact mergeSort_singleton reg
  simp_all [solve, spill]

/-- A parameter is kept across a call of a function that leaves the pool alone. -/
def keeping : CompilationUnit where
  globals := [{ name := "total", type := .u16 }]
  functions := [{ name := "leaf", preserve := ["scratch"] },
    { name := "main"
      params := [⟨"v", .u16, .register "a"⟩]
      body := .mk [.expr (.call "leaf" []), .assign (.name "total") (.name "v")] none }]

def keepingContext : UnitContext where
  unit := keeping
  signatures := keeping.resolve.signatures
  plan := { tags := { limit := 255 } }
  settings := .standard

def leafJob : Job where
  symbol := "leaf"
  function := keeping.functions.headD {}
  signature := { name := "leaf", preserveScratch := true }

def keepingJob : Job where
  symbol := "main"
  function := keeping.functions.getLastD {}
  signature :=
    { name := "main", mode := .wide, params := [⟨"v", .u16, .word, .bound (.reg .a)⟩] }

def leafGraph : Graph where
  name := "leaf"
  blocks := #[{ name := "entry", terminator := some (.giveBack []) }]
  vregs := #[{}]

def keepingGraph : Graph where
  name := "main"
  mode := .wide
  blocks := #[
    { name := "entry"
      actions := [.params [1], .move 2 1, .call { function := "leaf", preservesScratch := true },
        .store { symbol := "total" } (.reg 2)]
      terminator := some (.giveBack []) }]
  vregs := #[{}, { name := "v", width := .word, fixed := some (.reg .a) },
    { name := "v", width := .word, hint := some .a }]

theorem leafGraph_allocate : leafGraph.allocate ⟨16, false⟩ = { locations := #[.nowhere] } := by
  have solved := @AllocationProblem.solve_eq (.ofGraph leafGraph ⟨16, false⟩) #[none] [] (by decide)
    (by decide +kernel) (by decide +kernel) (by decide +kernel)
  exact solved.trans (by decide +kernel)

theorem keepingGraph_allocate : keepingGraph.allocate ⟨16, true⟩ =
    { locations := #[.nowhere, .reg .a, .scratch 0], scratchUsed := 2 } := by
  have solved := @AllocationProblem.solve_eq (.ofGraph keepingGraph ⟨16, true⟩)
    #[none, some (.reg .a), none] [2] (by decide) (by decide +kernel) (by decide +kernel)
    (by decide +kernel)
  exact solved.trans (by decide +kernel)

theorem leafJob_compile : ∃ fn, leafJob.compile keepingContext = .ok fn := by
  obtain ⟨fn, compiles, -⟩ := @Job.exists_compile leafJob keepingContext leafGraph _ _ rfl rfl
    (by decide +kernel) leafGraph_allocate (by decide) rfl rfl
    (by rw [dropUnusedLabels_eq]; rfl) (by rw [dropUnusedLabels_eq]; decide +kernel)
  exact ⟨fn, compiles⟩

theorem keepingJob_compile : ∃ fn, keepingJob.compile keepingContext = .ok fn ∧
    fn.graph = keepingGraph ∧ fn.InPool 2 := by
  obtain ⟨fn, compiles, graph_eq, allocation_eq⟩ :=
    @Job.exists_compile keepingJob keepingContext keepingGraph _ _ rfl rfl
    (by decide +kernel) keepingGraph_allocate (by decide) rfl rfl
    (by rw [dropUnusedLabels_eq]; rfl) (by rw [dropUnusedLabels_eq]; decide +kernel)
  exact ⟨fn, compiles, graph_eq, graph_eq ▸ rfl, 0, allocation_eq ▸ rfl⟩

theorem keeping_keepsScratch : ∃ compilation, keeping.compile .standard false = .ok compilation ∧
      (∃ function ∈ compilation.functions, function.InPool 2) ∧
      ∃ plan problems, Dispatch.build keeping 255 = .ok (plan, problems) ∧ compilation.KeepsScratch
          { unit := keeping, signatures := keeping.resolve.signatures, plan,
            settings := .standard } := by
  obtain ⟨leaf, leaf_compiles⟩ := leafJob_compile
  obtain ⟨main, main_compiles, -, inPool⟩ := keepingJob_compile
  have compiled : compileJobs keepingContext keeping.resolve.jobs =
      .ok { functions := [leaf, main] } := by
    rw [show keeping.resolve.jobs = [leafJob, keepingJob] from rfl, compileJobs, leaf_compiles,
      compileJobs, main_compiles]
    rfl
  obtain ⟨compilation, compiles, functions_eq⟩ :=
    @CompilationUnit.exists_compile keeping .standard keepingContext.plan _ _ rfl compiled
  exact ⟨compilation, compiles, ⟨main, functions_eq ▸ by simp, inPool⟩,
    compile_keepsScratch _ _ _ _ compiles⟩

end Backend65816
