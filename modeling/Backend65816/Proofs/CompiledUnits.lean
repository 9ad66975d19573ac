import Backend65816.Compile
import Backend65816.Proofs.AddedStatements
import Backend65816.Proofs.BlockLayout

/-!
# Compiled units

Every compiled function comes from a declaration of the unit: it has the convention that callers know
it by, its code makes the calls that this convention allows, and its values are placed as its
settings say.
-/

namespace Backend65816

open List

variable {unit : CompilationUnit} {fn : CompiledFunction} {sig : Signature} {α : Type}
  {ctx : UnitContext} {name : String}

section Outcomes

variable {ε ε' : Type} {first : Except ε α}

theorem eq_ok_of_mapError {change : ε → ε'} {value : α}
    (mapped : first.mapError change = .ok value) : first = .ok value := by
  cases first with
  | error prob => cases mapped
  | ok found =>
    cases mapped
    rfl

end Outcomes

/-! ## Conventions and jobs -/

open Resolve in
/-- Functions have the names they are resolved under, and handlers leave the pool alone. -/
theorem FunctionDecl.resolve_promises {fn : FunctionDecl} {symbol : String}
    (resolved : fn.resolve symbol unit = .ok sig) :
    sig.name = symbol ∧ (sig.interrupt.isSome = true → sig.preserveScratch = true) := by
  obtain ⟨attributed, params, returns, -, -, rfl, -, -, given⟩ := resolve_ok resolved
  obtain ⟨_, _, _, _, rfl, promises⟩ := attributes_ok rfl given
  exact ⟨rfl, fun handles => (promises handles).2⟩

/-- Every job is found under its symbol, with the convention that it was resolved to. -/
structure Resolution.Sound (resolution : Resolution) (unit : CompilationUnit) : Prop where
  resolved : ∀ job ∈ resolution.jobs, job.function.resolve job.symbol unit = .ok job.signature
  found : ∀ job ∈ resolution.jobs, resolution.signatures.get? job.symbol = some job.signature

theorem Named.get?_append (front back : Named α) (name : String) :
    get? (front ++ back) name = (front.get? name).or (back.get? name) := by
  rw [get?, List.find?_append, Option.map_or]
  rfl

theorem Named.get?_of_not_has {entries : Named α}
    (absent : entries.has name = false) : entries.get? name = none := by
  simpa [get?, has] using absent

theorem Resolution.Sound.add {resolution : Resolution} (sound : resolution.Sound unit)
    (symbol : String) (fn : FunctionDecl) : (resolution.add unit symbol fn).Sound unit := by
  unfold Resolution.add
  split
  · exact ⟨sound.resolved, sound.found⟩
  · next new =>
    split
    · exact ⟨sound.resolved, sound.found⟩
    · next sig resolves =>
      refine ⟨forall_mem_append.mpr ⟨sound.resolved, forall_mem_singleton.mpr resolves⟩,
        forall_mem_append.mpr ⟨fun job mem => ?_, forall_mem_singleton.mpr ?_⟩⟩
      · rw [signatures, map_append, Named.get?_append, ← signatures, sound.found job mem]
        rfl
      · grind [signatures, Named.get?_append, Named.get?_of_not_has, Named.get?]

theorem CompilationUnit.resolve_sound (unit : CompilationUnit) : unit.resolve.Sound unit := by
  unfold CompilationUnit.resolve
  generalize start_eq : ({} : Resolution) = start
  have sound : start.Sound unit := start_eq ▸ ⟨forall_mem_nil _, forall_mem_nil _⟩
  clear start_eq
  induction unit.symbols generalizing start with
  | nil => exact sound
  | cons entry rest ih => exact ih _ (sound.add entry.1 entry.2)

/-! ## Compiled functions -/

/-- Layout keeps the actions of blocks. -/
theorem Graph.exists_of_mem_linearize {graph : Graph} {block : BasicBlock}
    (block_mem : block ∈ graph.linearize.blocks) {action : Action} (mem : action ∈ block.actions) :
    ∃ original ∈ graph.blocks, action ∈ original.actions := by
  rw [linearize, reorder, mem_toArray] at block_mem
  obtain ⟨id, -, rfl⟩ := mem_map.mp block_mem
  change action ∈ (graph.shortened.blockAt id).actions at mem
  rw [blockAt_shortened] at mem
  change action ∈ (graph.blocks.getD id {}).actions at mem
  rw [Array.getD_eq_getD_getElem?] at mem
  grind

/-- What a compiled function is made from. -/
structure CompiledFunction.MadeFrom (function : CompiledFunction) (context : UnitContext)
    (job : Job) : Prop where
  compiled : job.compile context = .ok function
  name : function.name = job.symbol
  signature : function.signature = job.signature
  allowed : ∀ block ∈ function.graph.blocks, ∀ action ∈ block.actions,
    context.Allows function.signature function.graph.vregs action
  allocation : function.allocation =
    function.graph.allocate (context.settings.placement function.signature)

theorem Job.compile_ok {job : Job} (compiled : job.compile ctx = .ok fn) : fn.MadeFrom ctx job := by
  obtain ⟨_, -, peeled⟩ := exists_of_bind_eq_ok compiled
  obtain ⟨ran, lowers, peeled⟩ := exists_of_bind_eq_ok peeled
  obtain ⟨selected, -, peeled⟩ := exists_of_bind_eq_ok peeled
  obtain ⟨routine, -, peeled⟩ := exists_of_bind_eq_ok peeled
  obtain ⟨_, -, peeled⟩ := exists_of_bind_eq_ok peeled
  cases peeled
  refine ⟨compiled, rfl, rfl, fun block block_mem action mem => ?_, rfl⟩
  obtain ⟨original, original_mem, mem⟩ := Graph.exists_of_mem_linearize block_mem mem
  have allowed := ctx.lower_allows (eq_ok_of_mapError lowers) original_mem mem
  exact allowed

def problem? : Except FunctionFailure CompiledFunction → Option Diagnostic
  | .error (.report problem) => some problem
  | .error (.breakdown _) | .ok _ => none

/-- Either a function breaks down, or all that became of the functions is collected. -/
theorem compileJobs_cases (ctx : UnitContext) (jobs : List Job) :
    (∃ job ∈ jobs, ∃ cause, job.compile ctx = .error (.breakdown cause) ∧
      compileJobs ctx jobs = .error cause) ∨
    compileJobs ctx jobs = .ok {
      functions := jobs.filterMap fun job => (job.compile ctx).toOption
      problems := jobs.filterMap fun job => problem? (job.compile ctx) } := by
  induction jobs with
  | nil => exact .inr rfl
  | cons job rest ih =>
    rw [compileJobs, filterMap_cons, filterMap_cons]
    rcases made : job.compile ctx with (prob | cause) | function
    on_goal 2 => exact .inl ⟨job, .head rest, cause, made, rfl⟩
    all_goals
      rcases ih with ⟨other, mem, cause, failed, stopped⟩ | collected
      · exact .inl ⟨other, .tail job mem, cause, failed, by rw [stopped]; rfl⟩
      · exact .inr (by rw [collected]; rfl)

theorem compileJobs_ok {jobs : List Job} {harvest : Harvest}
    (compiled : compileJobs ctx jobs = .ok harvest) :
    ∀ fn ∈ harvest.functions, ∃ job ∈ jobs, fn.MadeFrom ctx job := by
  rcases compileJobs_cases ctx jobs with ⟨_, _, _, _, stopped⟩ | collected
  · cases stopped.symm.trans compiled
  · cases collected.symm.trans compiled
    intro fn mem
    obtain ⟨job, job_mem, made⟩ := mem_filterMap.mp mem
    cases compiles : job.compile ctx with
    | error => rw [compiles] at made; cases made
    | ok =>
      rw [compiles] at made
      cases made
      exact ⟨job, job_mem, Job.compile_ok compiles⟩

/-- What a compiled unit is made from. -/
structure Compilation.MadeFrom (compilation : Compilation) (context : UnitContext) : Prop where
  functions : ∀ function ∈ compilation.functions,
    ∃ job ∈ context.unit.resolve.jobs, function.MadeFrom context job
  routines : ∀ routine ∈ compilation.program.routines,
    (∃ function ∈ compilation.functions, function.routine = routine) ∨
      trapRoutine.resolveBranches = .ok routine
  signatures : context.signatures = context.unit.resolve.signatures

theorem CompilationUnit.compile_ok {settings : Settings} {calledOff : Bool}
    {compilation : Compilation} (compiles : unit.compile settings calledOff = .ok compilation) :
    ∃ plan problems, Dispatch.build unit settings.maxTypeTags = .ok (plan, problems) ∧
      compilation.MadeFrom { unit, signatures := unit.resolve.signatures, plan, settings } := by
  obtain ⟨⟨plan, problems⟩, built, compiles⟩ := exists_of_bind_eq_ok compiles
  refine ⟨plan, problems, eq_ok_of_mapError built, ?_⟩
  dsimp only at compiles
  split at compiles
  · cases compiles
  obtain ⟨harvest, compiled, compiles⟩ := exists_of_bind_eq_ok compiles
  cases compiles
  refine ⟨compileJobs_ok (eq_ok_of_mapError compiled), fun routine mem => ?_, rfl⟩
  change routine ∈ harvest.functions.map CompiledFunction.routine ++ plan.support.1 at mem
  rcases mem_append.mp mem with own | trap
  · exact .inl (mem_map.mp own)
  · unfold DispatchPlan.support at trap
    cases resolved : trapRoutine.resolveBranches <;> grind [Except.toOption]

namespace Compilation.MadeFrom

variable {compilation : Compilation}

theorem get?_name (made : compilation.MadeFrom ctx)
    (mem : fn ∈ compilation.functions) : ctx.signatures.get? fn.name = some fn.signature := by
  obtain ⟨job, job_mem, made_from⟩ := made.functions fn mem
  rw [made.signatures, made_from.name, made_from.signature]
  exact ctx.unit.resolve_sound.found job job_mem

/-- Conventions are known under their own names. -/
theorem name_eq (made : compilation.MadeFrom ctx)
    (found : ctx.signatures.get? name = some sig) : sig.name = name := by
  rw [made.signatures] at found
  obtain ⟨entry, entry_found, rfl⟩ := Option.map_eq_some_iff.mp found
  have named := List.find?_some entry_found
  obtain ⟨job, job_mem, rfl⟩ := mem_map.mp (mem_of_find?_eq_some entry_found)
  have resolved := ctx.unit.resolve_sound.resolved job job_mem
  exact (FunctionDecl.resolve_promises resolved).1.trans (of_decide_eq_true named)

end Compilation.MadeFrom

end Backend65816
