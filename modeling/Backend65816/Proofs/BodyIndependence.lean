import Backend65816.Proofs.CompiledUnits

/-!
# Independence of bodies

The declarations of a unit without the bodies of its functions fix its dispatch tables and its
conventions, and a body is lowered with nothing else in view. What becomes of a function does not
depend on the bodies of the others, unless one of them breaks off the compilation.
-/

namespace Backend65816

open List

variable {settings : Settings}

/-! ## Units without bodies -/

def FunctionDecl.outline (function : FunctionDecl) : FunctionDecl :=
  { function with body := default }

def ImplDecl.outline (impl : ImplDecl) : ImplDecl :=
  { impl with methods := impl.methods.map FunctionDecl.outline }

/-- A unit without the bodies of its functions and methods. -/
def CompilationUnit.outline (unit : CompilationUnit) : CompilationUnit :=
  { unit with
    functions := unit.functions.map FunctionDecl.outline
    impls := unit.impls.map ImplDecl.outline }

/-! ## Dispatch -/

namespace Named

/-- Functions without their bodies, under their names. -/
def outline (named : Named FunctionDecl) : Named FunctionDecl :=
  named.map fun entry => (entry.1, entry.2.outline)

section

variable (named : Named FunctionDecl) (name : String)
include named name

end

end Named

namespace Dispatch

end Dispatch

/-! ## Conventions -/

/-- Units that differ at most in the bodies of functions other than the one of a name. -/
structure CompilationUnit.AgreeFor (name : String) (first second : CompilationUnit) : Prop where
  outline : first.outline = second.outline
  own : first.symbols.filter (·.1 = name) = second.symbols.filter (·.1 = name)

/-- Declarations under one symbol that differ at most in their bodies. -/
structure AgreeingEntries (name : String) (first second : String × FunctionDecl) : Prop where
  symbol : first.1 = second.1
  outline : first.2.outline = second.2.outline
  own : first.1 = name → first.2 = second.2

theorem CompilationUnit.symbols_outline (unit : CompilationUnit) :
    unit.outline.symbols = Named.outline unit.symbols := by
  simp [symbols, outline, Named.outline, ImplDecl.outline, map_flatMap, flatMap_map,
    Function.comp_def, FunctionDecl.outline]

theorem CompilationUnit.AgreeFor.entries {name : String} {first second : CompilationUnit}
    (agree : AgreeFor name first second) :
    List.Forall₂ (AgreeingEntries name) first.symbols second.symbols := by
  have outlines : Named.outline first.symbols = Named.outline second.symbols := by
    rw [← symbols_outline, ← symbols_outline, agree.outline]
  have own := agree.own
  generalize first.symbols = entries, second.symbols = others at outlines own ⊢
  induction entries generalizing others with
  | nil =>
    cases others with
    | nil => exact .nil
    | cons => cases outlines
  | cons entry rest ih =>
    cases others with
    | nil => cases outlines
    | cons other others =>
      obtain ⟨heads, tails⟩ := cons.inj outlines
      obtain ⟨syms, bodies⟩ := Prod.mk.inj heads
      refine .cons ⟨syms, bodies, fun named => ?_⟩ (ih others tails ?_)
      · grind
      · grind

/-- Jobs under one symbol that differ at most in the bodies of functions other than one. -/
structure Job.Agree (name : String) (first second : Job) : Prop where
  symbol : first.symbol = second.symbol
  signature : first.signature = second.signature
  own : first.symbol = name → first = second

/-- Resolutions that differ at most in the bodies of functions other than one. -/
structure Resolution.Agree (name : String) (first second : Resolution) : Prop where
  jobs : List.Forall₂ (Job.Agree name) first.jobs second.jobs
  problems : first.problems = second.problems

section

variable {name : String} {first second : CompilationUnit}

theorem signatures_eq {first second : List Job}
    (agree : List.Forall₂ (Job.Agree name) first second) :
    first.map (fun job => (job.symbol, job.signature)) =
      second.map fun job => (job.symbol, job.signature) := by
  induction agree with
  | nil => rfl
  | cons job _ ih => rw [map_cons, map_cons, job.symbol, job.signature, ih]

theorem Resolution.Agree.add {resolution other : Resolution}
    (agree : Agree name resolution other) (outlines : first.outline = second.outline)
    {entry entry' : String × FunctionDecl} (entries : AgreeingEntries name entry entry') :
    Agree name (resolution.add first entry.1 entry.2) (other.add second entry'.1 entry'.2) := by
  have resolves : entry.2.resolve entry.1 first = entry'.2.resolve entry'.1 second := by
    change entry.2.outline.resolve entry.1 first.outline = _
    rw [entries.outline, entries.symbol, outlines]
    rfl
  unfold Resolution.add
  rw [signatures, signatures, signatures_eq agree.jobs, resolves, entries.symbol]
  split
  · exact ⟨agree.jobs, congrArg (· ++ _) agree.problems⟩
  · split
    · exact ⟨agree.jobs, congrArg (· ++ _) agree.problems⟩
    · refine ⟨rel_append agree.jobs (.cons ⟨rfl, rfl, fun named => ?_⟩ .nil), agree.problems⟩
      rw [entries.own (entries.symbol.trans named)]

theorem CompilationUnit.AgreeFor.resolve (agree : AgreeFor name first second) :
    Resolution.Agree name first.resolve second.resolve := by
  have fold {entries others : Named FunctionDecl}
      (declared : List.Forall₂ (AgreeingEntries name) entries others) {resolution other : Resolution}
      (start : Resolution.Agree name resolution other) : Resolution.Agree name
        (entries.foldl (fun resolution entry => resolution.add first entry.1 entry.2) resolution)
        (others.foldl (fun resolution entry => resolution.add second entry.1 entry.2) other) := by
    induction declared generalizing resolution other with
    | nil => exact start
    | cons entry _ ih => exact ih (start.add agree.outline entry)
  exact fold agree.entries ⟨.nil, rfl⟩

theorem UnitContext.lower_over (ctx : UnitContext) (functions : List FunctionDecl)
    (impls : List ImplDecl) (sig : Signature) (body : Block) :
    UnitContext.lower { ctx with unit.functions := functions, unit.impls := impls } sig
      body = ctx.lower sig body := by
  let piece : Piece := ⟨ctx, sig, body.nodes, {}, true⟩
  have makes := piece.executes_function body (.refl _) rfl [] {}
  have same : Lower.function body ((piece.around [] 0).over functions impls) {} =
      Lower.function body (piece.around [] 0) {} :=
    (makes.ends (.refl {}) (.start (Draft.wellFormed_empty signs))).blind functions impls
  change (Lower.function body ((piece.around [] 0).over functions impls) {} >>= _) = _
  rw [same]
  rfl

/-- What becomes of every function of a unit, in order of declaration. -/
def CompilationUnit.outcomes (unit : CompilationUnit) (plan : DispatchPlan) (settings : Settings) :
    Named (Except FunctionFailure CompiledFunction) :=
  unit.resolve.jobs.map fun job =>
    (job.symbol, job.compile { unit, signatures := unit.resolve.signatures, plan, settings })

section

variable (unit : CompilationUnit) (settings : Settings) (plan : DispatchPlan)
  (before after : List Diagnostic)

end

theorem CompilationUnit.AgreeFor.compile_eq (agree : AgreeFor name first second)
    (plan : DispatchPlan) (job : Job) :
    job.compile { unit := first, signatures := first.resolve.signatures, plan, settings } =
      job.compile { unit := second, signatures := second.resolve.signatures, plan, settings } := by
  have unit_eq : { first with functions := second.functions, impls := second.impls } = second := by
    have outline := agree.outline
    cases first
    cases second
    simp_all [CompilationUnit.outline]
  have signatures : first.resolve.signatures = second.resolve.signatures :=
    signatures_eq agree.resolve.jobs
  unfold Job.compile
  rw [← UnitContext.lower_over _ second.functions second.impls, signatures, unit_eq]

theorem CompilationUnit.AgreeFor.outcome (agree : AgreeFor name first second) (plan : DispatchPlan)
    (settings : Settings) :
    (first.outcomes plan settings).get? name = (second.outcomes plan settings).get? name := by
  have find {jobs others : List Job} (jobs_agree : List.Forall₂ (Job.Agree name) jobs others) :
      jobs.find? (·.symbol = name) = others.find? (·.symbol = name) := by
    induction jobs_agree with
    | nil => rfl
    | cons job _ ih => grind [Job.Agree]
  rw [outcomes, outcomes, Named.get?, Named.get?, find?_map, find?_map]
  change Option.map _ (.map _ (first.resolve.jobs.find? (·.symbol = name))) =
    Option.map _ (.map _ (second.resolve.jobs.find? (·.symbol = name)))
  rw [find agree.resolve.jobs, Option.map_map, Option.map_map]
  exact congrArg (Option.map · _) (funext fun job => agree.compile_eq plan job)

end

end Backend65816
