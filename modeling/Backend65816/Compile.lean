import Backend65816.Assembly.Displacement
import Backend65816.Assembly.ModeSymmetry
import Backend65816.Flow.Layout
import Backend65816.Lowering.Function
import Backend65816.Selection.Routine

/-!
# Compilation of units

Dispatch tables come first, since tags follow the order of declaration in the whole unit. Every
function is then compiled on its own, and a problem stops only the function it belongs to. A problem
of the unit as a whole stops the compilation.
-/

namespace Backend65816

/-- A function with its convention, ready to be compiled. -/
structure Job where
  symbol : String
  function : FunctionDecl
  signature : Signature

/-- Conventions of a unit as far as they resolve. -/
structure Resolution where
  jobs : List Job := []
  problems : List Diagnostic := []

namespace Resolution

def signatures (resolution : Resolution) : Signatures :=
  resolution.jobs.map fun job => (job.symbol, job.signature)

def add (unit : CompilationUnit) (resolution : Resolution) (symbol : String)
    (function : FunctionDecl) : Resolution :=
  let reject (problem : Diagnostic) : Resolution :=
    { resolution with problems := resolution.problems ++ [problem] }
  if resolution.signatures.has symbol then
    reject (DiagnosticCode.duplicateSymbol.report symbol (symbol ++ " is defined twice"))
  else
    match function.resolve symbol unit with
    | .error problem => reject problem
    | .ok signature =>
      { resolution with jobs := resolution.jobs ++ [{ symbol, function, signature }] }

end Resolution

def CompilationUnit.resolve (unit : CompilationUnit) : Resolution :=
  unit.symbols.foldl (fun resolution (symbol, function) => resolution.add unit symbol function) {}

def CompilationUnit.signatures (unit : CompilationUnit) : Signatures :=
  unit.symbols.foldl
    (fun signatures (symbol, function) =>
      match function.resolve symbol unit with
      | .ok signature => signatures.put symbol signature
      | .error _ => signatures)
    []

/-- What the stages make of a function. -/
structure CompiledFunction where
  name : String
  signature : Signature
  graph : Graph
  allocation : Allocation
  routine : Routine
  tables : List DataTable

/-- A way to break off that no unit should take. -/
inductive Breakdown where
  | malformed (cause : LoweringFault)
  | misplaced (error : SelectionError)
deriving DecidableEq, Repr

def Breakdown.text : Breakdown → String
  | malformed cause => cause.text
  | misplaced error => error.text

/-- Why a function cannot be compiled. -/
inductive FunctionFailure where
  | report (problem : Diagnostic)
  | breakdown (cause : Breakdown)
deriving DecidableEq, Repr

namespace FunctionFailure

def ofLowering : LoweringFailure → FunctionFailure
  | .report problem => report problem
  | .fault cause => breakdown (.malformed cause)

def late (symbol message : String) : FunctionFailure :=
  report (DiagnosticCode.codegen.report symbol message)

def ofSelection (symbol : String) (error : SelectionError) : FunctionFailure :=
  if error.isMisplacement then breakdown (.misplaced error) else late symbol error.text

end FunctionFailure

/-- Where the values of a function may be placed. Interrupt handlers, and functions that leave the
scratch pool alone, never place values in it. -/
def Settings.placement (settings : Settings) (signature : Signature) : PlacementOptions where
  scratchSize := settings.scratchSize.toNat
  useScratch := !signature.preserveScratch && signature.interrupt.isNone

def Job.compile (job : Job) (context : UnitContext) : Except FunctionFailure CompiledFunction := do
  (checkCalls context.signatures job.signature job.function.body).mapError .report
  let lowered ← (context.lower job.signature job.function.body).mapError .ofLowering
  let graph := lowered.linearize
  let allocation := graph.allocate (context.settings.placement job.signature)
  let selected ← (graph.select allocation job.signature context.settings).mapError
    (.ofSelection job.symbol)
  let routine ← selected.routine.resolveBranches.mapError fun error => .late job.symbol error.text
  (routine.checkModes selected.tables).mapError fun error => .late job.symbol error.text
  return {
    name := job.symbol
    signature := job.signature
    graph
    allocation
    routine
    tables := selected.tables }

def messageLine (message : String) : String := "ralph816: " ++ message

def CompiledFunction.logLine (function : CompiledFunction) : String :=
  function.name ++ ": " ++ toString function.graph.blocks.size ++ " blocks, frame " ++
    toString function.allocation.frameSize ++ ", scratch " ++
    toString function.allocation.scratchUsed

/-- Where entries of dispatch tables lead for types without the method: a break, and a tight loop in
case its handler returns. -/
def trapRoutine : Routine :=
  let hang := trapSymbol ++ "_hang"
  { name := trapSymbol
    code := [.immediate .brk 0 1, .label hang, .branch .bra hang] }

def bindVectors (jobs : List Job) : List Vector × List Diagnostic :=
  jobs.foldl
    (fun (vectors, problems) job =>
      match job.signature.interrupt with
      | none => (vectors, problems)
      | some kind =>
        match vectors.find? (·.kind = kind) with
        | none => (vectors ++ [{ kind, handler := job.symbol }], problems)
        | some taken =>
          let problem := DiagnosticCode.duplicateVector.report job.symbol
            (kind ++ " vector already handled by " ++ taken.handler)
          (vectors, problems ++ [problem]))
    ([], [])

/-- What became of the functions of a unit. -/
structure Harvest where
  functions : List CompiledFunction := []
  problems : List Diagnostic := []

/-- Result of compiling a unit. -/
structure Compilation where
  functions : List CompiledFunction
  program : Program
  problems : List Diagnostic
  log : List String

/-- Why a unit is not compiled. -/
inductive CompilationFailure where
  | report (problem : Diagnostic)
  | calledOff
  | breakdown (cause : Breakdown)
deriving DecidableEq, Repr

def CompilationFailure.text : CompilationFailure → String
  | report problem => problem.text
  | calledOff => "context canceled"
  | breakdown cause => cause.text

def compileJobs (context : UnitContext) : List Job → Except Breakdown Harvest
  | [] => .ok {}
  | job :: rest =>
    match job.compile context with
    | .error (.breakdown cause) => .error cause
    | .ok function => do
        let harvest ← compileJobs context rest
        return { harvest with functions := function :: harvest.functions }
    | .error (.report problem) => do
        let harvest ← compileJobs context rest
        return { harvest with problems := problem :: harvest.problems }

def DispatchPlan.support (plan : DispatchPlan) : List Routine × List DataTable :=
  if plan.tables.isEmpty then ([], [])
  else (trapRoutine.resolveBranches.toOption.toList, plan.tables.map DispatchTable.data)

def assemble (functions : List CompiledFunction) (plan : DispatchPlan) (vectors : List Vector) :
    Program :=
  let (trap, dispatchTables) := plan.support
  { routines := functions.map CompiledFunction.routine ++ trap
    tables := functions.flatMap CompiledFunction.tables ++ dispatchTables
    vectors }

def compilationLog (plan : DispatchPlan) (jobs : List Job) (functions : List CompiledFunction) :
    List String :=
  let tagged := plan.tags.types.length
  let compiled := functions.length
  [ "dispatch: " ++ toString tagged ++ " tagged types, " ++ toString plan.tables.length ++
      " tables",
    "abi: " ++ toString jobs.length ++ " signatures" ] ++
  functions.map CompiledFunction.logLine ++
  [ "functions: " ++ toString compiled ++ " compiled, " ++ toString (jobs.length - compiled) ++
      " failed" ]

def CompilationUnit.compile (unit : CompilationUnit) (settings : Settings) (calledOff : Bool) :
    Except CompilationFailure Compilation := do
  let (plan, dispatchProblems) ←
    (Dispatch.build unit settings.maxTypeTags).mapError fun failure => .report failure.1
  let resolution := unit.resolve
  if calledOff && !resolution.jobs.isEmpty then throw .calledOff
  let context : UnitContext := { unit, signatures := resolution.signatures, plan, settings }
  let harvest ← (compileJobs context resolution.jobs).mapError .breakdown
  let (vectors, vectorProblems) := bindVectors resolution.jobs
  return {
    functions := harvest.functions
    program := assemble harvest.functions plan vectors
    problems := Diagnostic.sorted
      (dispatchProblems ++ resolution.problems ++ harvest.problems ++ vectorProblems)
    log := (compilationLog plan resolution.jobs harvest.functions).map messageLine }

end Backend65816
