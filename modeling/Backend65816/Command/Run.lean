import Backend65816.Command.Options
import Backend65816.Compile
import Backend65816.Flow.Listing
import Backend65816.Source.Reading.Unit

/-!
# Running the command

A run reads settings and a unit, compiles the unit and writes its assembly. Files are reached
through a record of two operations, so that a run is the same over any store of files. Dumps replace
the output unless it is named. A unit with problems is dumped as far as it compiled and not written.
-/

namespace Backend65816

/-- Why a file cannot be used. -/
inductive FileError where
  | notFound (path : String)
  | notDirectory (path : String)
  | readDirectory (path : String)
  | writeDirectory (path : String)
  | other (text : String)
deriving DecidableEq, Repr, Inhabited

def FileError.text : FileError → String
  | notFound path => "open " ++ path ++ ": no such file or directory"
  | notDirectory path => "open " ++ path ++ ": not a directory"
  | readDirectory path => "read " ++ path ++ ": is a directory"
  | writeDirectory path => "open " ++ path ++ ": is a directory"
  | other text => text

/-- Access to files. -/
structure FileAccess (m : Type → Type) where
  read : String → m (Except FileError String)
  write : String → List String → m (Except FileError Unit)

/-- What a run prints, and whether it succeeds. -/
structure RunOutcome where
  succeeds : Bool := true
  output : List String := []
  errors : List String := []
deriving DecidableEq, Repr, Inhabited

namespace Command

def version : String := "0.1.0"

def help : List String := [
  "ralph816 compiles a unit description through lowering, allocation and instruction selection " ++
    "into 65816 assembly.",
  "",
  "Usage:",
  "  ralph816 [unit.yaml] [flags]",
  "",
  "Flags:",
  "      --config string       Target configuration file (YAML)",
  "      --dalloc              Dump register and slot placement",
  "      --dasm                Dump the assembly listing to stdout",
  "      --dir                 Dump the block graph after layout",
  "  -h, --help                help for ralph816",
  "  -j, --jobs int            Functions compiled concurrently (overrides the config)",
  "  -o, --output string       Assembly output file (default: input with .s extension)",
  "      --scratch base:size   Scratch pool as base:size (overrides the config)",
  "  -v, --verbose             Log each pipeline stage to stderr",
  "      --version             version for ralph816"]

def failure (message : String) : RunOutcome :=
  { succeeds := false, errors := [messageLine message] }

def withoutExtension (path : String) : String :=
  let reversed := path.toList.reverse
  let name := reversed.takeWhile (· ≠ '/')
  match name.dropWhile (· ≠ '.') with
  | '.' :: stem => String.ofList (stem ++ reversed.drop name.length).reverse
  | _ => path

def outputPath (input : String) : String := withoutExtension input ++ ".s"

def override (options : Options) (settings : Settings) : Settings :=
  let settings := match options.jobs with
    | some jobs => { settings with jobs }
    | none => settings
  match options.scratch with
  | some pool => { settings with scratchBase := pool.base, scratchSize := pool.size }
  | none => settings

def settings (options : Options) (file : Option (Except FileError String)) :
    Except String Settings := do
  let base ← match file with
    | none => pure Settings.standard
    | some (.error error) => throw ("reading config: " ++ error.text)
    | some (.ok text) => (Settings.parse text).mapError SettingsError.text
  let final := override options base
  final.validate.mapError SettingsProblem.text
  return final

def dumps (options : Options) (compilation : Compilation) : List String :=
  let functions := compilation.functions
  (if options.dumpGraph then functions.flatMap fun function => function.graph.listing else []) ++
    (if options.dumpPlaces then
      functions.flatMap fun function => function.allocation.listing function.graph
    else []) ++
    (if options.dumpAssembly then compilation.program.listing else [])

def hasDump (options : Options) : Bool :=
  options.dumpGraph || options.dumpPlaces || options.dumpAssembly

def report (options : Options) (compilation : Compilation) : RunOutcome :=
  { succeeds := compilation.problems.isEmpty
    output := dumps options compilation
    errors := (if options.verbose then compilation.log else []) ++
      compilation.problems.map fun problem => messageLine problem.text }

def unit (file : Except FileError String) : Except String CompilationUnit :=
  match file with
  | .error error => .error error.text
  | .ok text => (CompilationUnit.parse text).mapError UnitError.text

variable {m : Type → Type} [Monad m]

def writeAssembly (files : FileAccess m) (options : Options) (input : String)
    (compilation : Compilation) : m RunOutcome := do
  let outcome := report options compilation
  if !outcome.succeeds || (options.output = "" && hasDump options) then return outcome
  else
    let path := if options.output = "" then outputPath input else options.output
    match ← files.write path compilation.program.listing with
    | .ok () => return outcome
    | .error error =>
      return { outcome with
        succeeds := false
        errors := outcome.errors ++ [messageLine error.text] }

def compileFile (files : FileAccess m) (options : Options) (input : String) (settings : Settings) :
    m RunOutcome := do
  match unit (← files.read input) with
  | .error message => return failure message
  | .ok unit =>
    match unit.compile settings false with
    | .error error => return failure error.text
    | .ok compilation => writeAssembly files options input compilation

def carryOut (files : FileAccess m) (options : Options) : m RunOutcome := do
  if options.help then return { output := help }
  else if options.version then return { output := ["ralph816 version " ++ version] }
  else
    match options.operands with
    | [] => return { output := help }
    | [input] =>
      let file ← if options.config = "" then pure none else some <$> files.read options.config
      match settings options file with
      | .error message => return failure message
      | .ok settings => compileFile files options input settings
    | _ :: _ :: _ => return { succeeds := false }

def run (files : FileAccess m) (arguments : List String) : m RunOutcome :=
  match Options.read arguments with
  | none => return { succeeds := false }
  | some options => carryOut files options

end Command

end Backend65816
