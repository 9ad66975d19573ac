import Backend65816.Text.Literal
import Backend65816.Text.Render

/-!
# Options of the command line

Flags are written `--name value` or `--name=value`, some also by a letter: `-o value`, `-ovalue`,
`-o=value`. Switches take a value only after an equals sign, and the letters of several switches may
share a dash. Flags and operands may be mixed; `--` ends the flags.
-/

namespace Backend65816

/-- Flags of the command line. -/
inductive Flag where
  | config
  | dumpPlaces
  | dumpAssembly
  | dumpGraph
  | help
  | jobs
  | output
  | scratch
  | verbose
  | version
deriving DecidableEq, Repr, Inhabited

namespace Flag

def ofName? (name : String) : Option Flag :=
  match name with
  | "config" => some config
  | "dalloc" => some dumpPlaces
  | "dasm" => some dumpAssembly
  | "dir" => some dumpGraph
  | "help" => some help
  | "jobs" => some jobs
  | "output" => some output
  | "scratch" => some scratch
  | "verbose" => some verbose
  | "version" => some version
  | _ => none

def ofLetter? (letter : Char) : Option Flag :=
  match letter with
  | 'h' => some help
  | 'j' => some jobs
  | 'o' => some output
  | 'v' => some verbose
  | _ => none

def isSwitch : Flag → Bool
  | dumpPlaces | dumpAssembly | dumpGraph | help | verbose | version => true
  | config | jobs | output | scratch => false

end Flag

def readSwitch? (text : String) : Option Bool :=
  match text with
  | "1" | "t" | "T" | "TRUE" | "true" | "True" => some true
  | "0" | "f" | "F" | "FALSE" | "false" | "False" => some false
  | _ => none

def readNumber? (bits : Nat) (text : String) : Option Int := do
  let value ← Literal.readSigned Literal.readSeparated text.toList
  let bound : Int := (Nat.pow 2 (bits - 1) : Nat)
  if -bound ≤ value ∧ value < bound then some value else none

/-- A scratch pool given on the command line. -/
structure ScratchPool where
  base : Int
  size : Int
deriving DecidableEq, Repr, Inhabited

/-- Why a text gives no scratch pool. -/
inductive ScratchError where
  | noColon (text : String)
  | badBase (text : String)
  | badSize (text : String)
deriving DecidableEq, Repr, Inhabited

def ScratchError.text : ScratchError → String
  | noColon text => "want base:size, got " ++ Text.quoted text
  | badBase text => "bad scratch base " ++ Text.quoted text
  | badSize text => "bad scratch size " ++ Text.quoted text

namespace ScratchPool

def parse (text : String) : Except ScratchError ScratchPool :=
  match Text.cut ':' text with
  | none => .error (.noColon text)
  | some (baseText, sizeText) =>
    match readNumber? 32 baseText, readNumber? 32 sizeText with
    | none, _ => .error (.badBase baseText)
    | some _, none => .error (.badSize sizeText)
    | some base, some size => .ok { base, size }

def text (pool : ScratchPool) : String := Text.markedHex pool.base ++ ":" ++ toString pool.size

end ScratchPool

/-- What the command line asks for. -/
structure Options where
  config : String := ""
  output : String := ""
  dumpPlaces : Bool := false
  dumpAssembly : Bool := false
  dumpGraph : Bool := false
  help : Bool := false
  jobs : Option Int := none
  scratch : Option ScratchPool := none
  verbose : Bool := false
  version : Bool := false
  operands : List String := []
deriving DecidableEq, Repr, Inhabited

namespace Options

def set (options : Options) (flag : Flag) (value : String) : Option Options :=
  match flag with
  | .config => some { options with config := value }
  | .output => some { options with output := value }
  | .dumpPlaces => (readSwitch? value).map fun on => { options with dumpPlaces := on }
  | .dumpAssembly => (readSwitch? value).map fun on => { options with dumpAssembly := on }
  | .dumpGraph => (readSwitch? value).map fun on => { options with dumpGraph := on }
  | .help => (readSwitch? value).map fun on => { options with help := on }
  | .verbose => (readSwitch? value).map fun on => { options with verbose := on }
  | .version => (readSwitch? value).map fun on => { options with version := on }
  | .jobs => (readNumber? 64 value).map fun jobs => { options with jobs := some jobs }
  | .scratch => (ScratchPool.parse value).toOption.map fun pool =>
    { options with scratch := some pool }

def setAll (options : Options) (pairs : List (Flag × String)) : Option Options :=
  pairs.foldlM (fun options (flag, value) => options.set flag value) options

def addOperands (options : Options) (operands : List String) : Options :=
  { options with operands := options.operands ++ operands }

end Options

/-- What an argument says. -/
inductive Argument where
  | operand (text : String)
  | endOfFlags
  | flags (pairs : List (Flag × String))
  | awaiting (pairs : List (Flag × String)) (last : Flag)
deriving DecidableEq, Repr, Inhabited

namespace Argument

def addSwitch (flag : Flag) : Argument → Argument
  | flags pairs => flags ((flag, "true") :: pairs)
  | .awaiting pairs last => .awaiting ((flag, "true") :: pairs) last
  | argument => argument

def ofLetters : List Char → Option Argument
  | [] => some (flags [])
  | letter :: rest => do
      let flag ← Flag.ofLetter? letter
      match rest with
      | '=' :: first :: value => some (flags [(flag, String.ofList (first :: value))])
      | _ =>
        if flag.isSwitch then (ofLetters rest).map (addSwitch flag)
        else if rest.isEmpty then some (.awaiting [] flag)
        else some (flags [(flag, String.ofList rest)])

def ofName (characters : List Char) : Option Argument :=
  match characters with
  | [] => some endOfFlags
  | '-' :: _ | '=' :: _ => none
  | _ =>
    let text := String.ofList characters
    let (name, value) := match Text.cut '=' text with
      | some (name, value) => (name, some value)
      | none => (text, none)
    (Flag.ofName? name).map fun flag =>
      match value with
      | some value => flags [(flag, value)]
      | none => if flag.isSwitch then flags [(flag, "true")] else .awaiting [] flag

def ofText (text : String) : Option Argument :=
  match text.toList with
  | '-' :: '-' :: name => ofName name
  | '-' :: letter :: rest => ofLetters (letter :: rest)
  | _ => some (operand text)

end Argument

namespace Options

def readFrom : List String → Options → Option Options
  | [], options => some options
  | argument :: rest, options =>
    match Argument.ofText argument with
    | none => none
    | some (.operand text) => readFrom rest (options.addOperands [text])
    | some .endOfFlags => some (options.addOperands rest)
    | some (.flags pairs) => do readFrom rest (← options.setAll pairs)
    | some (.awaiting pairs last) =>
      match rest with
      | [] => none
      | value :: rest => do readFrom rest (← options.setAll (pairs ++ [(last, value)]))

def normalize (arguments : List String) : List String :=
  arguments.map fun argument =>
    if argument ∈ ["-dir", "-dalloc", "-dasm"] then "-" ++ argument else argument

def read (arguments : List String) : Option Options := readFrom (normalize arguments) {}

end Options

end Backend65816
