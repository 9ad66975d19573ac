import Backend65816.Convention.Signature
import Backend65816.Diagnostic

/-!
# Resolving conventions

The declaration of a function fixes its convention. The accumulator is wide exactly when a parameter
of 16 bits is bound to it. Attributes are checked first, then parameters, then return values; the
first problem is reported.
-/

namespace Backend65816

def CompilationUnit.width? (unit : CompilationUnit) (type : Ty) : Option Width :=
  match type with
  | .u8 | .i8 | .bool => some .byte
  | .u16 | .i16 | .pointer _ | .reference _ => some .word
  | .void | .named _ =>
    (unit.findEnum? type.text).map fun enum =>
      if enum.variants.length > 256 then .word else .byte

def CompilationUnit.variableLoc (unit : CompilationUnit) (name : String) : Loc :=
  match unit.findGlobal? name with
  | some { address := some address, .. } => .fixed address name
  | _ => .symbol name

def maxReturns : Nat := 3

def interruptVectors : List String := ["nmi", "irq", "brk", "cop", "abort", "reset"]

namespace Resolve

def bindsWideAccumulator (unit : CompilationUnit) (param : Param) : Bool :=
  match param.binding with
  | .register name => Reg.ofName? name = some .a && unit.width? param.type = some .word
  | .stack | .symbol _ => false

def inferMode (unit : CompilationUnit) (function : FunctionDecl) : Mode :=
  if function.params.any (bindsWideAccumulator unit) then .wide else .narrow

def addPreserved (signature : Signature) (item : String) : Except Diagnostic Signature :=
  if item = "scratch" then .ok { signature with preserveScratch := true }
  else
    match Reg.ofName? item with
    | some register => .ok { signature with preserve := signature.preserve.insert register }
    | none =>
      .error (DiagnosticCode.badAttribute.report signature.name
        ("cannot preserve " ++ Text.quoted item))

def setDataBank (signature : Signature) (handling : String) : Except Diagnostic Signature :=
  match handling with
  | "" | "keep" => .ok { signature with dataBank := .keep }
  | "set" => .ok { signature with dataBank := .set }
  | _ =>
    .error (DiagnosticCode.badAttribute.report signature.name
      ("unknown data-bank mode " ++ Text.quoted handling))

def setInterrupt (signature : Signature) (vector : String) : Except Diagnostic Signature :=
  if vector = "" then .ok signature
  else if interruptVectors.contains vector then
    .ok { signature with interrupt := some vector, preserve := .full, preserveScratch := true }
  else
    .error (DiagnosticCode.badAttribute.report signature.name
      ("unknown interrupt vector " ++ Text.quoted vector))

def attributes (signature : Signature) (function : FunctionDecl) : Except Diagnostic Signature := do
  let preserving ← function.preserve.foldlM addPreserved signature
  let banked ← setDataBank preserving function.dataBank
  setInterrupt banked function.interrupt

def register (signature : Signature) (subject name : String) (width : Width) (used : RegMask) :
    Except Diagnostic Reg :=
  let reject (code : DiagnosticCode) (message : String) : Except Diagnostic Reg :=
    .error (code.report signature.name (subject ++ ": " ++ message))
  match Reg.ofName? name with
  | none => reject .unknownRegister ("unknown register " ++ Text.quoted name)
  | some register =>
    if used.has register then
      reject .duplicateRegister ("register " ++ register.name ++ " bound twice")
    else
      match register with
      | .x | .y =>
        if width ≠ .word then
          reject .narrowIndex ("index register " ++ register.name ++ " requires a 16-bit type")
        else .ok register
      | .b =>
        if width ≠ .byte then reject .accumulatorHalf "b holds 8-bit values only"
        else if signature.mode = .wide then
          reject .accumulatorHalf "b is unavailable in a wide function"
        else .ok register
      | .a =>
        if width ≠ signature.mode.width then
          reject .modeMismatch
            ("a is " ++ toString signature.mode.width.bits ++ "-bit in a " ++
              signature.mode.text ++ " function, type is " ++ toString width.bits ++ "-bit")
        else .ok register

/-- Parameters resolved so far. -/
structure ParamState where
  params : List ParamSlot := []
  used : RegMask := .empty
  seenBound : Bool := false

def addParam (unit : CompilationUnit) (signature : Signature) (state : ParamState)
    (param : Param) : Except Diagnostic ParamState :=
  match unit.width? param.type with
  | none =>
    .error (DiagnosticCode.badAttribute.report signature.name
      ("parameter " ++ param.name ++ ": type " ++ param.type.text ++ " cannot be passed"))
  | some width =>
    let slot (place : ParamPlace) : ParamSlot :=
      { name := param.name, type := param.type, width, place }
    match param.binding with
    | .stack =>
      if state.seenBound then
        .error (DiagnosticCode.stackAfterRegister.report signature.name
          ("stack parameter " ++ param.name ++
            " follows a register or variable-bound parameter"))
      else .ok { state with params := state.params ++ [slot (.stack 0)] }
    | .register name => do
        let register ← register signature ("parameter " ++ param.name) name width state.used
        pure {
          params := state.params ++ [slot (.bound (.reg register))]
          used := state.used.insert register
          seenBound := true }
    | .symbol name =>
      .ok { state with
        params := state.params ++ [slot (.bound (unit.variableLoc name))]
        seenBound := true }

/-- Gives the parameters on the stack their offsets. They are pushed in order of declaration, so the
last one lies at offset zero and each other one above those behind it. -/
def layoutStack : List ParamSlot → List ParamSlot × Nat
  | [] => ([], 0)
  | param :: rest =>
    let (placed, bytes) := layoutStack rest
    match param.place with
    | .stack _ => ({ param with place := .stack bytes } :: placed, bytes + param.width.bytes)
    | .bound _ => (param :: placed, bytes)

/-- Return values resolved so far. -/
structure ReturnState where
  returns : List ReturnSlot := []
  used : RegMask := .empty

def addReturn (unit : CompilationUnit) (signature : Signature) (state : ReturnState)
    (result : ReturnDecl) : Except Diagnostic ReturnState :=
  let index := toString state.returns.length
  match unit.width? result.type with
  | none =>
    .error (DiagnosticCode.badAttribute.report signature.name
      ("return " ++ index ++ ": type " ++ result.type.text ++ " cannot be returned"))
  | some width =>
    let slot (location : Loc) : ReturnSlot := { type := result.type, width, location }
    match result.binding with
    | .stack =>
      .error (DiagnosticCode.stackReturn.report signature.name
        ("return " ++ index ++ " must be register- or variable-bound"))
    | .register name => do
        let register ← register signature "return value" name width state.used
        if signature.preserve.has register then
          .error (DiagnosticCode.badAttribute.report signature.name
            ("register " ++ register.name ++
              " carries a return value and cannot be preserved"))
        else
          pure {
            returns := state.returns ++ [slot (.reg register)]
            used := state.used.insert register }
    | .symbol name =>
      .ok { state with returns := state.returns ++ [slot (unit.variableLoc name)] }

end Resolve

open Resolve in
def FunctionDecl.resolve (function : FunctionDecl) (symbol : String) (unit : CompilationUnit) :
    Except Diagnostic Signature := do
  let reject (code : DiagnosticCode) (message : String) : Except Diagnostic Unit :=
    .error (code.report symbol message)
  if function.bank < 0 ∨ function.bank > 0xFF then
    reject .badAttribute ("bank " ++ toString function.bank ++ " out of range")
  let signature ← attributes
    { name := symbol, mode := inferMode unit function, bank := function.bank,
      far := function.far, noReturn := function.noReturn } function
  let params ← function.params.foldlM (addParam unit signature) {}
  let (placed, stackBytes) := layoutStack params.params
  if signature.mode = .wide ∧ params.used.has .b then
    reject .accumulatorHalf "b cannot be bound alongside a wide accumulator parameter"
  if function.returns.length > maxReturns then
    reject .tooManyReturns
      (toString function.returns.length ++ " return values, at most " ++ toString maxReturns ++
        " allowed")
  let returns ← function.returns.foldlM (addReturn unit signature) {}
  if signature.mode = .wide ∧ signature.preserve.has .b ∧ returns.used.has .a then
    reject .badAttribute "b is the high half of the wide return value in a and cannot be preserved"
  match signature.interrupt with
  | none => pure ()
  | some vector =>
    if !function.params.isEmpty || !function.returns.isEmpty then
      reject .interruptSignature
        ("interrupt handler " ++ vector ++ " cannot take parameters or return values")
  pure { signature with params := placed, returns := returns.returns, stackBytes }

end Backend65816
