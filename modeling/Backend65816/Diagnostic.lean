/-!
# Diagnostics

Every problem of a unit belongs to a declaration. A diagnostic names the declaration, a kind and a
code; `DiagnosticCode` lists the codes. Reports are ordered by declaration, then by code.
-/

namespace Backend65816

/-- Area a diagnostic belongs to. -/
inductive DiagnosticKind where
  | convention
  | exhaustiveness
  | label
  | signature
  | dispatch
  | type
  | input
  | internal
  | unclassified
deriving DecidableEq, Repr, Inhabited

def DiagnosticKind.text : DiagnosticKind → String
  | convention => "abi"
  | exhaustiveness => "exhaustiveness"
  | label => "label"
  | signature => "signature"
  | dispatch => "dispatch"
  | type => "type"
  | input => "input"
  | internal => "internal"
  | unclassified => "unknown"

def DiagnosticKind.ofNumber (number : Int) : DiagnosticKind :=
  match number with
  | 1 => convention
  | 2 => exhaustiveness
  | 3 => label
  | 4 => signature
  | 5 => dispatch
  | 6 => type
  | 7 => input
  | 8 => internal
  | _ => unclassified

/-- A single problem of a unit. -/
structure Diagnostic where
  kind : DiagnosticKind
  code : String
  declaration : String
  message : String
  isGlobal : Bool := false
deriving DecidableEq, Repr, Inhabited

namespace Diagnostic

def text (diagnostic : Diagnostic) : String :=
  diagnostic.kind.text ++ " error " ++ diagnostic.code ++ " in " ++ diagnostic.declaration ++
    ": " ++ diagnostic.message

def listText (diagnostic : Diagnostic) : String :=
  if diagnostic.isGlobal then diagnostic.text ++ " [global]" else diagnostic.text

def before (left right : Diagnostic) : Bool :=
  if left.declaration = right.declaration then decide (left.code ≤ right.code)
  else decide (left.declaration ≤ right.declaration)

def sorted (diagnostics : List Diagnostic) : List Diagnostic := diagnostics.mergeSort before

end Diagnostic

/-- Codes of the problems that are reported. The letter follows the kind. -/
inductive DiagnosticCode where
  | stackAfterRegister
  | unknownRegister
  | narrowIndex
  | accumulatorHalf
  | modeMismatch
  | duplicateRegister
  | tooManyReturns
  | stackReturn
  | badAttribute
  | crossBankCall
  | interruptSignature
  | arity
  | unknownFunction
  | duplicateVector
  | scratchCall
  | notExhaustive
  | unknownLabel
  | breakOutsideLoop
  | returnArity
  | missingReturn
  | noReturnFallthrough
  | mixedTrait
  | mixedImpl
  | tagOverflow
  | implMismatch
  | unknownTrait
  | branchTypes
  | breakValue
  | noValue
  | unknownName
  | literalRange
  | malformed
  | duplicateSymbol
  | codegen
deriving DecidableEq, Repr, Inhabited

namespace DiagnosticCode

def text : DiagnosticCode → String
  | stackAfterRegister => "A0001"
  | unknownRegister => "A0002"
  | narrowIndex => "A0003"
  | accumulatorHalf => "A0004"
  | modeMismatch => "A0005"
  | duplicateRegister => "A0006"
  | tooManyReturns => "A0007"
  | stackReturn => "A0008"
  | badAttribute => "A0009"
  | crossBankCall => "A0010"
  | interruptSignature => "A0011"
  | arity => "A0012"
  | unknownFunction => "A0013"
  | duplicateVector => "A0014"
  | scratchCall => "A0015"
  | notExhaustive => "E0001"
  | unknownLabel => "L0001"
  | breakOutsideLoop => "L0002"
  | returnArity => "S0001"
  | missingReturn => "S0002"
  | noReturnFallthrough => "S0003"
  | mixedTrait => "D0001"
  | mixedImpl => "D0002"
  | tagOverflow => "D0003"
  | implMismatch => "D0004"
  | unknownTrait => "D0005"
  | branchTypes => "T0001"
  | breakValue => "T0002"
  | noValue => "T0003"
  | unknownName => "T0004"
  | literalRange => "T0005"
  | malformed => "I0001"
  | duplicateSymbol => "I0002"
  | codegen => "X0001"

def kind : DiagnosticCode → DiagnosticKind
  | stackAfterRegister | unknownRegister | narrowIndex | accumulatorHalf | modeMismatch
  | duplicateRegister | tooManyReturns | stackReturn | badAttribute | crossBankCall
  | interruptSignature | arity | unknownFunction | duplicateVector | scratchCall => .convention
  | notExhaustive => .exhaustiveness
  | unknownLabel | breakOutsideLoop => .label
  | returnArity | missingReturn | noReturnFallthrough => .signature
  | mixedTrait | mixedImpl | tagOverflow | implMismatch | unknownTrait => .dispatch
  | branchTypes | breakValue | noValue | unknownName | literalRange => .type
  | malformed | duplicateSymbol => .input
  | codegen => .internal

end DiagnosticCode

def DiagnosticCode.report (code : DiagnosticCode) (declaration message : String) : Diagnostic :=
  { kind := code.kind, code := code.text, declaration, message }

/-- What a stage can report. -/
inductive Problem where
  | one (diagnostic : Diagnostic)
  | several (diagnostics : List Diagnostic)
  | plain (message : String)
deriving DecidableEq, Repr, Inhabited

namespace Problem

def diagnostics : Problem → List Diagnostic
  | one diagnostic => [diagnostic]
  | several diagnostics => diagnostics
  | plain message => [DiagnosticCode.malformed.report "unit" message]

def diagnostic? : Problem → Option Diagnostic
  | one diagnostic => some diagnostic
  | several _ | plain _ => none

end Problem

end Backend65816
