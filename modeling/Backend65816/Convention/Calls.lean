import Backend65816.Convention.Resolve
import Backend65816.Source.Visit

/-!
# Legality of calls

A near function is called from its own bank only. A function that leaves the scratch pool alone may
call only functions that do so too. Direct calls are checked anywhere in a body, reachable or not.
-/

namespace Backend65816

/-- A caller that leaves the scratch pool alone calls no function that may use it. -/
def checkScratch (caller callee : Signature) : Except Diagnostic Unit :=
  if !caller.preserveScratch || callee.preserveScratch then .ok ()
  else
    let reason := if caller.interrupt.isSome then "is an interrupt handler" else "preserves scratch"
    .error (DiagnosticCode.scratchCall.report caller.name
      (caller.name ++ " " ++ reason ++ " but calls " ++ callee.name ++
        ", which may use the scratch pool"))

/-- A near function is in the bank of its caller, and the scratch pool is respected. -/
def checkCall (caller callee : Signature) : Except Diagnostic Unit :=
  if !callee.far && callee.bank ≠ caller.bank then
    .error (DiagnosticCode.crossBankCall.report caller.name
      ("call from bank " ++ toString caller.bank ++ " to near function " ++ callee.name ++
        " in bank " ++ toString callee.bank))
  else checkScratch caller callee

/-- The function that is called by name exists, takes that many arguments and is no handler. -/
def checkDirectCall (signatures : Signatures) (caller : Signature) (name : String)
    (arguments : Nat) : Except Diagnostic Unit :=
  match signatures.get? name with
  | none =>
    .error (DiagnosticCode.unknownFunction.report caller.name
      ("call to unknown function " ++ name))
  | some callee =>
    if arguments ≠ callee.params.length then
      .error (DiagnosticCode.arity.report caller.name
        (name ++ " takes " ++ toString callee.params.length ++ " arguments, " ++
          toString arguments ++ " given"))
    else if callee.interrupt.isSome then
      .error (DiagnosticCode.interruptSignature.report caller.name
        ("interrupt handler " ++ name ++ " cannot be called"))
    else checkCall caller callee

/-- Checks the direct calls of a body up to the first problem. -/
def checkCalls (signatures : Signatures) (caller : Signature) (body : Block) :
    Except Diagnostic Unit :=
  (body.nodes.filterMap SyntaxNode.call?).forM fun (name, arguments) =>
    checkDirectCall signatures caller name arguments.length

end Backend65816
