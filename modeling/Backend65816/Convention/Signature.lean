import Backend65816.Machine.Location
import Backend65816.Source.Declaration
import Backend65816.Text.Named

/-!
# Calling conventions

The resolved convention of a function: where each parameter and return value is, what a call leaves
unchanged, and how many bytes lie between the stack pointer and the arguments.
-/

namespace Backend65816

/-- Place of a parameter. -/
inductive ParamPlace where
  | stack (offset : Nat)
  | bound (location : Loc)
deriving DecidableEq, Repr, Inhabited

/-- A resolved parameter. -/
structure ParamSlot where
  name : String
  type : Ty
  width : Width
  place : ParamPlace
deriving DecidableEq, Repr, Inhabited

def ParamSlot.location (param : ParamSlot) : Loc :=
  match param.place with
  | .stack _ => .nowhere
  | .bound location => location

/-- A resolved return value. -/
structure ReturnSlot where
  type : Ty
  width : Width
  location : Loc
deriving DecidableEq, Repr, Inhabited

/-- Handling of the data bank register. -/
inductive DataBank where
  | keep
  | set
deriving DecidableEq, Repr, Inhabited

/-- The resolved convention of a function. -/
structure Signature where
  name : String
  mode : Mode := .narrow
  bank : Int := 0
  far : Bool := false
  noReturn : Bool := false
  params : List ParamSlot := []
  returns : List ReturnSlot := []
  preserve : RegMask := .empty
  preserveScratch : Bool := false
  dataBank : DataBank := .keep
  interrupt : Option String := none
  stackBytes : Nat := 0
deriving DecidableEq, Repr, Inhabited

namespace Signature

def returnAddressSize (signature : Signature) : Nat :=
  if signature.interrupt.isSome then 4 else if signature.far then 3 else 2

def savedAccumulatorBytes (signature : Signature) : Nat :=
  let hasA := signature.preserve.has .a
  let hasB := signature.preserve.has .b
  match signature.mode with
  | .wide => if hasA || hasB then 2 else 0
  | .narrow => hasA.toNat + hasB.toNat

def savedBytes (signature : Signature) : Nat :=
  if signature.interrupt.isSome then 9
  else
    1 + signature.savedAccumulatorBytes + 2 * (signature.preserve.has .x).toNat +
      2 * (signature.preserve.has .y).toNat + (if signature.dataBank = .set then 1 else 0)

def paramBase (signature : Signature) : Nat :=
  signature.savedBytes + signature.returnAddressSize + 1

def clobbers (signature : Signature) : RegMask := signature.preserve.complement

/-- Convention of a routine for an operation that the machine lacks. It is linked into every bank,
takes its operands in `x` and `y`, gives its result in `x`, and works in registers and on the stack
only. -/
def helper (operation : String) (width : Width) (bank : Int) : Signature where
  name := "__" ++ operation ++ toString width.bits
  bank := bank
  params := [
    { name := "l", type := .unspecified, width, place := .bound (.reg .x) },
    { name := "r", type := .unspecified, width, place := .bound (.reg .y) }]
  returns := [{ type := .unspecified, width, location := .reg .x }]
  preserveScratch := true

end Signature

abbrev Signatures := Named Signature

end Backend65816
