import Backend65816.Machine.Width
import Backend65816.Text.Render

/-!
# Locations

Where a virtual register lives at run time. Memory locations are told apart by how code reaches
them: the scratch pool and fixed addresses directly, stack slots and incoming arguments relative to
the stack pointer, variable-bound values by symbol.
-/

namespace Backend65816

/-- Place that holds a value. -/
inductive Loc where
  | nowhere
  | reg (register : Reg)
  | scratch (offset : Nat)
  | stack (offset : Nat)
  | fixed (address : Int) (name : String)
  | symbol (name : String)
  | argument (offset : Nat)
deriving DecidableEq, Repr, Inhabited

namespace Loc

def isReg : Loc → Bool
  | reg _ => true
  | _ => false

def reg? : Loc → Option Reg
  | reg register => some register
  | _ => none

def isIndexReg : Loc → Bool
  | reg register => register.isIndex
  | _ => false

def isMemory : Loc → Bool
  | nowhere | reg _ => false
  | scratch _ | stack _ | fixed _ _ | symbol _ | argument _ => true

def isIndexable : Loc → Bool
  | scratch _ | fixed _ _ | symbol _ => true
  | nowhere | reg _ | stack _ | argument _ => false

def mask : Loc → RegMask
  | reg register => .single register
  | _ => .empty

/-- The location that a text describes: a register by its name, anything else by its kind and a
number or symbol after a colon. -/
def ofText (text : String) : Loc :=
  match Text.cut ':' text with
  | some ("scratch", number) => scratch (number.toNat?.getD 0)
  | some ("stack", number) => stack (number.toNat?.getD 0)
  | some ("arg", number) => argument (number.toNat?.getD 0)
  | some ("fixed", number) => fixed (number.toInt?.getD 0) ""
  | some ("var", name) => symbol name
  | _ => ((Reg.ofName? text).map reg).getD nowhere

def text : Loc → String
  | nowhere => "none"
  | reg register => register.name
  | scratch offset => "scratch[" ++ toString offset ++ "]"
  | stack offset => "stack[" ++ toString offset ++ "]"
  | fixed address _ => "$" ++ Text.hexPadded 4 address
  | symbol name => name
  | argument offset => "arg[" ++ toString offset ++ "]"

end Loc

end Backend65816
