import Backend65816.Machine.Register

/-!
# Widths and accumulator modes

A value is one or two bytes wide. The accumulator runs at one of these widths, chosen per function.
The absent value has width zero, so a width is a number of bytes; every width but two bytes has the
mask and sign bit of a byte.
-/

namespace Backend65816

/-- Width of a value in bytes. -/
structure Width where
  bytes : Nat
deriving DecidableEq, Repr, Inhabited

namespace Width

def none : Width := ⟨0⟩

def byte : Width := ⟨1⟩

def word : Width := ⟨2⟩

def bits (width : Width) : Nat := width.bytes * 8

def text (width : Width) : String := "w" ++ toString width.bits

def modulus (width : Width) : Int := if width = word then 0x10000 else 0x100

def mask (width : Width) : Int := if width = word then 0xFFFF else 0xFF

def signBit (width : Width) : Int := if width = word then 0x8000 else 0x80

def truncate (width : Width) (value : Int) : Int := value % width.modulus

end Width

/-- Accumulator mode of a function. -/
inductive Mode where
  | narrow
  | wide
deriving DecidableEq, Repr, Inhabited

namespace Mode

def text : Mode → String
  | narrow => "narrow"
  | wide => "wide"

def width : Mode → Width
  | narrow => .byte
  | wide => .word

end Mode

def Reg.canHold (register : Reg) (width : Width) (mode : Mode) : Bool :=
  match register with
  | .a => width.bytes ≤ mode.width.bytes
  | .b => mode = .narrow && width = .byte
  | .x | .y => true

end Backend65816
