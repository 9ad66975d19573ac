import Backend65816.Assembly.Instr
import Backend65816.Convention.Signature

/-!
# Entry and exit sequences

A function saves the status register of its caller and selects its own accumulator width when it is
entered. The status register is restored before each return, so no call site switches modes. What
entry pushes, exit pulls in the opposite order; a handler saves every register at 16 bits.
-/

namespace Backend65816

namespace Signature

/-- Pushes the halves of the accumulator that are kept. A wide function pushes both at once. -/
def saveAccumulator (signature : Signature) : List Instr :=
  match signature.mode, signature.preserve.has .a, signature.preserve.has .b with
  | .wide, true, _ | .wide, _, true | .narrow, true, false => [.plain .pha]
  | .narrow, true, true => [.plain .pha, .plain .xba, .plain .pha, .plain .xba]
  | .narrow, false, true => [.plain .xba, .plain .pha, .plain .xba]
  | _, false, false => []

/-- Pulls what `saveAccumulator` pushes. -/
def restoreAccumulator (signature : Signature) : List Instr :=
  match signature.mode, signature.preserve.has .a, signature.preserve.has .b with
  | .wide, true, _ | .wide, _, true | .narrow, true, false => [.plain .pla]
  | .narrow, true, true => [.plain .xba, .plain .pla, .plain .xba, .plain .pla]
  | .narrow, false, true => [.plain .xba, .plain .pla, .plain .xba]
  | _, false, false => []

/-- Code that is needed under a condition only. -/
def codeIf (condition : Bool) (code : List Instr) : List Instr := if condition then code else []

/-- A handler may interrupt code of any mode, so that it saves all registers at 16 bits. -/
def interruptEntry (signature : Signature) : List Instr :=
  [.immediate .rep 0x30 1, .plain .pha, .plain .phx, .plain .phy, .plain .phb, .plain .phd] ++
    codeIf (signature.dataBank = .set) [.plain .phk, .plain .plb] ++
    codeIf (signature.mode = .narrow) [.narrowAccumulator]

/-- Restores what a handler saves. The status register comes back with the return. -/
def interruptExit (signature : Signature) : List Instr :=
  codeIf (signature.mode = .narrow) [.widenAccumulator] ++
    [.plain .pld, .plain .plb, .plain .ply, .plain .plx, .plain .pla, .plain .rti]

/-- What a function runs before its frame is taken. -/
def entrySequence (signature : Signature) : List Instr :=
  if signature.interrupt.isSome then signature.interruptEntry
  else
    [.plain .php, .selectMode signature.mode] ++ signature.saveAccumulator ++
      codeIf (signature.preserve.has .x) [.plain .phx] ++
      codeIf (signature.preserve.has .y) [.plain .phy] ++
      codeIf (signature.dataBank = .set) [.plain .phb, .plain .phk, .plain .plb]

/-- What a function runs after its frame is released, up to the return. -/
def exitSequence (signature : Signature) : List Instr :=
  if signature.interrupt.isSome then signature.interruptExit
  else
    codeIf (signature.dataBank = .set) [.plain .plb] ++
      codeIf (signature.preserve.has .y) [.plain .ply] ++
      codeIf (signature.preserve.has .x) [.plain .plx] ++
      signature.restoreAccumulator ++
      [.plain .plp, .plain (if signature.far then .rtl else .rts)]

end Signature

end Backend65816
