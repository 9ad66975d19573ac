import Std.Data.HashSet
import Backend65816.Assembly.Listing

/-!
# Labels in use

A label is in use when the operand of an instruction names it, also with an offset or a bank mark,
or when a table holds it. The others can be dropped.
-/

namespace Backend65816

def isSign (character : Char) : Bool := character = '+' || character = '-'

/-- The label a symbolic operand refers to: without a bank mark in front and an offset at the end. A
sign in front is no offset. -/
def symbolBase (symbol : String) : String :=
  let unmarked := Text.dropLead ['^'] symbol.toList
  match unmarked with
  | [] => ""
  | first :: rest =>
    if isSign first then String.ofList unmarked
    else String.ofList (first :: rest.takeWhile fun character => !isSign character)

def Instr.referredLabel? : Instr → Option String
  | .label _ => none
  | .run operation => if operation.symbol = "" then none else some (symbolBase operation.symbol)

def labelsInUse (code : List Instr) (tables : List DataTable) : Std.HashSet String :=
  Std.HashSet.ofList (code.filterMap Instr.referredLabel? ++ tables.flatMap DataTable.targets)

def Instr.isKept (used : Std.HashSet String) : Instr → Bool
  | .label name => used.contains name
  | .run _ => true

def Routine.dropUnusedLabels (routine : Routine) (tables : List DataTable) : Routine :=
  let used := labelsInUse routine.code tables
  { routine with code := routine.code.filter (Instr.isKept used) }

end Backend65816
