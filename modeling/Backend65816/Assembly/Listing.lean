import Backend65816.Assembly.Instr

/-!
# Programs and their listing

A program is a list of routines, read-only tables and interrupt vectors. The listing names every
routine and table and puts one instruction on a line.
-/

namespace Backend65816

/-- The code of one function. -/
structure Routine where
  name : String := ""
  bank : Int := 0
  far : Bool := false
  mode : Mode := .narrow
  code : List Instr := []
deriving DecidableEq, Repr, Inhabited

/-- What the entries of a table are. -/
inductive TableKind where
  | values
  | addresses
  | trampolines
deriving DecidableEq, Repr, Inhabited

namespace TableKind

def name : TableKind → String
  | values => "value"
  | addresses => "addr"
  | trampolines => "trampoline"

def ofName (name : String) : TableKind :=
  match name with
  | "addr" => addresses
  | "trampoline" => trampolines
  | _ => values

end TableKind

/-- A read-only table. -/
structure DataTable where
  name : String := ""
  kind : TableKind := .values
  width : Nat := 0
  values : List Int := []
  targets : List String := []
deriving DecidableEq, Repr, Inhabited

def DataTable.length (table : DataTable) : Nat :=
  match table.kind with
  | .values => table.values.length
  | .addresses | .trampolines => table.targets.length

/-- An interrupt vector and its handler. -/
structure Vector where
  kind : String
  handler : String
deriving DecidableEq, Repr, Inhabited

/-- The code and data of a unit. -/
structure Program where
  routines : List Routine := []
  tables : List DataTable := []
  vectors : List Vector := []
deriving DecidableEq, Repr, Inhabited

def Instr.line : Instr → String
  | .label name => name ++ ":"
  | .run operation => "\t" ++ operation.textWith "\t"

def Routine.listing (routine : Routine) : List String :=
  let reach := if routine.far then "far" else "near"
  ["\t; bank " ++ toString routine.bank ++ ", " ++ reach ++ ", " ++ routine.mode.text,
    routine.name ++ ":"] ++ routine.code.map Instr.line ++ [""]

def DataTable.listing (table : DataTable) : List String :=
  (table.name ++ ":") ::
    match table.kind with
    | .values =>
      let directive := if table.width = 2 then ".word" else ".byte"
      let entries := table.values.map fun value => "$" ++ Text.hex value
      ["\t" ++ directive ++ "\t" ++ String.intercalate ", " entries]
    | .addresses => table.targets.map fun target => "\t.addr\t" ++ target
    | .trampolines => table.targets.map fun target => "\tJML\tf:" ++ target

def Vector.listing (vector : Vector) : List String :=
  ["\t; " ++ vector.kind, "\t.addr\t" ++ vector.handler]

def segmentLine (name : String) : String := "\t.segment\t\x22" ++ name ++ "\x22"

def Program.listing (program : Program) : List String :=
  program.routines.flatMap Routine.listing ++
    (if program.tables.isEmpty then []
      else segmentLine "RODATA" :: program.tables.flatMap DataTable.listing ++ [""]) ++
    (if program.vectors.isEmpty then []
      else segmentLine "VECTORS" :: program.vectors.flatMap Vector.listing)

end Backend65816
