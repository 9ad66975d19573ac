import Backend65816.Flow.Graph

/-!
# Listings of block graphs

One line per block, action and terminator. Registers that cannot leave their location show it.
-/

namespace Backend65816

namespace Graph

def vregText (graph : Graph) (register : VReg) : String :=
  if register = 0 then "_"
  else
    let name := "v" ++ toString register
    match (graph.info register).fixed with
    | some location => name ++ "@" ++ location.text
    | none => name

def vregsText (graph : Graph) (registers : List VReg) : String :=
  String.intercalate ", " (registers.map graph.vregText)

def valueText (graph : Graph) : Value → String
  | .imm value => "#" ++ toString value
  | .reg register => graph.vregText register

def addressText (graph : Graph) (address : Address) : String :=
  let place := match address.base, address.fixed with
    | some base, _ => graph.vregText base
    | none, some value => "$" ++ Text.hexPadded 4 value
    | none, none => if address.far then "far " ++ address.symbol else address.symbol
  "[" ++ place ++ "+" ++ toString address.offset ++ "]"

def actionText (graph : Graph) : Action → String
  | .params targets => "params " ++ graph.vregsText targets
  | .const target value => graph.vregText target ++ " = #" ++ toString value
  | .move target source => graph.vregText target ++ " = " ++ graph.vregText source
  | .convert target source signed =>
    graph.vregText target ++ (if signed then " = sext " else " = zext ") ++ graph.vregText source
  | .bin kind target left right _ =>
    graph.vregText target ++ " = " ++ kind.text ++ " " ++ graph.vregText left ++ ", " ++
      graph.valueText right
  | .un kind target source =>
    graph.vregText target ++ " = " ++ kind.text ++ " " ++ graph.vregText source
  | .setCond condition target left right =>
    graph.vregText target ++ " = " ++ graph.vregText left ++ " " ++ condition.text ++ " " ++
      graph.valueText right
  | .load target address => graph.vregText target ++ " = load " ++ graph.addressText address
  | .store address source =>
    "store " ++ graph.addressText address ++ ", " ++ graph.valueText source
  | .lookup target table index =>
    graph.vregText target ++ " = " ++ table ++ "[" ++ graph.vregText index ++ "]"
  | .push source => "push " ++ graph.valueText source
  | .call call =>
    "(" ++ graph.vregsText call.results ++ ") = call " ++ (if call.far then "far " else "") ++
      call.function ++ "(" ++ graph.vregsText call.arguments ++ ")"
  | .dispatch call =>
    "(" ++ graph.vregsText call.results ++ ") = dispatch " ++ call.table ++ "[tag " ++
      graph.vregText call.object ++ "](" ++ graph.vregsText call.arguments ++ ")"

def blockText (id : BlockId) : String := "b" ++ toString id

def terminatorText (graph : Graph) : Terminator → String
  | .jump target => "jump " ++ blockText target
  | .branch condition left right thenBlock elseBlock =>
    "if " ++ graph.vregText left ++ " " ++ condition.text ++ " " ++ graph.valueText right ++
      " then " ++ blockText thenBlock ++ " else " ++ blockText elseBlock
  | .jumpTable index targets =>
    "jumptable " ++ graph.vregText index ++ " [" ++
      String.intercalate ", " (targets.map blockText) ++ "]"
  | .giveBack values => "return " ++ graph.vregsText values

def blockLines (graph : Graph) (id : BlockId) (block : BasicBlock) : List String :=
  let label := if block.name = "" then blockText id else blockText id ++ "." ++ block.name
  (label ++ ":") ::
    (block.actions.map fun action => "    " ++ graph.actionText action) ++
    (block.terminator.toList.map fun terminator => "    " ++ graph.terminatorText terminator)

def tableLine (table : LookupTable) : String :=
  "table " ++ table.name ++ " " ++ table.width.text ++ " " ++ Text.numberList table.values

def vregLine (register : VReg) (info : VRegInfo) : String :=
  "v" ++ toString register ++ " (" ++ info.name ++ ") " ++ info.width.text ++
    (if info.signed then " signed" else "") ++
    (match info.fixed with
      | some location => " fixed=" ++ location.text
      | none => "") ++
    (match info.hint with
      | some hint => " hint=" ++ hint.name
      | none => "")

def vregLines (graph : Graph) : List String :=
  (graph.vregs.toList.zipIdx.drop 1).map fun (info, register) => vregLine register info

def listing (graph : Graph) : List String :=
  (graph.name ++ " (" ++ graph.mode.text ++ ") \x7b") ::
    (graph.blocks.toList.zipIdx.flatMap fun (block, id) => graph.blockLines id block) ++
    ["\x7d"] ++ graph.tables.map tableLine

end Graph

end Backend65816
