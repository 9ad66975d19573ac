import Backend65816.Lowering.Transfer

/-!
# Statements

Every statement is lowered, reachable or not, so that problems in dead code are reported. The value
of a loop is carried by its breaks. The counter of a loop over a range prefers an index register,
`x` for the outermost loop and `y` for the next, and both bounds are evaluated once.
-/

namespace Backend65816

namespace Lower

def bindSeveral (names : List String) (results : Lower (List TypedReg)) : Lower Unit := do
  let values ← results
  if values.length < names.length then
    fail .noValue
      (toString names.length ++ " names bound to " ++ toString values.length ++ " values")
  else
    (names.zip values).forM fun (name, value) => do
      let register ← newTemp name value.type
      emit (.move register value.register)
      declare name { value with register }

/-- Computes the initial value of a name and its type, which is the type of the value where none is
declared. -/
def initialValue (name : String) (type : Ty) (init : Option ExprCode) : Lower TypedReg := do
  match init with
  | none => return { type }
  | some code =>
    let value ← code.value type
    if value.type = .void then
      fail .noValue (name ++ " is initialized with an expression that has no value")
    else if type = .unspecified then return value
    else if !value.diverges && value.type ≠ type then
      fail .branchTypes
        (name ++ " is " ++ type.text ++ " but is initialized with " ++ value.type.text)
    else return { value with type }

def bindOne (name : String) (type : Ty) (init : Option ExprCode) (address : Option Int) :
    Lower Unit := do
  let value ← initialValue name type init
  if value.type = .unspecified ∨ value.type = .never then
    fail .noValue ("cannot infer the type of " ++ name)
  else
    let width ← widthOf value.type
    let register ← newRegWith {
      name
      width
      signed := value.type.isSigned
      fixed := address.map fun place => .fixed place name }
    if value.register ≠ 0 then emit (.move register value.register)
    declare name { value with register }

def bind (names : List String) (type : Ty) (init : Option ExprCode) (address : Option Int) :
    Lower Unit :=
  match names with
  | [] => throw (.fault .namelessBinding)
  | [name] => bindOne name type init address
  | names => bindSeveral names ((init.map ExprCode.results).getD noResults)

/-- The ways through a conditional statement. The else side, if there is one, is given the block
after the conditional. -/
def conditionalWays (condition : ExprCode) (thenBlock : BlockCode)
    (otherwise : Option (BlockId → Lower Unit)) (yes after : BlockId) : Lower Unit := do
  match otherwise with
  | none =>
    condition.branch yes after
    enter yes
    let _ ← thenBlock .unspecified
    jump after
  | some elseSide =>
    let no ← newBlock "if.else"
    condition.branch yes no
    enter yes
    let _ ← thenBlock .unspecified
    jump after
    enter no
    elseSide after

def conditional (condition : ExprCode) (thenBlock : BlockCode)
    (otherwise : Option (BlockId → Lower Unit)) : Lower Unit := do
  let yes ← newBlock "if.then"
  let after ← newBlock "if.end"
  conditionalWays condition thenBlock otherwise yes after
  enter after

def elseBlock (body : BlockCode) (after : BlockId) : Lower Unit := do
  let _ ← body .unspecified
  jump after

def elseConditional (condition : ExprCode) (thenBlock : BlockCode)
    (otherwise : Option (BlockId → Lower Unit)) (after : BlockId) : Lower Unit := do
  let yes ← newBlock "if.then"
  conditionalWays condition thenBlock otherwise yes after

def loop (label : String) (body : BlockCode) (want : Ty) : Lower TypedReg := do
  let head ← newBlock "loop"
  let exit ← newBlock "loop.end"
  jump head
  enter head
  let left ← inLoop { label, exit, next := head, takesValue := true, type := want } do
    let _ ← body .unspecified
  jump head
  enter exit
  if left.hasValued && left.hasBare then
    fail .breakValue "loop mixes breaks with and without a value"
  else if left.hasValued then return { register := left.result.getD 0, type := left.type }
  else if left.hasBare then return .void
  else
    markUnreached
    return .never

def whileLoop (label : String) (condition : ExprCode) (body : BlockCode) : Lower Unit := do
  let head ← newBlock "while"
  let inside ← newBlock "while.body"
  let exit ← newBlock "while.end"
  jump head
  enter head
  condition.branch inside exit
  enter inside
  let _ ← inLoop { label, exit, next := head } do
    let _ ← body .unspecified
  jump head
  enter exit

def checkBound (bound : TypedReg) (counter place : String) (type : Ty) : Lower Unit := do
  if bound.type ≠ type && !bound.diverges then
    fail .branchTypes
      ("loop " ++ counter ++ " " ++ place ++ " at " ++ bound.type.text ++ ", not " ++ type.text)

def upperBound (counter : String) (type : Ty) (width : Width) (last : ExprCode) : Lower Value := do
  match last.source.literal? with
  | some (literal, _) =>
    checkLiteral literal type
    return .imm (width.truncate literal)
  | none =>
    let bound ← last.value type
    checkBound bound counter "ends" type
    let register ← newReg (counter ++ ".end") width type.isSigned
    emit (.move register bound.register)
    return .reg register

def stepCounter (counter : VReg) : Lower Unit := emit (.bin .add counter counter (.imm 1) true)

/-- Goes on with the next value of a range. An inclusive range stops on its last value before the
counter is stepped, so that the counter never leaves its type. -/
def nextValue (inclusive : Bool) (counter : VReg) (last : Value) (body exit : BlockId) :
    Lower Unit := do
  if inclusive then
    let step ← newBlock "for.step"
    branchOn .eq counter last exit step
    enter step
    stepCounter counter
    jump body
  else
    stepCounter counter
    branchOn .lt counter last body exit

def countThrough (label counter : String) (type : Ty) (width : Width) (first : TypedReg)
    (last : Value) (inclusive : Bool) (body : BlockCode) : Lower Unit := do
  let register ← newReg counter width type.isSigned
  let depth := (← read).rangeDepth
  modify (·.setHint register (if depth % 2 = 0 then .x else .y))
  emit (.move register first.register)
  declare counter { register, type }
  let inside ← newBlock "for.body"
  let next ← newBlock "for.next"
  let exit ← newBlock "for.end"
  branchOn (if inclusive then .le else .lt) register last inside exit
  enter inside
  let _ ← inRange <| inLoop { label, exit, next } do
    let _ ← body .unspecified
  jump next
  enter next
  nextValue inclusive register last inside exit
  enter exit

def forLoop (label counter : String) (type : Ty) (first last : ExprCode) (inclusive : Bool)
    (body : BlockCode) : Lower Unit := do
  let width ← widthOf type
  if !type.isInteger then
    fail .branchTypes
      ("loop variable " ++ counter ++ " must be an integer, not " ++ type.text)
  else
    let start ← whilePending (storedNames [last]) (first.value type)
    let bound ← upperBound counter type width last
    checkBound start counter "starts" type
    inScope (countThrough label counter type width start bound inclusive body)

def targetLoop (label what : String) : Lower EnclosingLoop := do
  let draft ← get
  match draft.findLoop? label with
  | some loop => return loop
  | none =>
    if draft.loops.isEmpty then fail .breakOutsideLoop (what ++ " outside a loop")
    else
      fail .unknownLabel
        (what ++ " to " ++ Text.quoted label ++ ", which does not name an enclosing loop")

def loopResult (loop : EnclosingLoop) (value : TypedReg) : Lower VReg := do
  match loop.result with
  | some register =>
    if value.type = loop.type then return register
    else
      fail .branchTypes
        ("break values disagree: " ++ loop.type.text ++ " and " ++ value.type.text)
  | none =>
    if loop.type ≠ .unspecified && loop.type ≠ value.type then
      fail .branchTypes
        ("break value is " ++ value.type.text ++ ", loop is " ++ loop.type.text)
    else
      let register ← newTemp "loop" value.type
      modify (·.modifyLoop loop.exit fun loop =>
        { loop with type := value.type, result := some register })
      return register

def leaveWith (loop : EnclosingLoop) (label : String) (value : ExprCode) : Lower Unit := do
  modify (·.modifyLoop loop.exit fun loop => { loop with hasValued := true })
  let value ← value.value loop.type
  if value.diverges then return
  else if value.type = .void then fail .noValue "break value has no value"
  else
    let loop ← targetLoop label "break"
    let register ← loopResult loop value
    emit (.move register value.register)
    jump loop.exit

def leave (label : String) (value : Option ExprCode) : Lower Unit := do
  let loop ← targetLoop label "break"
  match value with
  | none =>
    modify (·.modifyLoop loop.exit fun loop => { loop with hasBare := true })
    jump loop.exit
  | some code =>
    if !loop.takesValue then fail .breakValue "only loop can break with a value"
    else leaveWith loop label code

def proceed (label : String) : Lower Unit := do
  jump (← targetLoop label "continue").next

def returnOperands : List ReturnSlot → List ExprCode → Lower (Option (List TypedReg))
  | _, [] => return some []
  | slots, code :: rest => do
      let want := (slots.head?.map ReturnSlot.type).getD .unspecified
      let value ← whilePending (storedNames rest) (code.value want)
      if value.diverges then return none
      else return (← returnOperands (slots.drop 1) rest).map (value :: ·)

def giveBack (values : List ExprCode) : Lower Unit := do
  match ← returnOperands (← read).signature.returns values with
  | none => return
  | some values => returnValues values

def block (statements : Lower Unit) (tail : Option ExprCode) (want : Ty) : Lower TypedReg :=
  inScope do
    statements
    match tail with
    | some code => code.value want
    | none => if ← isDead then return .never else return .void

end Lower

end Backend65816
