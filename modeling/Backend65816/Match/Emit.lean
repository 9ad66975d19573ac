import Backend65816.Flow.Graph
import Backend65816.Match.Plan

/-!
# Decision code of matches

A plan is carried out by a list of commands that build blocks. Blocks and registers are local to the
match: blocks count from one, the scrutinee is register one, and new registers count from two. An
arm stands for the code of its outcome, which leaves the match.
-/

namespace Backend65816

/-- A command that builds part of a match. -/
inductive MatchCommand where
  | newBlock (id : Nat) (name : String)
  | enter (id : Nat)
  | test (condition : Cond) (register : Nat) (value : Int) (thenBlock elseBlock : Nat)
  | jump (target : Nat)
  | index (target register : Nat) (base : Int)
  | jumpTable (index : Nat) (targets : List Nat)
  | lookup (values : List Int) (index : Nat)
  | arm (index : Nat)
deriving DecidableEq, Repr, Inhabited

def MatchCommand.text : MatchCommand → String
  | newBlock id name => "block b" ++ toString id ++ " " ++ name
  | enter id => "set b" ++ toString id
  | test condition register value thenBlock elseBlock =>
    "test v" ++ toString register ++ " " ++ condition.text ++ " " ++ toString value ++
      " then b" ++ toString thenBlock ++ " else b" ++ toString elseBlock
  | jump target => "jump b" ++ toString target
  | index target register base =>
    "v" ++ toString target ++ " = index v" ++ toString register ++ " - " ++ toString base
  | jumpTable register targets =>
    "jumptable v" ++ toString register ++ " [" ++
      String.intercalate " " (targets.map toString) ++ "]"
  | lookup values register =>
    "lookup v" ++ toString register ++ " " ++ Text.numberList values
  | arm number => "arm " ++ toString number

/-- Commands so far, and the numbers used. -/
structure MatchCode where
  commands : Array MatchCommand := #[]
  blocks : Nat := 0
  registers : Nat := 1
deriving Repr, Inhabited

abbrev MatchEmit : Type → Type := StateM MatchCode

namespace MatchEmit

def command (command : MatchCommand) : MatchEmit Unit :=
  modify fun code => { code with commands := code.commands.push command }

def newBlock (name : String) : MatchEmit Nat := do
  let id := (← get).blocks + 1
  modify fun code => { code with blocks := id }
  command (.newBlock id name)
  return id

def newIndex (register : Nat) (base : Int) : MatchEmit Nat := do
  let target := (← get).registers + 1
  modify fun code => { code with registers := target }
  command (.index target register base)
  return target

def scrutinee : Nat := 1

def testRange (descriptor : MatchDescriptor) (low high : Int) (yes no : Nat) :
    MatchEmit Unit := do
  let (least, greatest) := descriptor.domain
  if low = high then command (.test .eq scrutinee low yes no)
  else if low ≤ least ∧ high ≥ greatest then command (.jump yes)
  else if low ≤ least then command (.test .le scrutinee high yes no)
  else if high ≥ greatest then command (.test .ge scrutinee low yes no)
  else
    let upper ← newBlock "match.range"
    command (.test .lt scrutinee low no upper)
    command (.enter upper)
    command (.test .le scrutinee high yes no)

def testValues (descriptor : MatchDescriptor) (pattern : Pattern) (yes no : Nat) :
    MatchEmit Unit :=
  match descriptor.valueRange pattern with
  | .ok (low, high) => testRange descriptor low high yes no
  | .error _ => testRange descriptor 0 0 yes no

mutual

/-- Ends the current block with tests that reach `yes` when the scrutinee has a value of the
pattern, and `no` otherwise. -/
def testPattern (descriptor : MatchDescriptor) : Pattern → (yes no : Nat) → MatchEmit Unit
  | .any alternatives, yes, no => testAlternatives descriptor alternatives yes no
  | .wildcard, yes, _ => command (.jump yes)
  | .bind _, yes, _ => command (.jump yes)
  | .literal value, yes, no => testValues descriptor (.literal value) yes no
  | .variant enum variant, yes, no => testValues descriptor (.variant enum variant) yes no
  | .range low high inclusive, yes, no =>
    testValues descriptor (.range low high inclusive) yes no

def testAlternatives (descriptor : MatchDescriptor) : List Pattern → (yes no : Nat) →
    MatchEmit Unit
  | [], _, _ => pure ()
  | pattern :: rest, yes, no => do
      if rest.isEmpty then testPattern descriptor pattern yes no
      else
        let next ← newBlock "match.alt"
        testPattern descriptor pattern yes next
        command (.enter next)
        testAlternatives descriptor rest yes no

end

def chain (descriptor : MatchDescriptor) : (index : Nat) → List MatchArm → MatchEmit Unit
  | _, [] => pure ()
  | index, arm :: rest => do
      if rest.isEmpty || arm.pattern.isCatchAll then command (.arm index)
      else
        let body ← newBlock "match.arm"
        let next ← newBlock "match.next"
        testPattern descriptor arm.pattern body next
        command (.enter body)
        command (.arm index)
        command (.enter next)
        chain descriptor (index + 1) rest

def checkRange (plan : MatchPlan) (index : Nat) : MatchEmit (Option Nat) := do
  if plan.rangeCheck then
    let inside ← newBlock "match.table"
    let outside ← newBlock "match.default"
    command (.test .ge index plan.owners.length outside inside)
    command (.enter inside)
    return some outside
  else return none

def armBlocks (arms : List Nat) : MatchEmit (List (Nat × Nat)) :=
  arms.mapM fun arm => do
    let block ← newBlock "match.arm"
    return (arm, block)

def jumpThrough (plan : MatchPlan) (index : Nat) (outside : Option Nat) : MatchEmit Unit := do
  let blocks ← armBlocks (plan.owners.eraseDups.mergeSort)
  command (.jumpTable index (plan.owners.map fun arm => (blocks.lookup arm).getD 0))
  blocks.forM fun (arm, block) => do
    command (.enter block)
    command (.arm arm)
  match outside, plan.fallback with
  | some block, some fallback => do
      command (.enter block)
      match blocks.lookup fallback with
      | some target => command (.jump target)
      | none => command (.arm fallback)
  | _, _ => pure ()

def lookUp (plan : MatchPlan) (index : Nat) (outside : Option Nat) : MatchEmit Unit := do
  command (.lookup plan.values index)
  match outside, plan.fallback with
  | some block, some fallback => do
      command (.enter block)
      command (.arm fallback)
  | _, _ => pure ()

def plan (descriptor : MatchDescriptor) (plan : MatchPlan) : MatchEmit Unit := do
  match plan.strategy with
  | .branchChain => chain descriptor 0 descriptor.arms
  | .jumpTable | .lookupTable =>
    let index ←
      if plan.first ≠ 0 || descriptor.signed then newIndex scrutinee plan.first
      else pure scrutinee
    let outside ← checkRange plan index
    if plan.strategy = .lookupTable then lookUp plan index outside
    else jumpThrough plan index outside

end MatchEmit

def MatchDescriptor.emit (descriptor : MatchDescriptor) (plan : MatchPlan) : List MatchCommand :=
  ((MatchEmit.plan descriptor plan).run {}).2.commands.toList

end Backend65816
