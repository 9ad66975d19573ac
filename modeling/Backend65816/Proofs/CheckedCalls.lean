import Mathlib.Logic.Relation
import Backend65816.Proofs.AddedStatements

/-!
# Checked calls

The check of a body passes just if each of its direct calls keeps the rules, and it sees the calls
anywhere in the body. No direct call of such a body makes its lowering fail, and the calls in its
graph reach their functions.
-/

namespace Backend65816

open List

variable {body : Block} {signature : Signature} {context : UnitContext}

/-! ## Calls anywhere in a body -/

def Otherwise.children : Otherwise → List SyntaxNode
  | .nothing => []
  | .block body => [.block body]
  | .conditional condition thenBlock otherwise =>
    [.statement (.conditional condition thenBlock otherwise)]

namespace SyntaxNode

/-- The parts of a node. -/
def children : SyntaxNode → List SyntaxNode
  | .block (.mk statements tail) => statements.map .statement ++ tail.toList.map .expression
  | .statement (.block body) | .statement (.loop _ body) => [.block body]
  | .statement (.bind _ _ init _) => init.toList.map .expression
  | .statement (.assign target value) => [.expression target, .expression value]
  | .statement (.expr value) => [.expression value]
  | .statement (.conditional condition thenBlock otherwise) =>
    .expression condition :: .block thenBlock :: otherwise.children
  | .statement (.whileLoop _ condition body) => [.expression condition, .block body]
  | .statement (.forLoop _ _ _ first last _ body) =>
    [.expression first, .expression last, .block body]
  | .statement (.leave _ value) => value.toList.map .expression
  | .statement (.proceed _) => []
  | .statement (.giveBack values) => values.map .expression
  | .expression (.int _ _) | .expression (.bool _) | .expression (.name _)
  | .expression (.variant _ _) => []
  | .expression (.binary _ left right) => [.expression left, .expression right]
  | .expression (.unary _ operand) | .expression (.cast operand _) => [.expression operand]
  | .expression (.call _ arguments) => arguments.map .expression
  | .expression (.method receiver _ _ arguments) =>
    .expression receiver :: arguments.map .expression
  | .expression (.field object _) | .expression (.isType object _)
  | .expression (.tagOf object) => [.expression object]
  | .expression (.conditional condition thenBlock otherwise) =>
    .expression condition :: .block thenBlock :: otherwise.toList.map .expression
  | .expression (.block body) | .expression (.loop _ body) => [.block body]
  | .expression (.select scrutinee arms) =>
    .expression scrutinee :: arms.map fun arm => .expression arm.body

def nodes : SyntaxNode → List SyntaxNode
  | .block body => body.nodes
  | .statement stmt => stmt.nodes
  | .expression expr => expr.nodes

theorem nodesOfExprs_eq (exprs : List Expr) : nodesOfExprs exprs = exprs.flatMap Expr.nodes := by
  induction exprs <;> simp_all [nodesOfExprs]

theorem nodesOfStmts_eq (stmts : List Stmt) : nodesOfStmts stmts = stmts.flatMap Stmt.nodes := by
  induction stmts <;> simp_all [nodesOfStmts]

theorem nodesOfArms_eq (arms : List Arm) :
    nodesOfArms arms = arms.flatMap fun arm => arm.body.nodes := by
  induction arms with
  | nil => rfl
  | cons arm _ ih =>
    cases arm
    exact congrArg _ ih

theorem nodes_of_otherwise {child node : SyntaxNode} {otherwise : Otherwise}
    (mem : child ∈ otherwise.children) (below : node ∈ child.nodes) : node ∈ otherwise.nodes := by
  cases otherwise with
  | nothing => cases mem
  | block | conditional =>
    cases mem_singleton.mp mem
    exact below

theorem nodes_of_children {parent child : SyntaxNode} (mem : child ∈ parent.children) :
    child.nodes ⊆ parent.nodes := by
  intro node below
  unfold children at mem
  split at mem
  all_goals
    simp only [nodes, Block.nodes, Stmt.nodes, Expr.nodes, nodesOfExprs_eq, nodesOfStmts_eq,
      nodesOfArms_eq]
    grind [nodes_of_otherwise, nodesOfOption, nodes]

end SyntaxNode

def Block.Contains (body : Block) : SyntaxNode → Prop :=
  Relation.ReflTransGen (fun parent child => child ∈ parent.children) (.block body)

theorem Block.Contains.nodes_subset {node : SyntaxNode}
    (contains : body.Contains node) : node.nodes ⊆ body.nodes := by
  induction contains with
  | refl => exact .refl _
  | tail _ mem ih => exact List.Subset.trans (SyntaxNode.nodes_of_children mem) ih

/-! ## The check of a body -/

theorem forM_eq_ok_iff {α : Type} {check : α → Except Diagnostic Unit} {items : List α} :
    items.forM check = .ok () ↔ ∀ item ∈ items, check item = .ok () := by
  induction items with
  | nil => simp [List.forM, pure, Except.pure]
  | cons item rest ih =>
    rw [List.forM, forall_mem_cons, ← ih]
    cases checked : check item with
    | error => simp [bind, Except.bind]
    | ok => exact (and_iff_right rfl).symm

theorem checkCalls_eq_ok_iff {signatures : Signatures} {caller : Signature} :
    checkCalls signatures caller body = .ok () ↔
      ∀ name arguments, .expression (.call name arguments) ∈ body.nodes →
        ∃ callee, signatures.get? name = some callee ∧ caller.MayCall callee arguments.length := by
  simp only [← checkDirectCall_eq_ok_iff]
  refine forM_eq_ok_iff.trans ⟨fun checked name arguments listed => ?_, fun checked call mem => ?_⟩
  · exact checked (name, arguments) (mem_filterMap.mpr ⟨_, listed, rfl⟩)
  · obtain ⟨node, listed, same⟩ := mem_filterMap.mp mem
    unfold SyntaxNode.call? at same
    split at same
    · cases same
      exact checked _ _ listed
    · cases same

theorem Lower.callFunction_eq {callee : Signature} {name : String}
    {exprs : List Expr} (found : context.signatures.get? name = some callee)
    (may : signature.MayCall callee exprs.length) (pending : List String) (depth : Nat) :
    callFunction name (codeOfExprs exprs) ⟨context, signature, pending, depth⟩ = (do
      match ← argumentValues callee.name callee.params (codeOfExprs exprs) with
      | none => return []
      | some values => callDirect callee values) ⟨context, signature, pending, depth⟩ := by
  have checked := checkCall_eq_ok_iff.mpr ⟨may.near, may.scratch⟩
  have counted := (length_codeOfExprs exprs).trans may.arity
  funext draft
  rw [callFunction, read_bind]
  simp only [found, may.callable, checked, passArguments, counted, ne_eq, not_true_eq_false,
    if_false]
  rfl

/-! ## Failures and calls of the lowered body -/

theorem UnitContext.lower_error
    {failure : LoweringFailure} (failed : context.lower signature body = .error failure) :
    failure.Plain ∨ ∃ node ∈ body.nodes, context.Refuses signature node failure := by
  let piece : Piece := ⟨context, signature, body.nodes, {}, true⟩
  have makes := piece.executes_function body (.refl _) rfl [] {}
  have ends : (Lower.function body).Ends (piece.around [] 0) {} _ piece.MayFail :=
    makes.ends (.refl {}) (.start (Draft.wellFormed_empty signs))
  change (Lower.function body (piece.around [] 0) {} >>= _) = _ at failed
  cases ran : Lower.function body (piece.around [] 0) {} with
  | error reason =>
    rw [ran] at failed
    cases failed
    exact ends.of_error ran
  | ok made =>
    rw [ran] at failed
    cases failed

/-- What a direct call may break. -/
def DiagnosticCode.ofCalls : List DiagnosticCode :=
  [.unknownFunction, .arity, .interruptSignature, .crossBankCall, .scratchCall]

theorem UnitContext.lower_of_checkCalls (context : UnitContext) (signature : Signature)
    (body : Block) :
    (checkCalls context.signatures signature body = .ok () ↔
      ∀ name arguments, .expression (.call name arguments) ∈ body.nodes →
        ∃ callee, context.signatures.get? name = some callee ∧
          signature.MayCall callee arguments.length) ∧
    (∀ name arguments, body.Contains (.expression (.call name arguments)) →
      .expression (.call name arguments) ∈ body.nodes) ∧
    (checkCalls context.signatures signature body = .ok () →
      (∀ name arguments, .expression (.call name arguments) ∈ body.nodes →
        ∃ callee, context.signatures.get? name = some callee ∧ ∀ pending depth,
          Lower.callFunction name (codeOfExprs arguments) ⟨context, signature, pending, depth⟩ =
            (do
              match ← Lower.argumentValues callee.name callee.params (codeOfExprs arguments) with
              | none => return []
              | some values => Lower.callDirect callee values : Lower (List TypedReg))
              ⟨context, signature, pending, depth⟩) ∧
      (∀ code ∈ DiagnosticCode.ofCalls, ∀ declaration message,
        context.lower signature body = .error (.report (code.report declaration message)) →
        ∃ receiver traitName method arguments,
          .expression (.method receiver traitName method arguments) ∈ body.nodes ∧
          context.RefusesMethod signature traitName method arguments.length
            (.report (code.report declaration message))) ∧
      ∀ graph, context.lower signature body = .ok graph →
        ∀ block ∈ graph.blocks, ∀ details, .call details ∈ block.actions →
          (∃ operation width,
            details.function = (Signature.helper operation width signature.bank).name) ∨
          ∃ name callee, context.signatures.get? name = some callee ∧
            details.function = callee.name ∧ (callee.far = true ∨ callee.bank = signature.bank)) := by
  refine ⟨checkCalls_eq_ok_iff, fun _ _ contains => contains.nodes_subset (.head _),
    fun checked => ⟨fun name arguments listed => ?_, fun code mem _ _ failed => ?_,
      fun graph lowered block block_mem details mem => ?_⟩⟩
  · obtain ⟨callee, found, may⟩ := checkCalls_eq_ok_iff.mp checked name arguments listed
    exact ⟨callee, found, Lower.callFunction_eq found may⟩
  · rcases lower_error failed with plain | ⟨node, listed, refuses⟩
    · have kinds : ∀ code ∈ DiagnosticCode.ofCalls, code.kind = .convention := by decide
      exact absurd (kinds code mem) plain
    · cases refuses with
      | direct breaks =>
        have kept := checkCalls_eq_ok_iff.mp checked _ _ listed
        exact absurd (checkDirectCall_eq_ok_iff.mpr kept) breaks
      | method refuses => exact ⟨_, _, _, _, listed, refuses⟩
  · cases lower_allows lowered block_mem mem with
    | plain quiet => cases quiet
    | global found reached => cases reached
    | direct found checked function _ =>
      exact .inr ⟨_, _, found, function, (checkCall_eq_ok_iff.mp checked).1⟩
    | routine function _ => exact .inl ⟨_, _, function⟩

def tickSignature : Signature where
  name := "tick"

def tickContext : UnitContext where
  unit := {}
  signatures := [("tick", tickSignature)]
  plan := { tags := { limit := 0 } }
  settings := default

def ticking : Block := .mk [.expr (.call "tick" [])] none

/-- The second call has an argument too many. Nothing reaches it. -/
def tickingLate : Block :=
  .mk [.expr (.call "tick" []), .giveBack [], .expr (.call "tick" [.bool true])] none

theorem ticking_checked :
    (checkCalls tickContext.signatures tickSignature ticking = .ok () ∧
      ∃ graph block details, tickContext.lower tickSignature ticking = .ok graph ∧
        block ∈ graph.blocks ∧ .call details ∈ block.actions ∧ details.function = "tick" ∧
        ((∃ operation width, details.function = (Signature.helper operation width 0).name) ∨
          ∃ name callee, tickContext.signatures.get? name = some callee ∧
            details.function = callee.name ∧ (callee.far = true ∨ callee.bank = 0))) ∧
    tickingLate.Contains (.expression (.call "tick" [.bool true])) ∧
    checkCalls tickContext.signatures tickSignature tickingLate ≠ .ok () := by
  have contains : tickingLate.Contains (.expression (.call "tick" [.bool true])) :=
    .tail (.single (.tail _ (.tail _ (.head _)))) (.head _)
  obtain ⟨checked, listed, -⟩ := tickContext.lower_of_checkCalls tickSignature tickingLate
  obtain ⟨-, -, lowers⟩ := tickContext.lower_of_checkCalls tickSignature ticking
  refine ⟨⟨rfl, ?_⟩, contains, fun passed => ?_⟩
  · obtain ⟨graph, lowered, first⟩ : ∃ graph, tickContext.lower tickSignature ticking = .ok graph ∧
        graph.blocks[0]? = some
          { name := "entry"
            actions := [.call { function := "tick" }]
            terminator := some (.giveBack []) } := ⟨_, rfl, by decide +kernel⟩
    have mem := Array.mem_of_getElem? first
    exact ⟨graph, _, _, lowered, mem, .head _, rfl, (lowers rfl).2.2 _ lowered _ mem _ (.head _)⟩
  · obtain ⟨callee, found, may⟩ := checked.mp passed _ _ (listed _ _ contains)
    cases found
    cases may.arity

/-- A declaration without a name stops lowering, in every unit. -/
theorem UnitContext.lower_nameless (context : UnitContext) :
    context.lower { name := "f" } (.mk [.bind [] .u8 none none] none) =
      .error (.fault .namelessBinding) := rfl

end Backend65816
