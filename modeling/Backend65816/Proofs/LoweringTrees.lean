import Backend65816.Proofs.LoweringReturns

/-!
# Code of trees

The code of every tree of the core language does what the tree means. The proof is by induction over
the tree, with one rule for each kind of expression and statement.
-/

namespace Backend65816

open List Bool

variable {unit : CompilationUnit} {sig : Signature}

/-! ## Names that parts store to -/

section Stored

variable {node : SyntaxNode} {first second third : List SyntaxNode}

theorem stored_rest : storedIn first ⊆ storedIn (node :: first) :=
  storedIn_subset (subset_cons_self _ _)

theorem stored_left : storedIn first ⊆ storedIn (node :: (first ++ second)) :=
  storedIn_subset (subset_cons_of_subset _ (subset_append_left _ _))

theorem stored_right : storedIn second ⊆ storedIn (node :: (first ++ second)) :=
  storedIn_subset (subset_cons_of_subset _ (subset_append_right _ _))

theorem stored_first : storedIn first ⊆ storedIn (node :: (first ++ second ++ third)) :=
  List.Subset.trans (storedIn_subset (subset_append_left _ _)) stored_left

theorem stored_second : storedIn second ⊆ storedIn (node :: (first ++ second ++ third)) :=
  List.Subset.trans (storedIn_subset (subset_append_right _ _)) stored_left

end Stored

/-! ## Expressions -/

section Expressions

variable {left right operand : Expr}

theorem Expr.Sound.of_value {expr : Expr} {value : Ty → Lower TypedReg} (core : expr.isCore = true)
    (code_eq : expr.code = .ofValue expr value)
    (computes : Computes unit sig (storedIn expr.nodes) value (expr.meaning unit sig)) :
    expr.Sound unit sig where
  core := core
  computes := by rw [code_eq]; exact computes
  branches := by rw [code_eq]; exact branches_of_computes computes

theorem sound_int {num : Int} {type : Ty} (core : (Expr.int num type).isCore = true) :
    (Expr.int num type).Sound unit sig :=
  .of_value core rfl (computes_int (by rwa [Expr.isCore] at core) num)

theorem sound_bool (truth : Bool) : (Expr.bool truth).Sound unit sig where
  core := rfl
  computes := computes_bool truth
  branches := branches_bool truth

theorem sound_binary {operator : BinaryOp} (core : (Expr.binary operator left right).isCore = true)
    (soundLeft : left.Sound unit sig) (soundRight : right.Sound unit sig) :
    (Expr.binary operator left right).Sound unit sig := by
  have left_subset : storedIn left.nodes ⊆ storedIn (Expr.binary operator left right).nodes :=
    stored_left
  have right_subset : storedIn right.nodes ⊆ storedIn (Expr.binary operator left right).nodes :=
    stored_right
  have branchesLeft := soundLeft.branches.mono left_subset
  have branchesRight := soundRight.branches.mono right_subset
  cases operator with
  | and =>
    have branches := branches_both branchesLeft branchesRight
    exact ⟨core, computes_condition branches (Meaning.isCondition_both _ _), branches⟩
  | or =>
    have branches := branches_either branchesLeft branchesRight
    exact ⟨core, computes_condition branches (Meaning.isCondition_either _ _), branches⟩
  | compare cond =>
    exact ⟨core, computes_comparison soundLeft soundRight left_subset right_subset,
      branches_comparison soundLeft soundRight left_subset right_subset⟩
  | arithmetic kind =>
    have computes : Computes unit sig (storedIn (Expr.binary (.arithmetic kind) left right).nodes)
        (.binaryValue (.arithmetic kind) left.code right.code)
        ((Expr.binary (.arithmetic kind) left right).meaning unit sig) := by
      rw [Expr.meaning]
      cases shift : kind.isShift with
      | true =>
        have amount : right.isAmount = true := by
          rw [Expr.isCore, and_eq_true, and_eq_true] at core
          cases kind with
          | shl | shr => exact core.1.1
          | sar => cases core.1.1
          | _ => cases shift
        exact computes_shift soundLeft left_subset shift amount
      | false => exact computes_arithmetic soundLeft soundRight left_subset right_subset shift
    exact ⟨core, computes, branches_of_computes computes⟩
  | routine _ | unknown _ => simp [Expr.isCore, BinaryOp.isCore] at core

theorem sound_unary {operator : UnaryOp} (core : (Expr.unary operator operand).isCore = true)
    (sound : operand.Sound unit sig) : (Expr.unary operator operand).Sound unit sig := by
  have subset : storedIn operand.nodes ⊆ storedIn (Expr.unary operator operand).nodes := stored_rest
  have computes : Computes unit sig (storedIn (Expr.unary operator operand).nodes)
      (.unaryValue operator operand.code)
      ((Expr.unary operator operand).meaning unit sig) := computes_unary sound subset
  cases operator with
  | not => exact ⟨core, computes, branches_not (sound.branches.mono subset)⟩
  | negate | complement | unknown _ => exact ⟨core, computes, branches_of_computes computes⟩

end Expressions

/-! ## Parts that may be absent -/

theorem computes_else {otherwise : Option Expr} (sound : ∀ expr ∈ otherwise, expr.Sound unit sig) :
    Computes unit sig (storedIn (nodesOfOption otherwise))
      (elseValue (codeOfOption otherwise)) (meaningOfElse unit sig otherwise) := by
  cases otherwise with
  | none => exact computes_nothing
  | some expr => exact (sound expr rfl).computes

theorem computes_tail {tail : Option Expr} (sound : ∀ expr ∈ tail, expr.Sound unit sig) :
    Computes unit sig (storedIn (nodesOfOption tail)) (tailValue (codeOfOption tail))
      ((meaningOfOption unit sig tail).getD .noTail) := by
  cases tail with
  | none => exact computes_noTail
  | some expr => exact (sound expr rfl).computes

/-! ## Trees -/

mutual

theorem Expr.sound (valued : unit.HasValues) (sized : sig.Sized unit) (expr : Expr)
    (core : expr.isCore = true) : expr.Sound unit sig := by
  match expr with
  | .int num type => exact sound_int core
  | .bool truth => exact sound_bool truth
  | .name name =>
    exact ⟨core, computes_name valued, branches_of_computes (computes_name valued)⟩
  | .binary operator left right =>
    have parts := core
    rw [Expr.isCore, and_eq_true, and_eq_true] at parts
    exact sound_binary core (left.sound valued sized parts.1.2) (right.sound valued sized parts.2)
  | .unary operator operand =>
    have parts := core
    rw [Expr.isCore, and_eq_true] at parts
    exact sound_unary core (operand.sound valued sized parts.2)
  | .conditional cond thenBlock otherwise =>
    have parts := core
    rw [Expr.isCore, and_eq_true, and_eq_true] at parts
    exact .of_value core rfl (computes_conditional
      ((cond.sound valued sized parts.1.1).branches.mono stored_first)
      ((thenBlock.computes valued sized parts.1.2).mono stored_second)
      ((computes_else (soundOption valued sized parts.2)).mono stored_right))
  | .block body =>
    have parts := core
    rw [Expr.isCore] at parts
    exact .of_value core rfl ((body.computes valued sized parts).mono stored_rest)
  | .loop label body =>
    have parts := core
    rw [Expr.isCore] at parts
    exact .of_value core rfl (computes_loop ((body.computes valued sized parts).mono stored_rest) label)
  | .variant _ _ | .call _ _ | .method _ _ _ _ | .field _ _ | .select _ _ | .cast _ _
  | .isType _ _ | .tagOf _ => cases core

theorem soundOption (valued : unit.HasValues) (sized : sig.Sized unit) {found : Option Expr}
    (core : isCoreOption found = true) : ∀ expr ∈ found, expr.Sound unit sig := by
  match found with
  | none => exact nofun
  | some expr =>
    intro other mem
    cases mem
    exact expr.sound valued sized core

theorem soundList (valued : unit.HasValues) (sized : sig.Sized unit) {expressions : List Expr}
    (core : isCoreList expressions = true) : ∀ expr ∈ expressions, expr.Sound unit sig := by
  match expressions with
  | [] => exact nofun
  | expr :: rest =>
    rw [isCoreList, and_eq_true] at core
    exact forall_mem_cons.mpr ⟨expr.sound valued sized core.1, soundList valued sized core.2⟩

theorem Stmt.executes (valued : unit.HasValues) (sized : sig.Sized unit) (statement : Stmt)
    (core : statement.isCore = true) :
    Executes unit sig (storedIn statement.nodes) statement.code (statement.meaning unit sig) := by
  match statement with
  | .block body =>
    rw [Stmt.isCore] at core
    exact executes_ofExpr (body.computes valued sized core)
  | .bind names type init addr =>
    rw [Stmt.isCore] at core
    simp only [and_eq_true, decide_eq_true_eq] at core
    obtain ⟨⟨⟨⟨single, typed⟩, given⟩, placeless⟩, core⟩ := core
    have sound := soundOption valued sized core
    obtain ⟨name, rfl⟩ := length_eq_one_iff.mp single
    obtain rfl := Option.isNone_iff_eq_none.mp placeless
    obtain ⟨code, rfl⟩ := Option.isSome_iff_exists.mp given
    exact executes_bind ((sound code rfl).computes.mono stored_rest) name typed
  | .assign (.name name) value =>
    rw [Stmt.isCore, Bool.true_and] at core
    exact executes_assign ((value.sound valued sized core).computes.mono stored_right) (.head _)
  | .expr expr =>
    rw [Stmt.isCore] at core
    exact executes_ofExpr ((expr.sound valued sized core).computes.mono stored_rest)
  | .conditional cond thenBlock otherwise =>
    rw [Stmt.isCore, and_eq_true, and_eq_true] at core
    exact executes_conditional ((cond.sound valued sized core.1.1).branches.mono stored_first)
      ((thenBlock.computes valued sized core.1.2).mono stored_second)
      (.mono (otherwise.rejoins valued sized core.2) stored_right)
  | .loop label body =>
    rw [Stmt.isCore] at core
    exact executes_ofExpr (computes_loop ((body.computes valued sized core).mono stored_rest) label)
  | .whileLoop label cond body =>
    rw [Stmt.isCore, and_eq_true] at core
    exact executes_while ((cond.sound valued sized core.1).branches.mono stored_left)
      ((body.computes valued sized core.2).mono stored_right) label
  | .forLoop _ _ _ _ _ _ _ => cases core
  | .leave label none => exact executes_leave label
  | .leave label (some value) =>
    rw [Stmt.isCore, isCoreOption] at core
    exact executes_leaveWith ((value.sound valued sized core).computes.mono stored_rest) label
  | .proceed label => exact executes_proceed label
  | .giveBack vals =>
    rw [Stmt.isCore] at core
    exact executes_giveBack sized (soundList valued sized core) stored_rest

theorem Otherwise.rejoins (valued : unit.HasValues) (sized : sig.Sized unit)
    (otherwise : Otherwise) (core : otherwise.isCore = true) :
    RejoinsOption unit sig (storedIn otherwise.nodes) otherwise.code
      (otherwise.meaning unit sig) := by
  match otherwise with
  | .nothing => exact (rfl : (return pure () : StmtMeaning) = _)
  | .block body =>
    rw [Otherwise.isCore] at core
    exact rejoins_block (body.computes valued sized core)
  | .conditional cond thenBlock otherwise =>
    rw [Otherwise.isCore, and_eq_true, and_eq_true] at core
    exact rejoins_conditional ((cond.sound valued sized core.1.1).branches.mono stored_first)
      ((thenBlock.computes valued sized core.1.2).mono stored_second)
      (.mono (otherwise.rejoins valued sized core.2) stored_right)

theorem executesAll (valued : unit.HasValues) (sized : sig.Sized unit) {statements : List Stmt}
    (core : isCoreStmts statements = true) :
    Executes unit sig (storedIn (nodesOfStmts statements)) (codeOfStmts statements)
      (meaningOfStmts unit sig statements) := by
  match statements with
  | [] => exact executes_nothing
  | statement :: rest =>
    rw [isCoreStmts, and_eq_true] at core
    have first := (statement.executes valued sized core.1).mono
      (storedIn_subset (subset_append_left _ (nodesOfStmts rest)))
    exact first.andThen ((executesAll valued sized core.2).mono (storedIn_subset (subset_append_right _ _)))

theorem Block.computes (valued : unit.HasValues) (sized : sig.Sized unit) (body : Block)
    (core : body.isCore = true) :
    Computes unit sig (storedIn body.nodes) body.code (body.meaning unit sig) := by
  match body with
  | .mk statements tail =>
    rw [Block.isCore, and_eq_true] at core
    exact computes_block ((executesAll valued sized core.1).mono stored_left)
      ((computes_tail (soundOption valued sized core.2)).mono stored_right)

end

end Backend65816
