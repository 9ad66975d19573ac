import Backend65816.Proofs.CodeRuns

/-!
# Steps of lowering

The building steps that succeed, and what it means that the code of a tree does what the tree means.
The code of a value leaves it in a register of its type, which later code keeps unless it stores to
a name that is not pending.
-/

namespace Backend65816

open List Draft

variable {action : Action} {base draft : Draft} {num : Int} {meaning : Meaning} {type : Ty}
  {α : Type} {width : Width} {value : TypedReg} {id : BlockId}

variable {start : Draft} {pre : GraphState → Prop} {names more : List String}
  {unit : CompilationUnit} {after : Draft}

/-! ## Steps that succeed -/

namespace Lower

variable {β : Type} {around : Surroundings}

theorem bind_ok {first : Lower α} {next : α → Lower β} {value : β} :
    (first >>= next) around draft = .ok (value, after) ↔
      ∃ res mid, first around draft = .ok (res, mid) ∧
        next res around mid = .ok (value, after) := by
  have bind_eq : (first >>= next) around draft =
      (first around draft >>= fun found => next found.1 around found.2) := rfl
  rw [bind_eq]
  cases first around draft with
  | error failure => exact ⟨nofun, fun ⟨_, _, failed, _⟩ => nomatch failed⟩
  | ok found =>
    constructor
    · intro ran
      exact ⟨found.1, found.2, rfl, ran⟩
    · rintro ⟨_, _, same, ran⟩
      cases same
      exact ran

variable {code : DiagnosticCode} {message : String}

theorem fail_ne {value : α} : fail code message around draft ≠ .ok (value, after) := nofun

theorem guard_ok {cond : Prop} [Decidable cond] {rest : Lower α} {value : α} :
    (if cond then fail code message else rest) around draft = .ok (value, after) ↔
      ¬cond ∧ rest around draft = .ok (value, after) := by
  split <;> simp_all [fail_ne]

theorem check_ok {res : Except Diagnostic α} {value : α}
    (ran : check res around draft = .ok (value, after)) : res = .ok value ∧ after = draft := by
  cases res with
  | error prob => cases ran
  | ok found =>
    cases ran
    exact ⟨rfl, rfl⟩

theorem newBlock_bind (name : String) (next : BlockId → Lower β) :
    (newBlock name >>= next) around draft =
      next draft.blocks.size around (draft.addBlock name) := rfl

theorem enter_bind (id : BlockId) (next : Unit → Lower β) :
    (enter id >>= next) around draft = next () around (draft.enter id) := rfl

theorem terminate_bind (term : Terminator) (next : Unit → Lower β) :
    (terminate term >>= next) around draft = next () around (draft.terminate term) := rfl

theorem newReg_bind (name : String) (width : Width) (signed : Bool) (next : VReg → Lower β) :
    (newReg name width signed >>= next) around draft =
      next draft.vregs.size around (draft.addReg { name, width, signed }) := rfl

theorem newRegWith_bind (info : VRegInfo) (next : VReg → Lower β) :
    (newRegWith info >>= next) around draft =
      next draft.vregs.size around (draft.addReg info) := rfl

theorem regInfo_bind (reg : VReg) (next : VRegInfo → Lower β) :
    (regInfo reg >>= next) around draft = next (draft.info reg) around draft := rfl

theorem isDead_bind (next : Bool → Lower β) :
    (isDead >>= next) around draft = next draft.isDead around draft := rfl

theorem theUnit_bind (next : CompilationUnit → Lower β) :
    (theUnit >>= next) around draft = next around.context.unit around draft := rfl

theorem read_bind (next : Surroundings → Lower β) :
    (read >>= next) around draft = next around around draft := rfl

theorem get_bind (next : Draft → Lower β) :
    (get >>= next) around draft = next draft around draft := rfl

theorem modify_bind (change : Draft → Draft) (next : Unit → Lower β) :
    (modify change >>= next) around draft = next () around (change draft) := rfl

theorem pure_bind (value : α) (next : α → Lower β) :
    (pure value >>= next) around draft = next value around draft := rfl

theorem terminate_ok {term : Terminator} (ran : terminate term around draft = .ok ((), after)) :
    after = draft.terminate term := by
  cases ran
  rfl

theorem widthOf_ok (ran : widthOf type around draft =
    .ok (width, after)) : around.context.unit.width? type = some width ∧ draft = after := by
  unfold widthOf at ran
  rw [theUnit_bind] at ran
  cases width_eq : around.context.unit.width? type with
  | none =>
    simp_all [fail_ne]
  | some found =>
    rw [width_eq] at ran
    cases ran
    exact ⟨rfl, rfl⟩

theorem inScope_ok {steps : Lower α} {value : α}
    (ran : inScope steps around draft = .ok (value, after)) :
    ∃ inner, steps around draft.pushScope = .ok (value, inner) ∧ after = inner.popScope := by
  unfold inScope at ran
  rw [modify_bind] at ran
  obtain ⟨res, inner, lowered', ran⟩ := bind_ok.mp ran
  cases ran
  exact ⟨inner, lowered', rfl⟩

theorem inLoop_ok {loop left : EnclosingLoop} {steps : Lower Unit}
    (ran : inLoop loop steps around draft = .ok (left, after)) :
    ∃ inner, steps around (draft.pushLoop loop) = .ok ((), inner) ∧ after = inner.popLoop ∧
      left = inner.loops.headD loop := by
  unfold inLoop at ran
  rw [modify_bind] at ran
  obtain ⟨_, inner, lowered', ran⟩ := bind_ok.mp ran
  cases ran
  exact ⟨inner, lowered', rfl, rfl⟩

end Lower

namespace Typed

variable {β : Type} {typing : Typing}

theorem bind_eq {first : Typed α} {next : α → Typed β} {value : α} {after : Typing}
    (found : first typing = (value, after)) : (first >>= next) typing = next value after := by
  have bind_eq : (first >>= next) typing = next (first typing).1 (first typing).2 := rfl
  rw [bind_eq, found]

theorem get_bind (next : Typing → Typed β) : (get >>= next) typing = next typing typing := rfl

theorem modify_bind (change : Typing → Typing) (next : Unit → Typed β) :
    (modify change >>= next) typing = next () (change typing) := rfl

end Typed

/-! ## Sources of code -/

mutual

theorem Expr.code_source : ∀ expr : Expr, expr.code.source = expr
  | .int _ _ | .bool _ | .name _ | .variant _ _ | .conditional _ _ _ | .block _ | .loop _ _ => rfl
  | .binary operator left right => by
      rw [Expr.code]
      cases operator <;> exact congrArg₂ (Expr.binary _) left.code_source right.code_source
  | .unary operator operand => by
      rw [Expr.code]
      cases operator <;> exact congrArg (Expr.unary _) operand.code_source
  | .call fn args => by
      rw [Expr.code]
      exact congrArg (Expr.call fn) (sources_eq args)
  | .method receiver traitName method args => by
      rw [Expr.code]
      exact congrArg₂ (Expr.method · traitName method ·) receiver.code_source (sources_eq args)
  | .field object field => by
      rw [Expr.code]
      exact congrArg (Expr.field · field) object.code_source
  | .select scrutinee arms => by
      rw [Expr.code]
      exact congrArg₂ Expr.select scrutinee.code_source (armSources_eq arms)
  | .cast operand type => by
      rw [Expr.code]
      exact congrArg (Expr.cast · type) operand.code_source
  | .isType object typeName => by
      rw [Expr.code]
      exact congrArg (Expr.isType · typeName) object.code_source
  | .tagOf object => by
      rw [Expr.code]
      exact congrArg Expr.tagOf object.code_source

theorem sources_eq : ∀ expressions : List Expr,
    (codeOfExprs expressions).map ExprCode.source = expressions
  | [] => rfl
  | expr :: rest => by
      rw [codeOfExprs, map_cons, expr.code_source, sources_eq rest]
theorem armSources_eq : ∀ arms : List Arm, (codeOfArms arms).map ArmCode.source = arms
  | [] => rfl
  | .mk pattern body :: rest => by
      rw [codeOfArms, map_cons, armSources_eq rest, codeOfArm, ArmCode.source, body.code_source]
end

/-! ## Values in registers -/

/-- A register of a draft holds a value of its type, and code that stores to pending names only
keeps it. What has no value stands for zero. -/
structure Draft.Provides (draft : Draft) (unit : CompilationUnit) (pending : List String)
    (value : TypedReg) (number : Int) (state : GraphState) : Prop where
  completes : value.type ≠ .never
  content : state.registers value.register = number
  holds : unit.Holds value.type number
  typed : draft.Typed unit value ∨ value = .void
  lasting : ¬draft.Mutable pending value.register

theorem TypedReg.diverges_iff : value.diverges = true ↔ value.type = .never :=
  decide_eq_true_iff

theorem Ty.hasValues_iff : type.hasValues = true ↔ type ≠ .void ∧ type ≠ .never := by
  simp [Ty.hasValues]

namespace Draft.Provides

variable {due : List String} {value : TypedReg} {state : GraphState}

section

variable (provides : draft.Provides unit due value num state) (wf : draft.WellFormed unit)
include provides wf

theorem lt_size : value.register < draft.vregs.size := by
  rcases provides.typed with typed | rfl
  · exact typed.lt_size
  · exact wf.vregs_pos

theorem of_keeps {later : GraphState} (subset : names ⊆ due)
    (keeps : draft.Keeps names state later) : draft.Provides unit due value num later :=
  { provides with
    content := (keeps _ (provides.lt_size wf)
      fun changes => provides.lasting (changes.mono subset)).trans provides.content }

theorem of_leads (leads : draft.Leads after) : after.Provides unit due value num state :=
  { provides with
    typed := provides.typed.imp_left fun typed => typed.of_vregs leads.covered.vregs
    lasting := fun changes => provides.lasting (leads.changes (provides.lt_size wf) changes) }

end

theorem of_pending (provides : draft.Provides unit more value num state)
    (subset : due ⊆ more) : draft.Provides unit due value num state :=
  { provides with lasting := fun changes => provides.lasting (changes.mono subset) }

theorem void (wf : draft.WellFormed unit) (zero : state.registers 0 = 0) (due : List String) :
    draft.Provides unit due .void 0 state where
  completes := by decide
  content := zero
  holds := Width.holds_zero _
  typed := .inr rfl
  lasting := wf.not_mutable_zero due

variable (provides : draft.Provides unit due value num state)
include provides

theorem signed_eq (wf : draft.WellFormed unit) :
    (draft.info value.register).signed = value.type.isSigned := by
  rcases provides.typed with ⟨_, info, found, _, _, signed_eq⟩ | rfl
  · rw [info_of_getElem? found, signed_eq]
  · rw [TypedReg.void, info_of_getElem? wf.noRegister]
    rfl

theorem width_eq (valued : value.type ≠ .void) :
    unit.width? value.type = some (draft.info value.register).width := by
  rcases provides.typed with ⟨_, info, found, _, width_eq, _⟩ | rfl
  · rw [info_of_getElem? found, width_eq]
  · exact absurd rfl valued

end Draft.Provides

/-- A run is where code is added to a draft that provides a value. -/
def Draft.Supplies (draft : Draft) (unit : CompilationUnit) (pending : List String)
    (value : TypedReg) (number : Int) (point : GraphPoint) : Prop :=
  draft.Arrives (draft.Provides unit pending value number) point

/-- The draft with code that puts a result in a new register. -/
def Draft.addResult (draft : Draft) (info : VRegInfo) (action : Action) : Draft :=
  (draft.addReg info).emit action

namespace Draft.WellFormed

variable {rule : RegisterRule}

variable (wf : draft.WellFormed rule)
include wf

theorem addResult (info : VRegInfo) (action : Action) :
    draft.Evolves (draft.addResult info action) rule :=
  (wf.addReg info).trans ((wf.addReg info).wellFormed.emit action)

theorem not_mutable_result (info : VRegInfo) (action : Action) :
    ¬(draft.addResult info action).Mutable names draft.vregs.size :=
  fun changes => wf.not_mutable_new names le_rfl (changes.of_same (emit_scopes ..) (emit_loops ..))

theorem typing_addResult (info : VRegInfo) (action : Action) :
    (draft.addResult info action).typing = draft.typing := by
  rw [Draft.addResult, (wf.addReg info).wellFormed.typing_emit, typing_addReg]

end Draft.WellFormed

@[simp]
theorem Draft.addResult_scopes (draft : Draft) (info : VRegInfo) (action : Action) :
    (draft.addResult info action).scopes = draft.scopes := emit_scopes ..

@[simp]
theorem Draft.addResult_vregs (draft : Draft) (info : VRegInfo) (action : Action) :
    (draft.addResult info action).vregs = draft.vregs.push info := emit_vregs ..

theorem Runs.provide (wf : start.WellFormed unit) {name : String} (valued : type.hasValues = true)
    (width_eq : unit.width? type = some width) (content : GraphState → Int)
    (acts : action.Writes width start.vregs.size content)
    (number_eq : ∀ {state}, pre state → width.truncate (content state) = num) {due : List String} :
    Runs unit ⟨start, names, 0⟩ start
      (start.addResult { name, width, signed := type.isSigned } action) pre (pure num)
      ((start.addResult { name, width, signed := type.isSigned } action).Supplies unit due
        { register := start.vregs.size, type }) := by
  refine (Runs.compute wf { name, width, signed := type.isSigned } content acts number_eq).imp id ?_
  rintro value point ⟨alive, here_eq, rfl, content_eq, holds⟩
  refine ⟨alive, here_eq, (Ty.hasValues_iff.mp valued).2, content_eq, ?_, .inl ?_, ?_⟩
  · grind [CompilationUnit.Holds, CompilationUnit.widthOf]
  · refine ⟨Nat.ne_of_gt wf.vregs_pos, { name, width, signed := type.isSigned }, ?_,
      valued, width_eq, rfl⟩
    simp
  · exact wf.not_mutable_result _ _

/-- A register is kept free for a value. -/
structure Draft.Reserved (draft : Draft) (rule : RegisterRule) (value : TypedReg) : Prop where
  typed : draft.Typed rule value
  unowned : value.register ∉ draft.owned

theorem Draft.Leads.mem_owned {before : Draft} (leads : before.Leads after) {reg : VReg}
    (below : reg < before.vregs.size) (owned : reg ∈ after.owned) : reg ∈ before.owned := by
  rcases mem_owned_iff.mp owned with ⟨scope, scope_mem, entry, entry_mem, same⟩ | known
  · have changes : after.Mutable [entry.1] reg :=
      .inr ⟨scope, scope_mem, entry, entry_mem, .head _, same⟩
    exact (leads.changes below changes).mem_owned
  · have changes : after.Mutable [] reg := .inl known
    exact (leads.changes below changes).mem_owned

namespace Draft.Reserved

variable {rule : RegisterRule} {value : TypedReg}

theorem of_leads (reserved : draft.Reserved rule value) (leads : draft.Leads after) :
    after.Reserved rule value where
  typed := reserved.typed.of_vregs leads.covered.vregs
  unowned owned := reserved.unowned (leads.mem_owned reserved.typed.lt_size owned)

theorem addReg {other : RegisterRule} (wf : draft.WellFormed other) {info : VRegInfo}
    (fits : rule.fits type info) :
    (draft.addReg info).Reserved rule { register := draft.vregs.size, type } where
  typed := ⟨Nat.ne_of_gt wf.vregs_pos, info, Array.getElem?_push_size, fits⟩
  unowned owned := Nat.lt_irrefl _ (wf.owned_typed owned).2

theorem provides (reserved : draft.Reserved unit value) {state : GraphState}
    (content : state.registers value.register = num) (holds : unit.Holds value.type num)
    (due : List String) : draft.Provides unit due value num state where
  completes := (Ty.hasValues_iff.mp reserved.typed.hasValues).2
  content := content
  holds := holds
  typed := .inl reserved.typed
  lasting changes := reserved.unowned changes.mem_owned

end Draft.Reserved

theorem Runs.put {extent : Extent} (wf : start.WellFormed unit)
    (reserved : start.Reserved unit value) (new : extent.base.vregs.size ≤ value.register)
    (content : GraphState → Int)
    (acts : action.Writes (unit.widthOf value.type) value.register content)
    (number_eq : ∀ {state}, pre state → unit.fit value.type (content state) = num)
    (due : List String) :
    Runs unit extent start (start.emit action) pre (pure num)
      ((start.emit action).Supplies unit due value) := by
  refine .step fun {graph args fuel env state} completes alive agrees holds => ?_
  obtain ⟨nonzero, info, known, _, width_eq, _⟩ := reserved.typed
  have fit_eq : graph.width value.register = unit.widthOf value.type := by
    rw [((wf.emit action).toLeads.completes completes).width_eq known, CompilationUnit.widthOf,
      width_eq, Option.getD_some]
  have next := completes.step_emit wf alive (@acts graph args state fit_eq)
  refine ⟨num, env, _, rfl, next, ?_, .write_new new _ _, ?_, rfl, ?_⟩
  · rw [emit_scopes]
    refine agrees.write (fun scope scope_mem entry entry_mem same => ?_) nonzero _ _
    exact reserved.unowned (mem_owned_iff.mpr (.inl ⟨scope, scope_mem, entry, entry_mem, same⟩))
  · rw [wf.isDead_emit]
    exact alive
  · refine (reserved.of_leads (wf.emit action).toLeads).provides ?_ ?_ due
    · exact (GraphState.write_self ..).trans (number_eq holds)
    · rw [← number_eq holds]
      exact Width.holds_truncate _ _

/-! ## Code that does what a tree means -/

/-- A draft to which code was added and no name was declared. -/
structure Draft.Adds (before after : Draft) (rule : RegisterRule) : Prop
    extends Evolves before after rule where
  scopes : after.scopes = before.scopes

namespace Draft

variable {rule : RegisterRule} {first second third : Draft}

theorem Adds.trans (early : first.Adds second rule) (late : second.Adds third rule) :
    first.Adds third rule :=
  { early.toEvolves.trans late.toEvolves with scopes := late.scopes.trans early.scopes }

theorem WellFormed.adds (wf : draft.WellFormed rule) : draft.Adds draft rule :=
  { wf.evolves with scopes := rfl }

section

variable (adds : first.Adds second rule)
include adds

theorem Adds.addBlock (name : String) : first.Adds (second.addBlock name) rule :=
  adds.trans { adds.wellFormed.addBlock name with scopes := rfl }

theorem Adds.addReg (info : VRegInfo) : first.Adds (second.addReg info) rule :=
  adds.trans { adds.wellFormed.addReg info with scopes := rfl }

theorem Adds.addResult (info : VRegInfo) (action : Action) :
    first.Adds (second.addResult info action) rule :=
  adds.trans { adds.wellFormed.addResult info action with scopes := addResult_scopes .. }

theorem Adds.emit (action : Action) : first.Adds (second.emit action) rule :=
  adds.trans { adds.wellFormed.emit action with scopes := emit_scopes .. }

theorem Adds.terminate (term : Terminator) : first.Adds (second.terminate term) rule :=
  adds.trans { adds.wellFormed.terminate term with scopes := terminate_scopes .. }

theorem Adds.enter (fresh : second.Fresh id)
    (new : first.blocks.size ≤ id) : first.Adds (second.enter id) rule :=
  { adds.toEvolves.enter fresh new with scopes := adds.scopes }

end

theorem Fresh.of_adds (fresh : draft.Fresh id) (adds : draft.Adds after rule) :
    after.Fresh id := fresh.of_grows adds.toGrows

end Draft

section

variable {run : Eval α} {goal : α → GraphPoint → Prop}
  (runs : Runs unit ⟨draft, names, 0⟩ start after pre run goal)
include runs

theorem Runs.part (leads : base.Leads draft) (scopes : draft.scopes = base.scopes)
    (subset : names ⊆ more) : Runs unit ⟨base, more, 0⟩ start after pre run goal :=
  runs.within (.of_leads leads subset le_rfl (congrArg (List.drop 0) scopes))

theorem Runs.behind (adds : base.Adds draft unit) :
    Runs unit ⟨base, names, 0⟩ start after pre run goal :=
  runs.part adds.toLeads adds.scopes (.refl _)

end

theorem Runs.andThen {β : Type} {middle : Draft} {first : Eval α} {next : α → Eval β}
    {mid : α → GraphState → Prop} {goal : β → GraphPoint → Prop}
    (early : Runs unit ⟨base, more, 0⟩ start middle pre first fun value =>
      middle.Arrives (mid value))
    (late : ∀ value, Runs unit ⟨middle, names, 0⟩ middle after (mid value) (next value) goal)
    (adds : base.Adds middle unit) (leads : middle.Leads after) (subset : names ⊆ more) :
    Runs unit ⟨base, more, 0⟩ start after pre (first >>= next) goal :=
  early.bind (fun value => (late value).part adds.toLeads adds.scopes subset) leads

/-- Surroundings belong to a function of a unit. -/
structure Surroundings.Belong (around : Surroundings) (unit : CompilationUnit)
    (signature : Signature) : Prop where
  unit : around.context.unit = unit
  signature : around.signature = signature

theorem Surroundings.Belong.whilePending {around : Surroundings} {sig : Signature}
    (belong : around.Belong unit sig) (names : List String) :
    Belong { around with pending := names ++ around.pending } unit sig :=
  ⟨belong.unit, belong.signature⟩

section Specifications

variable (unit : CompilationUnit) (signature : Signature) (names : List String)

/-- Code that stores to some names computes the value that an expression means. -/
def Computes (value : Ty → Lower TypedReg) (meaning : Meaning) : Prop :=
  ∀ ⦃want : Ty⦄ ⦃around : Surroundings⦄ ⦃draft after : Draft⦄ ⦃result : TypedReg⦄,
    around.Belong unit signature → draft.WellFormed unit →
    value want around draft = .ok (result, after) →
    ∃ run, meaning want draft.typing = ((result.type, run), after.typing) ∧
      draft.Adds after unit ∧
      Runs unit ⟨draft, names, 0⟩ draft after (fun _ => True) run
        (after.Supplies unit around.pending result)

/-- Code that stores to some names goes on as an expression decides. -/
def Branches (branch : (yes no : BlockId) → Lower Unit) (meaning : Meaning) : Prop :=
  ∀ ⦃yes no : BlockId⦄ ⦃around : Surroundings⦄ ⦃draft after : Draft⦄,
    around.Belong unit signature → draft.WellFormed unit →
    branch yes no around draft = .ok ((), after) →
    ∃ run, meaning.test draft.typing = (run, after.typing.revived) ∧ draft.Adds after unit ∧
      Runs unit ⟨draft, names, 0⟩ draft after (fun _ => True) run fun number =>
        StartsAt (if number ≠ 0 then yes else no)

/-- Code that stores to some names does what a statement means. -/
def Executes (steps : Lower Unit) (meaning : StmtMeaning) : Prop :=
  ∀ ⦃around : Surroundings⦄ ⦃draft after : Draft⦄,
    around.Belong unit signature → draft.WellFormed unit →
    steps around draft = .ok ((), after) →
    ∃ run, meaning draft.typing = (run, after.typing) ∧ draft.Evolves after unit ∧
      after.scopes.drop 1 = draft.scopes.drop 1 ∧
      Runs unit ⟨draft, names, 1⟩ draft after (fun _ => True) run fun _ =>
        after.Arrives fun _ => True

/-- Code that stores to some names does what the else side of a conditional means, and then goes on
behind the conditional. -/
def Rejoins (steps : BlockId → Lower Unit) (meaning : StmtMeaning) : Prop :=
  ∀ ⦃target : BlockId⦄ ⦃around : Surroundings⦄ ⦃draft after : Draft⦄,
    around.Belong unit signature → draft.WellFormed unit →
    steps target around draft = .ok ((), after) →
    ∃ run typing, meaning draft.typing = (run, typing) ∧
      typing.revived = after.typing.revived ∧ draft.Adds after unit ∧
      Runs unit ⟨draft, names, 0⟩ draft after (fun _ => True) run fun _ => StartsAt target

def storedIn (nodes : List SyntaxNode) : List String := nodes.filterMap SyntaxNode.assigned?

/-- The code of an expression of the core language does what the expression means. -/
structure Expr.Sound (expression : Expr) : Prop where
  core : expression.isCore = true
  computes : Computes unit signature (storedIn expression.nodes) expression.code.value
    (expression.meaning unit signature)
  branches : Branches unit signature (storedIn expression.nodes) expression.code.branch
    (expression.meaning unit signature)

end Specifications

theorem storedIn_subset {nodes more : List SyntaxNode} (subset : nodes ⊆ more) :
    storedIn nodes ⊆ storedIn more := filterMap_subset _ subset

theorem storedNames_codes (expressions : List Expr) :
    storedNames (codeOfExprs expressions) = storedIn (nodesOfExprs expressions) := by
  rw [storedNames, sources_eq, assignedNames, storedIn]

theorem storedNames_code {expr : Expr} : storedNames [expr.code] = storedIn expr.nodes := by
  rw [storedNames, map_singleton, expr.code_source, assignedNames, nodesOfExprs,
    nodesOfExprs, append_nil, storedIn]

section Sound

variable {sig : Signature}

theorem Computes.mono {value : Ty → Lower TypedReg}
    (computes : Computes unit sig names value meaning) (subset : names ⊆ more) :
    Computes unit sig more value meaning := by
  intro want around draft after res belong wf ran
  obtain ⟨run, typed, adds, runs⟩ := computes belong wf ran
  exact ⟨run, typed, adds, runs.part (.refl draft) rfl subset⟩

theorem Branches.mono {branch : (yes no : BlockId) → Lower Unit}
    (branches : Branches unit sig names branch meaning) (subset : names ⊆ more) :
    Branches unit sig more branch meaning := by
  intro yes no around draft after belong wf ran
  obtain ⟨run, typed, adds, runs⟩ := branches belong wf ran
  exact ⟨run, typed, adds, runs.part (.refl draft) rfl subset⟩

variable {expr : Expr}

theorem Expr.Sound.hasValues_of_literal (sound : expr.Sound unit sig) {literal : Int × Ty}
    (found : expr.literal? = some literal) : literal.2.hasValues = true := by
  have core := sound.core
  cases expr with
  | int num type =>
    cases found
    rwa [Expr.isCore] at core
  | _ => cases found

end Sound

end Backend65816
