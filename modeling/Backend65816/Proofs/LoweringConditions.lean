import Backend65816.Proofs.LoweringOperations

/-!
# Code of unary operations and conditions

A unary operation on a literal is a constant, and on a value one instruction. A condition that is
negated goes on with its ways exchanged. The right side of a conjunction or disjunction has a block
of its own, which the left side skips or enters.
-/

namespace Backend65816

open Typed Meaning Lower Eval Draft Nat Runs

variable {yes no target id : BlockId} {after draft start mid : Draft} {extent : Extent}
  {pre : GraphState → Prop} {num : Int} {around : Surroundings} {want type : Ty}
  {res value : TypedReg} {kind : UnKind}

variable {unit : CompilationUnit} {sig : Signature} {names : List String}

/-! ## Unary operations -/

theorem Meaning.test_unary (kind : UnKind) (operand : Meaning) (typing : Typing) :
    (Meaning.unary unit kind operand).test typing =
      (do return kind.apply (unit.widthOf (operand .bool typing).1.1) (← (operand.test typing).1),
        (operand.test typing).2) := rfl

namespace Lower

variable {operator : UnaryOp}

theorem unaryKind_ok (ran : unaryKind operator type around draft = .ok (kind, after)) :
    draft = after ∧ kind = operator.kind ∧ type.hasValues = true := by
  cases operator with
  | negate | complement =>
    simp only [unaryKind] at ran
    split at ran
    · next integer =>
      cases ran
      exact ⟨rfl, rfl, Ty.hasValues_of_isInteger integer⟩
    · exact absurd ran fail_ne
  | not =>
    simp only [unaryKind] at ran
    split at ran
    · next bool =>
      cases ran
      exact ⟨rfl, rfl, bool ▸ by decide⟩
    · exact absurd ran fail_ne
  | unknown text => exact absurd ran fail_ne

end Lower

section Unary

variable {operand : Expr} {operator : UnaryOp}

theorem computes_unary (sound : operand.Sound unit sig) (subset : storedIn operand.nodes ⊆ names) :
    Computes unit sig names (unaryValue operator operand.code)
      (.unary unit operator.kind (operand.meaning unit sig)) := by
  intro want around draft after res belong wf ran
  unfold unaryValue at ran
  rw [operand.code_source] at ran
  cases folded : (do
      let literal ← operand.literal?
      let value ← foldUnary? operator literal.1
      return (value, literalType literal want) : Option (Int × Ty)) with
  | some pair =>
    rw [folded] at ran
    obtain ⟨literal, literal_eq, folded⟩ := Option.bind_eq_some_iff.mp folded
    obtain ⟨value, value_eq, same⟩ := Option.bind_eq_some_iff.mp folded
    cases same
    have valued := literalType_hasValues literal.1 (sound.hasValues_of_literal literal_eq) want
    obtain ⟨type_eq, adds, typing_eq, runs⟩ := runs_folded wf belong valued ran
      (truncate_foldUnary value_eq)
    unfold Meaning.unary
    rw [bind_eq (meaning_of_literal literal_eq), type_eq, typing_eq]
    exact ⟨_, rfl, adds, runs⟩
  | none =>
    rw [folded] at ran
    obtain ⟨src, mid, computed, ran⟩ := bind_ok.mp ran
    obtain ⟨run, typed, adds, runs⟩ := sound.computes.mono subset belong wf computed
    unfold Meaning.unary
    rw [bind_eq typed]
    split at ran
    · next diverges =>
      cases ran
      exact ⟨_, rfl, adds, (runs.never (TypedReg.diverges_iff.mp diverges)).bind_never⟩
    · obtain ⟨kind, _, chosen, ran⟩ := bind_ok.mp ran
      obtain ⟨rfl, rfl, valued⟩ := unaryKind_ok chosen
      cases ran
      have wf' := adds.wellFormed
      refine ⟨_, congrArg _ (wf'.typing_addResult _ _).symm, adds.addResult _ _, runs.andThen
        (fun num => ?_) adds (wf'.addResult _ _).toLeads (List.nil_subset _)⟩
      refine assume (fun provides => provides.width_eq (Ty.hasValues_iff.mp valued).1)
        fun width_eq => ?_
      rw [CompilationUnit.widthOf_eq width_eq]
      refine provide wf' valued width_eq
        (fun state => operator.kind.apply (mid.info src.register).width
          (state.registers src.register))
        (fun width_eq => ?_) (fun provides => ?_)
      · simp only [Graph.act, width_eq]
      · rw [provides.content]
        exact UnKind.holds_apply ..

theorem UnKind.apply_not_ne_zero (width : Width) (num : Int) :
    UnKind.not.apply width num ≠ 0 ↔ num = 0 := by
  have holds : UnKind.not.apply width num = (num == 0).toInt := Width.holds_toInt _ _
  grind

theorem branches_not {branch : (yes no : BlockId) → Lower Unit} {meaning : Meaning}
    (branches : Branches unit sig names branch meaning) :
    Branches unit sig names (fun yes no => branch no yes) (.unary unit .not meaning) := by
  intro yes no around draft after belong wf ran
  obtain ⟨run, typed, adds, runs⟩ := branches belong wf ran
  rw [test_unary, typed]
  refine ⟨_, rfl, adds, map (runs.post ?_)⟩
  intro num point starts
  by_cases zero : num = 0
  · rw [if_pos ((UnKind.apply_not_ne_zero _ _).mpr zero)]
    rwa [if_neg (not_not_intro zero)] at starts
  · rw [if_neg (mt (UnKind.apply_not_ne_zero _ _).mp zero)]
    rwa [if_pos zero] at starts

end Unary

/-! ## New blocks -/

section Blocks

variable {α : Type} {rule : RegisterRule}

theorem Draft.WellFormed.here_addBlock (wf : draft.WellFormed rule) (name : String)
    (state : GraphState) : (draft.addBlock name).here state = draft.here state := by
  rw [Draft.here, wf.currentBlock_addBlock]
  rfl

@[simp]
theorem Draft.addBlock_size (draft : Draft) (name : String) :
    (draft.addBlock name).blocks.size = draft.blocks.size + 1 := Array.size_push ..

theorem Draft.Fresh.addBlock (fresh : draft.Fresh id) (name : String) :
    (draft.addBlock name).Fresh id := by
  obtain ⟨other, own, found⟩ := fresh
  exact ⟨other, own, Draft.getElem?_push_of_some _ found⟩

theorem Draft.WellFormed.fresh_second (wf : draft.WellFormed rule) (first second : String) :
    ((draft.addBlock first).addBlock second).Fresh (draft.blocks.size + 1) := by
  rw [← draft.addBlock_size first]
  exact (wf.addBlock first).wellFormed.fresh_addBlock second

theorem Draft.WellFormed.fresh_third (wf : draft.WellFormed rule) {first second third : String} :
    (((draft.addBlock first).addBlock second).addBlock third).Fresh (draft.blocks.size + 2) := by
  have fresh := (wf.addBlock first).wellFormed.fresh_second second third
  rwa [draft.addBlock_size first] at fresh

theorem Runs.addBlock {run : Eval α} {goal : α → GraphPoint → Prop} (wf : start.WellFormed unit)
    (name : String) (runs : Runs unit extent (start.addBlock name) after pre run goal) :
    Runs unit extent start after pre run goal := by
  intro graph args fuel env state completes alive agrees holds
  rw [← wf.here_addBlock name]
  exact runs completes ((wf.isDead_addBlock name).trans alive) agrees holds

end Blocks

/-! ## Conjunctions and disjunctions -/

section Connectives

variable {left right : Meaning} {leftCode rightCode : ExprCode}

section

variable (branchesLeft : Branches unit sig names leftCode.branch left)
    (branchesRight : Branches unit sig names rightCode.branch right)
include branchesLeft branchesRight

theorem connective_runs {name : String} {leftYes leftNo : BlockId → BlockId}
    (belong : around.Belong unit sig) (wf : draft.WellFormed unit) (ran : (do
      let middle ← newBlock name
      leftCode.branch (leftYes middle) (leftNo middle)
      enter middle
      rightCode.branch yes no) around draft = .ok ((), after)) :
    ∃ first second, (∀ join : Eval Int → Eval Int → Eval Int,
        (left.test >>= fun first => right.test >>= fun second =>
          pure (Ty.bool, join first second)) draft.typing =
        ((.bool, join first second), after.typing.revived)) ∧ draft.Adds after unit ∧
      Runs unit ⟨draft, names, 0⟩ draft after (fun _ => True) first
        (fun num => StartsAt
          (if num ≠ 0 then leftYes draft.blocks.size else leftNo draft.blocks.size)) ∧
      RunsFrom unit ⟨draft, names, 0⟩ draft.blocks.size after (fun _ => True)
        (.choose second (pure 1) (pure 0)) fun num : Int =>
          StartsAt (if num ≠ 0 then yes else no) := by
  rw [newBlock_bind] at ran
  obtain ⟨_, mid, ran, lowered'⟩ := bind_ok.mp ran
  have added := wf.adds.addBlock name
  obtain ⟨first, typed, adds, runs⟩ := branchesLeft belong added.wellFormed ran
  have fresh := (wf.fresh_addBlock name).of_adds adds
  have entered := (added.trans adds).enter fresh le_rfl
  obtain ⟨second, typed', adds', runs'⟩ := branchesRight belong entered.wellFormed lowered'
  rw [wf.typing_addBlock] at typed
  rw [fresh.typing_enter] at typed'
  have leads : mid.Leads after := ((Draft.Leads.refl mid).enter _).trans adds'.toLeads
  refine ⟨first, second, fun _ => ?_, entered.trans adds', ?_, ?_⟩
  · rw [bind_eq typed, bind_eq typed']
    rfl
  · refine addBlock wf name ?_
    exact (runs.part added.toLeads rfl (.refl _)).later leads adds'.scopes
  · have runs' := runs'.behind entered
    refine fromBlock (choose runs' ?_ ?_) fresh adds'.scopes
    · exact .pure fun _ => ⟨rfl, rfl⟩
    · exact .pure fun _ => ⟨rfl, rfl⟩

theorem branches_both :
    Branches unit sig names (branchOnBoth leftCode rightCode) (.both left right) := by
  intro yes no around draft after belong wf ran
  unfold branchOnBoth at ran
  obtain ⟨first, second, typed, adds, runs, runs'⟩ :=
    connective_runs branchesLeft branchesRight belong wf ran
  rw [test_eq (show both left right _ _ = _ from typed _)]
  exact ⟨_, rfl, adds, runs.choose runs' (.pure fun _ => ⟨rfl, rfl⟩)⟩

theorem branches_either :
    Branches unit sig names (branchOnEither leftCode rightCode) (.either left right) := by
  intro yes no around draft after belong wf ran
  unfold branchOnEither at ran
  obtain ⟨first, second, typed, adds, runs, runs'⟩ :=
    connective_runs branchesLeft branchesRight belong wf ran
  rw [test_eq (show either left right _ _ = _ from typed _)]
  exact ⟨_, rfl, adds, runs.choose (.pure fun _ => ⟨rfl, rfl⟩) runs'⟩

end

end Connectives

/-! ## Conditions as truth values -/

def Eval.IsTruth (run : Eval Int) : Prop := Eval.choose run (pure 1) (pure 0) = run

theorem Eval.isTruth_choose {test yes no : Eval Int} (truth_yes : yes.IsTruth)
    (truth_no : no.IsTruth) : (Eval.choose test yes no).IsTruth := by
  unfold IsTruth choose at *
  rw [bind_assoc]
  grind

theorem Eval.isTruth_pure (truth : Bool) : (pure truth.toInt : Eval Int).IsTruth := by
  cases truth <;> rfl

/-- A meaning is a condition: its type is that of truth values and the code after it is reached. -/
def Meaning.IsCondition (meaning : Meaning) : Prop :=
  ∀ want typing, meaning want typing = ((.bool, (meaning.test typing).1), (meaning.test typing).2) ∧
    (meaning.test typing).1.IsTruth

theorem Meaning.isCondition_both (left right : Meaning) : (both left right).IsCondition :=
  fun _ _ => ⟨rfl, isTruth_choose (isTruth_choose (isTruth_pure true) (isTruth_pure false))
    (isTruth_pure false)⟩

theorem Meaning.isCondition_either (left right : Meaning) : (either left right).IsCondition :=
  fun _ _ => ⟨rfl, isTruth_choose (isTruth_pure true)
    (isTruth_choose (isTruth_pure true) (isTruth_pure false))⟩

/-- Code that puts a value in a register that was kept free for it, and then goes on in a block. -/
theorem Runs.deliver (wf : start.WellFormed unit) (reserved : start.Reserved unit value)
    (new : extent.base.vregs.size ≤ value.register) {action : Action} (content : GraphState → Int)
    (acts : action.Writes (unit.widthOf value.type) value.register content)
    (number_eq : ∀ {state}, pre state → unit.fit value.type (content state) = num)
    (due : List String) :
    Runs unit extent start ((start.emit action).terminate (.jump target)) pre (pure num)
      fun res point => StartsAt target point ∧
        (start.emit action).Provides unit due value res point.state := by
  have emitted := (wf.emit action).wellFormed
  rw [← bind_pure (pure num)]
  refine (put wf reserved new content acts number_eq due).bind (fun res => ?_)
    (emitted.terminate _).toLeads
  refine (jump emitted res target).post ?_
  simp_all

/-- The draft with a block that puts a number in a register and goes on in another block. -/
def Draft.fill (draft : Draft) (id : BlockId) (register : VReg) (number : Int)
    (target : BlockId) : Draft :=
  ((draft.enter id).emit (.const register number)).terminate (.jump target)

namespace Draft

variable {rule : RegisterRule} {first : Draft} {id : BlockId}

theorem Adds.fill (adds : first.Adds draft rule) (fresh : draft.Fresh id)
    (new : first.blocks.size ≤ id) (reg : VReg) (num : Int) (target : BlockId) :
    first.Adds (draft.fill id reg num target) rule :=
  ((adds.enter fresh new).emit _).terminate _

variable (wf : draft.WellFormed rule) (fresh : draft.Fresh id) (reg : VReg) (num : Int)
  (target : BlockId)

include wf fresh

theorem leads_fill : draft.Leads (draft.fill id reg num target) :=
  ((Leads.refl draft).enter id).trans (((wf.enter fresh).adds.emit _).terminate _).toLeads

theorem typing_fill : (draft.fill id reg num target).typing = draft.typing.killed := by
  have entered := wf.enter fresh
  rw [fill, (entered.emit _).wellFormed.typing_terminate, entered.typing_emit]
  rfl

theorem fresh_fill {other : BlockId} (fresh_other : draft.Fresh other) (different : other ≠ id) :
    (draft.fill id reg num target).Fresh other :=
  (fresh_other.enter different).of_adds (((wf.enter fresh).adds.emit _).terminate _)

end Draft

@[simp]
theorem Draft.fill_scopes (draft : Draft) (id : BlockId) (reg : VReg) (num : Int)
    (target : BlockId) : (draft.fill id reg num target).scopes = draft.scopes := by
  rw [fill, terminate_scopes, emit_scopes]
  rfl

theorem runsFrom_fill (wf : draft.WellFormed unit) (fresh : draft.Fresh id)
    (reserved : draft.Reserved unit value) (new : extent.base.vregs.size ≤ value.register)
    (fits : unit.fit value.type num = num)
    (leads : (draft.fill id value.register num target).Leads after)
    (scopes : after.scopes = draft.scopes) {due : List String} {later : Draft}
    (reserved_later : later.Reserved unit value) :
    RunsFrom unit extent id after (fun _ => True) (pure num) fun res point =>
      StartsAt target point ∧ later.Provides unit due value res point.state := by
  have entered := wf.enter fresh
  have reserved := reserved.of_leads ((Draft.Leads.refl draft).enter id)
  have delivers : Runs unit extent (draft.enter id) (draft.fill id value.register num target)
      (fun _ => True) (pure num) fun res point => StartsAt target point ∧
        ((draft.enter id).emit (.const value.register num)).Provides unit due value res
          point.state :=
    deliver entered reserved new (fun _ => num) (fun same => same ▸ rfl) (fun _ => fits) due
  refine fromBlock ((delivers.later leads ?_).post ?_) fresh scopes
  · rw [scopes, fill_scopes]
  · rintro res point ⟨starts, provides⟩
    exact ⟨starts, reserved_later.provides provides.content provides.holds due⟩

/-- The draft with two blocks that put truth values in a register and meet behind them. -/
def Draft.fillBoth (draft : Draft) (yes no target : BlockId) (register : VReg) : Draft :=
  ((draft.fill yes register 1 target).fill no register 0 target).enter target

theorem fillBoth_runs {base : Draft} {reg : VReg}
    (adds : base.Adds mid unit) (fresh_yes : mid.Fresh yes) (fresh_no : mid.Fresh no)
    (fresh_target : mid.Fresh target) (new_yes : base.blocks.size ≤ yes) (lt_no : yes < no)
    (lt_target : no < target) (reserved : mid.Reserved unit { register := reg, type := .bool })
    (new : base.vregs.size ≤ reg) {test : Eval Int}
    (tested : Runs unit ⟨base, names, 0⟩ base mid (fun _ => True) test fun num =>
      StartsAt (if num ≠ 0 then yes else no)) {due : List String} :
    base.Adds (mid.fillBoth yes no target reg) unit ∧
      (mid.fillBoth yes no target reg).typing = mid.typing.revived ∧
      Runs unit ⟨base, names, 0⟩ base (mid.fillBoth yes no target reg) (fun _ => True)
        (.choose test (pure 1) (pure 0))
        ((mid.fillBoth yes no target reg).Supplies unit due
          { register := reg, type := .bool }) := by
  have wf := adds.wellFormed
  have adds' := adds.fill fresh_yes new_yes reg 1 target
  have wf' := adds'.wellFormed
  have leads := leads_fill wf fresh_yes reg 1 target
  have fresh_no' : (mid.fill yes reg 1 target).Fresh no :=
    fresh_fill wf fresh_yes _ _ _ fresh_no (ne_of_gt lt_no)
  have fresh_target' : ((mid.fill yes reg 1 target).fill no reg 0 target).Fresh target := by
    grind [fresh_fill]
  have leads' := leads_fill wf' fresh_no' reg 0 target
  have adds'' := adds'.fill fresh_no' (le_trans new_yes (le_of_lt lt_no)) reg 0 target
  have new_target := le_trans new_yes (le_of_lt (lt_trans lt_no lt_target))
  refine ⟨adds''.enter fresh_target' new_target, ?_, ?_⟩
  · rw [Draft.fillBoth, fresh_target'.typing_enter, typing_fill wf' fresh_no',
      typing_fill wf fresh_yes]
    rfl
  · have later := reserved.of_leads ((leads.trans leads').enter target)
    refine enter (choose (tested.later (leads.trans leads') ?_) ?_ ?_) fresh_target'
    · rw [fill_scopes, fill_scopes]
    · refine runsFrom_fill wf fresh_yes reserved new (Width.holds_toInt _ true) leads' ?_ later
      rw [fill_scopes, fill_scopes]
    · refine runsFrom_fill wf' fresh_no' (reserved.of_leads leads) new
        (Width.holds_toInt _ false) (.refl _) ?_ later
      rw [fill_scopes]

section ConditionValue

variable {branch : (yes no : BlockId) → Lower Unit} {meaning : Meaning}

theorem computes_condition (branches : Branches unit sig names branch meaning)
    (cond : meaning.IsCondition) :
    Computes unit sig names (fun _ => conditionValue branch) meaning := by
  intro want around draft after res belong wf ran
  change conditionValue branch around draft = _ at ran
  unfold conditionValue at ran
  have blocks_eq : (draft.addReg { width := .byte }).blocks = draft.blocks := rfl
  rw [newReg_bind, newBlock_bind, newBlock_bind, newBlock_bind,
    addBlock_size, addBlock_size, addBlock_size, blocks_eq, add_assoc] at ran
  obtain ⟨_, mid, branched, ran⟩ := bind_ok.mp ran
  cases ran
  have wf₀ := (wf.addReg { width := .byte }).wellFormed
  have wf₁ := (wf₀.addBlock "cond.true").wellFormed
  have wf₂ := (wf₁.addBlock "cond.false").wellFormed
  have made := ((wf₀.adds.addBlock "cond.true").addBlock "cond.false").addBlock "cond.end"
  have added := (wf.adds.addReg { width := .byte }).trans made
  obtain ⟨run, typed, adds, runs⟩ := branches belong added.wellFormed branched
  rw [wf₂.typing_addBlock, wf₁.typing_addBlock, wf₀.typing_addBlock, typing_addReg] at typed
  obtain ⟨meaning_eq, truth⟩ := cond want draft.typing
  rw [typed] at meaning_eq truth
  have fits : unit.registers.fits .bool { width := .byte } := ⟨by decide, rfl, rfl⟩
  have reserved := (Draft.Reserved.addReg wf fits).of_leads (made.trans adds).toLeads
  have tested := addBlock wf₀ _ (addBlock wf₁ _ (addBlock wf₂ _ (runs.behind added)))
  obtain ⟨adds', typing_eq, runs'⟩ := fillBoth_runs (added.trans adds)
    ((((wf₀.fresh_addBlock "cond.true").addBlock "cond.false").addBlock "cond.end").of_adds adds)
    (((wf₀.fresh_second "cond.true" "cond.false").addBlock "cond.end").of_adds adds)
    (wf₀.fresh_third.of_adds adds) le_rfl
    (lt_succ_self _) (lt_succ_self _) reserved le_rfl tested
  refine ⟨run, ?_, adds', ?_⟩
  · rw [meaning_eq]
    exact congrArg _ typing_eq.symm
  · rw [truth] at runs'
    exact runs'

end ConditionValue

end Backend65816
