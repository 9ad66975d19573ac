import Backend65816.Proofs.LoweringChoices

/-!
# Code of statements

Statements of a block run one after the other in a scope of their own. A declaration gives a name a
register that is new, and an assignment stores to the register or the variable of a name. The ways
through a conditional statement meet behind it.
-/

namespace Backend65816

open Lower Typed Nat Draft StmtMeaning Runs

variable {thenBlock : BlockCode} {yes target : BlockId} {draft after first base : Draft}
  {cond : ExprCode} {statements : Lower Unit} {meaning : Meaning}
  {otherwise : Option (BlockId → Lower Unit)} {tail : Option ExprCode} {rule : RegisterRule}
  {name : String} {around : Surroundings} {type : Ty} {value : Ty → Lower TypedReg} {res : TypedReg}
  {info : VRegInfo}

variable {unit : CompilationUnit} {sig : Signature} {names more : List String}

variable {due : List String}

/-! ## Sequences -/

section Sequences

variable {steps rest : Lower Unit} {meaning restMeaning : StmtMeaning}

theorem Executes.mono (executes : Executes unit sig names steps meaning) (subset : names ⊆ more) :
    Executes unit sig more steps meaning := by
  intro around draft after belong wf ran
  obtain ⟨run, typed, evolves, scopes, runs⟩ := executes belong wf ran
  exact ⟨run, typed, evolves, scopes, runs.within (.of_leads (.refl draft) subset le_rfl rfl)⟩

theorem executes_nothing : Executes unit sig names (pure ()) (return pure ()) := by
  intro around draft after belong wf ran
  cases ran
  exact ⟨pure (), rfl, wf.evolves, rfl, stay fun _ _ => ⟨(), rfl, trivial⟩⟩

theorem Executes.andThen (executes : Executes unit sig names steps meaning)
    (executesRest : Executes unit sig names rest restMeaning) :
    Executes unit sig names (do steps; rest) (do
      let first ← meaning
      let others ← restMeaning
      return do
        first
        others) := by
  intro around draft after belong wf ran
  obtain ⟨_, mid, ran, lowered'⟩ := bind_ok.mp ran
  obtain ⟨first, typed, evolves, scopes, runs⟩ := executes belong wf ran
  obtain ⟨others, typed', evolves', scopes', runs'⟩ :=
    executesRest belong evolves.wellFormed lowered'
  refine ⟨do first; others, ?_, evolves.trans evolves', scopes'.trans scopes, ?_⟩
  · rw [bind_eq typed, bind_eq typed']
    rfl
  · refine runs.bind (fun _ => ?_) evolves'.toLeads
    exact runs'.within (.of_leads evolves.toLeads (.refl _) le_rfl scopes)

theorem Runs.inStatement {α : Type} {start : Draft} {pre : GraphState → Prop} {run : Eval α}
    {goal : α → GraphPoint → Prop} (runs : Runs unit ⟨draft, names, 0⟩ start after pre run goal) :
    Runs unit ⟨draft, names, 1⟩ start after pre run goal :=
  runs.within (.of_leads (.refl draft) (.refl _) (zero_le _) rfl)

theorem executes_ofExpr {meaning : Meaning} (computes : Computes unit sig names value meaning) :
    Executes unit sig names (do let _ ← value .unspecified) (.ofExpr meaning) := by
  intro around draft after belong wf ran
  obtain ⟨res, _, computed, same⟩ := bind_ok.mp ran
  cases same
  obtain ⟨run, typed, adds, runs⟩ := computes belong wf computed
  refine ⟨do let _ ← run, ?_, adds.toEvolves, congrArg (List.drop 1) adds.scopes, ?_⟩
  · unfold ofExpr
    rw [bind_eq typed]
    rfl
  · refine map (runs.inStatement.post ?_)
    rintro num point ⟨alive, here_eq, _⟩
    exact ⟨alive, here_eq, trivial⟩

end Sequences

/-! ## Blocks -/

def tailValue (tail : Option ExprCode) : Ty → Lower TypedReg :=
  (tail.map ExprCode.value).getD fun _ => do
    if ← isDead then return .never else return .void

theorem computes_noTail : Computes unit sig names (tailValue none) .noTail := by
  intro want around draft after res belong wf ran
  unfold tailValue at ran
  rw [Option.map_none, Option.getD_none, isDead_bind] at ran
  have typed : Meaning.noTail want draft.typing =
      ((if draft.isDead then .never else .void, pure 0), draft.typing) := rfl
  rw [typed]
  cases dead : draft.isDead with
  | true =>
    rw [dead] at ran
    cases ran
    refine ⟨pure 0, rfl, wf.adds, fun _ _ _ _ _ _ alive => ?_⟩
    rw [dead] at alive
    cases alive
  | false =>
    rw [dead] at ran
    cases ran
    refine ⟨pure 0, rfl, wf.adds, stay fun agrees _ => ⟨0, rfl, ?_⟩⟩
    exact .void wf agrees.zero _

theorem computes_block {statementsMeaning : StmtMeaning} {tailMeaning : Option Meaning}
    (executes : Executes unit sig names statements statementsMeaning)
    (computes : Computes unit sig names (tailValue tail) (tailMeaning.getD .noTail)) :
    Computes unit sig names (block statements tail) (.block statementsMeaning tailMeaning) := by
  intro want around draft after res belong wf ran
  obtain ⟨inner, inside, rfl⟩ := inScope_ok ran
  obtain ⟨_, mid, executed, ended⟩ := bind_ok.mp inside
  have computed : tailValue tail want around mid = .ok (res, inner) := by
    cases tail <;> exact ended
  obtain ⟨first, typed, evolves, scopes, runs⟩ := executes belong wf.pushScope.wellFormed executed
  obtain ⟨last, typed', adds, runs'⟩ := computes belong evolves.wellFormed computed
  have popped := adds.wellFormed.popScope
  refine ⟨.inScope do first; last, ?_, ?_, ?_⟩
  · unfold Meaning.block
    rw [Typed.modify_bind, ← Draft.typing_pushScope, Typed.bind_eq typed, Typed.bind_eq typed',
      typing_popScope]
    rfl
  · refine { ((wf.pushScope.trans evolves).trans adds.toEvolves).trans popped with scopes := ?_ }
    rw [Draft.popScope, adds.scopes]
    exact scopes
  · have runs' : Runs unit ⟨draft.pushScope, names, 1⟩ draft.pushScope inner (fun _ => True)
        (do first; last) (inner.Supplies unit around.pending res) :=
      runs.bind (fun _ => runs'.within
        (.of_leads evolves.toLeads (.refl _) (zero_le _) scopes)) adds.toLeads
    refine (inScope wf runs').post ?_
    rintro num point ⟨alive, here_eq, provides⟩
    exact ⟨alive, here_eq, provides.of_leads adds.wellFormed popped.toLeads⟩

/-! ## Declarations -/

/-- The draft with a new name, which gets a value if there is one. -/
def Draft.bindName (draft : Draft) (name : String) (value : TypedReg) (info : VRegInfo) : Draft :=
  (if value.register ≠ 0 then
      (draft.addReg info).emit (.move draft.vregs.size value.register)
    else draft.addReg info).declare name { value with register := draft.vregs.size }

namespace Lower

variable {init : Option ExprCode} {value : TypedReg}

theorem bindOne_ok {addr : Option Int}
    (ran : bindOne name type init addr around draft = .ok ((), after)) :
    ∃ value mid width, initialValue name type init around draft = .ok (value, mid) ∧
      value.type ≠ .never ∧ around.context.unit.width? value.type = some width ∧
      after = mid.bindName name value {
        name := name
        width := width
        signed := value.type.isSigned
        fixed := addr.map fun place => .fixed place name } := by
  obtain ⟨value, mid, computed, ran⟩ := bind_ok.mp ran
  obtain ⟨known, ran⟩ := guard_ok.mp ran
  obtain ⟨width, _, sized, ran⟩ := bind_ok.mp ran
  obtain ⟨width_eq, rfl⟩ := widthOf_ok sized
  refine ⟨value, mid, width, computed, fun never => known (.inr never), width_eq, ?_⟩
  unfold Draft.bindName
  split at ran
  · next moved =>
    cases ran
    rw [if_pos moved]
  · next unmoved =>
    cases ran
    rw [if_neg unmoved]

end Lower

namespace Draft

theorem isDead_declare (draft : Draft) (name : String) (value : TypedReg) :
    (draft.declare name value).isDead = draft.isDead := by
  rw [declare_eq]
  rfl

theorem declare_scopes_drop (draft : Draft) (name : String) (value : TypedReg) :
    (draft.declare name value).scopes.drop 1 = draft.scopes.drop 1 := by
  grind [declare]

theorem WellFormed.bindName (wf : draft.WellFormed rule) (name : String) {value : TypedReg}
    (fits : rule.fits value.type info) : draft.Evolves (draft.bindName name value info) rule := by
  have added := wf.addReg info
  have reserved := Reserved.addReg wf fits
  unfold Draft.bindName
  split
  · have emitted := added.wellFormed.emit (.move draft.vregs.size value.register)
    have reserved := reserved.of_leads emitted.toLeads
    exact (added.trans emitted).declare reserved.typed le_rfl reserved.unowned
  · exact added.declare reserved.typed le_rfl reserved.unowned

theorem bindName_scopes_drop (draft : Draft) (name : String) (value : TypedReg)
    (info : VRegInfo) : (draft.bindName name value info).scopes.drop 1 = draft.scopes.drop 1 := by
  unfold bindName
  split
  · rw [declare_scopes_drop, emit_scopes]
    rfl
  · exact declare_scopes_drop ..

theorem WellFormed.typing_bindName (wf : draft.WellFormed rule) (name : String) (value : TypedReg)
    (info : VRegInfo) :
    (draft.bindName name value info).typing = draft.typing.declare name value.type := by
  unfold Draft.bindName
  split
  · rw [typing_declare, (wf.addReg info).wellFormed.typing_emit, typing_addReg]
  · rw [typing_declare, typing_addReg]

end Draft

theorem runs_bindName (wf : draft.WellFormed unit) {value : TypedReg}
    (name : String) (fits : unit.registers.fits value.type info) (num : Int) :
    Runs unit ⟨draft, names, 1⟩ draft (draft.bindName name value info)
      (draft.Provides unit due value num) (Eval.declare name num)
      fun _ => (draft.bindName name value info).Arrives fun _ => True := by
  have added := (wf.addReg info).wellFormed
  have valued := Ty.hasValues_iff.mp fits.1
  refine assume (fun provides => provides.typed.resolve_right fun void =>
    valued.1 (void ▸ rfl)) fun typed => ?_
  unfold Draft.bindName
  rw [if_pos typed.1]
  refine step fun {graph args fuel env state} completes alive agrees provides => ?_
  rw [declare_eq] at completes
  have completes : graph.Completes
      ((draft.addReg info).emit (.move draft.vregs.size value.register)) :=
    ⟨completes.blocks, completes.vregs⟩
  have known : (draft.addReg info).vregs[draft.vregs.size]? = some info := Array.getElem?_push_size
  have width_eq : graph.width draft.vregs.size = info.width :=
    ((added.emit _).toLeads.completes completes).width_eq known
  have acts : graph.act args state (.move draft.vregs.size value.register) =
      some (state.write info.width draft.vregs.size num) := by
    rw [← provides.content, ← width_eq]
    rfl
  have holds := provides.holds
  rw [CompilationUnit.Holds, CompilationUnit.widthOf, fits.2.1] at holds
  have written : Agrees unit
      ((draft.addReg info).emit (.move draft.vregs.size value.register)).scopes env
      (state.write info.width draft.vregs.size num) := by
    rw [emit_scopes]
    exact agrees.write_new wf le_rfl _ _
  have declared : Agrees unit
      (((draft.addReg info).emit (.move draft.vregs.size value.register)).declare name
        { value with register := draft.vregs.size }).scopes
      (Eval.declare name num fuel env).2 (state.write info.width draft.vregs.size num) := by
    refine written.declare ?_ ?_ fuel
    · exact (GraphState.write_self ..).trans holds
    · exact provides.holds
  refine ⟨(), _, _, rfl, completes.step_emit added alive acts, declared,
    .write_new le_rfl _ _, ?_, by rw [declare_eq]; rfl, trivial⟩
  rw [isDead_declare, added.isDead_emit]
  exact alive

theorem executes_bind {code : ExprCode} (computes : Computes unit sig names code.value meaning)
    (name : String) (valued : type.hasValues = true) :
    Executes unit sig names (bindOne name type (some code) none) (.bind name type meaning) := by
  intro around draft after belong wf ran
  obtain ⟨value, mid, width, computed, completes, width_eq, rfl⟩ := bindOne_ok ran
  obtain ⟨found, later, computed, checked⟩ := bind_ok.mp computed
  obtain ⟨nonvoid, checked⟩ := guard_ok.mp checked
  have ⟨same, ways⟩ : later = mid ∧ (type = .unspecified ∧ value = found ∨ type ≠ .unspecified ∧
      (found.type = .never ∨ found.type = type) ∧ value = { found with type }) := by
    split at checked
    · next unspecified =>
      cases checked
      exact ⟨rfl, .inl ⟨unspecified, rfl⟩⟩
    · next specified =>
      obtain ⟨agrees, checked⟩ := guard_ok.mp checked
      cases checked
      refine ⟨rfl, .inr ⟨specified, ?_, rfl⟩⟩
      rw [Bool.and_eq_true, not_and_or, Bool.not_eq_true', Bool.not_eq_false,
        TypedReg.diverges_iff] at agrees
      simpa using agrees
  cases same
  rw [belong.unit] at width_eq
  obtain ⟨run, typed, adds, runs⟩ := computes belong wf computed
  have wf' := adds.wellFormed
  have type_eq : value.type = if type = .unspecified then found.type else type := by
    grind
  have valued' : value.type.hasValues = true := by
    rcases ways with ⟨_, rfl⟩ | ⟨_, _, rfl⟩
    · exact Ty.hasValues_iff.mpr ⟨nonvoid, completes⟩
    · exact valued
  have fits : unit.registers.fits value.type
      { name, width, signed := value.type.isSigned } := ⟨valued', width_eq, rfl⟩
  have bound := wf'.bindName name fits
  refine ⟨do Eval.declare name (← run), ?_, adds.toEvolves.trans bound,
    (bindName_scopes_drop ..).trans (congrArg (List.drop 1) adds.scopes),
    runs.inStatement.bind (fun num => ?_) bound.toLeads⟩
  · unfold StmtMeaning.bind
    rw [bind_eq typed, wf'.typing_bindName, type_eq]
    rfl
  · refine assume (fun provides => provides.completes) fun completes => ?_
    obtain rfl : value = found := by
      rcases ways with ⟨_, same⟩ | ⟨_, agrees, same⟩
      · exact same
      · rw [same, ← agrees.resolve_left completes]
    exact (runs_bindName wf' name fits num).within (.of_leads adds.toLeads
      (List.Subset.refl _) le_rfl (congrArg (List.drop 1) adds.scopes))

/-! ## Assignments -/

def Draft.assignPlace (draft : Draft) (bank : Int) (place : NamedPlace) (source : VReg) : Draft :=
  match place with
  | .inMemory global => draft.emit (.store (global.addressFrom bank) (.reg source))
  | .inReg target => draft.emit (.move target.register source)

theorem Draft.Adds.assignPlace
    (adds : first.Adds draft rule) (bank : Int) (place : NamedPlace) (src : VReg) :
    first.Adds (draft.assignPlace bank place src) rule ∧
      (draft.assignPlace bank place src).typing = draft.typing := by
  cases place with
  | inMemory global => exact ⟨adds.emit _, adds.wellFormed.typing_emit⟩
  | inReg target => exact ⟨adds.emit _, adds.wellFormed.typing_emit⟩

theorem runs_assign (wf : draft.WellFormed unit)
    (stored : name ∈ names) {target value : TypedReg} (found : draft.find? name = some target)
    (scopes : draft.scopes = base.scopes) (type_eq : value.type = target.type) (num : Int) :
    Runs unit ⟨base, names, 1⟩ draft (draft.emit (.move target.register value.register))
      (draft.Provides unit due value num) (Eval.assign name num) fun _ =>
        (draft.emit (.move target.register value.register)).Arrives fun _ => True := by
  obtain ⟨_, info, known, _, width_eq, _⟩ := wf.typed_of_find? found
  obtain ⟨scope, scope_mem, entry_mem⟩ := Draft.WellFormed.exists_entry found
  refine step fun {graph args fuel env state} completes alive agrees provides => ?_
  have graph_width : graph.width target.register = info.width :=
    ((wf.emit _).toLeads.completes completes).width_eq known
  have acts : graph.act args state (.move target.register value.register) =
      some (state.write info.width target.register num) := by
    rw [← provides.content, ← graph_width]
    rfl
  refine ⟨(), _, _, rfl, completes.step_emit wf alive acts, ?_, ?_, ?_, rfl, trivial⟩
  · rw [emit_scopes]
    exact agrees.assign wf found width_eq (type_eq ▸ provides.holds) fuel
  · intro reg _ fixed
    refine GraphState.write_of_ne _ fun same => fixed (.inr ?_)
    grind
  · rw [wf.isDead_emit]
    exact alive

theorem runs_store (wf : draft.WellFormed unit) (addr : Address) {value : TypedReg} (num : Int) :
    Runs unit ⟨base, names, 1⟩ draft (draft.emit (.store addr (.reg value.register)))
      (draft.Provides unit due value num) (Eval.store addr num) fun _ =>
        (draft.emit (.store addr (.reg value.register))).Arrives fun _ => True := by
  refine step fun {graph args fuel env state} completes alive agrees provides => ?_
  have acts : graph.act args state (.store addr (.reg value.register)) =
      some { state with memory := Function.update state.memory addr num } := by
    rw [← provides.content]
    rfl
  refine ⟨(), _, _, rfl, completes.step_emit wf alive acts, ?_, fun _ _ _ => rfl, ?_, rfl, trivial⟩
  · rw [emit_scopes]
    exact agrees.store addr num fuel
  · rw [wf.isDead_emit]
    exact alive

theorem executes_assign (computes : Computes unit sig names value meaning)
    (stored_mem : name ∈ names) :
    Executes unit sig names (ExprCode.assignName name value) (.assign unit sig.bank name meaning) := by
  intro around draft after belong wf ran
  obtain ⟨place, _, found, ran⟩ := bind_ok.mp ran
  obtain ⟨rfl, located⟩ := findName_ok found
  obtain ⟨stored, mid, computed, ran⟩ := bind_ok.mp ran
  obtain ⟨run, typed, adds, runs⟩ := computes belong wf computed
  have wf' := adds.wellFormed
  have ⟨put, meaning_eq, puts⟩ : ∃ put : Int → Eval Unit,
      assign unit sig.bank name meaning draft.typing = (do put (← run), mid.typing) ∧
      (stored.type = place.type → ∀ num, Runs unit ⟨draft, names, 1⟩ mid
        (mid.assignPlace around.signature.bank place stored.register)
        (mid.Provides unit around.pending stored num) (put num) fun _ =>
          (mid.assignPlace around.signature.bank place stored.register).Arrives fun _ => True) := by
    unfold assign
    rw [Typed.get_bind, draft.typing_find?]
    rcases located with ⟨target, local_eq, rfl⟩ | ⟨missing, global, global_eq, rfl⟩
    · simp only [local_eq, Option.map_some]
      refine ⟨_, bind_eq typed, fun type_eq num => ?_⟩
      refine runs_assign wf' stored_mem ?_ adds.scopes type_eq num
      rw [Draft.find?, adds.scopes]
      exact local_eq
    · rw [belong.unit] at global_eq
      simp only [missing, global_eq, Option.map_none]
      refine ⟨_, bind_eq typed, fun _ num => ?_⟩
      rw [belong.signature]
      exact runs_store wf' _ num
  rw [meaning_eq]
  split at ran
  · next diverges =>
    cases ran
    have never := TypedReg.diverges_iff.mp diverges
    exact ⟨_, rfl, adds.toEvolves, congrArg (List.drop 1) adds.scopes,
      (runs.never never).inStatement.bind_never⟩
  · obtain ⟨same, ran⟩ := guard_ok.mp ran
    obtain rfl : after = mid.assignPlace around.signature.bank place stored.register := by
      cases place <;> cases ran <;> rfl
    obtain ⟨assigned, typing_eq⟩ :=
      adds.assignPlace around.signature.bank place stored.register
    exact ⟨_, congrArg _ typing_eq.symm, assigned.toEvolves,
      congrArg (List.drop 1) assigned.scopes, runs.inStatement.bind (puts (not_not.mp same))
      (wf'.adds.assignPlace _ _ _).1.toLeads⟩

/-! ## Conditional statements -/

/-- Code of the else side of a conditional, which may be absent, does what the side means. -/
def RejoinsOption (unit : CompilationUnit) (signature : Signature) (names : List String)
    (otherwise : Option (BlockId → Lower Unit)) (meaning : StmtMeaning) : Prop :=
  match otherwise with
  | none => meaning = return pure ()
  | some steps => Rejoins unit signature names steps meaning

theorem RejoinsOption.mono {meaning : StmtMeaning}
    (rejoins : RejoinsOption unit sig names otherwise meaning) (subset : names ⊆ more) :
    RejoinsOption unit sig more otherwise meaning := by
  cases otherwise with
  | none => exact rejoins
  | some steps =>
    intro target around draft after belong wf ran
    obtain ⟨run, typing, typed, revived_eq, adds, runs⟩ := rejoins belong wf ran
    exact ⟨run, typing, typed, revived_eq, adds, runs.part (.refl draft) rfl subset⟩

theorem StmtMeaning.ways_eq {cond thenBlock : Meaning} {otherwise : StmtMeaning}
    {typing tested onYes onNo : Typing} {decision yes : Eval Int} {no : Eval Unit}
    (tests : cond.test typing = (decision, tested))
    (typed : thenBlock .unspecified tested = ((type, yes), onYes))
    (typed' : otherwise onYes.revived = (no, onNo)) :
    ways cond thenBlock otherwise typing = (.choose decision (do let _ ← yes) no, onNo) := by
  unfold ways
  rw [Typed.bind_eq tests, Typed.bind_eq typed]
  simp only
  rw [Typed.modify_bind, Typed.bind_eq typed']
  rfl

theorem runs_way (computes : Computes unit sig names value meaning)
    (belong : around.Belong unit sig) (wf : draft.WellFormed unit)
    (ran : value .unspecified around draft = .ok (res, after)) :
    ∃ run, meaning .unspecified draft.typing = ((res.type, run), after.typing) ∧
      draft.Adds after unit ∧
      Runs unit ⟨draft, names, 0⟩ draft (after.terminate (.jump target)) (fun _ => True)
        (do let _ ← run) fun _ => StartsAt target := by
  obtain ⟨run, typed, adds, runs⟩ := computes belong wf ran
  have wf' := adds.wellFormed
  refine ⟨run, typed, adds, runs.bind (fun num => ?_) (wf'.terminate _).toLeads⟩
  exact (jump wf' () target).post fun holds => holds.1

theorem rejoins_block {body : BlockCode} (computes : Computes unit sig names body meaning) :
    Rejoins unit sig names (elseBlock body) (.ofExpr meaning) := by
  intro target around draft after belong wf ran
  obtain ⟨res, mid, computed, ran⟩ := bind_ok.mp ran
  cases ran
  obtain ⟨run, typed, adds, runs⟩ := runs_way computes belong wf computed
  refine ⟨do let _ ← run, mid.typing, ?_, ?_, adds.terminate _, runs⟩
  · unfold ofExpr
    rw [bind_eq typed]
    rfl
  · rw [adds.wellFormed.typing_terminate]
    rfl

section Ways

variable {conditionMeaning thenMeaning : Meaning} {elseMeaning : StmtMeaning}

section

variable (branches : Branches unit sig names cond.branch conditionMeaning)
    (computes : Computes unit sig names thenBlock thenMeaning)
    (rejoins : RejoinsOption unit sig names otherwise elseMeaning)
include branches computes rejoins

/-- The ways through a conditional statement go on behind it. The first way has a block of its own,
which was made after a draft. -/
theorem runs_ways
    (belong : around.Belong unit sig) (adds : first.Adds draft unit) (fresh : draft.Fresh yes)
    (new : first.blocks.size ≤ yes)
    (ran : Lower.conditionalWays cond thenBlock otherwise yes target around draft =
      .ok ((), after)) :
    ∃ run typing, ways conditionMeaning thenMeaning elseMeaning draft.typing =
        (run, typing) ∧
      typing.revived = after.typing.revived ∧ first.Adds after unit ∧
      (∀ {id : BlockId}, draft.Fresh id → id ≠ yes → after.Fresh id) ∧
      Runs unit ⟨first, names, 0⟩ draft after (fun _ => True) run fun _ => StartsAt target := by
  have wf := adds.wellFormed
  unfold Lower.conditionalWays at ran
  cases otherwise with
  | none =>
    obtain ⟨_, tested, branched, ran⟩ := bind_ok.mp ran
    rw [enter_bind] at ran
    obtain ⟨res, onYes, computed, ran⟩ := bind_ok.mp ran
    cases ran
    obtain rfl := rejoins
    obtain ⟨decision, tests, adds', tested_runs⟩ := branches belong wf branched
    have fresh' := fresh.of_adds adds'
    have entered := (adds.trans adds').enter fresh' new
    obtain ⟨run, typed, added, runs⟩ := runs_way computes belong entered.wellFormed computed
    rw [fresh'.typing_enter] at typed
    have whole := (entered.trans added).terminate (.jump target)
    have leads : tested.Leads (onYes.terminate (.jump target)) :=
      ((Draft.Leads.refl _).enter _).trans (added.terminate _).toLeads
    have scopes := whole.scopes.trans (adds.trans adds').scopes.symm
    refine ⟨_, _, ways_eq tests typed rfl, ?_, whole, ?_, ?_⟩
    · rw [(entered.trans added).wellFormed.typing_terminate]
      rfl
    · intro id fresh_id other
      exact (((fresh_id.of_adds adds').enter other).of_adds added).of_adds
        (added.wellFormed.adds.terminate _)
    · refine choose ((tested_runs.behind adds).later leads scopes) ?_ (.pure fun _ => ⟨rfl, rfl⟩)
      exact fromBlock (runs.behind entered) fresh' scopes
  | some elseSide =>
    simp only [newBlock_bind] at ran
    obtain ⟨_, tested, branched, ran⟩ := bind_ok.mp ran
    rw [enter_bind] at ran
    obtain ⟨res, onYes, computed, ran⟩ := bind_ok.mp ran
    rw [Lower.jump, terminate_bind, enter_bind] at ran
    have made := adds.addBlock "if.else"
    obtain ⟨decision, tests, adds', tested_runs⟩ := branches belong made.wellFormed branched
    rw [wf.typing_addBlock] at tests
    have fresh_yes := (fresh.addBlock "if.else").of_adds adds'
    have entered := (made.trans adds').enter fresh_yes new
    obtain ⟨run, typed, added, runs⟩ := runs_way computes belong entered.wellFormed computed
    rw [fresh_yes.typing_enter] at typed
    have ended := (entered.trans added).terminate (.jump target)
    have closed := added.wellFormed.adds.terminate (.jump target)
    have other_no : draft.blocks.size ≠ yes := (Nat.ne_of_lt fresh.lt_size).symm
    have fresh_no := ((((wf.fresh_addBlock "if.else").of_adds adds').enter other_no).of_adds
      added).of_adds closed
    have entered_no := ended.enter fresh_no adds.blocks_le
    obtain ⟨onNo, typing, typed', revived_eq, added', runs'⟩ :=
      rejoins belong entered_no.wellFormed ran
    rw [fresh_no.typing_enter, added.wellFormed.typing_terminate] at typed'
    have whole := entered_no.trans added'
    have leads_yes : (onYes.terminate (.jump target)).Leads after :=
      ((Draft.Leads.refl _).enter _).trans added'.toLeads
    have leads : tested.Leads after :=
      (((Draft.Leads.refl _).enter _).trans (added.terminate _).toLeads).trans leads_yes
    have scopes := whole.scopes.trans (made.trans adds').scopes.symm
    refine ⟨_, typing, ways_eq tests typed typed', revived_eq, whole, ?_, ?_⟩
    · intro id fresh_id other
      have different : id ≠ draft.blocks.size := Nat.ne_of_lt fresh_id.lt_size
      exact (((((fresh_id.addBlock "if.else").of_adds adds').enter other).of_adds added).of_adds
        closed).enter different |>.of_adds added'
    · refine addBlock wf "if.else" (choose ((tested_runs.behind made).later leads scopes) ?_ ?_)
      · exact fromBlock ((runs.behind entered).later leads_yes (whole.scopes.trans ended.scopes.symm)) fresh_yes
          scopes
      · exact fromBlock (runs'.behind entered_no) fresh_no (whole.scopes.trans ended.scopes.symm)

theorem rejoins_conditional :
    Rejoins unit sig names (elseConditional cond thenBlock otherwise)
      (.ways conditionMeaning thenMeaning elseMeaning) := by
  intro target around draft after belong wf ran
  obtain ⟨run, typing, typed, revived_eq, adds, _, runs⟩ := runs_ways branches computes rejoins
    belong (wf.adds.addBlock "if.then") (wf.fresh_addBlock "if.then") le_rfl ran
  rw [wf.typing_addBlock] at typed
  grind [Runs.addBlock]

theorem executes_conditional : Executes unit sig names (Lower.conditional cond thenBlock otherwise)
      (.conditional conditionMeaning thenMeaning elseMeaning) := by
  intro around draft after belong wf ran
  unfold Lower.conditional at ran
  rw [newBlock_bind, newBlock_bind, addBlock_size] at ran
  obtain ⟨_, mid, executed, same⟩ := bind_ok.mp ran
  cases same
  have wf' := (wf.addBlock "if.then").wellFormed
  obtain ⟨run, typing, typed, revived_eq, adds, fresh, runs⟩ := runs_ways branches computes rejoins
    belong ((wf.adds.addBlock "if.then").addBlock "if.end")
    ((wf.fresh_addBlock "if.then").addBlock "if.end") le_rfl executed
  have fresh := fresh (wf.fresh_second "if.then" "if.end") (succ_ne_self _)
  rw [wf'.typing_addBlock, wf.typing_addBlock] at typed
  have entered := adds.enter fresh (le_succ _)
  refine ⟨run, ?_, entered.toEvolves, congrArg (List.drop 1) entered.scopes, ?_⟩
  · unfold StmtMeaning.conditional
    rw [Typed.bind_eq typed, Typed.modify_bind, fresh.typing_enter, revived_eq]
    rfl
  · refine addBlock wf "if.then" (addBlock wf' "if.end" (inStatement ?_))
    refine enter (runs.post ?_) fresh
    exact fun starts => ⟨starts, trivial⟩

end

end Ways

end Backend65816
