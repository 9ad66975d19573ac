import Backend65816.Proofs.LoweringConditions

/-!
# Code of conditional expressions and blocks

The ways through a conditional expression put their values in one register, which the first way that
completes decides, and meet behind the conditional. A block has a scope of its own, and its value is
that of its tail.
-/

namespace Backend65816

open Lower Meeting Nat Typed Runs

variable {thenBlock : BlockCode} {after start : Draft} {run decision yesRun noRun : Eval Int}
  {condition : ExprCode} {pre : GraphState → Prop} {due : List String} {yes no : Meaning}
  {meeting : Meeting} {otherwise : Option ExprCode} {want : Ty} {value : TypedReg}

variable {unit : CompilationUnit} {signature : Signature} {names : List String}
  {around : Surroundings} {draft : Draft}

/-! ## Code that nothing reaches -/

def Draft.strand (draft : Draft) : Draft := { draft with unreached := true }

namespace Draft

variable {rule : RegisterRule} {first : Draft}

theorem WellFormed.strand (wf : draft.WellFormed rule) : draft.Adds draft.strand rule where
  toGrows := .of_same rfl rfl (.refl draft) (fun _ _ => rfl) (.inl rfl)
  wellFormed := wf.of_same wf.current le_rfl id rfl rfl
  scopes := rfl

theorem typing_strand (draft : Draft) : draft.strand.typing = draft.typing.killed := rfl

end Draft

theorem Runs.stranded {extent : Extent} {goal : Int → GraphPoint → Prop}
    (runs : Runs unit extent start after pre run (after.Supplies unit due value))
    (stranded : value.type = .never ∨ after.isDead = true) :
    Runs unit extent start after pre run goal := by
  refine runs.post ?_
  rintro num point ⟨alive, _, provides⟩
  rcases stranded with never | dead
  · exact absurd never provides.completes
  · rw [alive] at dead
    cases dead

/-! ## Meetings -/

/-- New registers for values of a type satisfy a rule. -/
def RegisterRule.Admits (rule : RegisterRule) (unit : CompilationUnit) : Prop :=
  ∀ ⦃name : String⦄ ⦃type : Ty⦄ ⦃width : Width⦄, type.hasValues = true →
    unit.width? type = some width → rule.fits type { name, width, signed := type.isSigned }

theorem Surroundings.Belong.admits (belong : around.Belong unit signature) :
    unit.registers.Admits around.context.unit :=
  fun _ _ _ valued width_eq => ⟨valued, belong.unit ▸ width_eq, rfl⟩

namespace Meeting

variable {rule : RegisterRule} {base : Draft} {later : Meeting}

variable {res : TypedReg}

/-- The register in which ways meet was made after a draft, and is free. -/
def Ready (meeting : Meeting) (rule : RegisterRule) (base draft : Draft) : Prop :=
  ∀ outcome, meeting.outcome = some outcome → outcome = .void ∨
    (draft.Reserved rule outcome ∧ base.vregs.size ≤ outcome.register)

theorem ready_start (block : BlockId) (want : Ty) :
    Ready { block, want } rule base draft := fun _ known => nomatch known

theorem Ready.of_leads (ready : meeting.Ready rule base draft) (leads : draft.Leads after) :
    meeting.Ready rule base after := fun res known =>
  (ready res known).imp_right fun ⟨reserved, new⟩ => ⟨reserved.of_leads leads, new⟩

theorem agree_ok (ran : meeting.agree value around draft = .ok (res, after)) :
    res.type = value.type ∧ (meeting.outcome = some res ∧ draft = after ∨
        meeting.outcome = none ∧ value.type = .void ∧ res = .void ∧ draft = after ∨
        meeting.outcome = none ∧ value.type ≠ .void ∧
          ∃ width, around.context.unit.width? value.type = some width ∧
            res = { register := draft.vregs.size, type := value.type } ∧
            after = draft.addReg { width, signed := value.type.isSigned }) := by
  unfold agree at ran
  cases known : meeting.outcome with
  | none =>
    simp only [known] at ran
    split at ran
    · next void =>
      cases ran
      exact ⟨void.symm, .inr (.inl ⟨rfl, void, rfl, rfl⟩)⟩
    · next valued =>
      obtain ⟨reg, _, made, ran⟩ := bind_ok.mp ran
      obtain ⟨width, _, sized, made⟩ := bind_ok.mp made
      obtain ⟨width_eq, rfl⟩ := widthOf_ok sized
      cases made
      cases ran
      simp_all
  | some common =>
    simp only [known] at ran
    split at ran
    · next same =>
      cases ran
      exact ⟨same.symm, .inl ⟨rfl, rfl⟩⟩
    · exact absurd ran fail_ne

def finishWay (draft : Draft) (target : BlockId) (outcome value : TypedReg) : Draft :=
  (if outcome.register ≠ 0 then draft.emit (.move outcome.register value.register)
    else draft).terminate (.jump target)

theorem add_ok (ran : meeting.add value around draft = .ok (later, after)) :
    (value.type = .never ∨ draft.isDead = true) ∧ later = meeting ∧ draft = after ∨
      value.type ≠ .never ∧ draft.isDead = false ∧ ∃ res mid,
        meeting.agree value around draft = .ok (res, mid) ∧
        later = { meeting with outcome := some res } ∧
        after = finishWay mid meeting.block res value := by
  unfold add at ran
  rw [isDead_bind] at ran
  by_cases stranded : (value.diverges || draft.isDead) = true
  · rw [if_pos stranded] at ran
    cases ran
    simp_all [TypedReg.diverges_iff]
  · rw [if_neg stranded] at ran
    obtain ⟨res, mid, agreed, ran⟩ := bind_ok.mp ran
    rw [Bool.or_eq_true, TypedReg.diverges_iff] at stranded
    unfold finishWay
    split at ran
    · next moved =>
      cases ran
      simp_all
    · next unmoved =>
      cases ran
      simp_all

section

variable (wf : draft.WellFormed rule)
include wf

theorem adds_finishWay (target : BlockId) (res value : TypedReg) :
    draft.Adds (finishWay draft target res value) rule := by
  unfold finishWay
  split
  · exact (wf.adds.emit _).terminate _
  · exact wf.adds.terminate _

theorem typing_finishWay (target : BlockId) (res value : TypedReg) :
    (finishWay draft target res value).typing = draft.typing.killed := by
  unfold finishWay
  split
  · rw [(wf.emit _).wellFormed.typing_terminate, wf.typing_emit]
  · rw [wf.typing_terminate]

variable (admits : rule.Admits around.context.unit)
include admits

variable (new : base.vregs.size ≤ draft.vregs.size)
include new

variable (ready : meeting.Ready rule base draft)
include ready

theorem ready_agree (completes : value.type ≠ .never)
    (agreed : meeting.agree value around draft = .ok (res, after)) :
    draft.Adds after rule ∧ after.typing = draft.typing ∧ res.type = value.type ∧
      (res = .void ∧ draft = after ∨ after.Reserved rule res ∧ base.vregs.size ≤ res.register) := by
  obtain ⟨type_eq, ways⟩ := agree_ok agreed
  rcases ways with ⟨known, rfl⟩ | ⟨_, _, rfl, rfl⟩ | ⟨_, valued, width, width_eq, rfl, rfl⟩
  · exact ⟨wf.adds, rfl, type_eq, (ready res known).imp_left fun void => ⟨void, rfl⟩⟩
  · exact ⟨wf.adds, rfl, type_eq, .inl ⟨rfl, rfl⟩⟩
  · have fits := @admits "" _ _ (Ty.hasValues_iff.mpr ⟨valued, completes⟩) width_eq
    exact ⟨wf.adds.addReg _, rfl, rfl, .inr ⟨.addReg wf fits, new⟩⟩

theorem ready_add (ran : meeting.add value around draft = .ok (later, after)) :
    draft.Adds after rule ∧ later.Ready rule base after ∧ later.block = meeting.block ∧
      later.want = meeting.want := by
  rcases add_ok ran with ⟨_, rfl, rfl⟩ | ⟨completes, _, res, mid, agreed, rfl, rfl⟩
  · exact ⟨wf.adds, ready, rfl, rfl⟩
  · obtain ⟨adds, _, _, common⟩ := ready_agree wf admits new ready completes agreed
    have finished := adds_finishWay adds.wellFormed meeting.block res value
    refine ⟨adds.trans finished, ?_, rfl, rfl⟩
    rintro same ⟨⟩
    exact common.imp (fun void => void.1) fun ⟨reserved, new⟩ =>
      ⟨reserved.of_leads finished.toLeads, new⟩

end

theorem outcome_add (ran : meeting.add value around draft = .ok (later, after))
    (known : meeting.outcome = some res) : later.outcome = some res := by
  rcases add_ok ran with ⟨_, rfl, _⟩ | ⟨_, _, common, mid, agreed, rfl, _⟩
  · exact known
  · rcases (agree_ok agreed).2 with ⟨same, _⟩ | ⟨none, _⟩ | ⟨none, _⟩
    all_goals simp_all

theorem completed_add (wf : draft.WellFormed rule)
    (ran : meeting.add value around draft = .ok (later, after)) :
    ∃ completed, Meaning.completed value.type draft.typing = (completed, after.typing.revived) ∧
      later.outcome.map TypedReg.type = (meeting.outcome.map TypedReg.type).or completed := by
  have completed_eq : Meaning.completed value.type draft.typing =
      (if value.type = .never || draft.isDead then none else some value.type,
        draft.typing.revived) := rfl
  rw [completed_eq]
  rcases add_ok ran with
    ⟨stranded, rfl, rfl⟩ | ⟨completes, alive, res, mid, agreed, rfl, rfl⟩
  · grind
  · rw [if_neg (by simp [completes, alive])]
    obtain ⟨type_eq, ways⟩ := agree_ok agreed
    refine ⟨some value.type, ?_, ?_⟩
    · rcases ways with ⟨_, rfl⟩ | ⟨_, _, _, rfl⟩ | ⟨_, _, _, _, _, rfl⟩
      · rw [typing_finishWay wf]
        rfl
      · rw [typing_finishWay wf]
        rfl
      · rw [typing_finishWay (wf.addReg _).wellFormed]
        rfl
    · grind

end Meeting

theorem runs_add {base : Draft} {later : Meeting} (belong : around.Belong unit signature)
    (wf : draft.WellFormed unit) (new : base.vregs.size ≤ draft.vregs.size)
    (ready : meeting.Ready unit base draft) (runs : Runs unit ⟨base, names, 0⟩ start draft pre run
      (draft.Supplies unit around.pending value))
    (ran : meeting.add value around draft = .ok (later, after)) :
    Runs unit ⟨base, names, 0⟩ start after pre run fun num point =>
      StartsAt meeting.block point ∧ ∃ outcome, later.outcome = some outcome ∧
        after.Provides unit around.pending outcome num point.state := by
  rcases add_ok ran with
    ⟨stranded, rfl, rfl⟩ | ⟨completes, _, outcome, mid, agreed, rfl, rfl⟩
  · exact runs.stranded stranded
  · obtain ⟨adds, _, type_eq, common⟩ :=
      ready_agree wf belong.admits new ready completes agreed
    have finished := adds_finishWay adds.wellFormed meeting.block outcome value
    rw [← Eval.bind_pure run]
    refine runs.bind (fun num => ?_) (adds.trans finished).toLeads
    rcases common with ⟨rfl, rfl⟩ | ⟨reserved, new⟩
    · refine (jump wf num meeting.block).post ?_
      rintro res point ⟨starts, rfl, provides⟩
      obtain rfl : value = .void := provides.typed.elim
        (fun typed => absurd type_eq.symm (Ty.hasValues_iff.mp typed.hasValues).1) id
      exact ⟨starts, _, rfl, provides.of_leads wf finished.toLeads⟩
    · have finish_eq : Meeting.finishWay mid meeting.block outcome value =
          (mid.emit (.move outcome.register value.register)).terminate (.jump meeting.block) := by
        rw [Meeting.finishWay, if_pos reserved.typed.1]
      have arrives : Runs unit ⟨base, names, 0⟩ draft mid
          (draft.Provides unit around.pending value num) (pure num) fun _ =>
          mid.Arrives (draft.Provides unit around.pending value num) := by
        rcases (agree_ok agreed).2 with ⟨_, rfl⟩ | ⟨_, _, _, rfl⟩ | ⟨_, _, _, _, _, rfl⟩
        · exact stay fun _ provides => ⟨num, rfl, provides⟩
        · exact stay fun _ provides => ⟨num, rfl, provides⟩
        · intro graph args fuel env state _ alive agrees provides
          exact ⟨0, _, .refl _, agrees, .refl _ _ _, alive, rfl, provides⟩
      rw [finish_eq] at finished ⊢
      refine arrives.prepare ?_ finished.toLeads
      refine (deliver adds.wellFormed reserved new
        (fun state => state.registers value.register) (fun same => same ▸ rfl) (fun provides => ?_)
        around.pending).post ?_
      · rw [provides.content, type_eq]
        exact provides.holds
      · rintro res point ⟨starts, provides⟩
        exact ⟨starts, outcome, rfl, provides.of_leads (adds.wellFormed.emit _).wellFormed
          ((adds.wellFormed.emit _).wellFormed.terminate _).toLeads⟩

/-! ## Conditional expressions -/

/-- Code of the else side of a conditional expression, which may be absent. -/
def elseValue (otherwise : Option ExprCode) : Ty → Lower TypedReg :=
  (otherwise.map ExprCode.value).getD fun _ => pure .void

theorem Meeting.finish_ok {res : TypedReg} (ran : meeting.finish around draft = .ok (res, after)) :
    meeting.outcome = some res ∧ after = draft.enter meeting.block ∨
      meeting.outcome = none ∧ res = .never ∧ after = (draft.enter meeting.block).strand := by
  unfold finish at ran
  cases known : meeting.outcome with
  | none =>
    rw [known] at ran
    cases ran
    exact .inr ⟨rfl, rfl, rfl⟩
  | some outcome =>
    rw [known] at ran
    cases ran
    exact .inl ⟨rfl, rfl⟩

/-- The draft with the blocks of a conditional expression. -/
def Draft.openWays (draft : Draft) : Draft :=
  ((draft.addBlock "if.then").addBlock "if.else").addBlock "if.end"

/-- Steps of the lowering of a conditional expression. -/
structure ConditionalSteps (condition : ExprCode) (thenBlock : BlockCode)
    (otherwise : Option ExprCode) (want : Ty) (around : Surroundings) (draft : Draft) where
  tested : Draft
  first : TypedReg
  onYes : Draft
  half : Meeting
  endYes : Draft
  second : TypedReg
  onNo : Draft
  whole : Meeting
  endNo : Draft
  branched : condition.branch draft.blocks.size (draft.blocks.size + 1) around draft.openWays =
    .ok ((), tested)
  computed : thenBlock want around (tested.enter draft.blocks.size) = .ok (first, onYes)
  added : Meeting.add { block := draft.blocks.size + 2, want } first around onYes =
    .ok (half, endYes)
  computed' : elseValue otherwise half.hint around (endYes.enter (draft.blocks.size + 1)) =
    .ok (second, onNo)
  added' : half.add second around onNo = .ok (whole, endNo)

section ConditionalSteps

variable {res : TypedReg}

theorem Lower.conditionalValue_ok
    (ran : conditionalValue condition thenBlock otherwise want around draft = .ok (res, after)) :
    ∃ steps : ConditionalSteps condition thenBlock otherwise want around draft,
      steps.whole.finish around steps.endNo = .ok (res, after) := by
  unfold conditionalValue Meeting.start at ran
  rw [newBlock_bind, newBlock_bind, bind_assoc, newBlock_bind, Draft.addBlock_size,
    Draft.addBlock_size, add_assoc, pure_bind] at ran
  obtain ⟨_, tested, branched, ran⟩ := bind_ok.mp ran
  rw [enter_bind] at ran
  obtain ⟨first, onYes, computed, ran⟩ := bind_ok.mp ran
  obtain ⟨half, endYes, added, ran⟩ := bind_ok.mp ran
  rw [enter_bind] at ran
  have rest : (do (← half.add (← elseValue otherwise half.hint)).finish) around
      (endYes.enter (draft.blocks.size + 1)) = .ok (res, after) := by
    cases otherwise <;> exact ran
  obtain ⟨second, onNo, computed', rest⟩ := bind_ok.mp rest
  obtain ⟨whole, endNo, added', finished⟩ := bind_ok.mp rest
  exact ⟨⟨tested, first, onYes, half, endYes, second, onNo, whole, endNo, branched, computed, added,
    computed', added'⟩, finished⟩

variable {rule : RegisterRule}

/-- The drafts of a conditional expression grow out of each other, and every block of it is not
entered before its turn. -/
structure ConditionalSteps.Built
    (steps : ConditionalSteps condition thenBlock otherwise want around draft)
    (rule : RegisterRule) : Prop where
  tested : draft.Adds steps.tested rule
  fresh_yes : steps.tested.Fresh draft.blocks.size
  onYes : (steps.tested.enter draft.blocks.size).Adds steps.onYes rule
  endYes : steps.onYes.Adds steps.endYes rule
  fresh_no : steps.endYes.Fresh (draft.blocks.size + 1)
  onNo : (steps.endYes.enter (draft.blocks.size + 1)).Adds steps.onNo rule
  endNo : steps.onNo.Adds steps.endNo rule
  fresh_end : steps.endNo.Fresh (draft.blocks.size + 2)
  half_ready : steps.half.Ready rule draft steps.onNo
  half_block : steps.half.block = draft.blocks.size + 2
  half_want : steps.half.want = want
  whole_block : steps.whole.block = draft.blocks.size + 2

theorem Draft.WellFormed.openWays (wf : draft.WellFormed rule) : draft.Adds draft.openWays rule :=
  ((wf.adds.addBlock "if.then").addBlock "if.else").addBlock "if.end"

theorem Draft.WellFormed.typing_openWays (wf : draft.WellFormed rule) :
    draft.openWays.typing = draft.typing := by
  have first := (wf.addBlock "if.then").wellFormed
  have second := (first.addBlock "if.else").wellFormed
  rw [Draft.openWays, second.typing_addBlock, first.typing_addBlock, wf.typing_addBlock]

namespace ConditionalSteps

variable (steps : ConditionalSteps condition thenBlock otherwise want around draft)

theorem built (wf : draft.WellFormed rule) (admits : rule.Admits around.context.unit)
    (tested : draft.openWays.Adds steps.tested rule)
    (onYes : (steps.tested.enter draft.blocks.size).WellFormed rule →
      (steps.tested.enter draft.blocks.size).Adds steps.onYes rule)
    (onNo : (steps.endYes.enter (draft.blocks.size + 1)).WellFormed rule →
      (steps.endYes.enter (draft.blocks.size + 1)).Adds steps.onNo rule) : steps.Built rule := by
  have fresh_yes : steps.tested.Fresh draft.blocks.size :=
    (((wf.fresh_addBlock "if.then").addBlock "if.else").addBlock "if.end").of_adds tested
  have fresh_no : steps.tested.Fresh (draft.blocks.size + 1) :=
    ((wf.fresh_second "if.then" "if.else").addBlock "if.end").of_adds tested
  have fresh_end : steps.tested.Fresh (draft.blocks.size + 2) :=
    wf.fresh_third.of_adds tested
  have ne_yes : draft.blocks.size + 2 ≠ draft.blocks.size := by omega
  have ne_no : draft.blocks.size + 2 ≠ draft.blocks.size + 1 := by omega
  have whole := wf.openWays.trans tested
  have onYes := onYes (whole.wellFormed.enter fresh_yes)
  have whole := (whole.enter fresh_yes le_rfl).trans onYes
  obtain ⟨endYes, ready, half_block, half_want⟩ :=
    ready_add whole.wellFormed admits whole.vregs_le (ready_start _ _) steps.added
  have whole := whole.trans endYes
  have fresh_no : steps.endYes.Fresh (draft.blocks.size + 1) :=
    ((fresh_no.enter (succ_ne_self _)).of_adds onYes).of_adds endYes
  have fresh_end := (((fresh_end.enter ne_yes).of_adds onYes).of_adds endYes).enter ne_no
  have onNo := onNo (whole.wellFormed.enter fresh_no)
  have ready := ready.of_leads (((Draft.Leads.refl steps.endYes).enter _).trans onNo.toLeads)
  have whole := (whole.enter fresh_no (le_succ _)).trans onNo
  obtain ⟨endNo, -, whole_block, -⟩ :=
    ready_add whole.wellFormed admits whole.vregs_le ready steps.added'
  exact {
    tested := wf.openWays.trans tested, fresh_yes, onYes, endYes, fresh_no, onNo, endNo,
    fresh_end := (fresh_end.of_adds onNo).of_adds endNo
    half_ready := ready, half_block, half_want
    whole_block := whole_block.trans half_block }

variable {steps}

section

variable (built : steps.Built rule)
include built

theorem Built.adds_onYes : draft.Adds steps.onYes rule :=
  (built.tested.enter built.fresh_yes le_rfl).trans built.onYes

theorem Built.adds_endYes : draft.Adds steps.endYes rule := built.adds_onYes.trans built.endYes

theorem Built.adds_onNo : draft.Adds steps.onNo rule :=
  (built.adds_endYes.enter built.fresh_no (le_succ _)).trans built.onNo

theorem Built.adds_endNo : draft.Adds steps.endNo rule := built.adds_onNo.trans built.endNo

theorem Built.leads_endYes : steps.endYes.Leads steps.endNo :=
  ((Draft.Leads.refl _).enter _).trans (built.onNo.trans built.endNo).toLeads

theorem Built.leads_tested : steps.tested.Leads steps.endNo :=
  (((Draft.Leads.refl _).enter _).trans (built.onYes.trans built.endYes).toLeads).trans
    built.leads_endYes

theorem Built.finish (finished : steps.whole.finish around steps.endNo = .ok (res, after)) :
    draft.Adds after rule ∧ steps.endNo.Leads after ∧ after.scopes = draft.scopes := by
  have adds := built.adds_endNo.enter built.fresh_end (le_add_right _ 2)
  have leads : steps.endNo.Leads (steps.endNo.enter (draft.blocks.size + 2)) :=
    (Draft.Leads.refl _).enter _
  rcases finish_ok finished with ⟨_, rfl⟩ | ⟨_, _, rfl⟩
  · rw [built.whole_block]
    exact ⟨adds, leads, adds.scopes⟩
  · rw [built.whole_block]
    have stranded := adds.wellFormed.strand
    exact ⟨adds.trans stranded, leads.trans stranded.toLeads, adds.scopes⟩

end

end ConditionalSteps

end ConditionalSteps

theorem computes_nothing : Computes unit signature names (fun _ => pure .void) .nothing := by
  intro want around draft after res belong wf ran
  cases ran
  refine ⟨pure 0, rfl, wf.adds, stay fun agrees _ => ⟨0, rfl, ?_⟩⟩
  exact .void wf agrees.zero _

theorem ConditionalSteps.Built.meets
    {steps : ConditionalSteps condition thenBlock otherwise want around draft}
    (built : steps.Built unit) (belong : around.Belong unit signature) (wf : draft.WellFormed unit)
    (tested : Runs unit ⟨draft.openWays, names, 0⟩ draft.openWays steps.tested (fun _ => True)
      decision fun number =>
        StartsAt (if number ≠ 0 then draft.blocks.size else draft.blocks.size + 1))
    (runsYes : Runs unit ⟨steps.tested.enter draft.blocks.size, names, 0⟩
      (steps.tested.enter draft.blocks.size) steps.onYes (fun _ => True) yesRun
      (steps.onYes.Supplies unit around.pending steps.first))
    (runsNo : Runs unit ⟨steps.endYes.enter (draft.blocks.size + 1), names, 0⟩
      (steps.endYes.enter (draft.blocks.size + 1)) steps.onNo (fun _ => True) noRun
      (steps.onNo.Supplies unit around.pending steps.second)) :
    Runs unit ⟨draft, names, 0⟩ draft steps.endNo (fun _ => True)
      (.choose decision yesRun noRun) fun number point =>
        StartsAt (draft.blocks.size + 2) point ∧ ∃ res, steps.whole.outcome = some res ∧
          steps.endNo.Provides unit around.pending res number point.state := by
  have wf₁ := (wf.addBlock "if.then").wellFormed
  have wf₂ := (wf₁.addBlock "if.else").wellFormed
  have adds_yes := built.tested.enter built.fresh_yes le_rfl
  have adds_no := built.adds_endYes.enter built.fresh_no (le_succ _)
  have deliversYes := runs_add belong built.adds_onYes.wellFormed built.adds_onYes.vregs_le
    (ready_start _ _) (runsYes.behind adds_yes)
    steps.added
  have deliversNo := runs_add belong built.adds_onNo.wellFormed built.adds_onNo.vregs_le
    built.half_ready (runsNo.behind adds_no) steps.added'
  have scopes_tested := built.adds_endNo.scopes.trans built.tested.scopes.symm
  have scopes_endYes := built.adds_endNo.scopes.trans built.adds_endYes.scopes.symm
  refine addBlock wf "if.then" (addBlock wf₁ "if.else" (addBlock wf₂ "if.end" ?_))
  refine choose ((tested.part wf.openWays.toLeads wf.openWays.scopes
    (.refl _)).later built.leads_tested scopes_tested) ?_ ?_
  · refine fromBlock ((deliversYes.later built.leads_endYes scopes_endYes).imp
      id ?_) built.fresh_yes scopes_tested
    rintro number point ⟨starts, res, known, provides⟩
    exact ⟨starts, res, outcome_add steps.added' known,
      provides.of_leads built.adds_endYes.wellFormed built.leads_endYes⟩
  · refine fromBlock (deliversNo.post ?_) built.fresh_no scopes_endYes
    rintro number point ⟨starts, holds⟩
    rw [built.half_block] at starts
    exact ⟨starts, holds⟩

theorem computes_conditional {conditionMeaning : Meaning}
    (branches : Branches unit signature names condition.branch conditionMeaning)
    (computesYes : Computes unit signature names thenBlock yes)
    (computesNo : Computes unit signature names (elseValue otherwise) no) :
    Computes unit signature names (Lower.conditionalValue condition thenBlock otherwise)
      (.conditional conditionMeaning yes no) := by
  intro want around draft after res belong wf ran
  obtain ⟨steps, finished⟩ := conditionalValue_ok ran
  obtain ⟨decision, tests, adds, tested⟩ := branches belong wf.openWays.wellFormed steps.branched
  have built : steps.Built unit :=
    steps.built wf belong.admits adds
      (fun wf => (computesYes belong wf steps.computed).choose_spec.2.1)
      (fun wf => (computesNo belong wf steps.computed').choose_spec.2.1)
  obtain ⟨yesRun, typed, _, runsYes⟩ := computesYes belong
    (built.tested.wellFormed.enter built.fresh_yes) steps.computed
  obtain ⟨noRun, typed', _, runsNo⟩ := computesNo belong
    (built.adds_endYes.wellFormed.enter built.fresh_no) steps.computed'
  obtain ⟨first, completed, first_eq⟩ :=
    completed_add built.adds_onYes.wellFormed steps.added
  obtain ⟨second, completed', second_eq⟩ :=
    completed_add built.adds_onNo.wellFormed steps.added'
  have hint_eq : steps.half.hint = first.getD want := by
    rw [Meeting.hint, first_eq, built.half_want]
    rfl
  have types_eq : steps.whole.outcome.map TypedReg.type = first.or second := by
    rw [second_eq, first_eq]
    rfl
  rw [wf.typing_openWays] at tests
  rw [built.fresh_yes.typing_enter] at typed
  rw [built.fresh_no.typing_enter, hint_eq] at typed'
  have meets := built.meets belong wf tested runsYes runsNo
  obtain ⟨adds_after, leads, scopes⟩ := built.finish finished
  refine ⟨.choose decision yesRun noRun, ?_, adds_after, ?_⟩
  · unfold Meaning.conditional
    rw [bind_eq tests, bind_eq typed]
    simp only
    rw [bind_eq completed, bind_eq typed', bind_eq completed', ← types_eq]
    rcases finish_ok finished with ⟨known, rfl⟩ | ⟨known, rfl, rfl⟩
    · rw [known, built.whole_block, built.fresh_end.typing_enter]
      rfl
    · rw [known]
      rfl
  · rcases finish_ok finished with ⟨known, rfl⟩ | ⟨known, rfl, rfl⟩
    · rw [built.whole_block] at leads ⊢
      refine enter (meets.post ?_) built.fresh_end
      rintro number point ⟨starts, outcome, known', provides⟩
      rw [known] at known'
      cases known'
      exact ⟨starts, provides.of_leads built.adds_endNo.wellFormed leads⟩
    · refine (meets.later leads (scopes.trans built.adds_endNo.scopes.symm)).imp id ?_
      simp_all

end Backend65816
